import Palisade.Proofs.Service.Handlers

/-!
# Interceptors as layers

The interceptors of a service lie around its target like layers: a request goes through them inwards, and
a response comes back through the same ones outwards. A run is taken apart here one layer at a time, so
that what is to be said of a run can be shown by induction on its interceptors, without the list of those
that ran. What it leaves does not depend on interceptors behind the one that answers.
-/
namespace Palisade

namespace Passage

variable {configs : Configs} {is : List Interceptor} {ctx next : Context}

/-- Those that ran before are only carried along. -/
theorem follow_eq (configs : Configs) (ran : List Interceptor) (ctx : Context)
    (is : List Interceptor) :
    follow configs ran ctx is =
      { follow configs [] ctx is with ran := (follow configs [] ctx is).ran ++ ran } := by
  induction is generalizing ran ctx with
  | nil => rfl
  | cons i rest ih =>
    unfold follow
    cases hb : i.before configs ctx with
    | mk flow next =>
      cases flow with
      | pass =>
        simp only
        rw [ih (i :: ran), ih [i]]
        simp only [List.append_assoc, List.singleton_append]
      | respond response => rfl

/-- Finishing a response by interceptors one after the other. -/
theorem finish_append (configs : Configs) (response : Response) (ctx : Context)
    (is js : List Interceptor) :
    finish configs response ctx (is ++ js) =
      finish configs (finish configs response ctx is).1 (finish configs response ctx is).2 js := by
  induction is generalizing response ctx with
  | nil => rfl
  | cons i rest ih => exact ih _ _

end Passage

namespace Target

variable {target : Target} {i : Interceptor} {is front back rest : List Interceptor}
  {ctx next : Context} {response : Response}

/-! ### One layer -/

/-- Without interceptors a run is the answer of the target. -/
theorem run_nil (target : Target) (ctx : Context) : target.run [] ctx = target.answer ctx := rfl

/-- An interceptor that passes a request on finishes what the run inside of it has left. -/
theorem run_cons_of_pass (h : i.before target.configs ctx = (.pass, next)) :
    target.run (i :: rest) ctx =
      i.commit target.configs (target.run rest next).1 (target.run rest next).2 := by
  have hfollow : Passage.follow target.configs [] ctx (i :: rest) =
      { Passage.follow target.configs [] next rest with
        ran := (Passage.follow target.configs [] next rest).ran ++ [i] } := by
    rw [Passage.follow, h]
    exact Passage.follow_eq target.configs [i] next rest
  unfold run
  rw [hfollow]
  exact Passage.finish_append target.configs _ _ _ [i]

/-- An interceptor that answers a request finishes its own answer. -/
theorem run_cons_of_respond (h : i.before target.configs ctx = (.respond response, next)) :
    target.run (i :: rest) ctx =
      i.commit target.configs response (next.record (Passage.event i response)) := by
  unfold run
  rw [Passage.follow, h]
  rfl

/-! ### Many layers -/

/-- Interceptors that pass a request on finish what the run inside of them has left, the last of them
first. -/
theorem run_append_of_passed (h : Passed target.configs front ctx next) (back : List Interceptor) :
    target.run (front ++ back) ctx =
      Passage.finish target.configs (target.run back next).1 (target.run back next).2
        front.reverse := by
  induction h with
  | nil => rfl
  | @cons i rest ctx mid last first _ ih =>
    rw [List.cons_append, run_cons_of_pass first, ih, List.reverse_cons, Passage.finish_append]
    rfl

/-- If one of the first interceptors answers then the others do not matter. -/
theorem run_append_of_answer (h : (Passage.follow target.configs [] ctx front).answer ≠ none)
    (back : List Interceptor) : target.run (front ++ back) ctx = target.run front ctx := by
  induction front generalizing ctx with
  | nil => exact absurd rfl h
  | cons i rest ih =>
    cases hb : i.before target.configs ctx with
    | mk flow next =>
      cases flow with
      | pass =>
        rw [Passage.follow, hb] at h
        simp only at h
        rw [Passage.follow_eq] at h
        rw [List.cons_append, run_cons_of_pass hb, run_cons_of_pass hb, ih h]
      | respond response =>
        rw [List.cons_append, run_cons_of_respond hb, run_cons_of_respond hb]

/-- Either the first interceptors pass a request on, or the others do not matter. -/
theorem passed_or_run_eq (target : Target) (front : List Interceptor) (ctx : Context) :
    (∃ next, Passed target.configs front ctx next) ∨
      ∀ back, target.run (front ++ back) ctx = target.run front ctx := by
  cases ha : (Passage.follow target.configs [] ctx front).answer with
  | none => exact .inl ⟨_, Passage.passed_of_answer_eq_none ha⟩
  | some response =>
    refine .inr (run_append_of_answer ?_)
    rw [ha]
    exact Option.some_ne_none response

/-- An interceptor that does nothing can be left out. -/
theorem run_idle (hp : Passed target.configs front ctx next)
    (hb : i.before target.configs next = (.pass, next))
    (hc : ∀ response ctx, i.commit target.configs response ctx = (response, ctx))
    (back : List Interceptor) :
    target.run (front ++ i :: back) ctx = target.run (front ++ back) ctx := by
  rw [run_append_of_passed hp, run_append_of_passed hp, run_cons_of_pass hb, hc]

end Target

namespace Service

/-- The same service with other interceptors. -/
def withInterceptors (s : Service) (is : List Interceptor) : Service :=
  { s with interceptors := is }

/-- Services that differ in their interceptors serve a request alike if their runs are the same. -/
theorem serve_congr {s : Service} {request : Request} {world : World} {is js : List Interceptor}
    (h : let target := Target.lookup s.routes request
      let received := Context.ofRequest request target.captures world
      target.run is received = target.run js received) :
    (s.withInterceptors is).serve request world = (s.withInterceptors js).serve request world := by
  simp only at h
  simp only [serve, withInterceptors, h]

end Service

end Palisade
