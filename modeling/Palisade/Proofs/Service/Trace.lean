import Palisade.Service.Basic

/-!
# The calls that serve a request

A request is served by calls: of interceptors before the handler, of the handler or of what writes an
error in its place, and of interceptors behind it. The main statement says which calls these are and in
which order, and that the reply is made of what the last of them has left. Interceptors and handlers may
do anything to the request, the response and the world; what they do inside a call is not looked at.
-/
namespace Palisade

/-- A call that is made while a request is served. -/
inductive Act where
  /-- Of an interceptor before the handler, with the settings that it sees. -/
  | before (i : Interceptor) (configs : Configs)
  /-- Of the handler of a route. -/
  | handle (r : Route)
  /-- Where there is no handler, an error is written. -/
  | fail (status : Status)
  /-- Of an interceptor behind the handler, with the settings that it sees. -/
  | commit (i : Interceptor) (configs : Configs)

/-- A request underway. -/
structure Progress where
  /-- The response, as soon as there is one. -/
  response : Option Response
  /-- The context. -/
  context : Context

namespace Progress

/-- A response was written. -/
def written (p : Response × Context) : Progress := ⟨some p.1, p.2⟩

/-- What a call makes of a request. An interceptor that answers is recorded; behind the handler there is
nothing to be done without a response. -/
def perform (p : Progress) : Act → Progress
  | .before i configs =>
    match i.before configs p.context with
    | (.pass, ctx) => { p with context := ctx }
    | (.respond response, ctx) => ⟨some response, ctx.record (Passage.event i response)⟩
  | .handle r => written (r.handler p.context)
  | .fail status => written (.error status, p.context)
  | .commit i configs =>
    match p.response with
    | some response => written (i.commit configs response p.context)
    | none => p

/-- What calls make of a request, one after the other. -/
def replay (p : Progress) (acts : List Act) : Progress := acts.foldl perform p

/-- What the calls of interceptors before the handler make of a request. -/
def enter (p : Progress) (configs : Configs) (is : List Interceptor) : Progress :=
  p.replay (is.map fun i => .before i configs)

variable {p : Progress} {configs : Configs} {i : Interceptor} {is : List Interceptor}

/-- Calls are replayed in two parts. -/
theorem replay_append (p : Progress) (first second : List Act) :
    p.replay (first ++ second) = (p.replay first).replay second := List.foldl_append

/-- Without interceptors nothing is entered. -/
theorem enter_nil (p : Progress) (configs : Configs) : p.enter configs [] = p := rfl

/-- The first interceptor is called first. -/
theorem enter_cons (p : Progress) (configs : Configs) (i : Interceptor) (is : List Interceptor) :
    p.enter configs (i :: is) = (p.perform (.before i configs)).enter configs is := rfl

/-- An interceptor that lets a request pass leaves its context behind. -/
theorem perform_before_of_pass {next : Context} (h : i.before configs p.context = (.pass, next)) :
    p.perform (.before i configs) = { p with context := next } := by
  rw [perform, h]

/-- An interceptor that answers leaves its response and a record of it. -/
theorem perform_before_of_respond {next : Context} {response : Response}
    (h : i.before configs p.context = (.respond response, next)) :
    p.perform (.before i configs) = ⟨some response, next.record (Passage.event i response)⟩ := by
  rw [perform, h]

/-- Finishing a response is calling the interceptors behind the handler. -/
theorem replay_commits (configs : Configs) (response : Response) (ctx : Context)
    (is : List Interceptor) :
    (written (response, ctx)).replay (is.map fun i => .commit i configs) =
      written (Passage.finish configs response ctx is) := by
  induction is generalizing response ctx with
  | nil => rfl
  | cons i rest ih => exact ih _ _

end Progress

/-! ### The interceptors before the handler -/

/-- These interceptors are called before the handler: they are the first ones in order, none before the
last of them answers, and unless the last one does they are all there are. -/
structure Entered (configs : Configs) (start : Progress) (is ran : List Interceptor) : Prop where
  isPrefix : ran <+: is
  silent : ∀ front, front <+: ran → front ≠ ran → (start.enter configs front).response = none
  complete : (start.enter configs ran).response = none → ran = is

namespace Entered

variable {configs : Configs} {start next : Progress} {i : Interceptor}
  {is ran other : List Interceptor}

/-- Of two beginnings that were entered neither is longer. -/
theorem eq_of_prefix (h : Entered configs start is ran) (h' : Entered configs start is other)
    (hp : ran <+: other) : ran = other := by
  apply Classical.byContradiction
  intro hne
  have hall : ran = is := h.complete (h'.silent ran hp hne)
  have hle : other.length ≤ ran.length := hall ▸ h'.isPrefix.length_le
  exact hne (hp.eq_of_length_le hle)

/-- It is settled which interceptors are called before the handler. -/
theorem unique (h : Entered configs start is ran) (h' : Entered configs start is other) :
    other = ran := by
  rcases List.prefix_or_prefix_of_prefix h.isPrefix h'.isPrefix with hp | hp
  · exact (h.eq_of_prefix h' hp).symm
  · exact h'.eq_of_prefix h hp

/-- Nobody is called if there are no interceptors. -/
theorem nil (configs : Configs) (start : Progress) : Entered configs start [] [] where
  isPrefix := List.prefix_refl []
  silent _ hp hne := absurd (List.prefix_nil.1 hp) hne
  complete _ := rfl

/-- An interceptor that passes the request on is called, and then those behind it. -/
theorem cons (hs : start.response = none) (hi : start.perform (.before i configs) = next)
    (h : Entered configs next is ran) : Entered configs start (i :: is) (i :: ran) where
  isPrefix := List.cons_prefix_cons.2 ⟨rfl, h.isPrefix⟩
  silent front hp hne := by
    cases front with
    | nil => exact hs
    | cons j front =>
      obtain ⟨rfl, hf⟩ := List.cons_prefix_cons.1 hp
      rw [Progress.enter_cons, hi]
      exact h.silent front hf fun he => hne (by rw [he])
  complete hn := by
    rw [Progress.enter_cons, hi] at hn
    rw [h.complete hn]

/-- An interceptor that answers is the last one that is called. -/
theorem singleton (hs : start.response = none) {response : Response} {ctx : Context}
    (hi : start.perform (.before i configs) = ⟨some response, ctx⟩) (is : List Interceptor) :
    Entered configs start (i :: is) [i] where
  isPrefix := List.cons_prefix_cons.2 ⟨rfl, List.nil_prefix⟩
  silent front hp hne := by
    cases front with
    | nil => exact hs
    | cons j front =>
      obtain ⟨rfl, hf⟩ := List.cons_prefix_cons.1 hp
      exact absurd (by rw [List.prefix_nil.1 hf]) hne
  complete hn := by
    rw [Progress.enter_cons, hi] at hn
    cases hn

/-- Those who ran, and what they have come to, are the interceptors that are called and what their calls
make of the request. -/
theorem exists_follow (configs : Configs) (is earlier : List Interceptor) {start : Progress}
    (hs : start.response = none) :
    ∃ ran, Entered configs start is ran ∧
      Passage.follow configs earlier start.context is =
        ⟨ran.reverse ++ earlier, (start.enter configs ran).response,
          (start.enter configs ran).context⟩ := by
  induction is generalizing earlier start with
  | nil => exact ⟨[], nil configs start, by rw [Passage.follow, Progress.enter_nil, hs]; rfl⟩
  | cons i rest ih =>
    cases hb : i.before configs start.context with
    | mk flow next =>
      cases flow with
      | pass =>
        have hi := Progress.perform_before_of_pass hb
        obtain ⟨ran, hr, hf⟩ := @ih (i :: earlier) { start with context := next } hs
        refine ⟨i :: ran, hr.cons hs hi, ?_⟩
        rw [Passage.follow, hb, Progress.enter_cons, hi]
        simp only [hf, List.reverse_cons, List.append_assoc, List.singleton_append]
      | respond response =>
        have hi := Progress.perform_before_of_respond hb
        refine ⟨[i], singleton hs hi rest, ?_⟩
        rw [Passage.follow, hb, Progress.enter_cons, hi]
        rfl

end Entered

/-! ### All calls -/

namespace Target

/-- What is called if no interceptor answers. -/
def act : Target → Act
  | route r _ => .handle r
  | methodNotAllowed => .fail .methodNotAllowed
  | notFound => .fail .notFound

/-- The calls for a request: these interceptors, then the target if none of them has answered, and then
the same interceptors in the reverse order. All of them see the settings of the target. -/
def acts (target : Target) (ran : List Interceptor) (answered : Bool) : List Act :=
  (ran.map fun i => .before i target.configs) ++ (if answered then [] else [target.act]) ++
    ran.reverse.map fun i => .commit i target.configs

/-- The call of a target writes its answer. -/
theorem perform_act (target : Target) (p : Progress) :
    p.perform target.act = .written (target.answer p.context) := by
  cases target <;> rfl

/-- A run of interceptors around a target are their calls. -/
theorem exists_replay (target : Target) (is : List Interceptor) (ctx : Context) :
    let start : Progress := ⟨none, ctx⟩
    ∃ ran, Entered target.configs start is ran ∧
      start.replay (target.acts ran (start.enter target.configs ran).response.isSome) =
        .written (target.run is ctx) := by
  intro start
  obtain ⟨ran, hr, hf⟩ := @Entered.exists_follow target.configs is [] start rfl
  have hmiddle : (start.enter target.configs ran).replay
      (if (start.enter target.configs ran).response.isSome then [] else [target.act]) =
        .written ((Passage.follow target.configs [] ctx is).written target) := by
    rw [hf, Passage.written]
    generalize start.enter target.configs ran = entered
    obtain ⟨response, next⟩ := entered
    cases response with
    | some response => rfl
    | none => exact target.perform_act _
  refine ⟨ran, hr, ?_⟩
  rw [acts, Progress.replay_append, Progress.replay_append, ← Progress.enter, hmiddle,
    Progress.replay_commits, run, hf, List.append_nil]

end Target

namespace Service

/-- What becomes of a response: it is rendered and sent, and the request is recorded. -/
def conclude (s : Service) (request : Request) (p : Response × Context) : Reply × World :=
  let (reply, world) := encode s.renderer p.1 p.2 request.isKeepAlive
  (reply, world.record (servedEvent request reply))

/-- How a request is served, whatever its interceptors, handlers and renderer do. Interceptors are called
in order up to the first that answers, all of them if none does; this settles which ones. If none has
answered then the handler of the route is called that the request goes to, or an error is written where
there is no route; and then the same interceptors are called in the reverse order, the first with the
response that was written and each other with the one that the call before it has left. All of them see
the settings of the route, and no settings where there is none. The reply is what becomes of the response
that the last call has left. -/
theorem served_by_acts (s : Service) (request : Request) (world : World) :
    let target := Target.lookup s.routes request
    let start : Progress := ⟨none, .ofRequest request target.captures world⟩
    ∃ ran response ctx, Entered target.configs start s.interceptors ran ∧
      (∀ other, Entered target.configs start s.interceptors other → other = ran) ∧
      start.replay (target.acts ran (start.enter target.configs ran).response.isSome) =
        ⟨some response, ctx⟩ ∧
      s.serve request world = s.conclude request (response, ctx) := by
  intro target start
  obtain ⟨ran, hr, hreplay⟩ := target.exists_replay s.interceptors start.context
  exact ⟨ran, _, _, hr, fun other => hr.unique, hreplay, rfl⟩

end Service

end Palisade
