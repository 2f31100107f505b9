import Palisade.Proofs.Service.Passage

/-!
# When the handler of a route runs

The handler of a request runs if the request has a route and every interceptor passes it on. Otherwise
the service behaves as with any other handlers, which is what it means that no handler has run. An
interceptor may put another request in place of the one it was given; those of the library do not, as
is shown where they are described.
-/
namespace Palisade

/-! ### Interceptors that were passed -/

namespace Passed

variable {configs : Configs} {is js : List Interceptor} {ctx next last : Context}

/-- What passes interceptors one after the other passes the first of them, and then the others. -/
theorem of_append (h : Passed configs (is ++ js) ctx last) :
    ∃ next, Passed configs is ctx next ∧ Passed configs js next last := by
  induction is generalizing ctx with
  | nil => exact ⟨ctx, .nil ctx, h⟩
  | cons i rest ih =>
    cases h with
    | cons first others =>
      obtain ⟨next, hf, hs⟩ := ih others
      exact ⟨next, .cons first hf, hs⟩

/-- The first interceptor of a list that was passed has let the request pass. -/
theorem before_eq {i : Interceptor} (h : Passed configs (i :: is) ctx last) :
    ∃ next, i.before configs ctx = (.pass, next) := by
  cases h with
  | cons first others => exact ⟨_, first⟩

end Passed

/-- Before the handler, the interceptor leaves the request as it is. -/
def Interceptor.KeepsRequest (i : Interceptor) : Prop :=
  ∀ configs ctx, (i.before configs ctx).2.request = ctx.request

/-- Interceptors that leave the request as it is pass on the one they were given. -/
theorem Passed.request_eq {configs : Configs} {is : List Interceptor} {ctx next : Context}
    (h : Passed configs is ctx next) (hk : ∀ i ∈ is, i.KeepsRequest) :
    next.request = ctx.request := by
  induction h with
  | nil => rfl
  | @cons i rest ctx next last first _ ih =>
    rw [List.forall_mem_cons] at hk
    have hr := hk.1 configs ctx
    rw [first] at hr
    exact (ih hk.2).trans hr

namespace Passage

/-- If no interceptor answers then all of them pass the request on. -/
theorem passed_of_answer_eq_none {configs : Configs} {is ran : List Interceptor} {ctx : Context}
    (h : (follow configs ran ctx is).answer = none) :
    Passed configs is ctx (follow configs ran ctx is).context := by
  induction is generalizing ran ctx with
  | nil => exact .nil ctx
  | cons i rest ih =>
    cases hb : i.before configs ctx with
    | mk flow next =>
      cases flow with
      | pass =>
        simp only [follow, hb] at h ⊢
        exact .cons hb (ih h)
      | respond response => simp [follow, hb] at h

/-- The interceptor behind those that pass the request on may answer it. -/
theorem answer_of_respond {configs : Configs} {front back : List Interceptor} {i : Interceptor}
    {ctx next after : Context} {response : Response} (hp : Passed configs front ctx next)
    (hb : i.before configs next = (.respond response, after)) (ran : List Interceptor) :
    (follow configs ran ctx (front ++ i :: back)).answer = some response := by
  rw [hp.follow_append, follow, hb]

end Passage

/-! ### Handlers -/

/-- The same route with another handler. -/
def Route.withHandler (change : Route → Handler) (r : Route) : Route :=
  { r with handler := change r }

/-- The same target with another handler. -/
def Target.withHandler (change : Route → Handler) : Target → Target
  | .route r captures => .route (r.withHandler change) captures
  | .methodNotAllowed => .methodNotAllowed
  | .notFound => .notFound

namespace Target

variable (change : Route → Handler)

/-- Another handler does not change what was captured. -/
theorem captures_withHandler (target : Target) :
    (target.withHandler change).captures = target.captures := by
  cases target <;> rfl

/-- Another handler does not change the settings. -/
theorem configs_withHandler (target : Target) :
    (target.withHandler change).configs = target.configs := by
  cases target <;> rfl

/-- With other handlers the same routes are candidates. -/
theorem candidates_withHandler (routes : List Route) (host : Option String) (path : String) :
    candidates (routes.map (Route.withHandler change)) host path =
      (candidates routes host path).map fun p => (p.1.withHandler change, p.2) := by
  unfold candidates
  rw [List.filter_map, List.filterMap_map, List.map_filterMap]
  congr 1
  funext r
  simp only [Function.comp_apply, Option.map_map]
  rfl

/-- With other handlers the same route is chosen. -/
theorem choose_withHandler (found : List (Route × Captures)) (method : Method) :
    choose (found.map fun p => (p.1.withHandler change, p.2)) method =
      (choose found method).withHandler change := by
  unfold choose
  rw [List.find?_map]
  have hm : ((fun p : Route × Captures => p.1.method == method) ∘ fun p : Route × Captures =>
      (p.1.withHandler change, p.2)) = fun p => p.1.method == method := rfl
  rw [hm]
  cases found.find? fun p => p.1.method == method <;> rfl

/-- Where a request goes does not depend on handlers. -/
theorem lookup_withHandler (routes : List Route) (request : Request) :
    lookup (routes.map (Route.withHandler change)) request =
      (lookup routes request).withHandler change := by
  unfold lookup
  simp only [candidates_withHandler, List.isEmpty_map, choose_withHandler]
  split
  · rfl
  · split <;> rfl

end Target

namespace Service

variable (s : Service) (request : Request) (world : World)

/-- The way of a request through the interceptors. -/
def passage : Passage :=
  let target := Target.lookup s.routes request
  Passage.follow target.configs [] (.ofRequest request target.captures world) s.interceptors

/-- The request has a route, and no interceptor answers in the place of its handler. -/
def Handled : Prop :=
  (s.passage request world).answer = none ∧
    ∃ r captures, Target.lookup s.routes request = .route r captures

/-- The same service with other handlers. -/
def withHandlers (change : Route → Handler) : Service where
  renderer := s.renderer
  interceptors := s.interceptors
  routes := s.routes.map (Route.withHandler change)
  distinct := by
    have hk : (s.routes.map (Route.withHandler change)).map Route.key = s.routes.map Route.key := by
      rw [List.map_map]
      rfl
    rw [Route.duplicate?_eq_none_iff, hk]
    exact Route.duplicate?_eq_none_iff.1 s.distinct

/-- A response that a handler has not written does not depend on handlers. -/
theorem written_withHandler {target : Target} {p : Passage}
    (h : ¬ (p.answer = none ∧ ∃ r captures, target = .route r captures))
    (change : Route → Handler) : p.written (target.withHandler change) = p.written target := by
  unfold Passage.written
  cases ha : p.answer with
  | some response => rfl
  | none =>
    cases target with
    | route r captures => exact absurd ⟨ha, r, captures, rfl⟩ h
    | methodNotAllowed => rfl
    | notFound => rfl

variable {s request world}

/-- If the handler of a request does not run then the service does what it would do with any other
handlers. -/
theorem serve_withHandlers (h : ¬ s.Handled request world) (change : Route → Handler) :
    (s.withHandlers change).serve request world = s.serve request world := by
  have hl : Target.lookup (s.withHandlers change).routes request =
      (Target.lookup s.routes request).withHandler change :=
    Target.lookup_withHandler change s.routes request
  have hw := written_withHandler h change
  unfold serve Target.run
  simp only [hl, Target.captures_withHandler, Target.configs_withHandler]
  unfold passage at hw
  simp only at hw
  rw [show (s.withHandlers change).interceptors = s.interceptors from rfl, hw]
  rfl

/-- A service whose handler runs has been through all interceptors. -/
theorem Handled.passed (h : s.Handled request world) :
    Passed (Target.lookup s.routes request).configs s.interceptors
      (.ofRequest request (Target.lookup s.routes request).captures world)
      (s.passage request world).context :=
  Passage.passed_of_answer_eq_none h.1

/-- If an interceptor answers a request then its handler does not run. -/
theorem not_handled_of_respond {front back : List Interceptor} {i : Interceptor}
    {next after : Context} {response : Response} (hi : s.interceptors = front ++ i :: back)
    (hp : Passed (Target.lookup s.routes request).configs front
      (.ofRequest request (Target.lookup s.routes request).captures world) next)
    (hb : i.before (Target.lookup s.routes request).configs next = (.respond response, after)) :
    (s.passage request world).answer = some response ∧ ¬ s.Handled request world := by
  have ha : (s.passage request world).answer = some response := by
    unfold passage
    rw [hi]
    exact Passage.answer_of_respond hp hb []
  refine ⟨ha, ?_⟩
  rintro ⟨hn, -⟩
  rw [ha] at hn
  cases hn

end Service

end Palisade
