import Palisade.Proofs.Response.Claims
import Palisade.Service.Basic

/-!
# Headers on their way through a service

The interceptors in front of a request can pass it on and pin headers on the way. Behind them everything
else happens: interceptors that answer early, the target, those that finish the response, and the
encoding. None of it touches a claimed name, so the pinned headers are those that the other side
receives, whatever the response has become.
-/
namespace Palisade

open Palisade.Text ResponseHeaders

/-! ### Interceptors that pass a request on -/

/-- Interceptors that one after the other pass a request on. -/
inductive Passed (configs : Configs) : List Interceptor → Context → Context → Prop where
  | nil (ctx : Context) : Passed configs [] ctx ctx
  | cons {i : Interceptor} {rest : List Interceptor} {ctx next last : Context}
      (first : i.before configs ctx = (.pass, next)) (others : Passed configs rest next last) :
      Passed configs (i :: rest) ctx last

namespace Passed

variable {configs : Configs} {is js : List Interceptor} {ctx next last : Context}

/-- Interceptors that were passed in two parts were passed in one. -/
theorem append (first : Passed configs is ctx next) (second : Passed configs js next last) :
    Passed configs (is ++ js) ctx last := by
  induction first with
  | nil => exact second
  | cons hb _ ih => exact .cons hb (ih second)

/-- One interceptor that lets a request pass was passed. -/
theorem single {i : Interceptor} (h : i.before configs ctx = (.pass, next)) :
    Passed configs [i] ctx next := .cons h (.nil next)

/-- Those behind the interceptors that pass a request on go on where these have led. -/
theorem follow_append (h : Passed configs is ctx next) (ran rest : List Interceptor) :
    Passage.follow configs ran ctx (is ++ rest) =
      Passage.follow configs (is.reverse ++ ran) next rest := by
  induction h generalizing ran with
  | nil => rfl
  | cons hb _ ih =>
    rw [List.cons_append, Passage.follow, hb]
    simp only [ih, List.reverse_cons, List.append_assoc, List.cons_append, List.nil_append]

end Passed

/-! ### Interceptors that write with claims of their own -/

/-- A context performs writes on its headers and on nothing else. -/
theorem Context.perform_eq {ctx : Context} {ws : List HeaderWrite} {h : ResponseHeaders}
    {error? : Option HeaderError} (hw : HeaderWrite.performAll ctx.headers ws = (h, error?)) :
    ctx.perform ws = ({ ctx with headers := h }, error?) := by
  unfold perform
  rw [hw]

/-- What holds after writes holds also when they are over, and the request goes on or is refused. -/
theorem Interceptor.afterWrites_induction {P : Context → Prop} (hr : ∀ ctx e, P ctx → P (ctx.record e))
    {name : String} {onward : Flow} {result : Context × Option HeaderError} (hp : P result.1) :
    P (afterWrites name onward result).2 := by
  obtain ⟨ctx, error?⟩ := result
  cases error? with
  | none => exact hp
  | some e => exact hr ctx _ hp

/-- The interceptor claims these headers, gives them these values and passes the request on. -/
def Interceptor.Owns (i : Interceptor) (configs : Configs) (pins : List Pin) (ctx : Context) : Prop :=
  i.before configs ctx = Interceptor.afterWrites i.name .pass (ctx.perform (Pin.writes pins))

/-- Interceptors with the headers that they own. -/
abbrev Owners := List (Interceptor × List Pin)

/-- The headers of all owners, in order. -/
def Owners.pins (owners : Owners) : List Pin := owners.flatMap (·.2)

/-- Writes that were all performed were performed up to any place among them. -/
theorem HeaderWrite.performAll_append {h h' : ResponseHeaders} {ws vs : List HeaderWrite}
    (hw : performAll h (ws ++ vs) = (h', none)) :
    ∃ mid, performAll h ws = (mid, none) ∧ performAll mid vs = (h', none) := by
  induction ws generalizing h with
  | nil => exact ⟨h, rfl, hw⟩
  | cons w rest ih =>
    rw [List.cons_append, performAll] at hw
    cases hp : perform h w with
    | mk changed error? =>
      cases error? with
      | some e => simp [hp] at hw
      | none =>
        simp only [hp] at hw
        obtain ⟨mid, hm, hv⟩ := ih hw
        refine ⟨mid, ?_, hv⟩
        rw [performAll, hp]
        exact hm

/-- Owners all of whose writes succeed pass the request on. -/
theorem passed_of_performAll {configs : Configs} {owners : Owners} {ctx : Context}
    {h : ResponseHeaders} (ho : ∀ o ∈ owners, ∀ held, o.1.Owns configs o.2 { ctx with headers := held })
    (hw : HeaderWrite.performAll ctx.headers (Pin.writes (Owners.pins owners)) = (h, none)) :
    Passed configs (owners.map (·.1)) ctx { ctx with headers := h } := by
  induction owners generalizing ctx with
  | nil =>
    obtain rfl : ctx.headers = h := congrArg Prod.fst hw
    exact .nil ctx
  | cons o rest ih =>
    rw [List.forall_mem_cons] at ho
    rw [Owners.pins, List.flatMap_cons, Pin.writes, List.map_append] at hw
    obtain ⟨mid, hm, hv⟩ := HeaderWrite.performAll_append hw
    have hb : o.1.before configs ctx = (.pass, { ctx with headers := mid }) := by
      have hown := ho.1 ctx.headers
      unfold Interceptor.Owns at hown
      rw [hown, Pin.writes, Context.perform_eq hm]
      rfl
    exact .cons hb (ih ho.2 hv)

/-- Interceptors that pass a request on, pin these headers and leave all others as they were. -/
structure Stage (configs : Configs) (is : List Interceptor) (pins : List Pin) (ctx next : Context) :
    Prop where
  passed : Passed configs is ctx next
  hold : Pin.Hold pins next.headers
  same : ∀ name, Pin.Other pins name → SameAt ctx.headers next.headers name
  request_eq : next.request = ctx.request

namespace Stage

variable {configs : Configs} {is js : List Interceptor} {pins others : List Pin}
  {ctx next last : Context}

/-- No interceptors give no stage. -/
theorem nil (configs : Configs) (ctx : Context) : Stage configs [] [] ctx ctx where
  passed := .nil ctx
  hold := List.forall_mem_nil _
  same := fun name _ => .refl ctx.headers name
  request_eq := rfl

/-- Stages one after the other, with different headers. -/
theorem append (first : Stage configs is pins ctx next) (second : Stage configs js others next last)
    (hd : ∀ p ∈ pins, Pin.Other others p.name) :
    Stage configs (is ++ js) (pins ++ others) ctx last where
  passed := first.passed.append second.passed
  hold := by
    unfold Pin.Hold
    rw [List.forall_mem_append]
    exact ⟨first.hold.of_same fun p hp => second.same p.name (hd p hp), second.hold⟩
  same := by
    intro name hn
    have hpins : Pin.Other pins name := fun p hp => hn p (List.mem_append_left others hp)
    have hothers : Pin.Other others name := fun p hp => hn p (List.mem_append_right pins hp)
    exact (first.same name hpins).trans (second.same name hothers)
  request_eq := second.request_eq.trans first.request_eq

/-- What nobody had claimed before a stage with other headers is not claimed after it. -/
theorem isClaimed_eq (h : Stage configs is pins ctx next) {name : String}
    (hn : Pin.Other pins name) : next.headers.isClaimed name = ctx.headers.isClaimed name :=
  (h.same name hn).isClaimed_eq

end Stage

/-- Owners of valid headers, none of them twice and none claimed before. They leave the rest of the
context as it was. -/
theorem stage_owners {configs : Configs} {owners : Owners} {ctx : Context}
    (ho : ∀ o ∈ owners, ∀ held, o.1.Owns configs o.2 { ctx with headers := held })
    (hv : ∀ p ∈ owners.pins, p.Valid) (hd : Pin.Distinct owners.pins)
    (hf : ∀ p ∈ owners.pins, ctx.headers.isClaimed p.name = false) :
    ∃ h, Stage configs (owners.map (·.1)) owners.pins ctx { ctx with headers := h } := by
  obtain ⟨h, hw, hold⟩ := HeaderWrite.performAll_writes hv hd hf
  refine ⟨h, passed_of_performAll ho hw, hold, ?_, rfl⟩
  intro name hn
  have hs := HeaderWrite.sameAt_writes ctx.headers hn
  rwa [hw] at hs

/-! ### Everything behind them -/

/-- The context with fresh headers in place of its own, with neither fields nor claims. -/
def Context.clear (ctx : Context) : Context := { ctx with headers := .empty }

namespace Interceptor

/-- Before the handler, the interceptor keeps every claimed name. -/
def RespectsBefore (i : Interceptor) : Prop :=
  ∀ configs ctx, Respects ctx.headers (i.before configs ctx).2.headers

/-- After the handler, the interceptor keeps every claimed name. -/
def RespectsCommit (i : Interceptor) : Prop :=
  ∀ configs response ctx, Respects ctx.headers (i.commit configs response ctx).2.headers

/-- Before the handler, the interceptor keeps those of the names that are claimed. -/
def LeavesBefore (i : Interceptor) (names : List String) : Prop :=
  ∀ configs ctx, RespectsAt names ctx.headers (i.before configs ctx).2.headers

/-- After the handler, the interceptor keeps those of the names that are claimed. -/
def LeavesCommit (i : Interceptor) (names : List String) : Prop :=
  ∀ configs response ctx, RespectsAt names ctx.headers (i.commit configs response ctx).2.headers

/-- An interceptor that passes every request on and leaves every response, but changes the context before
the handler and behind it. -/
def ofChanges (before commit : Context → Context) : Interceptor where
  name := "changes"
  before _ ctx := (.pass, before ctx)
  commit _ response ctx := (response, commit ctx)

/-- Who respects all claims leaves those of any names as they are. -/
theorem RespectsBefore.leaves {i : Interceptor} (h : i.RespectsBefore) (names : List String) :
    i.LeavesBefore names := fun configs ctx => (h configs ctx).at names

/-- Behind the handler as well: who respects all claims leaves those of any names as they are. -/
theorem RespectsCommit.leaves {i : Interceptor} (h : i.RespectsCommit) (names : List String) :
    i.LeavesCommit names := fun configs response ctx => (h configs response ctx).at names

end Interceptor

/-- Operations, which is all the handler does, respect all claims. -/
theorem Handler.Operates.respects {handler : Handler} (ho : handler.Operates) (ctx : Context) :
    Respects ctx.headers (handler ctx).2.headers := by
  obtain ⟨steps, hs⟩ := ho ctx
  rw [hs]
  exact HeaderStep.respects_runAll ctx.headers steps

/-- The handler keeps those of the names that are claimed. -/
def Handler.Leaves (handler : Handler) (names : List String) : Prop :=
  ∀ ctx, RespectsAt names ctx.headers (handler ctx).2.headers

/-- A handler that works on headers with operations keeps every name that is claimed. -/
theorem Handler.Operates.leaves {handler : Handler} (ho : handler.Operates) (names : List String) :
    handler.Leaves names := fun ctx => (Handler.Operates.respects ho ctx).at names

/-- What is said of handlers holds of the handler of the target, if it has one. -/
def Target.Runs (P : Handler → Prop) : Target → Prop
  | .route r _ => P r.handler
  | _ => True

/-- A condition on handlers may be weakened. -/
theorem Target.Runs.mono {P Q : Handler → Prop} {target : Target} (h : target.Runs P)
    (hpq : ∀ handler, P handler → Q handler) : target.Runs Q := by
  cases target with
  | route r captures => exact hpq _ h
  | methodNotAllowed | notFound => trivial

/-- The answer of a target whose handler keeps claimed names keeps them. -/
theorem Target.Runs.respectsAt {names : List String} {target : Target}
    (ho : target.Runs (·.Leaves names)) (ctx : Context) :
    RespectsAt names ctx.headers (target.answer ctx).2.headers := by
  cases target with
  | route r captures => exact ho ctx
  | methodNotAllowed | notFound => exact .refl names _

namespace Passage

variable {configs : Configs} {is : List Interceptor} {P : Context → Prop}

/-- What every interceptor keeps before the handler is kept, whether one of them answers or not. -/
theorem follow_induction (hb : ∀ i ∈ is, ∀ ctx, P ctx → P (i.before configs ctx).2)
    (hr : ∀ ctx e, P ctx → P (ctx.record e)) (ran : List Interceptor) {ctx : Context} (hc : P ctx) :
    P (follow configs ran ctx is).context := by
  induction is generalizing ran ctx with
  | nil => exact hc
  | cons i rest ih =>
    rw [List.forall_mem_cons] at hb
    have hi := hb.1 ctx hc
    unfold follow
    cases he : i.before configs ctx with
    | mk flow next =>
      rw [he] at hi
      cases flow with
      | pass => exact ih hb.2 (i :: ran) hi
      | respond response => exact hr next _ hi

/-- What every interceptor keeps behind the handler is kept. -/
theorem finish_induction (hf : ∀ i ∈ is, ∀ response ctx, P ctx → P (i.commit configs response ctx).2)
    (response : Response) {ctx : Context} (hc : P ctx) : P (finish configs response ctx is).2 := by
  induction is generalizing response ctx with
  | nil => exact hc
  | cons i rest ih =>
    rw [List.forall_mem_cons] at hf
    exact ih hf.2 _ (hf.1 response ctx hc)

/-- Interceptors that run before the handler keep claimed names. -/
theorem respects_follow (hb : ∀ i ∈ is, i.RespectsBefore) (ran : List Interceptor) (ctx : Context) :
    Respects ctx.headers (follow configs ran ctx is).context.headers := by
  refine follow_induction (P := fun next => Respects ctx.headers next.headers) ?_ ?_ ran (.refl _)
  · intro i hi next hn
    exact hn.trans (hb i hi configs next)
  · exact fun _ _ hn => hn

/-- Only interceptors that were to run have run. -/
theorem mem_of_mem_ran {configs : Configs} {is ran : List Interceptor} {ctx : Context}
    {i : Interceptor} (h : i ∈ (follow configs ran ctx is).ran) : i ∈ ran ∨ i ∈ is := by
  induction is generalizing ran ctx with
  | nil => exact .inl h
  | cons j rest ih =>
    unfold follow at h
    cases he : j.before configs ctx with
    | mk flow next =>
      rw [he] at h
      have hm : i ∈ j :: ran ∨ i ∈ rest := by
        cases flow with
        | pass => exact ih h
        | respond response => exact .inl h
      rcases hm with hm | hm
      · rcases List.mem_cons.1 hm with rfl | hm
        · exact .inr List.mem_cons_self
        · exact .inl hm
      · exact .inr (List.mem_cons_of_mem j hm)

/-- Finishing a response keeps the claimed names that every commit keeps. -/
theorem respectsAt_finish {names : List String} (hf : ∀ i ∈ is, i.LeavesCommit names)
    (response : Response) (ctx : Context) :
    RespectsAt names ctx.headers (finish configs response ctx is).2.headers := by
  refine finish_induction (P := fun next => RespectsAt names ctx.headers next.headers) ?_ response
    (.refl names _)
  intro i hi response next hn
  exact hn.trans (hf i hi configs response next)

/-- Writing the response keeps the claimed names that the handler keeps. -/
theorem respectsAt_written {names : List String} {target : Target}
    (ho : target.Runs (·.Leaves names)) (p : Passage) :
    RespectsAt names p.context.headers (p.written target).2.headers := by
  unfold written
  cases p.answer with
  | some response => exact .refl names _
  | none => exact ho.respectsAt p.context

/-- Writing the response respects all claims, whether it comes from the handler or from an interceptor.
-/
theorem respects_written {target : Target} (ho : target.Runs Handler.Operates) (p : Passage) :
    Respects p.context.headers (p.written target).2.headers :=
  respects_of_respectsAt fun name => respectsAt_written (ho.mono fun _ h => h.leaves [name]) p

end Passage

/-- Behind the interceptors before the handler, the claimed names are kept that the handler and all
commits keep. -/
theorem Target.respectsAt_behind {names : List String} {target : Target} {is : List Interceptor}
    (hc : ∀ i ∈ is, i.LeavesCommit names) (ho : target.Runs (·.Leaves names)) (ctx : Context) :
    RespectsAt names (Passage.follow target.configs [] ctx is).context.headers
      (target.run is ctx).2.headers := by
  have hran : ∀ i ∈ (Passage.follow target.configs [] ctx is).ran, i.LeavesCommit names := by
    intro i hm
    rcases Passage.mem_of_mem_ran hm with hm | hm
    · cases hm
    · exact hc i hm
  exact (Passage.respectsAt_written ho _).trans (Passage.respectsAt_finish hran _ _)

/-- Behind the interceptors before the handler no claimed name is touched. -/
theorem Target.respects_behind {target : Target} {is : List Interceptor}
    (hc : ∀ i ∈ is, i.RespectsCommit) (ho : target.Runs Handler.Operates) (ctx : Context) :
    Respects (Passage.follow target.configs [] ctx is).context.headers
      (target.run is ctx).2.headers :=
  respects_of_respectsAt fun name => respectsAt_behind (fun i hi => (hc i hi).leaves [name])
    (ho.mono fun _ h => h.leaves [name]) ctx

/-- What interceptors in front have claimed is kept through the rest of the run. -/
theorem Target.respects_run {target : Target} {front back : List Interceptor} {ctx next : Context}
    (hp : Passed target.configs front ctx next) (hb : ∀ i ∈ back, i.RespectsBefore)
    (hc : ∀ i ∈ front ++ back, i.RespectsCommit) (ho : target.Runs Handler.Operates) :
    Respects next.headers (target.run (front ++ back) ctx).2.headers := by
  have hf : Respects next.headers
      (Passage.follow target.configs [] ctx (front ++ back)).context.headers := by
    rw [hp.follow_append [] back]
    exact Passage.respects_follow hb _ next
  exact hf.trans (Target.respects_behind hc ho ctx)

/-! ### Encoding -/

/-- A route that was found is one of the service. -/
theorem Target.mem_of_lookup {routes : List Route} {request : Request} {r : Route}
    {captures : Captures} (h : lookup routes request = .route r captures) : r ∈ routes := by
  have hcand : ∀ host, ∀ p ∈ candidates routes host request.path, p.1 ∈ routes := by
    intro host p hp
    obtain ⟨q, hq, he⟩ := List.mem_filterMap.1 hp
    obtain ⟨c, -, rfl⟩ := Option.map_eq_some_iff.1 he
    exact (List.mem_filter.1 hq).1
  have hchoose : ∀ host, choose (candidates routes host request.path) request.method =
      .route r captures → r ∈ routes := by
    intro host hr
    unfold choose at hr
    split at hr
    · rename_i r' captures' hf
      simp only [Target.route.injEq] at hr
      obtain ⟨rfl, rfl⟩ := hr
      exact hcand host _ (List.mem_of_find?_eq_some hf)
    · cases hr
  unfold lookup at h
  simp only at h
  split at h
  · exact hchoose _ h
  · split at h
    · exact hchoose _ h
    · cases h

/-- What holds of the handlers of all routes holds of the one that a request is led to. -/
theorem Target.runs_lookup {P : Handler → Prop} {routes : List Route}
    (ho : ∀ r ∈ routes, P r.handler) (request : Request) : (lookup routes request).Runs P := by
  cases hl : lookup routes request with
  | route r captures => exact ho r (mem_of_lookup hl)
  | methodNotAllowed | notFound => trivial

namespace Service

/-- The headers that are written when a response is encoded. -/
def encodedNames : List String :=
  [cookieName, "Content-Type", "Location", "Connection", "Content-Length"]

/-- The name is none of those. -/
def Kept (name : String) : Prop := ∀ encoded ∈ encodedNames, alike encoded name = false

/-- Whether a name is kept can be computed. -/
instance (name : String) : Decidable (Kept name) := inferInstanceAs (Decidable (∀ _ ∈ _, _))

/-- The fields of a kept name are sent as they are. -/
theorem fieldsOf_toHeaders (h : ResponseHeaders) {name : String} (hk : Kept name) :
    h.toHeaders.fieldsOf name = h.headers.fieldsOf name := by
  have hc : alike cookieName name = false := hk _ (by simp [encodedNames])
  unfold toHeaders Headers.fieldsOf
  rw [List.filter_append, Headers.filter_map_field_of_ne Cookie.display h.cookies hc,
    List.append_nil]

/-- The fields of a kept name are left alone by the encoding. -/
theorem fieldsOf_settle (rendering : Rendering) (headers : Headers) {name : String}
    (hk : Kept name) : (settle rendering headers).fieldsOf name = headers.fieldsOf name := by
  have ht : alike "Content-Type" name = false := hk _ (by simp [encodedNames])
  have ht' : alike "content-type" name = false := by
    rwa [alike_congr_left (show alike "content-type" "Content-Type" = true by decide)]
  have hl : alike "Location" name = false := hk _ (by simp [encodedNames])
  unfold settle
  cases rendering.contentType <;> cases rendering.location <;>
    simp only [Headers.fieldsOf_set_of_ne _ _ ht, Headers.fieldsOf_set_of_ne _ _ hl,
      Headers.fieldsOf_remove_of_ne _ ht']

/-- A reply has the fields of the headers that a run has left. -/
theorem fieldsOf_serve (s : Service) (request : Request) (world : World) {name : String}
    (hk : Kept name) :
    (s.serve request world).1.headers.fieldsOf name =
      ((Target.lookup s.routes request).run s.interceptors
        (.ofRequest request (Target.lookup s.routes request).captures world)).2.headers.headers.fieldsOf
          name := by
  rw [← fieldsOf_toHeaders _ hk]
  exact fieldsOf_settle _ _ hk

end Service

namespace Reply

open Headers

/-- The lines of a reply hold the fields of its headers, if these keep their lines. -/
theorem fieldsOf_lines {r : Reply} {name : String} (hk : Service.Kept name)
    (hl : ∀ f ∈ r.headers.fieldsOf name, isLine f = true) :
    Headers.fieldsOf ⟨r.lines⟩ name = r.headers.fieldsOf name := by
  have ht : alike "Content-Type" name = false := hk _ (by simp [Service.encodedNames])
  have hc : alike "Connection" name = false := hk _ (by simp [Service.encodedNames])
  have hn : alike "Content-Length" name = false := hk _ (by simp [Service.encodedNames])
  have hn' : alike "content-length" name = false := by
    rwa [alike_congr_left (show alike "content-length" "Content-Length" = true by decide)]
  have hframed : r.framed.fieldsOf name = r.headers.fieldsOf name := by
    unfold framed
    simp only
    rw [fieldsOf_remove_of_ne _ hn', fieldsOf_set_of_ne _ _ hc]
    split
    · exact fieldsOf_insert_of_ne _ _ ht
    · rfl
  have hcomm : Headers.fieldsOf ⟨r.lines⟩ name = (r.framed.fieldsOf name).filter isLine := by
    unfold lines fieldsOf
    rw [List.filter_filter, List.filter_filter]
    apply List.filter_congr
    intro f _
    rw [Bool.and_comm]
  rw [hcomm, hframed]
  exact List.filter_eq_self.2 hl

end Reply

/-- The fields of a valid pin keep their lines. -/
theorem Pin.Valid.isLine {p : Pin} (hv : p.Valid) :
    ∀ f ∈ Headers.fieldsFor p.name p.values, Reply.isLine f = true := by
  intro f hf
  obtain ⟨value, hm, rfl⟩ := List.mem_map.1 hf
  have hname : breaksLine p.name = false :=
    breaksLine_of_isToken (checkName_eq_ok_iff.1 hv.name).1
  have hvalue : breaksLine value = false := by
    have hall := List.any_eq_false.1 hv.values value hm
    simpa using hall
  simp [Reply.isLine, hname, hvalue]

end Palisade
