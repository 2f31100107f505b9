import Palisade.Proofs.Response.Overwrites
import Palisade.Proofs.Security.Grants

/-!
# What a shared response varies by

A response that one origin may read must not be given to another from a cache, so the gate tells caches
that the response varies by the origin. The header that grants is claimed and the header for caches is
not: a handler can set or delete the latter and leave the former alone. The main statement says of every
response what it varies by, and under which condition on the operations of its handler the origin is
still among that. Chains with other interceptors than those of the library are not covered.
-/
namespace Palisade

open Palisade.Text ResponseHeaders

namespace CrossOrigin

/-- The origin is one of the names that are listed with commas between them. -/
def ListsOrigin (value : String) : Prop :=
  ∃ name ∈ pieces ',' value.toList, alike (String.ofList (trimBoth Client.isPadding name)) "Origin" = true

/-- Some value lists the origin. -/
def VariesByOrigin (h : Headers) : Prop := ∃ value ∈ h.getAll varyHeader, ListsOrigin value

/-- Whether a value lists the origin can be computed. -/
instance (value : String) : Decidable (ListsOrigin value) := inferInstanceAs (Decidable (∃ _ ∈ _, _))

variable {c : CrossOrigin} {origin : String} {configs : Configs} {ctx : Context} {request : Request}

/-! ### Up to the handler -/

/-- The response varies by the origin if it is granted to one, and nobody has claimed the header that says
so. -/
structure Keyed (h : ResponseHeaders) : Prop where
  free : h.isClaimed varyHeader = false
  values : h.values varyHeader = if h.headers.fieldsOf originHeader = [] then [] else ["Origin"]

/-- Whether a response is keyed depends on two headers alone. -/
theorem Keyed.of_same {h h' : ResponseHeaders} (hk : Keyed h) (ho : SameAt h h' originHeader)
    (hv : SameAt h h' varyHeader) : Keyed h' where
  free := hv.isClaimed_eq.trans hk.free
  values := by
    rw [ho.fieldsOf_eq, ← hk.values]
    exact congrArg (List.map Field.value) hv.fieldsOf_eq

/-- Adding the header for caches where the other has just been written. -/
theorem Keyed.grant {h granted : ResponseHeaders} (hk : Keyed h) (hs : SameAt h granted varyHeader)
    (hn : h.headers.fieldsOf originHeader = []) (hg : Pinned granted originHeader [origin]) :
    ∃ keyed, HeaderWrite.perform granted (.add varyHeader "Origin") = (keyed, none) ∧ Keyed keyed := by
  have hfree := hs.isClaimed_eq.trans hk.free
  have hvalues : granted.headers.getAll varyHeader = [] := by
    have hempty := hk.values
    rw [if_pos hn] at hempty
    exact (congrArg (List.map Field.value) hs.fieldsOf_eq).trans hempty
  have hadd : granted.add varyHeader "Origin" =
      .ok { granted with headers := granted.headers.insert varyHeader "Origin" } :=
    write_eq_ok_iff.2 ⟨checkName_eq_ok_iff.2 (by decide), hfree, (by decide), rfl⟩
  refine ⟨_, congrArg (HeaderWrite.orKeep granted) hadd, hfree, ?_⟩
  have hother : alike varyHeader originHeader = false := by decide
  rw [Headers.fieldsOf_insert_of_ne _ _ hother, hg.fieldsOf, if_neg (by simp [Headers.fieldsFor]),
    ResponseHeaders.values, Headers.getAll_insert, if_pos (alike_refl varyHeader), hvalues,
    List.nil_append]

/-- Whatever is written behind the two headers, and whether all of it is written or not. -/
theorem Keyed.performAll {h : ResponseHeaders} (hk : Keyed h)
    (hu : h.isClaimed originHeader = false → h.headers.fieldsOf originHeader = [])
    {rest : List HeaderWrite}
    (hd : (HeaderWrite.own originHeader [origin] :: .add varyHeader "Origin" :: rest).Pairwise
      fun w v => alike w.name v.name = false) :
    Keyed (HeaderWrite.performAll h
      (.own originHeader [origin] :: .add varyHeader "Origin" :: rest)).1 := by
  obtain ⟨howner, hd⟩ := List.pairwise_cons.1 hd
  obtain ⟨hadded, -⟩ := List.pairwise_cons.1 hd
  have hvary : ∀ w ∈ rest, alike w.name varyHeader = false := by
    intro w hm
    rw [alike_comm]
    exact hadded w hm
  have horigin : ∀ w ∈ rest, alike w.name originHeader = false := by
    intro w hm
    rw [alike_comm]
    exact howner w (List.mem_cons_of_mem _ hm)
  have hown := HeaderWrite.sameAt_perform h (.own originHeader [origin])
    (.inl (howner _ List.mem_cons_self))
  rw [HeaderWrite.performAll]
  rcases HeaderWrite.perform_own_cases h originHeader [origin] with
    ⟨granted, hp, hf, -, hpinned⟩ | ⟨refused, e, hp, hsame⟩
  · rw [hp] at hown ⊢
    obtain ⟨keyed, hadd, hkeyed⟩ := hk.grant hown (hu hf) hpinned
    simp only [HeaderWrite.performAll, hadd]
    exact hkeyed.of_same (HeaderWrite.sameAt_performAll _ _ fun w hm => .inl (horigin w hm))
      (HeaderWrite.sameAt_performAll _ _ fun w hm => .inl (hvary w hm))
  · rw [hp] at hown ⊢
    refine ⟨hown.isClaimed_eq.trans hk.free, ?_⟩
    have hvalues := hk.values
    rw [ResponseHeaders.values] at hvalues ⊢
    rwa [hsame]

/-- The answer to a foreign origin is keyed, unless the header was there unclaimed. -/
theorem Keyed.foreign (hk : Keyed ctx.headers)
    (hu : ctx.headers.isClaimed originHeader = false →
      ctx.headers.headers.fieldsOf originHeader = []) :
    Keyed (c.foreign origin ctx).2.headers := by
  rcases foreign_refuses_or_writes c origin ctx with ⟨refusal, he⟩ | ⟨-, onward, rest, hd, he⟩
  · rw [he]
    exact hk
  · have hwritten := hk.performAll hu hd
    rw [he]
    cases hp : HeaderWrite.performAll ctx.headers
      (.own originHeader [origin] :: .add varyHeader "Origin" :: rest) with
    | mk written error? =>
      rw [hp] at hwritten
      rw [Context.perform_eq hp]
      cases error? <;> exact hwritten

/-- While interceptors run before the handler, what is granted to an origin varies by it. -/
structure Shared (c : CrossOrigin) (origin : String) (request : Request) (ctx : Context) : Prop where
  underway : Underway c origin request ctx
  keyed : Keyed ctx.headers

/-- A fresh request has been granted nothing. -/
theorem Shared.start (c : CrossOrigin) (origin : String) (request : Request) (captures : Captures)
    (world : World) : Shared c origin request (.ofRequest request captures world) where
  underway := ⟨rfl, ContentSecurity.consistent_ofRequest _ _ _, .inl rfl⟩
  keyed := ⟨rfl, rfl⟩

/-- An interceptor of the library grants nothing, and leaves what varies as it is. -/
theorem Shared.shipped (h : Shared c origin request ctx) {i : Interceptor} (hi : i.Shipped)
    (configs : Configs) : Shared c origin request (i.before configs ctx).2 where
  underway := h.underway.shipped hi configs
  keyed := h.keyed.of_same (hi.sameAt configs h.underway.consistent (by decide))
    (hi.sameAt configs h.underway.consistent (by decide))

/-- The gate itself has what it grants vary. -/
theorem Shared.gate (h : Shared c origin request ctx)
    (ho : request.headers.get? "origin" = some origin) (hf : isSameOrigin origin request.host = false)
    (configs : Configs) : Shared c origin request (c.interceptor.before configs ctx).2 where
  underway := h.underway.gate ho hf configs
  keyed := by
    have hu : ctx.headers.isClaimed originHeader = false →
        ctx.headers.headers.fieldsOf originHeader = [] := by
      intro hn
      rcases h.underway.granted with hu | hg
      · exact hu
      · rw [hg.pinned.isClaimed] at hn
        cases hn
    rw [← h.underway.request_eq] at ho hf
    rw [before_of_foreign c configs ho hf]
    exact h.keyed.foreign hu

end CrossOrigin

namespace Service

open CrossOrigin

variable {s : Service} {front back : List Interceptor} {c : CrossOrigin} {origin : String}
  {request : Request} {world : World}

/-! ### From the handler to the lines -/

/-- The context that a request ends with. -/
def ended (s : Service) (request : Request) (world : World) : Context :=
  ((Target.lookup s.routes request).run s.interceptors
    (.ofRequest request (Target.lookup s.routes request).captures world)).2

/-- The lines of a reply have the values of a header that the encoding does not write, if these keep their
lines. -/
theorem getAll_lines {name : String} (hk : Kept name) (hn : breaksLine name = false)
    {values : List String} (hv : (s.ended request world).headers.values name = values)
    (hl : ∀ value ∈ values, breaksLine value = false) :
    Headers.getAll ⟨(s.serve request world).1.lines⟩ name = values := by
  have hfields : (s.serve request world).1.headers.fieldsOf name =
      (s.ended request world).headers.headers.fieldsOf name := s.fieldsOf_serve request world hk
  have hlines : ∀ f ∈ (s.serve request world).1.headers.fieldsOf name, Reply.isLine f = true := by
    rw [hfields]
    intro f hf
    have hname : breaksLine f.name = false :=
      (breaksLine_eq_of_alike (List.mem_filter.1 hf).2).trans hn
    have hvalue : breaksLine f.value = false := hl _ (hv ▸ List.mem_map_of_mem hf)
    simp [Reply.isLine, hname, hvalue]
  rw [← hv]
  exact congrArg (List.map Field.value) ((Reply.fieldsOf_lines hk hlines).trans hfields)

/-- Where nothing is done behind the handler, a request ends with the response as it is written. -/
theorem ended_eq_written
    (hc : ∀ i ∈ s.interceptors, ∀ configs response ctx, (i.commit configs response ctx).2 = ctx) :
    s.ended request world =
      ((s.passage request world).written (Target.lookup s.routes request)).2 :=
  Target.context_run hc _

/-- Where no handler runs, the interceptors have the last word. -/
theorem ended_of_not_handled
    (hc : ∀ i ∈ s.interceptors, ∀ configs response ctx, (i.commit configs response ctx).2 = ctx)
    (hh : ¬ s.Handled request world) :
    s.ended request world = (s.passage request world).context := by
  rw [ended_eq_written hc, Passage.written]
  cases ha : (s.passage request world).answer with
  | some response => rfl
  | none =>
    cases hl : Target.lookup s.routes request with
    | route r captures => exact absurd ⟨ha, r, captures, hl⟩ hh
    | methodNotAllowed => rfl
    | notFound => rfl

/-- A request that is handled then ends with what the handler left. -/
theorem ended_of_handled
    (hc : ∀ i ∈ s.interceptors, ∀ configs response ctx, (i.commit configs response ctx).2 = ctx)
    (ha : (s.passage request world).answer = none) {r : Route} {captures : Captures}
    (hl : Target.lookup s.routes request = .route r captures) :
    s.ended request world = (r.handler (s.passage request world).context).2 := by
  rw [ended_eq_written hc, Passage.written, ha, hl]
  rfl

/-- It is so when all interceptors have run. -/
theorem shared_passage (hi : s.interceptors = front ++ c.interceptor :: back)
    (hs : ∀ i ∈ front ++ back, i.Shipped)
    (ho : request.headers.get? "origin" = some origin) (hf : isSameOrigin origin request.host = false)
    (world : World) : Shared c origin request (s.passage request world).context := by
  refine Passage.follow_induction (fun i hm ctx hu => ?_)
    (fun _ _ h => ⟨⟨h.underway.request_eq, h.underway.consistent, h.underway.granted⟩, h.keyed⟩) []
    (Shared.start c origin request _ world)
  rcases shipped_or_gate hi hs i hm with h | rfl
  · exact hu.shipped h _
  · exact hu.gate ho hf _

/-- What is granted to one origin varies by it where no handler runs. -/
theorem varies_of_not_handled (hi : s.interceptors = front ++ c.interceptor :: back)
    (hs : ∀ i ∈ front ++ back, i.Shipped)
    (ho : request.headers.get? "origin" = some origin) (hf : isSameOrigin origin request.host = false)
    (hh : ¬ s.Handled request world)
    (hg : Headers.getAll ⟨(s.serve request world).1.lines⟩ originHeader ≠ []) :
    Headers.getAll ⟨(s.serve request world).1.lines⟩ varyHeader = ["Origin"] := by
  have hended := ended_of_not_handled (commit_eq hi hs) hh
  have hkeyed := (shared_passage hi hs ho hf world).keyed
  rw [← hended] at hkeyed
  have hsome : (s.ended request world).headers.headers.fieldsOf originHeader ≠ [] := by
    intro hnone
    have hvalues : (s.ended request world).headers.values originHeader = [] := by
      rw [ResponseHeaders.values, Headers.getAll_eq_map_fieldsOf, hnone, List.map_nil]
    exact hg (getAll_lines (by decide) (by decide) hvalues (List.forall_mem_nil _))
  have hvalues := hkeyed.values
  rw [if_neg hsome] at hvalues
  exact getAll_lines (by decide) (by decide) hvalues (List.forall_mem_singleton.2 (by decide))

/-- What a response varies by where a handler runs is what its operations make of the origin. -/
theorem lines_of_handled (hi : s.interceptors = front ++ c.interceptor :: back)
    (hs : ∀ i ∈ front ++ back, i.Shipped)
    (ho : request.headers.get? "origin" = some origin) (hf : isSameOrigin origin request.host = false)
    (ha : (s.passage request world).answer = none) {r : Route} {captures : Captures}
    (hl : Target.lookup s.routes request = .route r captures) {steps : Context → List HeaderStep}
    (hr : r.handler.Changes steps) :
    Headers.getAll ⟨(s.serve request world).1.lines⟩ originHeader = [origin] ∧
      Headers.getAll ⟨(s.serve request world).1.lines⟩ varyHeader =
        HeaderStep.rewrittenAll varyHeader (steps (s.passage request world).context) ["Origin"] := by
  have hended := congrArg Context.headers (ended_of_handled (commit_eq hi hs) ha hl)
  have hgranted := granted_of_handled hi hs ho hf ha
  have hkeyed := (shared_passage hi hs ho hf world).keyed
  obtain ⟨hchanges, hheaders⟩ := hr (s.passage request world).context
  constructor
  · have hpinned := hgranted.pinned.of_same (hr.operates.respects _ _ hgranted.pinned.isClaimed)
    rw [← hended] at hpinned
    exact getAll_lines (by decide) (by decide) (Headers.getAll_of_fieldsOf hpinned.fieldsOf)
      (List.forall_mem_singleton.2 hgranted.line)
  · have hvalues := hkeyed.values
    rw [hgranted.pinned.fieldsOf, if_neg (by simp [Headers.fieldsFor])] at hvalues
    have hname : checkName varyHeader = .ok () := checkName_eq_ok_iff.2 (by decide)
    have hrun := @HeaderStep.values_runAll_of_free varyHeader
      ⟨(s.passage request world).context.headers, []⟩ hname hkeyed.free _ hchanges
    rw [hvalues, ← hheaders, ← hended] at hrun
    exact getAll_lines (by decide) (by decide) hrun
      (HeaderStep.breaksLine_rewrittenAll (List.forall_mem_singleton.2 (by decide)) _)

/-- Caches tell apart the responses that different origins may read, unless a handler makes them not. A
response that the gate has granted to the origin of its request, and that no handler has written, varies
by the origin. If a handler has written it then it is granted, and it varies by what the operations of the
handler make of the origin: the origin is among that exactly if no operation takes away what the response
varies by, or one of them names the origin again and none of those behind takes that away. -/
theorem varies_by_origin_iff (hi : s.interceptors = front ++ c.interceptor :: back)
    (hs : ∀ i ∈ front ++ back, i.Shipped) {steps : Route → Context → List HeaderStep}
    (hr : ∀ r ∈ s.routes, r.handler.Changes (steps r))
    (ho : request.headers.get? "origin" = some origin) (hf : isSameOrigin origin request.host = false)
    (world : World) :
    let lines : Headers := ⟨(s.serve request world).1.lines⟩
    (¬ s.Handled request world → lines.getAll originHeader ≠ [] → VariesByOrigin lines) ∧
    ∀ r captures, (s.passage request world).answer = none →
      Target.lookup s.routes request = .route r captures →
      let made := steps r (s.passage request world).context
      lines.getAll originHeader = [origin] ∧
        lines.getAll varyHeader = HeaderStep.rewrittenAll varyHeader made ["Origin"] ∧
        (VariesByOrigin lines ↔ (∀ step ∈ made, ¬ step.Drops varyHeader) ∨
          HeaderStep.Restore varyHeader ListsOrigin made) := by
  intro lines
  have horigin : ListsOrigin "Origin" := by decide
  refine ⟨fun hh hg => ?_, fun r captures ha hl => ?_⟩
  · have hvary := varies_of_not_handled hi hs ho hf hh hg
    exact ⟨"Origin", by rw [hvary]; exact List.mem_cons_self, horigin⟩
  · intro made
    obtain ⟨hgranted, hvary⟩ :=
      lines_of_handled hi hs ho hf ha hl (hr r (Target.mem_of_lookup hl))
    refine ⟨hgranted, hvary, ?_⟩
    rw [VariesByOrigin, hvary]
    exact HeaderStep.exists_rewrittenAll_iff_of_mem ⟨"Origin", List.mem_cons_self, horigin⟩

end Service

/-! A handler that says that its response varies by the encoding. -/

namespace Encoded

/-- A gate with one origin. -/
def crossOrigin : CrossOrigin :=
  ⟨["https://app.example.com"], [.get, .head, .post], [CrossOrigin.markHeader], [], false, 5⟩

/-- A handler that replaces the header for caches. -/
def script : HandlerScript where
  steps := [.header (.set "Vary" "Accept-Encoding")]
  answer := .plain

/-- A service with the gate alone. -/
def service : Service where
  renderer := render
  interceptors := [] ++ crossOrigin.interceptor :: []
  routes := [.ofText "/" .get (script.handler fun _ => "") .empty]
  distinct := Route.duplicate?_eq_none_iff.2 (by simp)

/-- The headers of a request from that origin. -/
def headers : Headers := ⟨[⟨"Host", "api.example.com"⟩, ⟨"Origin", "https://app.example.com"⟩,
  ⟨CrossOrigin.markHeader, "1"⟩]⟩

/-- A request from that origin. -/
def request : Request := ⟨.get, "/", none, 1, headers, [], true⟩

/-- A world in which nothing has been drawn or recorded. -/
def world : World := ⟨0, fun _ => 0, 0, []⟩

/-- One origin may read the response, and caches give it to the others. -/
theorem granted_but_not_varied :
    let lines : Headers := ⟨(service.serve request world).1.lines⟩
    lines.getAll CrossOrigin.originHeader = ["https://app.example.com"] ∧
      lines.getAll CrossOrigin.varyHeader = ["Accept-Encoding"] ∧
      ¬ CrossOrigin.VariesByOrigin lines := by
  intro lines
  have hr : ∀ r ∈ service.routes,
      r.handler.Changes fun _ => HandlerScript.headerSteps script.steps := by
    intro r hm
    obtain rfl := List.mem_singleton.1 hm
    exact HandlerScript.changes_handler _ (List.forall_mem_singleton.2 trivial)
  have ho : request.headers.get? "origin" = some "https://app.example.com" := by decide
  have ha : (service.passage request world).answer = none :=
    Option.isNone_iff_eq_none.1 (by decide +kernel)
  obtain ⟨-, hhandled⟩ := Service.varies_by_origin_iff rfl (List.forall_mem_nil _) hr ho (by decide) world
  obtain ⟨hgranted, hvary, -⟩ := hhandled _ _ ha rfl
  have hlines : lines.getAll CrossOrigin.varyHeader = ["Accept-Encoding"] :=
    hvary.trans (by decide)
  refine ⟨hgranted, hlines, ?_⟩
  rintro ⟨value, hm, hlists⟩
  rw [hlines] at hm
  obtain rfl := List.mem_singleton.1 hm
  exact absurd hlists (by decide)

end Encoded

end Palisade
