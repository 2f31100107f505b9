import Palisade.Proofs.Security.Gate

/-!
# Which origin may read a response

One header tells browsers which origin may read a response. A request of another origin gets a response
in which this header is missing or names the origin itself, and then the origin is listed. The header is
claimed before the handler runs, so no handler can open the response to others; and where a response does
not come from a handler, nobody but the gate has written the header. Chains with other interceptors than
those of the library are not covered.
-/
namespace Palisade

open Palisade.Text ResponseHeaders

namespace CrossOrigin

/-! ### What a gate is made of -/

/-- A gate as it is built: origins that are checked first, and what is allowed besides. -/
inductive Built : CrossOrigin → Prop where
  | start {origins : List String} {c : CrossOrigin} (h : ofOrigins origins = .ok c) : Built c
  | method {c : CrossOrigin} (h : Built c) (m : Method) : Built (c.allowMethod m)
  | header {c : CrossOrigin} (h : Built c) (name : String) : Built (c.allowHeader name)
  | expose {c : CrossOrigin} (h : Built c) (name : String) : Built (c.exposeHeader name)
  | credentials {c : CrossOrigin} (h : Built c) (credentials : Bool) : Built { c with credentials }
  | maxAge {c : CrossOrigin} (h : Built c) (maxAge : Nat) : Built { c with maxAge }

/-- Origins pass the check if each has the form of one, and none is a star. -/
theorem checkOrigins_eq_ok_iff {origins : List String} :
    checkOrigins origins = .ok () ↔ ∀ origin ∈ origins, origin ≠ "*" ∧ isOrigin origin = true := by
  induction origins with
  | nil => simp [checkOrigins]
  | cons origin rest ih =>
    rw [checkOrigins, List.forall_mem_cons, ← ih]
    by_cases hs : origin = "*"
    · simp [hs]
    · cases isOrigin origin <;> simp [hs]

/-- What is listed is an origin and no wildcard. -/
theorem Built.origins {c : CrossOrigin} (h : c.Built) :
    ∀ origin ∈ c.origins, origin ≠ "*" ∧ isOrigin origin = true := by
  induction h with
  | @start origins c h =>
    unfold ofOrigins at h
    cases hc : checkOrigins origins with
    | error e => simp [hc] at h
    | ok =>
      simp only [hc, Except.ok.injEq] at h
      subst h
      exact checkOrigins_eq_ok_iff.1 hc
  | method _ m ih =>
    unfold allowMethod
    split <;> exact ih
  | header _ _ ih | expose _ _ ih | credentials _ _ ih | maxAge _ _ ih => exact ih

/-! ### One interceptor -/

variable {c : CrossOrigin} {origin : String} {configs : Configs} {ctx : Context}

/-- The header names the origin, which is listed, and is claimed. -/
structure Granted (c : CrossOrigin) (origin : String) (h : ResponseHeaders) : Prop where
  listed : origin ∈ c.origins
  line : breaksLine origin = false
  pinned : Pinned h originHeader [origin]

/-- The header is missing. -/
def Ungranted (h : ResponseHeaders) : Prop := h.headers.fieldsOf originHeader = []

/-- Whether something is granted depends on one header alone. -/
theorem Granted.of_same {h h' : ResponseHeaders} (hg : Granted c origin h)
    (hs : SameAt h h' originHeader) : Granted c origin h' :=
  ⟨hg.listed, hg.line, hg.pinned.of_same hs⟩

/-- Going on after the writes of the gate: the header names the origin, or the request is refused and the
header is as it was. -/
theorem afterWrites_grants (hl : origin ∈ c.origins) {ws : List HeaderWrite}
    (hw : ∃ rest, ws = .own originHeader [origin] :: rest)
    (hd : ws.Pairwise fun w v => alike w.name v.name = false) {onward flow : Flow} {next : Context}
    (hb : Interceptor.afterWrites name onward (ctx.perform ws) = (flow, next)) :
    Granted c origin next.headers ∨ (∃ response, flow = .respond response) ∧
      next.headers.headers.fieldsOf originHeader = ctx.headers.headers.fieldsOf originHeader := by
  obtain ⟨rest, rfl⟩ := hw
  have hother : ∀ w ∈ rest, alike w.name originHeader = false := by
    intro w hm
    rw [alike_comm]
    exact (List.pairwise_cons.1 hd).1 w hm
  have hcases := HeaderWrite.performAll_own ctx.headers [origin] hother
  cases hp : HeaderWrite.performAll ctx.headers (.own originHeader [origin] :: rest) with
  | mk written error? =>
    rw [hp] at hcases
    rw [Context.perform_eq hp] at hb
    have hheaders : next.headers = written := by
      cases error? <;> (obtain ⟨-, rfl⟩ := Prod.mk.inj hb; rfl)
    rw [hheaders]
    rcases hcases with ⟨hline, hpinned⟩ | ⟨hrefused, hsame⟩
    · exact .inl ⟨hl, by simpa using hline, hpinned⟩
    · cases error? with
      | none => exact absurd rfl hrefused
      | some e => exact .inr ⟨⟨_, (Prod.mk.inj hb).1.symm⟩, hsame⟩

/-- The header that tells caches which headers of a request a response varies by. -/
def varyHeader : String := "Vary"

/-- A request of another origin is refused, or the two headers are written that grant to a listed origin
and tell caches of it, and behind them others. -/
theorem foreign_refuses_or_writes (c : CrossOrigin) (origin : String) (ctx : Context) :
    (∃ refusal : Refusal, c.foreign origin ctx = refusal.answer ctx) ∨
      origin ∈ c.origins ∧ ∃ onward rest,
        (HeaderWrite.own originHeader [origin] :: .add varyHeader "Origin" :: rest).Pairwise
          (fun w v => alike w.name v.name = false) ∧
        c.foreign origin ctx = Interceptor.afterWrites name onward
          (ctx.perform (.own originHeader [origin] :: .add varyHeader "Origin" :: rest)) := by
  by_cases hl : origin ∈ c.origins
  case neg => exact .inl ⟨_, foreign_of_unlisted c hl ctx⟩
  have hlisted : (!c.origins.contains origin) = false := by simp [hl]
  unfold foreign
  simp only [hlisted, Bool.false_eq_true, if_false]
  split
  · split
    · exact .inl ⟨_, rfl⟩
    · exact .inr ⟨hl, _, _, distinct_preflightWrites c origin _, rfl⟩
  · split
    · exact .inl ⟨_, rfl⟩
    · have hd := (distinct_preflightWrites c origin []).sublist (allowWrites_sublist c origin [])
      exact .inr ⟨hl, _, _, hd, rfl⟩

/-- What the gate does to the header of a request of another origin. -/
theorem foreign_grants {flow : Flow} {next : Context} (hb : c.foreign origin ctx = (flow, next)) :
    Granted c origin next.headers ∨ (∃ response, flow = .respond response) ∧
      next.headers.headers.fieldsOf originHeader = ctx.headers.headers.fieldsOf originHeader := by
  rcases foreign_refuses_or_writes c origin ctx with ⟨refusal, he⟩ | ⟨hl, onward, rest, hd, he⟩
  · rw [he] at hb
    obtain ⟨rfl, rfl⟩ := Prod.mk.inj hb
    exact .inr ⟨⟨_, rfl⟩, rfl⟩
  · rw [he] at hb
    exact afterWrites_grants hl ⟨_, rfl⟩ hd hb

/-! ### The chain -/

/-- While interceptors run before the handler, the header is missing or names the origin. -/
structure Underway (c : CrossOrigin) (origin : String) (request : Request) (ctx : Context) : Prop where
  request_eq : ctx.request = request
  consistent : ContentSecurity.Consistent ctx
  granted : Ungranted ctx.headers ∨ Granted c origin ctx.headers

variable {request : Request}

/-- A fresh request has been granted nothing. -/
theorem Underway.start (c : CrossOrigin) (origin : String) (request : Request) (captures : Captures)
    (world : World) : Underway c origin request (.ofRequest request captures world) :=
  ⟨rfl, ContentSecurity.consistent_ofRequest _ _ _, .inl rfl⟩

/-- An interceptor of the library changes nothing that is granted. -/
theorem Underway.shipped (h : Underway c origin request ctx) {i : Interceptor} (hi : i.Shipped)
    (configs : Configs) : Underway c origin request (i.before configs ctx).2 where
  request_eq := (hi.keepsRequest configs ctx).trans h.request_eq
  consistent := hi.consistent configs h.consistent
  granted := by
    have hs := hi.sameAt configs h.consistent (show Interceptor.Unwritten originHeader by decide)
    exact h.granted.imp hs.fieldsOf_eq.trans fun hg => hg.of_same hs

/-- The gate grants what its list allows. -/
theorem Underway.gate (h : Underway c origin request ctx)
    (ho : request.headers.get? "origin" = some origin) (hf : isSameOrigin origin request.host = false)
    (configs : Configs) : Underway c origin request (c.interceptor.before configs ctx).2 where
  request_eq := (c.stepwise.keepsRequest configs ctx).trans h.request_eq
  consistent := h.consistent.considerate c.stepwise.considerate
  granted := by
    rw [← h.request_eq] at ho hf
    rcases h.granted with hu | hg
    · have hforeign := before_of_foreign c configs ho hf
      rcases foreign_grants hforeign.symm with hg | ⟨-, hsame⟩
      · exact .inr hg
      · exact .inl (hsame.trans hu)
    · exact .inr (hg.of_same (c.stepwise.respectsBefore configs ctx _ hg.pinned.isClaimed))

/-- What passes the gate may be read by its origin. -/
theorem Underway.granted_of_pass (h : Underway c origin request ctx)
    (ho : request.headers.get? "origin" = some origin) (hf : isSameOrigin origin request.host = false)
    {next : Context} (hb : c.interceptor.before configs ctx = (.pass, next)) :
    Granted c origin next.headers := by
  rw [← h.request_eq] at ho hf
  rw [before_of_foreign c configs ho hf] at hb
  rcases foreign_grants hb with hg | ⟨⟨response, hr⟩, -⟩
  · exact hg
  · cases hr

/-- What interceptors of the library pass on is underway as before. -/
theorem Underway.passed (h : Underway c origin request ctx) {is : List Interceptor} {next : Context}
    (hp : Passed configs is ctx next) (hs : ∀ i ∈ is, i.Shipped) : Underway c origin request next := by
  obtain ⟨hr, hc, hsame⟩ := hp.of_shipped hs h.consistent
  have ho := hsame originHeader (by decide)
  exact ⟨hr.trans h.request_eq, hc, h.granted.imp ho.fieldsOf_eq.trans fun hg => hg.of_same ho⟩

/-- What passes a chain with the gate may be read by its origin. -/
theorem Underway.granted_of_passed (h : Underway c origin request ctx)
    (ho : request.headers.get? "origin" = some origin) (hf : isSameOrigin origin request.host = false)
    {front back : List Interceptor} {last : Context}
    (hp : Passed configs (front ++ c.interceptor :: back) ctx last)
    (hs : ∀ i ∈ front ++ back, i.Shipped) : Granted c origin last.headers := by
  rw [List.forall_mem_append] at hs
  obtain ⟨mid, hfront, hrest⟩ := hp.of_append
  have hmid := h.passed hfront hs.1
  cases hrest with
  | @cons _ _ _ next _ hb hback =>
    have hgranted := hmid.granted_of_pass ho hf hb
    have hnext := hmid.gate ho hf configs
    rw [hb] at hnext
    obtain ⟨-, -, hsame⟩ := hback.of_shipped hs.2 hnext.consistent
    exact hgranted.of_same (hsame originHeader (by decide))

end CrossOrigin

/-- If the interceptors leave the context as it is behind the handler, then a run ends with the context
that has come of writing the response. -/
theorem Target.context_run {target : Target} {is : List Interceptor}
    (hf : ∀ i ∈ is, ∀ configs response ctx, (i.commit configs response ctx).2 = ctx) (ctx : Context) :
    (target.run is ctx).2 = ((Passage.follow target.configs [] ctx is).written target).2 := by
  refine Passage.finish_induction
    (P := fun next => next = ((Passage.follow target.configs [] ctx is).written target).2) ?_ _ rfl
  intro i hi response next hn
  have hm := (Passage.mem_of_mem_ran hi).resolve_left List.not_mem_nil
  exact (hf i hm _ response next).trans hn

namespace Service

open CrossOrigin

variable {s : Service} {front back : List Interceptor} {c : CrossOrigin} {origin : String}
  {request : Request}

/-- Every interceptor is one of the library or the gate. -/
theorem shipped_or_gate (hi : s.interceptors = front ++ c.interceptor :: back)
    (hs : ∀ i ∈ front ++ back, i.Shipped) : ∀ i ∈ s.interceptors, i.Shipped ∨ i = c.interceptor := by
  rw [List.forall_mem_append] at hs
  rw [hi, List.forall_mem_append, List.forall_mem_cons]
  exact ⟨fun i hm => .inl (hs.1 i hm), .inr rfl, fun i hm => .inl (hs.2 i hm)⟩

/-- Behind the handler the interceptors leave the context as it is. -/
theorem commit_eq (hi : s.interceptors = front ++ c.interceptor :: back)
    (hs : ∀ i ∈ front ++ back, i.Shipped) :
    ∀ i ∈ s.interceptors, ∀ configs response ctx, (i.commit configs response ctx).2 = ctx := by
  intro i hm
  rcases shipped_or_gate hi hs i hm with h | rfl
  · exact h.commit_eq
  · exact c.stepwise.commit

/-- What the interceptors have passed on may be read by its origin. -/
theorem granted_of_handled (hi : s.interceptors = front ++ c.interceptor :: back)
    (hs : ∀ i ∈ front ++ back, i.Shipped)
    (ho : request.headers.get? "origin" = some origin) (hf : isSameOrigin origin request.host = false)
    {world : World} (ha : (s.passage request world).answer = none) :
    Granted c origin (s.passage request world).context.headers := by
  have hpassed : Passed (Target.lookup s.routes request).configs (front ++ c.interceptor :: back)
      (.ofRequest request (Target.lookup s.routes request).captures world)
      (s.passage request world).context := by
    rw [← hi]
    exact Passage.passed_of_answer_eq_none ha
  exact (Underway.start c origin request _ world).granted_of_passed ho hf hpassed hs

/-- Behind the handler, and behind whatever answers in its place, the header is missing or names the
origin. -/
theorem granted_run (hi : s.interceptors = front ++ c.interceptor :: back)
    (hs : ∀ i ∈ front ++ back, i.Shipped) (hr : ∀ r ∈ s.routes, r.handler.Operates)
    (ho : request.headers.get? "origin" = some origin) (hf : isSameOrigin origin request.host = false)
    (world : World) :
    let target := Target.lookup s.routes request
    let headers := (target.run s.interceptors (.ofRequest request target.captures world)).2.headers
    Ungranted headers ∨ Granted c origin headers := by
  intro target headers
  have hcommit := commit_eq hi hs
  have hrun : headers = ((s.passage request world).written target).2.headers :=
    congrArg Context.headers (Target.context_run hcommit _)
  rw [hrun]
  cases ha : (s.passage request world).answer with
  | some response =>
    have hwritten : ((s.passage request world).written target).2 = (s.passage request world).context := by
      rw [Passage.written, ha]
    have hstep : ∀ i ∈ s.interceptors, ∀ ctx, Underway c origin request ctx →
        Underway c origin request (i.before target.configs ctx).2 := by
      intro i hm ctx hu
      rcases shipped_or_gate hi hs i hm with h | rfl
      · exact hu.shipped h _
      · exact hu.gate ho hf _
    have hlast : Underway c origin request (s.passage request world).context :=
      Passage.follow_induction hstep (fun _ _ h => ⟨h.request_eq, h.consistent, h.granted⟩) []
        (Underway.start c origin request _ world)
    rw [hwritten]
    exact hlast.granted
  | none =>
    have hgranted := granted_of_handled hi hs ho hf ha
    have hrespects := Passage.respects_written (Target.runs_lookup hr request)
      (s.passage request world)
    exact .inr (hgranted.of_same (hrespects _ hgranted.pinned.isClaimed))

/-- A response to a request of another origin cannot be read by anybody, or by this origin alone, and
then it is listed. The header that says so is missing from the reply and from its lines, or it is there
once with the origin, which is no wildcard. This holds for every gate among interceptors of the library,
whatever handlers do to headers, whoever answers the request, and whether the response can be rendered
or not. -/
theorem readable_by_listed_origin (hi : s.interceptors = front ++ c.interceptor :: back) (hc : c.Built)
    (hs : ∀ i ∈ front ++ back, i.Shipped) (hr : ∀ r ∈ s.routes, r.handler.Operates)
    (ho : request.headers.get? "origin" = some origin) (hf : isSameOrigin origin request.host = false)
    (world : World) :
    let reply := (s.serve request world).1
    (reply.headers.getAll originHeader = [] ∧ Headers.getAll ⟨reply.lines⟩ originHeader = []) ∨
      origin ∈ c.origins ∧ origin ≠ "*" ∧ reply.headers.getAll originHeader = [origin] ∧
        Headers.getAll ⟨reply.lines⟩ originHeader = [origin] := by
  intro reply
  have hkept : Kept originHeader := by decide
  have hfields := s.fieldsOf_serve request world hkept
  rcases granted_run hi hs hr ho hf world with hu | hg
  · have hnone : reply.headers.fieldsOf originHeader = Headers.fieldsFor originHeader [] :=
      hfields.trans hu
    have hlines := Reply.fieldsOf_lines (r := reply) hkept (by rw [hnone]; exact List.forall_mem_nil _)
    exact .inl ⟨Headers.getAll_of_fieldsOf hnone, Headers.getAll_of_fieldsOf (hlines.trans hnone)⟩
  · have hone : reply.headers.fieldsOf originHeader = Headers.fieldsFor originHeader [origin] :=
      hfields.trans hg.pinned.fieldsOf
    have hname : checkName originHeader = .ok () := checkName_eq_ok_iff.2 (by decide)
    have hvalid : Pin.Valid ⟨originHeader, [origin]⟩ := ⟨hname, by simpa using hg.line⟩
    have hlines := Reply.fieldsOf_lines (r := reply) hkept (by rw [hone]; exact hvalid.isLine)
    exact .inr ⟨hg.listed, (hc.origins origin hg.listed).1, Headers.getAll_of_fieldsOf hone,
      Headers.getAll_of_fieldsOf (hlines.trans hone)⟩

end Service

/-! A handler that tries to let everybody read its response. -/

namespace Opening

/-- A gate with one origin. -/
def crossOrigin : CrossOrigin :=
  ⟨["https://app.example.com"], [.get, .head, .post], [CrossOrigin.markHeader], [], true, 5⟩

/-- A handler that tries to open its response for every origin. -/
def script : HandlerScript where
  steps := [.header (.set CrossOrigin.originHeader "*"), .header (.del CrossOrigin.originHeader),
    .header (.claim CrossOrigin.originHeader), .header (.setClaimed CrossOrigin.originHeader ["*"])]
  answer := .plain

/-- A service with the gate between interceptors of the library. -/
def service : Service where
  renderer := render
  interceptors := [FixedHeaders.interceptor, ContentSecurity.interceptor [StrictPolicy.policy {}]] ++
    crossOrigin.interceptor :: [Framing.interceptor]
  routes := [.ofText "/" .get (script.handler fun _ => "") .empty]
  distinct := Route.duplicate?_eq_none_iff.2 (by simp)

/-- The headers of a request from that origin. -/
def headers : Headers := ⟨[⟨"Host", "api.example.com"⟩, ⟨"Origin", "https://app.example.com"⟩,
  ⟨CrossOrigin.markHeader, "1"⟩]⟩

/-- A request from that origin. -/
def request : Request := ⟨.get, "/", none, 1, headers, [], true⟩

/-- The gate is built from its origins. -/
theorem built : crossOrigin.Built := by
  have h : CrossOrigin.ofOrigins ["https://app.example.com"] =
      .ok { crossOrigin with credentials := false } := by decide
  exact .credentials (.start h) true

/-- The handler does not get its way. -/
theorem not_readable_by_all :
    Headers.getAll ⟨(service.serve request ⟨0, fun _ => 0, 0, []⟩).1.lines⟩
      CrossOrigin.originHeader ≠ ["*"] := by
  have hs : ∀ i ∈ [FixedHeaders.interceptor, ContentSecurity.interceptor [StrictPolicy.policy {}]] ++
      [Framing.interceptor], i.Shipped := by
    rw [List.forall_mem_append, List.forall_mem_cons, List.forall_mem_singleton,
      List.forall_mem_singleton]
    exact ⟨⟨.fixed, .policies _⟩, .framing⟩
  have hr : ∀ r ∈ service.routes, r.handler.Operates := by
    intro r hm
    obtain rfl := List.mem_singleton.1 hm
    exact HandlerScript.operates_handler _ script
  have ho : request.headers.get? "origin" = some "https://app.example.com" := by decide
  rcases Service.readable_by_listed_origin rfl built hs hr ho (by decide) ⟨0, fun _ => 0, 0, []⟩ with
    ⟨-, hlines⟩ | ⟨-, -, -, hlines⟩
  · rw [hlines]
    decide
  · rw [hlines]
    decide

end Opening

end Palisade
