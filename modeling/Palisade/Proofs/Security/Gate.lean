import Palisade.Proofs.Security.Confinement
import Palisade.Proofs.Security.OwnOrigin

/-!
# Requests of other origins at the gate

A request of another origin is passed on under four conditions: its origin is listed, it does not ask
beforehand, its method is allowed, and it is marked if browsers send it without asking. All others are
answered at the gate, each with the first reason there is, and no handler sees them. The gate may stand
anywhere among other interceptors, and it looks at the request that those in front of it pass on. Gates
whose configured names would break the lines of headers are not covered, and neither are interceptors in
front that claim the headers which the gate writes: there it refuses what it should pass on.
-/
namespace Palisade

open Palisade.Text ResponseHeaders

namespace Request

/-- What stands before a mark is the text as far as the first mark, or all of it. -/
theorem beforeMark_eq_iff {mark : Char} {s front : List Char} :
    beforeMark mark s = front ↔
      mark ∉ front ∧ (s = front ∨ ∃ rest, s = front ++ mark :: rest) := by
  unfold beforeMark
  constructor
  · rintro rfl
    cases hc : cutAt mark s with
    | none => exact ⟨cutAt_eq_none_iff.1 hc, .inl rfl⟩
    | some p =>
      obtain ⟨he, hm⟩ := cutAt_eq_some hc
      exact ⟨hm, .inr ⟨p.2, he⟩⟩
  · rintro ⟨hm, rfl | ⟨rest, rfl⟩⟩
    · rw [cutAt_eq_none_iff.2 hm]
    · rw [cutAt_append hm]

end Request

namespace CrossOrigin

/-! ### What a request asks for -/

/-- The request asks beforehand whether it may use a method. -/
structure Asks (r : Request) (method : String) : Prop where
  options : r.method = .options
  named : r.headers.get? "access-control-request-method" = some method

/-- The request asks for a header, by its name in the first of the lists. -/
def AsksFor (r : Request) (name : String) : Prop :=
  ∃ list, r.headers.get? "access-control-request-headers" = some list ∧
    ∃ item ∈ pieces ',' list.toList, trimBlanks item = name.toList ∧ name ≠ ""

/-- A Content-Type of forms and plain text, in any case of its letters and with any parameters. -/
def SimpleType (contentType : String) : Prop :=
  ∃ front, ';' ∉ front ∧
    (contentType.toList = front ∨ ∃ parameters, contentType.toList = front ++ ';' :: parameters) ∧
    ∃ t ∈ simpleTypes, alike t (String.ofList (trimBlanks front)) = true

/-- Browsers send the request without asking. -/
structure Simple (r : Request) : Prop where
  method : r.method ∈ [.get, .head, .post]
  type : ∀ contentType, r.headers.get? "content-type" = some contentType → SimpleType contentType

/-- The request has the mark that browsers do not set without asking. -/
def Marked (r : Request) : Prop := r.headers.get? markHeader = some "1"

/-- A question is recognised by what it asks. -/
theorem preflight?_eq_some_iff {r : Request} {method : String} :
    preflight? r = some method ↔ Asks r method := by
  unfold preflight?
  constructor
  · intro h
    split at h
    · exact ⟨‹_›, h⟩
    · cases h
  · rintro ⟨hm, hh⟩
    rw [if_pos hm, hh]

/-- The headers that are asked for are those of the first list. -/
theorem mem_requestedHeaders_iff {r : Request} {name : String} :
    name ∈ requestedHeaders r ↔ AsksFor r name := by
  unfold requestedHeaders AsksFor
  cases r.headers.get? "access-control-request-headers" with
  | none => simp
  | some list =>
    simp only [Option.some.injEq, exists_eq_left', List.mem_map, List.mem_filter]
    constructor
    · rintro ⟨s, ⟨⟨item, hi, rfl⟩, hne⟩, rfl⟩
      refine ⟨item, hi, by rw [String.toList_ofList], ?_⟩
      rintro he
      have hnil : trimBlanks item = [] := by simpa using congrArg String.toList he
      simp [hnil] at hne
    · rintro ⟨item, hi, ht, hne⟩
      refine ⟨name.toList, ⟨⟨item, hi, ht⟩, ?_⟩, String.ofList_toList⟩
      simpa using hne

/-- The simple types are found whatever their case and parameters. -/
theorem simpleType_iff {contentType : String} :
    SimpleType contentType ↔
      (simpleTypes.any fun t => alike t (Request.mediaType contentType)) = true := by
  unfold SimpleType Request.mediaType
  rw [List.any_eq_true]
  constructor
  · rintro ⟨front, hm, hc, t, ht, ha⟩
    rw [Request.beforeMark_eq_iff.2 ⟨hm, hc⟩]
    exact ⟨t, ht, ha⟩
  · rintro ⟨t, ht, ha⟩
    obtain ⟨hm, hc⟩ := Request.beforeMark_eq_iff.1 (rfl : Request.beforeMark ';' contentType.toList = _)
    exact ⟨_, hm, hc, t, ht, ha⟩

/-- A request is taken for a simple one exactly if it is simple. -/
theorem isSimple_iff {r : Request} : isSimple r = true ↔ Simple r := by
  have hmethod : (r.method == .get || r.method == .head || r.method == .post) = true ↔
      r.method ∈ [Method.get, .head, .post] := by simp [or_assoc]
  unfold isSimple
  rw [Bool.and_eq_true, hmethod]
  constructor
  · rintro ⟨hm, ht⟩
    refine ⟨hm, fun contentType hc => ?_⟩
    rw [hc] at ht
    exact simpleType_iff.2 ht
  · rintro ⟨hm, ht⟩
    refine ⟨hm, ?_⟩
    cases hc : r.headers.get? "content-type" with
    | none => rfl
    | some contentType => exact simpleType_iff.1 (ht contentType hc)

/-! ### What is passed on, and what is answered -/

/-- The conditions under which a request of another origin is passed on. -/
structure Admitted (c : CrossOrigin) (origin : String) (r : Request) : Prop where
  listed : origin ∈ c.origins
  direct : ∀ method, ¬ Asks r method
  method : r.method ∈ c.methods
  marked : Simple r → Marked r

/-- The method that a request asks for, and all headers that it asks for, are allowed. -/
structure Grants (c : CrossOrigin) (r : Request) (method : String) : Prop where
  method : ∃ m ∈ c.methods, m.name = method
  headers : ∀ name, AsksFor r name → ∃ h ∈ c.headers, alike h name = true

/-- How a request of another origin is answered: each clause holds where those before it do not. -/
inductive Answered (c : CrossOrigin) (origin : String) (r : Request) : Response → Prop where
  | unlisted (h : origin ∉ c.origins) : Answered c origin r (.error .forbidden)
  | granted {method : String} (h : origin ∈ c.origins) (ha : Asks r method) (hg : c.Grants r method) :
      Answered c origin r .noContent
  | denied {method : String} (h : origin ∈ c.origins) (ha : Asks r method) (hg : ¬ c.Grants r method) :
      Answered c origin r (.error .forbidden)
  | otherMethod (h : origin ∈ c.origins) (ha : ∀ method, ¬ Asks r method) (hm : r.method ∉ c.methods) :
      Answered c origin r (.error .methodNotAllowed)
  | unmarked (h : origin ∈ c.origins) (ha : ∀ method, ¬ Asks r method) (hm : r.method ∈ c.methods)
      (hs : Simple r) (hk : ¬ Marked r) : Answered c origin r (.error .preconditionFailed)

variable {c : CrossOrigin} {origin : String} {r : Request} {ctx : Context}

/-- What is answered is not passed on. -/
theorem Answered.not_admitted {response : Response} (h : Answered c origin r response) :
    ¬ c.Admitted origin r := by
  intro ha
  cases h with
  | unlisted h => exact h ha.listed
  | granted _ hasks => exact ha.direct _ hasks
  | denied _ hasks => exact ha.direct _ hasks
  | otherMethod _ _ hm => exact hm ha.method
  | unmarked _ _ _ hs hk => exact hk (ha.marked hs)

/-- A question is not refused exactly if all that it asks for is granted. -/
theorem preflightRefusal?_eq_none_iff {method : String} :
    c.preflightRefusal? origin method (requestedHeaders r) = none ↔ c.Grants r method := by
  have hname : c.allowsName method = true ↔ ∃ m ∈ c.methods, m.name = method := by
    simp [allowsName]
  have hheaders : (requestedHeaders r).find? (fun h => !c.allowsHeader h) = none ↔
      ∀ name, AsksFor r name → ∃ h ∈ c.headers, alike h name = true := by
    simp [List.find?_eq_none, mem_requestedHeaders_iff, allowsHeader]
  unfold preflightRefusal?
  constructor
  · intro h
    split at h
    · cases h
    · rename_i hn
      refine ⟨hname.1 (by simpa using hn), hheaders.1 ?_⟩
      split at h
      · cases h
      · assumption
  · rintro ⟨hm, hh⟩
    rw [if_neg (by simp [hname.2 hm]), hheaders.2 hh]

/-- Questions are refused as forbidden. -/
theorem status_of_preflightRefusal? {method : String} {requested : List String} {refusal : Refusal}
    (h : c.preflightRefusal? origin method requested = some refusal) : refusal.status = .forbidden := by
  unfold preflightRefusal? at h
  split at h
  · cases h
    rfl
  · split at h
    · cases h
      rfl
    · cases h

/-- A request that asks for nothing is refused for its method, or for the mark that it lacks. -/
theorem refusal?_cases :
    (c.refusal? origin r = none ∧ r.method ∈ c.methods ∧ (Simple r → Marked r)) ∨
      ∃ refusal, c.refusal? origin r = some refusal ∧
        ((refusal.status = .methodNotAllowed ∧ r.method ∉ c.methods) ∨
          refusal.status = .preconditionFailed ∧ r.method ∈ c.methods ∧ Simple r ∧ ¬ Marked r) := by
  unfold refusal?
  by_cases hm : r.method ∈ c.methods
  · have hin : (!c.methods.contains r.method) = false := by simp [hm]
    have hcheck : (isSimple r && r.headers.get? markHeader != some "1") = true ↔
        Simple r ∧ ¬ Marked r := by
      simp [isSimple_iff, Marked]
    simp only [hin, Bool.false_eq_true, if_false]
    split
    · rename_i hc
      exact .inr ⟨_, rfl, .inr ⟨rfl, hm, hcheck.1 hc⟩⟩
    · rename_i hc
      refine .inl ⟨rfl, hm, fun hs => ?_⟩
      by_contra hk
      exact hc (hcheck.2 ⟨hs, hk⟩)
  · have hout : (!c.methods.contains r.method) = true := by simp [hm]
    simp only [hout, if_true]
    exact .inr ⟨_, rfl, .inl ⟨rfl, hm⟩⟩

/-! ### The headers -/

/-- What is configured keeps its lines in headers. -/
structure Clean (c : CrossOrigin) : Prop where
  origins : ∀ origin ∈ c.origins, breaksLine origin = false
  methods : ∀ m ∈ c.methods, breaksLine m.name = false
  headers : ∀ name ∈ c.headers, breaksLine name = false
  exposed : ∀ name ∈ c.exposed, breaksLine name = false

/-- Nobody has claimed the headers that tell other origins what they may do. -/
def Unclaimed (h : ResponseHeaders) : Prop := ∀ name ∈ headerNames, h.isClaimed name = false

/-- The headers are written in a fixed order, none of them twice. -/
theorem names_preflightWrites (c : CrossOrigin) (origin : String) (requested : List String) :
    ((c.preflightWrites origin requested).map HeaderWrite.name).Sublist headerNames := by
  unfold preflightWrites allowWrites headerNames
  cases c.credentials <;> cases c.exposed.isEmpty <;> cases requested.isEmpty <;>
    simp [HeaderWrite.name]

/-- No header is written twice in the answer to a question. -/
theorem distinct_preflightWrites (c : CrossOrigin) (origin : String) (requested : List String) :
    (c.preflightWrites origin requested).Pairwise fun w v => alike w.name v.name = false := by
  have hd : headerNames.Pairwise fun a b => alike a b = false := by decide
  exact List.pairwise_map.1 (hd.sublist (names_preflightWrites c origin requested))

/-- The answer to a question says all that is said with other responses. -/
theorem allowWrites_sublist (c : CrossOrigin) (origin : String) (requested : List String) :
    (c.allowWrites origin).Sublist (c.preflightWrites origin requested) := by
  unfold preflightWrites
  rw [List.append_assoc, List.append_assoc]
  exact List.sublist_append_left _ _

/-- What is configured and what was asked for can be written. -/
theorem sound_preflightWrites (hc : c.Clean) (ho : origin ∈ c.origins) {requested : List String}
    (hr : ∀ name ∈ requested, breaksLine name = false) :
    ∀ w ∈ c.preflightWrites origin requested, w.Sound := by
  have hcomma : breaksLine ", " = false := by decide
  have hmethods : breaksLine (String.intercalate ", " (c.methods.map Method.name)) = false :=
    breaksLine_intercalate hcomma (List.forall_mem_map.2 hc.methods)
  have hexposed := breaksLine_intercalate hcomma hc.exposed
  have hrequested := breaksLine_intercalate hcomma hr
  intro w hw
  obtain ⟨hfree, hname⟩ := free_preflightWrites hw
  refine ⟨hfree, ?_, ?_⟩
  · have hall : ∀ name ∈ headerNames, checkName name = .ok () := by
      intro name hn
      have hplain : ∀ name ∈ headerNames, isToken name = true ∧ alike name cookieName = false := by
        decide
      exact checkName_eq_ok_iff.2 (hplain name hn)
    exact hall _ hname
  · unfold preflightWrites allowWrites at hw
    simp only [List.mem_append, List.mem_cons, List.not_mem_nil, or_false, List.mem_ite_nil_right,
      List.mem_ite_nil_left] at hw
    rcases hw with (((((rfl | rfl) | ⟨-, rfl⟩) | ⟨-, rfl⟩) | rfl) | ⟨-, rfl⟩) | rfl
    all_goals simp only [HeaderWrite.values, List.any_cons, List.any_nil, Bool.or_false]
    · exact hc.origins origin ho
    · decide
    · decide
    · exact hexposed
    · exact hmethods
    · exact hrequested
    · exact breaksLine_showNat c.maxAge

/-- The writes of the gate are all performed where nobody has claimed their headers. -/
theorem afterWrites_of_unclaimed {ws : List HeaderWrite} (hw : ∀ w ∈ ws, w.Sound)
    (hd : ws.Pairwise fun w v => alike w.name v.name = false) (hn : ∀ w ∈ ws, w.name ∈ headerNames)
    (hu : Unclaimed ctx.headers) (onward : Flow) :
    ∃ after, Interceptor.afterWrites name onward (ctx.perform ws) = (onward, after) := by
  obtain ⟨written, hp⟩ := HeaderWrite.performAll_sound hw hd fun w hm => hu w.name (hn w hm)
  refine ⟨{ ctx with headers := written }, ?_⟩
  rw [Context.perform_eq hp, Interceptor.afterWrites]

/-! ### The gate -/

/-- What the gate does with a request of another origin. What was asked for is spelled as the request
spells it, but is alike to a configured name. -/
theorem foreign_cases (hc : c.Clean) (hu : Unclaimed ctx.headers) :
    (c.Admitted origin ctx.request ∧ ∃ after, c.foreign origin ctx = (.pass, after)) ∨
      ∃ response after, Answered c origin ctx.request response ∧
        c.foreign origin ctx = (.respond response, after) := by
  by_cases hl : origin ∈ c.origins
  case neg => exact .inr ⟨_, _, .unlisted hl, foreign_of_unlisted c hl ctx⟩
  have hlisted : (!c.origins.contains origin) = false := by simp [hl]
  unfold foreign
  simp only [hlisted, Bool.false_eq_true, if_false]
  cases ha : preflight? ctx.request with
  | some method =>
    have hasks := preflight?_eq_some_iff.1 ha
    cases hr : c.preflightRefusal? origin method (requestedHeaders ctx.request) with
    | some refusal =>
      have hstatus := status_of_preflightRefusal? hr
      have hno : ¬ c.Grants ctx.request method := by
        intro hg
        rw [preflightRefusal?_eq_none_iff.2 hg] at hr
        cases hr
      refine .inr ⟨_, ctx.record refusal.event, .denied hl hasks hno, ?_⟩
      simp only [hr, Refusal.answer, hstatus, Flow.reject]
    | none =>
      have hg := preflightRefusal?_eq_none_iff.1 hr
      have hlines : ∀ name ∈ requestedHeaders ctx.request, breaksLine name = false := by
        intro name hn
        obtain ⟨h, hh, halike⟩ := hg.headers name (mem_requestedHeaders_iff.1 hn)
        rw [← breaksLine_eq_of_alike halike]
        exact hc.headers h hh
      obtain ⟨after, hw⟩ := afterWrites_of_unclaimed (sound_preflightWrites hc hl hlines)
        (distinct_preflightWrites c origin _) (fun w hm => (free_preflightWrites hm).2) hu
        (.respond .noContent)
      exact .inr ⟨_, after, .granted hl hasks hg, by simp only [hr, hw]⟩
  | none =>
    have hnone : ∀ method, ¬ Asks ctx.request method := by
      intro method hasks
      rw [preflight?_eq_some_iff.2 hasks] at ha
      cases ha
    rcases @refusal?_cases c origin ctx.request with
      ⟨hr, hm, hk⟩ | ⟨refusal, hr, ⟨hs, hm⟩ | ⟨hs, hm, hsimple, hk⟩⟩
    · have hsub := allowWrites_sublist c origin []
      have hsound := sound_preflightWrites hc hl (List.forall_mem_nil _)
      obtain ⟨after, hw⟩ := afterWrites_of_unclaimed (fun w hm => hsound w (hsub.subset hm))
        ((distinct_preflightWrites c origin []).sublist hsub) (fun w hm => (free_allowWrites hm).2) hu
        .pass
      exact .inl ⟨⟨hl, hnone, hm, hk⟩, after, by simp only [hr, hw]⟩
    · refine .inr ⟨_, ctx.record refusal.event, .otherMethod hl hnone hm, ?_⟩
      simp only [hr, Refusal.answer, hs, Flow.reject]
    · refine .inr ⟨_, ctx.record refusal.event, .unmarked hl hnone hm hsimple hk, ?_⟩
      simp only [hr, Refusal.answer, hs, Flow.reject]

end CrossOrigin

/-- What interceptors pass on is determined by what they were given. -/
theorem Passed.unique {configs : Configs} {is : List Interceptor} {ctx next other : Context}
    (h : Passed configs is ctx next) (ho : Passed configs is ctx other) : next = other := by
  induction h with
  | nil =>
    cases ho
    rfl
  | cons first _ ih =>
    cases ho with
    | cons first' others =>
      rw [first] at first'
      cases first'
      exact ih others

namespace CrossOrigin

/-- Requests of other origins are passed on at the gate under the four conditions alone, wherever it
stands among the interceptors and whatever the handlers are. The gate takes as another origin what has
not the authority of the Host header. If it is reached, by interceptors in front that have left its
headers unclaimed, then it passes the request on exactly if the four conditions hold, and a handler runs
only then. Otherwise it answers, with the first reason there is, and the service does what it would do
with any other handlers. Interceptors in front that leave the request as it is have passed on the one
that was received, and those of the library leave the headers unclaimed. -/
theorem admits_listed_and_marked (s : Service) {front back : List Interceptor} {c : CrossOrigin}
    (hi : s.interceptors = front ++ c.interceptor :: back) (hc : c.Clean) (request : Request)
    (world : World) :
    let target := Target.lookup s.routes request
    let received := Context.ofRequest request target.captures world
    (∀ next, Passed target.configs front received next → Unclaimed next.headers →
      ∀ origin, next.request.headers.get? "origin" = some origin →
      isSameOrigin origin next.request.host = false →
        ((∃ after, c.interceptor.before target.configs next = (.pass, after)) ↔
          c.Admitted origin next.request) ∧
        (s.Handled request world → c.Admitted origin next.request) ∧
        (¬ c.Admitted origin next.request → ∃ response after,
          Answered c origin next.request response ∧
          c.interceptor.before target.configs next = (.respond response, after) ∧
          (s.passage request world).answer = some response ∧
          ∀ change, (s.withHandlers change).serve request world = s.serve request world)) ∧
    ∀ next, Passed target.configs front received next →
      ((∀ i ∈ front, i.KeepsRequest) → next.request = request) ∧
      ((∀ i ∈ front, i.Shipped) → Unclaimed next.headers) := by
  intro target received
  refine ⟨?_, fun next hp => ⟨hp.request_eq, fun hs name hn => ?_⟩⟩
  · intro next hp hu origin ho hf
    have hbefore := before_of_foreign c target.configs ho hf
    have hpass : (∃ after, c.interceptor.before target.configs next = (.pass, after)) ↔
        c.Admitted origin next.request := by
      rw [hbefore]
      rcases foreign_cases hc hu with ⟨ha, hp⟩ | ⟨response, after, ha, hb⟩
      · exact ⟨fun _ => ha, fun _ => hp⟩
      · constructor
        · rintro ⟨after', hp⟩
          rw [hb] at hp
          cases hp
        · exact fun h => absurd h ha.not_admitted
    refine ⟨hpass, fun hh => ?_, fun hn => ?_⟩
    · have hall := hh.passed
      rw [hi] at hall
      obtain ⟨next', hfront, hrest⟩ := hall.of_append
      obtain rfl := hp.unique hfront
      exact hpass.1 hrest.before_eq
    · rcases foreign_cases hc hu with ⟨ha, -⟩ | ⟨response, after, ha, hb⟩
      · exact absurd ha hn
      · have hanswer := hbefore.trans hb
        obtain ⟨hp', hh⟩ := Service.not_handled_of_respond hi hp hanswer
        exact ⟨response, after, ha, hanswer, hp', Service.serve_withHandlers hh⟩
  · have hunwritten : ∀ name ∈ headerNames, Interceptor.Unwritten name := by decide
    obtain ⟨-, -, hsame⟩ := hp.of_shipped hs (ContentSecurity.consistent_ofRequest _ _ _)
    exact (hsame name (hunwritten name hn)).isClaimed_eq

/-! A form of a listed origin, which browsers send without asking. -/

namespace Unmarked

/-- A gate with one listed origin. -/
def crossOrigin : CrossOrigin :=
  ⟨["https://app.example.com"], [.get, .head, .post], [markHeader], [], true, 5⟩

/-- A service with the gate between interceptors that write headers. -/
def service : Service where
  renderer := render
  interceptors := [FixedHeaders.interceptor] ++ crossOrigin.interceptor :: [OpenerIsolation.standard]
  routes := [.ofText "/api" .post (fun ctx => (.noContent, ctx)) .empty]
  distinct := Route.duplicate?_eq_none_iff.2 (by simp)

/-- The headers of a form that another page of that origin sends. -/
def headers : Headers :=
  ⟨[⟨"Host", "api.example.com"⟩, ⟨"Origin", "https://app.example.com"⟩,
    ⟨"Content-Type", "Text/Plain ; charset=utf-8"⟩]⟩

/-- The form, without the mark. -/
def request : Request := ⟨.post, "/api", none, 1, headers, [], true⟩

/-- A world in which nothing has been drawn or recorded. -/
def world : World := ⟨0, fun _ => 0, 0, []⟩

/-- Its settings keep their lines. -/
theorem clean : crossOrigin.Clean := by
  constructor <;> decide

/-- The form is a simple request. -/
theorem simple : Simple request := isSimple_iff.1 (by decide)

/-- The form is refused for the mark that it lacks. No other clause holds: the origin is listed, the
method is allowed, and nothing is asked. -/
theorem refused_without_mark :
    (service.passage request world).answer = some (.error .preconditionFailed) := by
  obtain ⟨hgate, hfront⟩ := admits_listed_and_marked service rfl clean request world
  have hd : Pin.Distinct FixedHeaders.pins := by
    rw [Pin.Distinct]
    decide
  obtain ⟨h, hs⟩ := @stage_owners (Target.lookup service.routes request).configs
    [(FixedHeaders.interceptor, FixedHeaders.pins)]
    (.ofRequest request (Target.lookup service.routes request).captures world)
    (by simp [FixedHeaders.owns]) FixedHeaders.valid hd (fun _ _ => rfl)
  obtain ⟨next, hp, hr⟩ : ∃ next, Passed (Target.lookup service.routes request).configs
      [FixedHeaders.interceptor]
      (.ofRequest request (Target.lookup service.routes request).captures world) next ∧
        next.request = request := ⟨_, hs.passed, rfl⟩
  have hu := (hfront next hp).2 (List.forall_mem_singleton.2 .fixed)
  have hk : ¬ Marked request := by
    rw [Marked]
    decide
  have hn : ¬ crossOrigin.Admitted "https://app.example.com" request :=
    fun ha => hk (ha.marked simple)
  have hforeign := hgate next hp hu "https://app.example.com"
  rw [hr] at hforeign
  obtain ⟨-, -, hrefused⟩ := hforeign (by decide) (by decide)
  obtain ⟨response, after, ha, -, hanswer, -⟩ := hrefused hn
  cases ha with
  | unlisted h => exact absurd (by decide) h
  | granted _ hasks => exact absurd hasks.options (by decide)
  | denied _ hasks => exact absurd hasks.options (by decide)
  | otherMethod _ _ hm => exact absurd (by decide) hm
  | unmarked => exact hanswer

end Unmarked

end CrossOrigin

end Palisade
