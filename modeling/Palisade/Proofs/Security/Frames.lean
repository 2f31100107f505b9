import Palisade.Proofs.Security.Chains
import Palisade.Proofs.Security.Readable
import Palisade.Proofs.Text.Pieces

/-!
# Protection against framing

Two interceptors protect a page against framing, one by a content policy and one by the older header,
and each looks at settings of its own. The main statement says on which routes a reply is protected by
one of the two, whatever else is in the chain and whatever handlers do, as long as they do not take the
two headers away: all but those that allow framing, and those that list origins for the content policy
and have no content policies. Requests on which one of the two interceptors cannot write its header are
not covered; they are refused.
-/
namespace Palisade

open Palisade.Text ResponseHeaders

/-! ### Interceptors of content policies, whether they can write or not -/

namespace ContentSecurity

variable {configs : Configs} {ctx next : Context} {policies : List ContentPolicy} {text : String}

/-- The right to write the two headers, of which the one of enforced policies is claimed. -/
structure Entitled (h : ResponseHeaders) (state : PolicyState) : Prop where
  enforce : state.enforce = ⟨enforcedHeader⟩
  report : state.report = ⟨reportedHeader⟩
  enforced : h.isClaimed enforcedHeader = true

/-- What is kept for content policies comes with the right to write their headers. -/
def Consistent (ctx : Context) : Prop :=
  ∀ state, ctx.extensions.get? .policies = some state → Entitled ctx.headers state

/-- An interceptor of content policies has started, with what was kept or afresh. -/
structure Opened (ctx started : Context) (state : PolicyState) : Prop where
  entitled : Entitled started.headers state
  same : ∀ name, Other name → SameAt ctx.headers started.headers name
  resumed : ∀ kept, ctx.extensions.get? .policies = some kept → started = ctx ∧ state = kept

/-- An interceptor of content policies starts, or it cannot claim a header. -/
theorem start_cases (hc : Consistent ctx) :
    (∃ started e, start ctx = (started, .error e) ∧ started.extensions = ctx.extensions ∧
      ctx.extensions.get? .policies = none ∧
      ∀ name, Other name → SameAt ctx.headers started.headers name) ∨
    ∃ started state, start ctx = (started, .ok state) ∧ Opened ctx started state := by
  cases hk : ctx.extensions.get? .policies with
  | some state =>
    refine .inr ⟨ctx, state, by simp only [start, hk], hc state hk, fun name _ => .refl _ name, ?_⟩
    intro kept hkept
    rw [hk, Option.some.injEq] at hkept
    exact ⟨rfl, hkept⟩
  | none =>
    cases he : ctx.headers.claim enforcedHeader with
    | error e =>
      have hs : start ctx =
          ({ ctx with world := (ctx.world.draw nonceBytes).2 }, .error e) := by
        simp only [start, hk, he]
      exact .inl ⟨_, e, hs, rfl, rfl, fun name _ => .refl _ name⟩
    | ok p =>
      obtain ⟨enforce, claimed⟩ := p
      have hsame : ∀ name, Other name → SameAt ctx.headers claimed name :=
        fun name hn => sameAt_claim he (.inl hn.1)
      cases hr : claimed.claim reportedHeader with
      | error e =>
        have hs : start ctx = ({ ctx with
            world := (ctx.world.draw nonceBytes).2, headers := claimed }, .error e) := by
          simp only [start, hk, he, hr]
        exact .inl ⟨_, e, hs, rfl, rfl, hsame⟩
      | ok q =>
        obtain ⟨report, both⟩ := q
        have hs : start ctx = ({ ctx with
            world := (ctx.world.draw nonceBytes).2, headers := both },
            .ok ⟨nonceOf (ctx.world.draw nonceBytes).1, enforce, report, [], []⟩) := by
          simp only [start, hk, he, hr]
        refine .inr ⟨_, _, hs, ?_, ?_, ?_⟩
        · obtain ⟨-, -, rfl, rfl⟩ := claim_eq_ok_iff.1 he
          obtain ⟨-, -, rfl, rfl⟩ := claim_eq_ok_iff.1 hr
          refine ⟨rfl, rfl, ?_⟩
          rw [isClaimed_cons, isClaimed_cons, alike_refl, Bool.true_or, Bool.or_true]
        · exact fun name hn => (hsame name hn).trans (sameAt_claim hr (.inl hn.2))
        · intro kept hkept
          rw [hk] at hkept
          cases hkept

/-- Writing both headers with their claims, whether it succeeds or not. -/
theorem perform_fills_cases {state : PolicyState} (he : Entitled ctx.headers state) :
    ∃ h error?, ctx.perform [.fill state.enforce state.enforced, .fill state.report state.reported] =
        ({ ctx with headers := h }, error?) ∧ Entitled h state ∧
      (∀ name, Other name → SameAt ctx.headers h name) ∧
      ((error? ≠ none ∧ SameAt ctx.headers h enforcedHeader) ∨
        (state.enforced.any breaksLine = false ∧ Pinned h enforcedHeader state.enforced)) := by
  obtain ⟨henforce, hreport, henforced⟩ := he
  have hne : alike reportedHeader enforcedHeader = false := by decide
  have hperform : ∀ h error?, HeaderWrite.performAll ctx.headers
      [.fill state.enforce state.enforced, .fill state.report state.reported] = (h, error?) →
      ctx.perform [.fill state.enforce state.enforced, .fill state.report state.reported] =
        ({ ctx with headers := h }, error?) := fun h error? => Context.perform_eq
  rw [henforce, hreport] at hperform ⊢
  cases hs : ctx.headers.setClaimed ⟨enforcedHeader⟩ state.enforced with
  | error e =>
    refine ⟨ctx.headers, some e, hperform _ _ ?_, ⟨henforce, hreport, henforced⟩,
      fun name _ => .refl _ name, .inl ⟨by simp, .refl _ _⟩⟩
    simp only [HeaderWrite.performAll, HeaderWrite.perform, hs, HeaderWrite.orKeep]
  | ok h₁ =>
    obtain ⟨hlines, hclaims⟩ := setClaimed_eq_ok_iff.1 hs
    have hclaimed : h₁.isClaimed enforcedHeader = true := by
      rw [hclaims]
      exact henforced
    have hpinned : Pinned h₁ enforcedHeader state.enforced :=
      ⟨hclaimed, fieldsOf_setClaimed hs (alike_refl _)⟩
    cases hs' : h₁.setClaimed ⟨reportedHeader⟩ state.reported with
    | error e =>
      refine ⟨h₁, some e, hperform _ _ ?_, ⟨henforce, hreport, hpinned.isClaimed⟩,
        fun name hn => sameAt_setClaimed hs hn.1, .inr ⟨hlines, hpinned⟩⟩
      simp only [HeaderWrite.performAll, HeaderWrite.perform, hs, hs', HeaderWrite.orKeep]
    | ok h₂ =>
      have hpinned' := hpinned.of_same (sameAt_setClaimed hs' hne)
      refine ⟨h₂, none, hperform _ _ ?_, ⟨henforce, hreport, hpinned'.isClaimed⟩,
        fun name hn => (sameAt_setClaimed hs hn.1).trans (sameAt_setClaimed hs' hn.2),
        .inr ⟨hlines, hpinned'⟩⟩
      simp only [HeaderWrite.performAll, HeaderWrite.perform, hs, hs', HeaderWrite.orKeep]

/-- What an interceptor of content policies leaves that has started. If it passes the request on then
the header of enforced policies says all of them; if not, the header may be as it was. -/
structure Applied (policies : List ContentPolicy) (configs : Configs) (ctx : Context) (flow : Flow)
    (next : Context) (state : PolicyState) : Prop where
  kept : next.extensions.get? .policies = some (extend policies configs state)
  entitled : Entitled next.headers (extend policies configs state)
  resumed : ∀ kept, ctx.extensions.get? .policies = some kept → state = kept
  written : ((extend policies configs state).enforced.any breaksLine = false ∧
      Pinned next.headers enforcedHeader (extend policies configs state).enforced) ∨
    ((∃ response, flow = .respond response) ∧ ∀ kept, ctx.extensions.get? .policies = some kept →
      SameAt ctx.headers next.headers enforcedHeader)

/-- What an interceptor of content policies does in any case: it changes none but the two headers, and it
starts or refuses the request. It cannot start where a header is claimed by others, and then it keeps
nothing. -/
theorem before_cases (hc : Consistent ctx) {flow : Flow}
    (hb : (interceptor policies).before configs ctx = (flow, next)) :
    (∀ name, Other name → SameAt ctx.headers next.headers name) ∧
      (((∃ response, flow = .respond response) ∧ ctx.extensions.get? .policies = none ∧
          next.extensions.get? .policies = none) ∨
        ∃ state, Applied policies configs ctx flow next state) := by
  have hbefore : (interceptor policies).before configs ctx =
      Interceptor.afterWrites name .pass (apply policies configs ctx) := rfl
  rw [hbefore] at hb
  rcases start_cases hc with ⟨started, e, hs, hext, hnone, hsame⟩ | ⟨started, state, hs, ho⟩
  · have happly : apply policies configs ctx = (started, some e) := by simp only [apply, hs]
    rw [happly] at hb
    obtain ⟨rfl, rfl⟩ := Prod.mk.inj hb
    refine ⟨hsame, .inl ⟨⟨_, rfl⟩, hnone, ?_⟩⟩
    exact (congrArg (fun extensions => extensions.get? .policies) hext).trans hnone
  · obtain ⟨hextend, hextend'⟩ := claims_extend policies configs state
    have hentitled : Entitled started.headers (extend policies configs state) :=
      ⟨hextend.trans ho.entitled.enforce, hextend'.trans ho.entitled.report, ho.entitled.enforced⟩
    obtain ⟨h, error?, hp, hleft, hother, hwritten⟩ := perform_fills_cases hentitled
    have happly : apply policies configs ctx =
        ({ started with headers := h }.keep .policies (extend policies configs state), error?) := by
      simp only [apply, hs, hp]
    have hkept : ({ started with headers := h }.keep .policies
        (extend policies configs state)).extensions.get? .policies =
          some (extend policies configs state) := Extensions.get?_insert_self _ _ _
    have hresumed : ∀ kept, ctx.extensions.get? .policies = some kept → state = kept :=
      fun kept hk => (ho.resumed kept hk).2
    have hsame : ∀ name, Other name → SameAt ctx.headers h name :=
      fun name hn => (ho.same name hn).trans (hother name hn)
    rw [happly] at hb
    cases error? with
    | none =>
      obtain ⟨rfl, rfl⟩ := Prod.mk.inj hb
      exact ⟨hsame, .inr ⟨state, hkept, hleft, hresumed, .inl (hwritten.resolve_left (by simp))⟩⟩
    | some e =>
      obtain ⟨rfl, rfl⟩ := Prod.mk.inj hb
      refine ⟨hsame, .inr ⟨state, hkept, hleft, hresumed, ?_⟩⟩
      refine hwritten.symm.imp_right fun hw => ⟨⟨_, rfl⟩, fun kept hk => ?_⟩
      rw [(ho.resumed kept hk).1] at hw
      exact hw.2

/-- Policies that are enforced stay so when others are added. -/
theorem mem_enforced_extend (configs : Configs) (policies : List ContentPolicy) {state : PolicyState}
    (ht : text ∈ state.enforced) : text ∈ (extend policies configs state).enforced := by
  unfold extend
  split
  · exact ht
  · exact List.mem_append_left _ ht

/-- Enforced policies that apply are among those that are kept, unless the route is without policies. -/
theorem mem_enforced_extend_of_mem {p : ContentPolicy} {state : PolicyState} (hp : p ∈ policies)
    (he : p.reportOnly = false) (hc : configs.has .withoutPolicies = false)
    (ht : p.serialize state.nonce configs = some text) :
    text ∈ (extend policies configs state).enforced := by
  unfold extend
  rw [if_neg (by simp [hc])]
  refine List.mem_append_right _ (List.mem_filterMap.2 ⟨p, List.mem_filter.2 ⟨hp, ?_⟩, ht⟩)
  simp [he]

/-- The header of enforced policies says a policy, and if policies are kept then it is among them. -/
structure Carries (ctx : Context) (text : String) : Prop where
  kept : ∀ state, ctx.extensions.get? .policies = some state → text ∈ state.enforced
  written : ∃ values, Pinned ctx.headers enforcedHeader values ∧ values.any breaksLine = false ∧
    text ∈ values

/-- What was applied is consistent with the headers. -/
theorem Applied.consistent {flow : Flow} {state : PolicyState}
    (h : Applied policies configs ctx flow next state) : Consistent next := by
  intro kept hk
  rw [h.kept, Option.some.injEq] at hk
  exact hk ▸ h.entitled

/-- An interceptor of content policies keeps the right to write their headers. -/
theorem consistent_before (policies : List ContentPolicy) (configs : Configs) (hc : Consistent ctx) :
    Consistent ((interceptor policies).before configs ctx).2 := by
  cases hb : (interceptor policies).before configs ctx with
  | mk flow next =>
    rcases (before_cases hc hb).2 with ⟨-, -, hnone⟩ | ⟨state, ha⟩
    · intro kept hk
      rw [hnone] at hk
      cases hk
    · exact ha.consistent

/-- Where the header is claimed and nothing is kept, the interceptor cannot start. -/
theorem before_of_lost (hk : ctx.extensions.get? .policies = none)
    (hc : ctx.headers.isClaimed enforcedHeader = true) (policies : List ContentPolicy)
    (configs : Configs) :
    ∃ world, ((interceptor policies).before configs ctx).2 = { ctx with world } := by
  have hclaim : ctx.headers.claim enforcedHeader = .error (.alreadyClaimed enforcedHeader) := by
    have hname : checkName enforcedHeader = .ok () := checkName_eq_ok_iff.2 (by decide)
    simp only [claim, hname, hc, if_true]
  have happly : apply policies configs ctx =
      ({ ctx with world := (ctx.world.draw nonceBytes).2 }, some (.alreadyClaimed enforcedHeader)) := by
    simp only [apply, start, hk, hclaim]
  have hbefore : (interceptor policies).before configs ctx =
      Interceptor.afterWrites name .pass (apply policies configs ctx) := rfl
  rw [hbefore, happly]
  exact ⟨_, rfl⟩

/-- A policy that the header says stays there when policies are added, also if that fails. -/
theorem Carries.before (h : Carries ctx text) (hc : Consistent ctx) (policies : List ContentPolicy)
    (configs : Configs) : Carries ((interceptor policies).before configs ctx).2 text := by
  obtain ⟨hkept, values, hpinned, hlines, hvalue⟩ := h
  cases hk : ctx.extensions.get? .policies with
  | none =>
    obtain ⟨world, hb⟩ := before_of_lost hk hpinned.isClaimed policies configs
    rw [hb]
    exact ⟨hkept, values, hpinned, hlines, hvalue⟩
  | some kept =>
    cases hb : (interceptor policies).before configs ctx with
    | mk flow next =>
      rcases (before_cases hc hb).2 with ⟨-, hnone, -⟩ | ⟨state, ha⟩
      · rw [hk] at hnone
        cases hnone
      · obtain rfl := ha.resumed kept hk
        have hmem := mem_enforced_extend configs policies (hkept _ hk)
        refine ⟨fun state hs => ?_, ?_⟩
        · rw [ha.kept, Option.some.injEq] at hs
          exact hs ▸ hmem
        · rcases ha.written with ⟨hl, hp⟩ | ⟨-, hsame⟩
          · exact ⟨_, hp, hl, hmem⟩
          · exact ⟨values, hpinned.of_same (hsame _ hk), hlines, hvalue⟩

/-- An interceptor of content policies that passes the request on leaves the header with its enforced
policies, unless the route is without policies. -/
theorem carries_of_pass (hc : Consistent ctx) {p : ContentPolicy} (hp : p ∈ policies)
    (he : p.reportOnly = false) (hr : configs.has .withoutPolicies = false)
    (ht : ∀ nonce, p.serialize nonce configs = some text)
    (hb : (interceptor policies).before configs ctx = (.pass, next)) : Carries next text := by
  rcases (before_cases hc hb).2 with ⟨⟨response, hf⟩, -, -⟩ | ⟨state, ha⟩
  · cases hf
  · have hmem := mem_enforced_extend_of_mem hp he hr (ht state.nonce)
    refine ⟨fun kept hk => ?_, ?_⟩
    · rw [ha.kept, Option.some.injEq] at hk
      exact hk ▸ hmem
    rcases ha.written with ⟨hl, hpinned⟩ | ⟨⟨response, hf⟩, -⟩
    · exact ⟨_, hpinned, hl, hmem⟩
    · cases hf

end ContentSecurity

/-! ### Directives -/

namespace ContentPolicy

/-- The names of the directives of a policy, in small letters. -/
def directives (policy : String) : List String :=
  (pieces ';' policy.toList).map fun directive =>
    lower (String.ofList ((directive.dropWhile isMarkupBlank).takeWhile (!isMarkupBlank ·)))

end ContentPolicy

/-- A policy that begins with the name of a directive and a blank has this directive. -/
theorem ContentPolicy.mem_directives {policy : String} {name rest : List Char}
    (hp : policy.toList = name ++ ' ' :: rest) (hn : name ≠ [])
    (hall : name.all (fun c => c != ';' && !isMarkupBlank c) = true) :
    lower (String.ofList name) ∈ directives policy := by
  have hc : ∀ c ∈ name, c ≠ ';' ∧ isMarkupBlank c = false := by simpa using hall
  have hm : ';' ∉ name ++ [' '] := by
    rw [List.mem_append, List.mem_singleton, not_or]
    exact ⟨fun h => (hc _ h).1 rfl, by decide⟩
  obtain ⟨first, others, hpieces⟩ := pieces_append hm rest
  have hfirst : name ++ [' '] ++ first = name ++ ' ' :: first := by simp
  have hpolicy : policy.toList = name ++ [' '] ++ rest := by rw [hp]; simp
  rw [directives, hpolicy, hpieces, hfirst, List.map_cons]
  have hdrop : (name ++ ' ' :: first).dropWhile isMarkupBlank = name ++ ' ' :: first := by
    obtain ⟨c, tail, rfl⟩ := List.exists_cons_of_ne_nil hn
    exact List.dropWhile_cons_of_neg (by simp [(hc c List.mem_cons_self).2])
  have hblank : isMarkupBlank ' ' = true := by decide
  have htake : (name ++ ' ' :: first).takeWhile (!isMarkupBlank ·) = name := by
    rw [List.takeWhile_append_of_pos fun c hm => by simp [(hc c hm).2]]
    simp [hblank]
  rw [hdrop, htake]
  exact List.mem_cons_self

/-- Where framing is not allowed there is a policy on frames, with a directive for them. -/
theorem FramingPolicy.exists_serialize (p : FramingPolicy) {configs : Configs}
    (h : configs.has .framingAllowed = false) :
    ∃ text, p.serialize configs = some text ∧ "frame-ancestors" ∈ ContentPolicy.directives text := by
  have hname : lower (String.ofList "frame-ancestors".toList) = "frame-ancestors" := by decide
  unfold serialize
  rw [if_neg (by simp [h])]
  refine ⟨_, rfl, ?_⟩
  obtain ⟨rest, hrest⟩ : ∃ rest, (ContentPolicy.withReports ("frame-ancestors 'self'" ++
      String.join ((configs.framingBy?.getD []).map (" " ++ ·))) p.reportUri).toList =
        "frame-ancestors".toList ++ ' ' :: rest := by
    have hfront : "frame-ancestors 'self'".toList =
        "frame-ancestors".toList ++ ' ' :: "'self'".toList := by decide
    unfold ContentPolicy.withReports
    split <;> simp only [String.toList_append, hfront, List.append_assoc, List.cons_append] <;>
      exact ⟨_, rfl⟩
  have hm := ContentPolicy.mem_directives hrest (by decide) (by decide)
  rwa [hname] at hm

/-! ### The chain -/

/-- The two headers that protect a page against framing. -/
def Framing.protectors : List String := [headerName, ContentSecurity.enforcedHeader]

/-- An interceptor that does not take the protection away: where one of the two headers is claimed it
leaves it, before the handler and behind it, and it puts nothing in the place of what is kept for content
policies. -/
structure Interceptor.Considerate (i : Interceptor) : Prop where
  before : i.LeavesBefore Framing.protectors
  commit : i.LeavesCommit Framing.protectors
  kept : ∀ configs ctx,
    (i.before configs ctx).2.extensions.get? .policies = ctx.extensions.get? .policies ∨
      (i.before configs ctx).2.extensions.get? .policies = none

/-- The other interceptors of the library are such. -/
theorem Interceptor.Stepwise.considerate {i : Interceptor} (h : i.Stepwise) : i.Considerate where
  before := h.respectsBefore.leaves _
  commit := h.respectsCommit.leaves _
  kept configs ctx := .inl (h.before configs ctx).policies_eq

namespace ContentSecurity

variable {ctx : Context} {configs : Configs} {i : Interceptor} {text : String}

/-- What a considerate interceptor leaves of what is kept was there before. -/
theorem get?_of_considerate (hi : i.Considerate) {state : PolicyState}
    (hk : (i.before configs ctx).2.extensions.get? .policies = some state) :
    ctx.extensions.get? .policies = some state := by
  rcases hi.kept configs ctx with hsame | hnone
  · exact hsame.symm.trans hk
  · rw [hnone] at hk
    cases hk

/-- A considerate interceptor leaves policies consistent. -/
theorem Consistent.considerate (hc : Consistent ctx) (hi : i.Considerate) :
    Consistent (i.before configs ctx).2 := by
  intro state hk
  obtain ⟨henforce, hreport, henforced⟩ := hc state (get?_of_considerate hi hk)
  have hsame := hi.before configs ctx enforcedHeader (by decide) henforced
  exact ⟨henforce, hreport, hsame.isClaimed_eq.trans henforced⟩

/-- A considerate interceptor leaves the policy that is carried. -/
theorem Carries.considerate (h : Carries ctx text) (hi : i.Considerate) :
    Carries (i.before configs ctx).2 text := by
  obtain ⟨hkept, values, hpinned, hlines, hvalue⟩ := h
  have hsame := hi.before configs ctx enforcedHeader (by decide) hpinned.isClaimed
  exact ⟨fun state hk => hkept state (get?_of_considerate hi hk), values, hpinned.of_same hsame,
    hlines, hvalue⟩

end ContentSecurity

namespace Passage

open ContentSecurity

variable {configs : Configs} {ctx : Context} {links : List Link}

/-- What one of the calls establishes holds behind the chain, if every interceptor keeps it where the
invariant `I` holds. -/
theorem follow_of_mem_calls {I J : Context → Prop}
    (hI : ∀ link ∈ links, ∀ ctx, I ctx → I (link.interceptor.before configs ctx).2)
    (hJ : ∀ link ∈ links, ∀ ctx, I ctx → J ctx → J (link.interceptor.before configs ctx).2)
    (hr : ∀ ctx e, I ctx ∧ J ctx → I (ctx.record e) ∧ J (ctx.record e)) {c : Call}
    (hc : c ∈ calls configs ctx links) (he : I c.before → J c.after) (hi : I ctx)
    (ran : List Interceptor) : J (follow configs ran ctx (links.map Link.interceptor)).context := by
  induction links generalizing ctx ran with
  | nil => cases hc
  | cons link rest ih =>
    rw [List.forall_mem_cons] at hI hJ
    have hnext := hI.1 ctx hi
    cases hb : link.interceptor.before configs ctx with
    | mk flow next =>
      rw [hb] at hnext
      cases flow with
      | respond response =>
        rw [calls_of_respond link hb] at hc
        obtain rfl := List.mem_singleton.1 hc
        rw [context_follow_of_respond link hb]
        exact (hr _ _ ⟨hnext, he hi⟩).2
      | pass =>
        rw [calls_of_pass link hb] at hc
        rw [follow_of_pass link hb]
        rcases List.mem_cons.1 hc with rfl | hc
        · refine (follow_induction (P := fun ctx => I ctx ∧ J ctx) ?_ hr _ ⟨hnext, he hi⟩).2
          rw [List.forall_mem_map]
          exact fun link hl ctx h => ⟨hI.2 link hl ctx h.1, hJ.2 link hl ctx h.1 h.2⟩
        · exact ih hI.2 hJ.2 hc hnext _

/-- The other interceptors of a chain do not take the protection away. -/
def Peaceful (links : List Link) : Prop := ∀ i, .other i ∈ links → i.Considerate

/-- Every interceptor of a peaceful chain leaves policies consistent. -/
theorem Peaceful.consistent (ho : Peaceful links) (configs : Configs) :
    ∀ link ∈ links, ∀ ctx, Consistent ctx →
      Consistent (link.interceptor.before configs ctx).2 := by
  intro link hl ctx hc
  cases link with
  | policies list => exact consistent_before list configs hc
  | other i => exact hc.considerate (ho i hl)

/-- Every interceptor of a peaceful chain leaves the header against framing to its owner. -/
theorem Peaceful.sameAt_before (ho : Peaceful links) {link : Link} (hl : link ∈ links)
    (hc : Consistent ctx) (hh : ctx.headers.isClaimed Framing.headerName = true) :
    SameAt ctx.headers (link.interceptor.before configs ctx).2.headers Framing.headerName := by
  cases link with
  | policies list =>
    have hother : Other Framing.headerName := by decide
    exact (before_cases hc rfl).1 _ hother
  | other i => exact (ho i hl).before configs ctx _ List.mem_cons_self hh

/-- Behind the handler every interceptor of a peaceful chain leaves both headers. -/
theorem Peaceful.leavesCommit (ho : Peaceful links) :
    ∀ i ∈ links.map Link.interceptor, i.LeavesCommit Framing.protectors := by
  rw [List.forall_mem_map]
  intro link hl
  cases link with
  | policies list => exact fun _ _ ctx => .refl _ ctx.headers
  | other i => exact (ho i hl).commit

/-- The older header stays as an interceptor has pinned it. -/
theorem Peaceful.pinned_follow (ho : Peaceful links) {values : List String} {c : Call}
    (hc : c ∈ calls configs ctx links) (he : Pinned c.after.headers Framing.headerName values)
    (hi : Consistent ctx) (ran : List Interceptor) :
    Pinned (follow configs ran ctx (links.map Link.interceptor)).context.headers Framing.headerName
      values := by
  refine follow_of_mem_calls (J := fun ctx => Pinned ctx.headers Framing.headerName values)
    (ho.consistent configs) ?_ (fun _ _ h => h) hc (fun _ => he) hi ran
  intro link hl ctx hcons hp
  exact hp.of_same (ho.sameAt_before hl hcons hp.isClaimed)

/-- A policy that the header of enforced policies says stays there. -/
theorem Peaceful.carries_follow (ho : Peaceful links) {text : String} {c : Call}
    (hc : c ∈ calls configs ctx links) (he : Consistent c.before → Carries c.after text)
    (hi : Consistent ctx) (ran : List Interceptor) :
    Carries (follow configs ran ctx (links.map Link.interceptor)).context text := by
  refine follow_of_mem_calls (J := fun ctx => Carries ctx text) (ho.consistent configs) ?_
    (fun _ _ h => ⟨h.1, h.2.kept, h.2.written⟩) hc he hi ran
  intro link hl ctx hcons h
  cases link with
  | policies list => exact h.before hcons list configs
  | other i => exact h.considerate (ho i hl)

end Passage

/-- An owner of one header that passes the request on has pinned it. -/
theorem Interceptor.Owns.pinned {i : Interceptor} {configs : Configs} {p : Pin} {ctx next : Context}
    (ho : i.Owns configs [p] ctx) (hv : p.Valid) (hb : i.before configs ctx = (.pass, next)) :
    Pinned next.headers p.name p.values := by
  unfold Owns at ho
  rw [ho] at hb
  cases hc : ctx.headers.isClaimed p.name with
  | false =>
    obtain ⟨h, hw, hp⟩ := HeaderWrite.perform_own hv hc
    have hall : HeaderWrite.performAll ctx.headers (Pin.writes [p]) = (h, none) := by
      simp only [Pin.writes, List.map_cons, List.map_nil, HeaderWrite.performAll, hw]
    rw [Context.perform_eq hall] at hb
    obtain ⟨-, rfl⟩ := Prod.mk.inj hb
    exact hp
  | true =>
    have hclaim : ctx.headers.claim p.name = .error (.alreadyClaimed p.name) := by
      simp only [claim, hv.name, hc, if_true]
    have hall : HeaderWrite.performAll ctx.headers (Pin.writes [p]) =
        (ctx.headers, some (.alreadyClaimed p.name)) := by
      simp only [Pin.writes, List.map_cons, List.map_nil, HeaderWrite.performAll,
        HeaderWrite.perform_own_of_refused hclaim]
    rw [Context.perform_eq hall] at hb
    cases (Prod.mk.inj hb).1

namespace Service

variable {s : Service} {request : Request} {world : World}

/-- What the interceptors have pinned before the handler is in the reply and in its lines, if it is left
there behind them. -/
theorem getAll_serve_of_pinned {names : List String}
    (hc : ∀ i ∈ s.interceptors, i.LeavesCommit names) (ho : ∀ r ∈ s.routes, r.handler.Leaves names)
    {name : String} (hn : name ∈ names) {values : List String} (hk : Kept name)
    (hv : Pin.Valid ⟨name, values⟩) (hp : Pinned (s.passage request world).context.headers name values) :
    (s.serve request world).1.headers.getAll name = values ∧
      Headers.getAll ⟨(s.serve request world).1.lines⟩ name = values := by
  have hrun := Target.respectsAt_behind hc
    (Target.runs_lookup (P := (·.Leaves names)) ho request)
    (.ofRequest request (Target.lookup s.routes request).captures world)
  have hlast := hp.of_same (hrun name hn hp.isClaimed)
  have hfields : (s.serve request world).1.headers.fieldsOf name = Headers.fieldsFor name values :=
    (s.fieldsOf_serve request world hk).trans hlast.fieldsOf
  have hl := hv.isLine
  rw [← hfields] at hl
  exact ⟨Headers.getAll_of_fieldsOf hfields,
    Headers.getAll_of_fieldsOf ((Reply.fieldsOf_lines hk hl).trans hfields)⟩

/-- The calls before the handler, for a service with the interceptors of a chain. -/
def calls (s : Service) (request : Request) (world : World) (links : List Link) : List Call :=
  Passage.calls (Target.lookup s.routes request).configs
    (.ofRequest request (Target.lookup s.routes request).captures world) links

/-- The two interceptors against framing ran, and neither failed to write its header. -/
structure Guarded (s : Service) (request : Request) (world : World) (links : List Link) : Prop where
  policy : ∃ reportUri, ∃ c ∈ s.calls request world links,
    c.link = .policies [FramingPolicy.policy ⟨false, reportUri⟩] ∧ c.flow = .pass
  older : ∃ c ∈ s.calls request world links, c.link = .other Framing.interceptor ∧ c.flow = .pass

/-- Replies of a service with the interceptors against framing are protected by one of the two: they
carry the older header, or an enforced content policy with a directive on frames, both in the headers and
in the lines that are written. This holds with any other interceptors of content policies, and with
others and handlers that do not take the protection away, in any order, and whoever answers the request.
It takes a route that does not allow framing, and, if the route lists origins, one that has content
policies. On every route one of the two writes its header, and which one is what the older one asks. -/
theorem protected_against_framing {links : List Link}
    (hi : s.interceptors = links.map Link.interceptor) (ho : Passage.Peaceful links)
    (hr : ∀ r ∈ s.routes, r.handler.Leaves Framing.protectors) (hg : s.Guarded request world links)
    (hf : (Target.lookup s.routes request).configs.has .framingAllowed = false)
    (hd : (Target.lookup s.routes request).configs.framingBy?.isSome = true →
      (Target.lookup s.routes request).configs.has .withoutPolicies = false) :
    ((s.serve request world).1.headers.getAll Framing.headerName = ["SAMEORIGIN"] ∧
        Headers.getAll ⟨(s.serve request world).1.lines⟩ Framing.headerName = ["SAMEORIGIN"]) ∨
      ∃ policy, "frame-ancestors" ∈ ContentPolicy.directives policy ∧
        policy ∈ (s.serve request world).1.headers.getAll ContentSecurity.enforcedHeader ∧
        policy ∈ Headers.getAll ⟨(s.serve request world).1.lines⟩ ContentSecurity.enforcedHeader := by
  have hstart : ContentSecurity.Consistent
      (.ofRequest request (Target.lookup s.routes request).captures world) := by
    rintro state ⟨⟩
  have hcommit : ∀ i ∈ s.interceptors, i.LeavesCommit Framing.protectors := hi ▸ ho.leavesCommit
  have hpassage : s.passage request world = Passage.follow (Target.lookup s.routes request).configs []
      (.ofRequest request (Target.lookup s.routes request).captures world)
      (links.map Link.interceptor) := by rw [← hi]; rfl
  cases hdecides : Framing.policyDecides (Target.lookup s.routes request).configs with
  | false =>
    left
    obtain ⟨c, hc, hlink, hflow⟩ := hg.older
    obtain ⟨-, hb⟩ := Passage.before_eq_of_mem_calls hc
    rw [hlink, hflow] at hb
    have hvalid := Framing.valid _ (List.mem_singleton.2 rfl)
    have hp := (Framing.owns hdecides c.before).pinned hvalid hb
    have hlast := ho.pinned_follow hc hp hstart []
    rw [← hpassage] at hlast
    exact getAll_serve_of_pinned hcommit hr List.mem_cons_self (by decide) hvalid hlast
  | true =>
    right
    have hpolicies : (Target.lookup s.routes request).configs.has .withoutPolicies = false := by
      unfold Framing.policyDecides at hdecides
      rw [hf, Bool.false_or] at hdecides
      exact hd hdecides
    obtain ⟨reportUri, c, hc, hlink, hflow⟩ := hg.policy
    obtain ⟨-, hb⟩ := Passage.before_eq_of_mem_calls hc
    rw [hlink, hflow] at hb
    obtain ⟨text, htext, hdirective⟩ := FramingPolicy.exists_serialize ⟨false, reportUri⟩ hf
    have hlast := ho.carries_follow hc (fun hbefore => ContentSecurity.carries_of_pass hbefore
      List.mem_cons_self rfl hpolicies (fun _ => htext) hb) hstart []
    rw [← hpassage] at hlast
    obtain ⟨-, values, hpinned, hlines, hm⟩ := hlast
    have hname : checkName ContentSecurity.enforcedHeader = .ok () := checkName_eq_ok_iff.2 (by decide)
    obtain ⟨hheaders, hwritten⟩ :=
      getAll_serve_of_pinned hcommit hr (by decide) (by decide) ⟨hname, hlines⟩ hpinned
    exact ⟨text, hdirective, hheaders ▸ hm, hwritten ▸ hm⟩

end Service

/-! A page that a foreign origin may frame, with a handler that tries to get rid of what protects it. The
content policy protects it as long as the route has content policies, and nobody takes it away. -/

namespace Embedded

/-- The handler. -/
def script : HandlerScript where
  steps := [.header (.del ContentSecurity.enforcedHeader), .header (.claim Framing.headerName)]
  answer := .plain

/-- A service with the interceptors of a chain and one route. -/
def service (links : List Link) (settings : Configs) (handler : Handler) : Service where
  renderer := render
  interceptors := links.map Link.interceptor
  routes := [.ofText "/" .get handler settings]
  distinct := Route.duplicate?_eq_none_iff.2 (by simp)

/-- The interceptors against framing. -/
def pair : List Link :=
  [.policies [FramingPolicy.policy ⟨false, none⟩], .other Framing.interceptor]

/-- Origins that may frame the page. -/
def listed : RouteConfig := .framingBy ["https://a.example"]

/-- A request for the page, over an encrypted connection. -/
def request : Request := ⟨.get, "/", none, 1, ⟨[⟨"Host", "h"⟩]⟩, [], true⟩

/-- A world whose random bytes are zeros. -/
def world : World := ⟨0, fun _ => 0, 0, []⟩

/-- The interceptors against framing, and behind them another one of content policies. -/
def chain : List Link := pair ++ [.policies [StrictPolicy.policy {}]]

/-- The handler does not get rid of the policy on frames. -/
theorem protected_by_policy :
    ∃ policy, "frame-ancestors" ∈ ContentPolicy.directives policy ∧
      policy ∈ ((service chain ⟨[listed]⟩ (script.handler fun _ => "")).serve request
        world).1.headers.getAll ContentSecurity.enforcedHeader := by
  have ho : Passage.Peaceful chain := by
    intro i hi
    obtain rfl : i = Framing.interceptor := by simpa [chain, pair] using hi
    exact Framing.stepwise.considerate
  have hr : ∀ r ∈ (service chain ⟨[listed]⟩ (script.handler fun _ => "")).routes,
      r.handler.Leaves Framing.protectors := by
    intro r hm
    obtain rfl := List.mem_singleton.1 hm
    exact Handler.Operates.leaves (HandlerScript.operates_handler _ script) _
  have hg : (service chain ⟨[listed]⟩ (script.handler fun _ => "")).Guarded request world chain :=
    ⟨⟨none, _, List.mem_cons_self, rfl, rfl⟩,
      ⟨_, List.mem_cons_of_mem _ List.mem_cons_self, rfl, rfl⟩⟩
  have hp := Service.protected_against_framing rfl ho hr hg (by decide +kernel)
    (fun _ => by decide +kernel)
  rcases hp with ⟨holder, -⟩ | ⟨policy, hdirective, hm, -⟩
  · have hnone : ((service chain ⟨[listed]⟩ (script.handler fun _ => "")).serve request
        world).1.headers.getAll Framing.headerName = [] := by decide +kernel
    rw [hnone] at holder
    cases holder
  · exact ⟨policy, hdirective, hm⟩

/-- Both interceptors against framing ran on a route that does not allow framing, and the reply has
neither of their headers. -/
structure Unprotected (links : List Link) (settings : Configs) (handler : Handler) : Prop where
  guarded : (service links settings handler).Guarded request world links
  forbidden : (Target.lookup (service links settings handler).routes request).configs.has
    .framingAllowed = false
  older : ((service links settings handler).serve request world).1.headers.getAll
    Framing.headerName = []
  policies : ((service links settings handler).serve request world).1.headers.getAll
    ContentSecurity.enforcedHeader = []

/-- A handler that replaces all headers by fresh ones. -/
def clearing : Handler := fun ctx => (.noContent, ctx.clear)

/-- A handler that leaves everything as it is. -/
def plain : Handler := fun ctx => (.noContent, ctx)

/-- Puts what was kept for another request, which had no policies, in the place of what is kept. -/
def stale (ctx : Context) : Context :=
  ctx.keep .policies (ContentSecurity.fresh
    (ContentSecurity.nonceOf (List.replicate ContentSecurity.nonceBytes 0)))

/-- Nothing protects the page in either of these cases, although framing is not allowed and both
interceptors ran: origins are listed for the content policy, but there is none; the handler replaces all
headers; another interceptor does, before the handler or behind it; or it replaces the content policies
that are kept, with a third interceptor behind it that writes what it finds. -/
theorem unprotected_in_general :
    pair.map Link.interceptor = Framing.interceptors none ∧
    Unprotected pair ⟨[.withoutPolicies, listed]⟩ plain ∧
    Unprotected pair ⟨[]⟩ clearing ∧
    Unprotected (pair ++ [.other (.ofChanges .clear id)]) ⟨[]⟩ plain ∧
    Unprotected (pair ++ [.other (.ofChanges id .clear)]) ⟨[]⟩ plain ∧
    Unprotected (pair ++ [.other (.ofChanges stale id), .policies []]) ⟨[listed]⟩ plain := by
  refine ⟨rfl, ?unlisted, ?handler, ?before, ?commit, ?stale⟩ <;>
    exact ⟨⟨⟨none, _, List.mem_cons_self, rfl, rfl⟩, _, List.mem_cons_of_mem _ List.mem_cons_self,
      rfl, rfl⟩, by decide +kernel, by decide +kernel, by decide +kernel⟩

end Embedded

end Palisade
