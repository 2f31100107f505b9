import Palisade.Proofs.Security.Policies
import Palisade.Security.OwnHeaders

/-!
# Chains with interceptors of content policies

Interceptors of content policies may stand anywhere in a chain, with others between them that leave
their two headers alone, and what they keep with the request. Each of those that run adds its policies to
what the earlier ones have left, and the first draws the nonce for all. The main statement says what the
two headers are behind the chain, and that no handler changes them. Policies that cannot be written are
not covered: with them the request is refused. So is one that reaches an interceptor of content policies
when what the earlier ones kept has been taken away, as is shown at the end.
-/
namespace Palisade

open Palisade.Text ResponseHeaders

/-! ### Chains -/

/-- An interceptor of a chain: one of content policies, by its policies, or another. -/
inductive Link where
  | policies (list : List ContentPolicy)
  | other (i : Interceptor)

/-- The interceptor itself. -/
def Link.interceptor : Link → Interceptor
  | policies list => ContentSecurity.interceptor list
  | other i => i

/-- What an interceptor did before the handler, with the contexts before and after it. -/
structure Call where
  /-- The interceptor. -/
  link : Link
  /-- The context that it was given. -/
  before : Context
  /-- Whether it passed the request on. -/
  flow : Flow
  /-- The context that it left. -/
  after : Context

/-- What an interceptor of content policies did before the handler. -/
structure Turn where
  /-- Its policies. -/
  policies : List ContentPolicy
  /-- The context that it was given. -/
  before : Context
  /-- The context that it left. -/
  after : Context

/-- The call as one of an interceptor of content policies. -/
def Call.turn? : Call → Option Turn
  | ⟨.policies list, before, _, after⟩ => some ⟨list, before, after⟩
  | _ => none

namespace Passage

/-- The calls before the handler, up to the first interceptor that answers. -/
def calls (configs : Configs) (ctx : Context) : List Link → List Call
  | [] => []
  | link :: rest =>
    match link.interceptor.before configs ctx with
    | (.pass, next) => ⟨link, ctx, .pass, next⟩ :: calls configs next rest
    | (.respond response, next) => [⟨link, ctx, .respond response, next⟩]

/-- What the interceptors of content policies did, in order. -/
def turns (configs : Configs) (ctx : Context) (links : List Link) : List Turn :=
  (calls configs ctx links).filterMap Call.turn?

variable {configs : Configs} {ctx next : Context} {link : Link} {rest links : List Link}

/-- Behind a call that passes the request on there are the calls of the rest. -/
theorem calls_of_pass (link : Link) (h : link.interceptor.before configs ctx = (.pass, next)) :
    calls configs ctx (link :: rest) = ⟨link, ctx, .pass, next⟩ :: calls configs next rest := by
  rw [calls, h]

/-- Behind a call that answers there is none. -/
theorem calls_of_respond (link : Link) {response : Response}
    (h : link.interceptor.before configs ctx = (.respond response, next)) :
    calls configs ctx (link :: rest) = [⟨link, ctx, .respond response, next⟩] := by
  rw [calls, h]

/-- The interceptors that ran are those that were called. -/
theorem ran_follow (configs : Configs) (ran : List Interceptor) (ctx : Context) (links : List Link) :
    (follow configs ran ctx (links.map Link.interceptor)).ran =
      ((calls configs ctx links).map (·.link.interceptor)).reverse ++ ran := by
  induction links generalizing ran ctx with
  | nil => rfl
  | cons link rest ih =>
    cases hb : link.interceptor.before configs ctx with
    | mk flow next =>
      cases flow with
      | pass =>
        rw [calls_of_pass link hb, List.map_cons, follow, hb]
        simp only [ih, List.map_cons, List.reverse_cons, List.append_assoc, List.singleton_append]
      | respond response =>
        rw [calls_of_respond link hb, List.map_cons, follow, hb]
        rfl

/-- A call is what its interceptor does. -/
theorem before_eq_of_mem_calls {c : Call} (hc : c ∈ calls configs ctx links) :
    c.link ∈ links ∧ c.link.interceptor.before configs c.before = (c.flow, c.after) := by
  induction links generalizing ctx with
  | nil => cases hc
  | cons link rest ih =>
    cases hb : link.interceptor.before configs ctx with
    | mk flow next =>
      cases flow with
      | pass =>
        rw [calls_of_pass link hb] at hc
        rcases List.mem_cons.1 hc with rfl | hc
        · exact ⟨List.mem_cons_self, hb⟩
        · exact (ih hc).imp_left (List.mem_cons_of_mem link)
      | respond response =>
        rw [calls_of_respond link hb] at hc
        obtain rfl := List.mem_singleton.1 hc
        exact ⟨List.mem_cons_self, hb⟩

/-- An interceptor of content policies has its turn, whether it passes the request on or not. -/
theorem turns_policies (configs : Configs) (ctx : Context) (list : List ContentPolicy)
    (rest : List Link) :
    ∃ after later, turns configs ctx (.policies list :: rest) = ⟨list, ctx, after⟩ :: later := by
  unfold turns
  cases hb : (Link.policies list).interceptor.before configs ctx with
  | mk flow next =>
    cases flow with
    | pass =>
      rw [calls_of_pass _ hb]
      exact ⟨next, _, rfl⟩
    | respond response =>
      rw [calls_of_respond _ hb]
      exact ⟨next, _, rfl⟩

/-- An interceptor of content policies has its turn when it passes the request on. -/
theorem turns_of_pass {list : List ContentPolicy}
    (h : (ContentSecurity.interceptor list).before configs ctx = (.pass, next)) :
    turns configs ctx (.policies list :: rest) = ⟨list, ctx, next⟩ :: turns configs next rest := by
  unfold turns
  rw [calls_of_pass (.policies list) h]
  rfl

/-- Another interceptor that passes the request on has no turn. -/
theorem turns_other_of_pass {i : Interceptor} (h : i.before configs ctx = (.pass, next)) :
    turns configs ctx (.other i :: rest) = turns configs next rest := by
  unfold turns
  rw [calls_of_pass (.other i) h]
  rfl

/-- Behind another interceptor that answers there is no turn. -/
theorem turns_other_of_respond {i : Interceptor} {response : Response}
    (h : i.before configs ctx = (.respond response, next)) :
    turns configs ctx (.other i :: rest) = [] := by
  unfold turns
  rw [calls_of_respond (.other i) h]
  rfl

/-- A request that the first interceptor passes on follows the rest. -/
theorem follow_of_pass (link : Link) (h : link.interceptor.before configs ctx = (.pass, next))
    (ran : List Interceptor) :
    follow configs ran ctx ((link :: rest).map Link.interceptor) =
      follow configs (link.interceptor :: ran) next (rest.map Link.interceptor) := by
  rw [List.map_cons, follow, h]

/-- A request that the first interceptor answers ends there, with a record of it. -/
theorem context_follow_of_respond (link : Link) {response : Response}
    (h : link.interceptor.before configs ctx = (.respond response, next)) (ran : List Interceptor) :
    (follow configs ran ctx ((link :: rest).map Link.interceptor)).context =
      next.record (event link.interceptor response) := by
  rw [List.map_cons, follow, h]

end Passage

/-! ### Interceptors between those of content policies -/

/-- Before the handler the interceptor neither claims nor writes the two headers of content policies, and
it leaves what is kept for them. -/
structure Interceptor.SparesPolicies (i : Interceptor) : Prop where
  enforced : ∀ configs ctx,
    SameAt ctx.headers (i.before configs ctx).2.headers ContentSecurity.enforcedHeader
  reported : ∀ configs ctx,
    SameAt ctx.headers (i.before configs ctx).2.headers ContentSecurity.reportedHeader
  kept : ∀ configs ctx,
    (i.before configs ctx).2.extensions.get? .policies = ctx.extensions.get? .policies

/-- An interceptor that only writes headers leaves all else as it was, but for what is recorded. -/
theorem Interceptor.before_ofWrites (name : String) (writes : Configs → List HeaderWrite)
    (configs : Configs) (ctx : Context) :
    ∃ world, ((ofWrites name writes).before configs ctx).2 =
      { ctx with headers := (HeaderWrite.performAll ctx.headers (writes configs)).1, world } := by
  have hb : (ofWrites name writes).before configs ctx =
      afterWrites name .pass (ctx.perform (writes configs)) := rfl
  rw [hb, Context.perform]
  cases HeaderWrite.performAll ctx.headers (writes configs) with
  | mk headers error? => cases error? <;> exact ⟨_, rfl⟩

/-- An interceptor that only writes other headers. -/
theorem Interceptor.sparesPolicies_ofWrites {name : String} {writes : Configs → List HeaderWrite}
    (hw : ∀ configs, ∀ w ∈ writes configs, ContentSecurity.Other w.name) :
    (ofWrites name writes).SparesPolicies := by
  have hsame : ∀ configs ctx other, (∀ w ∈ writes configs, alike w.name other = false) →
      SameAt ctx.headers ((ofWrites name writes).before configs ctx).2.headers other := by
    intro configs ctx other ho
    obtain ⟨world, hb⟩ := before_ofWrites name writes configs ctx
    rw [hb]
    exact HeaderWrite.sameAt_performAll _ _ fun w hm => .inl (ho w hm)
  refine ⟨fun configs ctx => hsame configs ctx _ fun w hm => ?_,
    fun configs ctx => hsame configs ctx _ fun w hm => ?_, fun configs ctx => ?_⟩
  · rw [alike_comm]
    exact (hw configs w hm).1
  · rw [alike_comm]
    exact (hw configs w hm).2
  · obtain ⟨world, hb⟩ := before_ofWrites name writes configs ctx
    rw [hb]

/-- The interceptor of the older header against framing writes no other. -/
theorem Framing.sparesPolicies : interceptor.SparesPolicies := by
  have hname : ContentSecurity.Other headerName := by
    unfold ContentSecurity.Other
    decide
  refine Interceptor.sparesPolicies_ofWrites fun configs w hw => ?_
  unfold writes at hw
  split at hw <;> (obtain rfl := List.mem_singleton.1 hw; exact hname)

namespace ContentSecurity

open Passage

variable {configs : Configs} {ctx : Context} {state : PolicyState}

/-- What is gathered stays so through an interceptor that spares it. -/
theorem Gathered.spared (h : Gathered ctx state) {i : Interceptor} (hi : i.SparesPolicies)
    (configs : Configs) : Gathered (i.before configs ctx).2 state where
  ready := h.ready
  kept := (hi.kept configs ctx).trans h.kept
  enforced := h.enforced.of_same (hi.enforced configs ctx)
  reported := h.reported.of_same (hi.reported configs ctx)

/-- Nothing is started by an interceptor that spares policies. -/
theorem Unstarted.spared (h : Unstarted ctx) {i : Interceptor} (hi : i.SparesPolicies)
    (configs : Configs) : Unstarted (i.before configs ctx).2 where
  kept := (hi.kept configs ctx).trans h.kept
  enforced := (hi.enforced configs ctx).isClaimed_eq.trans h.enforced
  reported := (hi.reported configs ctx).isClaimed_eq.trans h.reported

/-- Nothing is started when a request has been received. -/
theorem unstarted_ofRequest (request : Request) (captures : Captures) (world : World) :
    Unstarted (.ofRequest request captures world) := ⟨rfl, rfl, rfl⟩

/-- The first list of policies comes before the others. -/
theorem extendAll_cons (policies : List ContentPolicy) (lists : List (List ContentPolicy))
    (configs : Configs) (state : PolicyState) :
    extendAll (policies :: lists) configs state =
      extendAll lists configs (extend policies configs state) := rfl

/-- The other interceptors of a chain leave the two headers alone. -/
def Spared (links : List Link) : Prop := ∀ i, .other i ∈ links → i.SparesPolicies

/-- The policies of these turns keep their lines. -/
def AllWritable (turns : List Turn) (nonce : String) (configs : Configs) : Prop :=
  ∀ turn ∈ turns, Writable turn.policies nonce configs

/-- An event changes nothing that is gathered. -/
theorem Gathered.record (h : Gathered ctx state) (e : Event) : Gathered (ctx.record e) state :=
  ⟨h.ready, h.kept, h.enforced, h.reported⟩

/-- Behind the first interceptor of content policies, those that run add their policies and change
nothing in the world. -/
theorem Gathered.follow {links : List Link} (h : Gathered ctx state) (ho : Spared links)
    (hw : AllWritable (turns configs ctx links) state.nonce configs) (ran : List Interceptor) :
    (∀ turn ∈ turns configs ctx links, turn.after.world = turn.before.world) ∧
      Gathered (Passage.follow configs ran ctx (links.map Link.interceptor)).context
        (extendAll ((turns configs ctx links).map Turn.policies) configs state) := by
  induction links generalizing ran ctx state with
  | nil => exact ⟨List.forall_mem_nil _, h⟩
  | cons link rest ih =>
    have hrest : Spared rest := fun i hi => ho i (List.mem_cons_of_mem link hi)
    cases link with
    | policies list =>
      obtain ⟨after, later, ht⟩ := turns_policies configs ctx list rest
      have hlist : Writable list state.nonce configs := hw ⟨list, ctx, after⟩ (by simp [ht])
      obtain ⟨next, hb, hg, -, -, hworld⟩ := before_of_started h.started hlist
      rw [turns_of_pass hb, AllWritable, List.forall_mem_cons] at hw
      have hlater : AllWritable (turns configs next rest) (extend list configs state).nonce configs := by
        rw [nonce_extend]
        exact hw.2
      rw [turns_of_pass hb, follow_of_pass (.policies list) hb, List.forall_mem_cons,
        List.map_cons, extendAll_cons]
      obtain ⟨hworlds, hlast⟩ := ih hg hrest hlater (interceptor list :: ran)
      exact ⟨⟨hworld, hworlds⟩, hlast⟩
    | other i =>
      have hg := h.spared (ho i List.mem_cons_self) configs
      cases hb : i.before configs ctx with
      | mk flow next =>
        rw [hb] at hg
        cases flow with
        | pass =>
          rw [turns_other_of_pass hb] at hw ⊢
          rw [follow_of_pass (.other i) hb]
          exact ih hg hrest hw _
        | respond response =>
          rw [turns_other_of_respond hb, context_follow_of_respond (.other i) hb]
          exact ⟨List.forall_mem_nil _, hg.record _⟩

/-- The first interceptor of content policies that runs draws one nonce, with which it and all later
ones write their policies. -/
theorem Unstarted.follow {links : List Link} (h : Unstarted ctx) (ho : Spared links) {first : Turn}
    {later : List Turn} (ht : turns configs ctx links = first :: later) {nonce : String}
    (hn : nonce = nonceOf (first.before.world.draw nonceBytes).1)
    (hw : AllWritable (first :: later) nonce configs) (ran : List Interceptor) :
    first.after.world = (first.before.world.draw nonceBytes).2 ∧
      (∀ turn ∈ later, turn.after.world = turn.before.world) ∧
      Gathered (Passage.follow configs ran ctx (links.map Link.interceptor)).context
        (extendAll ((first :: later).map Turn.policies) configs (fresh nonce)) := by
  induction links generalizing ran ctx with
  | nil => cases ht
  | cons link rest ih =>
    have hrest : Spared rest := fun i hi => ho i (List.mem_cons_of_mem link hi)
    cases link with
    | policies list =>
      obtain ⟨after, others, hturns⟩ := turns_policies configs ctx list rest
      obtain ⟨rfl, rfl⟩ := List.cons.inj (ht.symm.trans hturns)
      obtain ⟨started, hs, hdrawn⟩ := h.started
      rw [AllWritable, List.forall_mem_cons] at hw
      rw [← hn] at hs
      obtain ⟨next, hb, hg, -, -, hworld⟩ := before_of_started hs hw.1
      rw [turns_of_pass hb] at ht
      obtain ⟨hnext, rfl⟩ := List.cons.inj ht
      obtain rfl := (Turn.mk.injEq _ _ _ _ _ _).mp hnext |>.2.2
      have hlater : AllWritable (turns configs next rest) (extend list configs (fresh nonce)).nonce
          configs := by
        rw [nonce_extend]
        exact hw.2
      obtain ⟨hworlds, hlast⟩ := hg.follow hrest hlater (interceptor list :: ran)
      rw [follow_of_pass (.policies list) hb, List.map_cons, extendAll_cons]
      exact ⟨hworld.trans hdrawn, hworlds, hlast⟩
    | other i =>
      have hu := h.spared (ho i List.mem_cons_self) configs
      cases hb : i.before configs ctx with
      | mk flow next =>
        rw [hb] at hu
        cases flow with
        | pass =>
          rw [turns_other_of_pass hb] at ht
          rw [follow_of_pass (.other i) hb]
          exact ih hu hrest ht _
        | respond response =>
          rw [turns_other_of_respond hb] at ht
          cases ht

/-- The policies of a route with a nonce, as the two headers say them. -/
theorem extendAll_fresh (lists : List (List ContentPolicy)) (configs : Configs) (nonce : String) :
    extendAll lists configs (fresh nonce) = { fresh nonce with
      enforced := if configs.has .withoutPolicies then []
        else texts (lists.flatten.filter fun p => !p.reportOnly) nonce configs
      reported := if configs.has .withoutPolicies then []
        else texts (lists.flatten.filter fun p => p.reportOnly) nonce configs } := by
  cases hc : configs.has .withoutPolicies with
  | false =>
    rw [extendAll_eq hc]
    rfl
  | true =>
    have hextend : ∀ policies state, extend policies configs state = state := by
      intro policies state
      rw [extend, if_pos hc]
    have hfold : extendAll lists configs (fresh nonce) = fresh nonce := by
      induction lists with
      | nil => rfl
      | cons policies rest ih => rw [extendAll_cons, hextend, ih]
    exact hfold

/-- A handler that works through the steps of headers leaves both headers with what was gathered. -/
theorem Gathered.values_runAll (h : Gathered ctx state) (steps : List HeaderStep) :
    (HeaderStep.runAll steps ⟨ctx.headers, []⟩).headers.values enforcedHeader = state.enforced ∧
      (HeaderStep.runAll steps ⟨ctx.headers, []⟩).headers.values reportedHeader = state.reported := by
  have hr := HeaderStep.respects_runAll ctx.headers steps
  have henforced := h.enforced.of_same (hr _ h.enforced.isClaimed)
  have hreported := h.reported.of_same (hr _ h.reported.isClaimed)
  exact ⟨Headers.getAll_of_fieldsOf henforced.fieldsOf, Headers.getAll_of_fieldsOf hreported.fieldsOf⟩

/-- The two headers behind a chain in which interceptors of content policies have run, whatever stands
between them. The first has drawn the nonce of the response, and no other has drawn anything. Unless
the route is without policies, the headers say all policies of those that ran, enforced and reported
ones each in the order of the chain and all with this nonce; and no operations of a handler change what
they say. -/
theorem policies_accumulate {links : List Link} (ho : Spared links) (configs : Configs)
    (request : Request) (captures : Captures) (world : World) {first : Turn} {later : List Turn}
    (ht : turns configs (.ofRequest request captures world) links = first :: later) {nonce : String}
    (hn : nonce = nonceOf (first.before.world.draw nonceBytes).1)
    (hw : AllWritable (first :: later) nonce configs) :
    (follow configs [] (.ofRequest request captures world) (links.map Link.interceptor)).ran =
        ((calls configs (.ofRequest request captures world) links).map (·.link.interceptor)).reverse ∧
      first.after.world = (first.before.world.draw nonceBytes).2 ∧
      (∀ turn ∈ later, turn.after.world = turn.before.world) ∧
      (follow configs [] (.ofRequest request captures world)
        (links.map Link.interceptor)).context.nonce? = some nonce ∧
      ∀ steps : List HeaderStep,
        let headers := (HeaderStep.runAll steps ⟨(follow configs [] (.ofRequest request captures world)
          (links.map Link.interceptor)).context.headers, []⟩).headers
        let policies := (first :: later).flatMap Turn.policies
        headers.values enforcedHeader = (if configs.has .withoutPolicies then []
          else texts (policies.filter fun p => !p.reportOnly) nonce configs) ∧
        headers.values reportedHeader = (if configs.has .withoutPolicies then []
          else texts (policies.filter fun p => p.reportOnly) nonce configs) := by
  have hu := unstarted_ofRequest request captures world
  obtain ⟨hfirst, hlater, hg⟩ := hu.follow ho ht hn hw []
  rw [extendAll_fresh, ← List.flatMap_def] at hg
  have hran := ran_follow configs [] (.ofRequest request captures world) links
  rw [List.append_nil] at hran
  refine ⟨hran, hfirst, hlater, ?_, hg.values_runAll⟩
  rw [Context.nonce?, hg.kept]
  rfl

/-! Two interceptors of content policies with another between them, on a route that a foreign origin may
frame, and a handler that tries to replace what they have written. -/

namespace Framed

/-- A route that a foreign origin may frame. -/
def settings : Configs := ⟨[.framingBy ["https://a.example"]]⟩

/-- The policies of the two interceptors. -/
def lists : List (List ContentPolicy) :=
  [[StrictPolicy.policy {}],
    [TrustedTypesPolicy.policy ⟨true, none⟩, FramingPolicy.policy ⟨false, none⟩]]

/-- The chain. -/
def links : List Link :=
  [.policies [StrictPolicy.policy {}], .other Framing.interceptor,
    .policies [TrustedTypesPolicy.policy ⟨true, none⟩, FramingPolicy.policy ⟨false, none⟩]]

/-- A request over an encrypted connection. -/
def request : Request := ⟨.get, "/", none, 1, ⟨[⟨"Host", "h"⟩]⟩, [], true⟩

/-- A world whose random bytes are zeros. -/
def world : World := ⟨0, fun _ => 0, 0, []⟩

/-- The nonce of twenty zeros. -/
def nonce : String := "AAAAAAAAAAAAAAAAAAAAAAAAAAA="

/-- A handler that tries to write both headers. -/
def steps : List HeaderStep :=
  [.set enforcedHeader "default-src *", .claim reportedHeader, .setClaimed reportedHeader []]

set_option maxRecDepth 20000 in
/-- Both headers say what is listed, and the handler changes neither. -/
theorem policies_of_both :
    let headers := (HeaderStep.runAll steps ⟨(follow settings [] (.ofRequest request .empty world)
      (links.map Link.interceptor)).context.headers, []⟩).headers
    headers.values enforcedHeader =
        [StrictPolicy.serialize {} nonce, "frame-ancestors 'self' https://a.example"] ∧
      headers.values reportedHeader = ["require-trusted-types-for 'script'"] := by
  have ho : Spared links := by
    intro i hi
    obtain rfl : i = Framing.interceptor := by simpa [links] using hi
    exact Framing.sparesPolicies
  obtain ⟨first, later, ht, hworld, hpolicies⟩ : ∃ first later,
      turns settings (.ofRequest request .empty world) links = first :: later ∧
        first.before.world = world ∧ (first :: later).map Turn.policies = lists :=
    ⟨_, _, rfl, rfl, rfl⟩
  have hwritable : ∀ list ∈ lists, ∀ p ∈ list, ∀ text ∈ p.serialize nonce settings,
      breaksLine text = false := by decide
  have hw : AllWritable (first :: later) nonce settings := by
    intro turn hm
    have hl : turn.policies ∈ lists := hpolicies ▸ List.mem_map_of_mem hm
    exact hwritable _ hl
  have hnonce : nonce = nonceOf (first.before.world.draw nonceBytes).1 := by
    rw [hworld]
    decide
  obtain ⟨-, -, -, -, hv⟩ := policies_accumulate ho settings request .empty world ht hnonce hw
  have hboth := hv steps
  rw [List.flatMap_def, hpolicies] at hboth
  exact hboth

end Framed

/-! Between two interceptors of content policies, one that replaces what is kept with the request. -/

namespace Forgotten

/-- Replaces all values that are kept with the request, and touches no header. -/
def forgetting : Interceptor := .ofChanges (fun ctx => { ctx with extensions := .empty }) id

/-- The chain. -/
def links : List Link :=
  [.policies [StrictPolicy.policy {}], .other forgetting,
    .policies [TrustedTypesPolicy.policy ⟨false, none⟩]]

/-- The request when it has been received. -/
def received : Context := .ofRequest Framed.request .empty Framed.world

set_option maxRecDepth 20000 in
/-- The interceptor between the two touches no header. Nevertheless, the second one draws another nonce,
is refused the headers that the first has claimed, and its policy is in neither of them. -/
theorem later_policies_are_lost :
    (∀ configs ctx, (forgetting.before configs ctx).2.headers = ctx.headers) ∧
    ∃ first second, turns .empty received links = [first, second] ∧
      Framed.nonce = nonceOf (first.before.world.draw nonceBytes).1 ∧
      AllWritable [first, second] Framed.nonce .empty ∧
      second.after.world.drawn = second.before.world.drawn + nonceBytes ∧
      (follow .empty [] received (links.map Link.interceptor)).context.headers.values enforcedHeader =
        [StrictPolicy.serialize {} Framed.nonce] ∧
      texts (([first, second].flatMap Turn.policies).filter fun p => !p.reportOnly) Framed.nonce .empty =
        [StrictPolicy.serialize {} Framed.nonce, "require-trusted-types-for 'script'"] := by
  refine ⟨fun _ _ => rfl, _, _, rfl, by decide, ?writable, by decide, by decide, by decide⟩
  case writable =>
    have hall : ∀ list ∈ [[StrictPolicy.policy {}], [TrustedTypesPolicy.policy ⟨false, none⟩]],
        ∀ p ∈ list, ∀ text ∈ p.serialize Framed.nonce .empty, breaksLine text = false := by decide
    exact List.forall_mem_cons.2 ⟨hall _ List.mem_cons_self,
      List.forall_mem_singleton.2 (hall _ (List.mem_cons_of_mem _ List.mem_cons_self))⟩

end Forgotten

end ContentSecurity

end Palisade
