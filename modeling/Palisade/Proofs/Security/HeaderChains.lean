import Mathlib.Data.List.Induction
import Palisade.Proofs.Security.Confinement
import Palisade.Proofs.Security.Keepers

/-!
# Chains that are concerned with headers alone

What a chain of keepers of headers and interceptors of content policies hands to the handler, if no keeper
comes twice. This is described without looking at the order of the chain: what each keeper has written,
the policies of all interceptors of policies, and everything else as it was. The description holds of the
empty chain, and an interceptor that is put behind the others adds its own part.
-/
namespace Palisade

open Palisade.Text ResponseHeaders

/-! ### What is not concerned with headers -/

namespace HeaderWrite

/-- Cookies are kept if a result that succeeds keeps them. -/
theorem cookies_orKeep {h : ResponseHeaders} {result : Except HeaderError ResponseHeaders}
    (hk : ∀ h', result = .ok h' → h'.cookies = h.cookies) : (orKeep h result).1.cookies = h.cookies :=
  orKeep_induction (P := fun h' => h'.cookies = h.cookies) rfl hk

/-- A write queues no cookie. -/
theorem cookies_perform (h : ResponseHeaders) (w : HeaderWrite) :
    (perform h w).1.cookies = h.cookies := by
  cases w with
  | reserve name =>
    refine cookies_orKeep fun h' hr => ?_
    cases hc : h.claim name with
    | error e => simp [hc, Except.map] at hr
    | ok p =>
      simp only [hc, Except.map, Except.ok.injEq] at hr
      rw [← hr, (claim_eq_ok_iff.1 hc).2.2.2]
  | own name values =>
    cases hc : h.claim name with
    | error e => rw [perform_own_of_refused hc]
    | ok p =>
      obtain ⟨c, claimed⟩ := p
      have hcookies : claimed.cookies = h.cookies := by rw [(claim_eq_ok_iff.1 hc).2.2.2]
      rw [perform_own_of_claim hc, ← hcookies]
      exact cookies_orKeep fun h' hs => by rw [(setClaimed_eq_ok_iff.1 hs).2]
  | fill c values => exact cookies_orKeep fun h' hs => by rw [(setClaimed_eq_ok_iff.1 hs).2]
  | add name value => exact cookies_orKeep fun h' hs => by rw [(write_eq_ok_iff.1 hs).2.2.2]
  | set name value => exact cookies_orKeep fun h' hs => by rw [(write_eq_ok_iff.1 hs).2.2.2]

/-- Writes of headers leave the cookies. -/
theorem cookies_performAll (h : ResponseHeaders) (ws : List HeaderWrite) :
    (performAll h ws).1.cookies = h.cookies :=
  performAll_induction (P := fun h' => h'.cookies = h.cookies)
    (fun w _ h' he => (cookies_perform h' w).trans he) rfl

end HeaderWrite

namespace Context

/-- The two are the same aside from headers, content policies and the world. -/
structure Aside (ctx next : Context) : Prop where
  request_eq : next.request = ctx.request
  captures_eq : next.captures = ctx.captures
  slots : ∀ slot, slot ≠ .policies → next.extensions.get? slot = ctx.extensions.get? slot
  cookies_eq : next.headers.cookies = ctx.headers.cookies

variable {ctx mid next : Context}

/-- Nothing changes without a step. -/
theorem Aside.refl (ctx : Context) : Aside ctx ctx := ⟨rfl, rfl, fun _ _ => rfl, rfl⟩

/-- What two steps leave alone, both leave alone. -/
theorem Aside.trans (first : Aside ctx mid) (second : Aside mid next) : Aside ctx next where
  request_eq := second.request_eq.trans first.request_eq
  captures_eq := second.captures_eq.trans first.captures_eq
  slots slot hs := (second.slots slot hs).trans (first.slots slot hs)
  cookies_eq := second.cookies_eq.trans first.cookies_eq

/-- Writes change headers only. -/
theorem aside_perform (ctx : Context) (ws : List HeaderWrite) : Aside ctx (ctx.perform ws).1 :=
  ⟨rfl, rfl, fun _ _ => rfl, HeaderWrite.cookies_performAll ctx.headers ws⟩

/-- To keep policies changes what is kept for them only. -/
theorem aside_keep (ctx : Context) (state : PolicyState) : Aside ctx (ctx.keep .policies state) :=
  ⟨rfl, rfl, fun _ hslot => Extensions.get?_put_of_ne _ hslot _, rfl⟩

end Context

namespace ContentSecurity

/-- To start with content policies changes nothing else. -/
theorem aside_start (ctx : Context) : ctx.Aside (start ctx).1 := by
  unfold start
  split
  · exact .refl ctx
  · simp only
    split
    · exact ⟨rfl, rfl, fun _ _ => rfl, rfl⟩
    · rename_i hc
      have hcookies := congrArg ResponseHeaders.cookies (claim_eq_ok_iff.1 hc).2.2.2
      split
      · exact ⟨rfl, rfl, fun _ _ => rfl, hcookies⟩
      · rename_i hc'
        have hcookies' := congrArg ResponseHeaders.cookies (claim_eq_ok_iff.1 hc').2.2.2
        exact ⟨rfl, rfl, fun _ _ => rfl, hcookies'.trans hcookies⟩

/-- An interceptor of content policies is concerned with its headers and its slot alone. -/
theorem aside_before (policies : List ContentPolicy) (configs : Configs) (ctx : Context) :
    ctx.Aside ((interceptor policies).before configs ctx).2 := by
  have hstart := aside_start ctx
  have happly : ctx.Aside (apply policies configs ctx).1 := by
    unfold apply
    cases hs : start ctx with
    | mk started result =>
      rw [hs] at hstart
      cases result with
      | error e => exact hstart
      | ok state =>
        exact (hstart.trans (started.aside_perform _)).trans (Context.aside_keep _ _)
  simp only [interceptor]
  generalize apply policies configs ctx = result at happly
  obtain ⟨applied, error?⟩ := result
  cases error? with
  | none => exact happly
  | some e => exact happly.trans ⟨rfl, rfl, fun _ _ => rfl, rfl⟩

end ContentSecurity

/-! ### Keepers of different kinds -/

namespace Keeper

/-- Keepers of different kinds have no header in common. -/
theorem not_alike_of_kind_ne {a b : Keeper} (h : a.kind ≠ b.kind) :
    ∀ name ∈ a.names, ∀ other ∈ b.names, alike name other = false := by
  have hkinds : ∀ first second : Kind, first ≠ second →
      ∀ name ∈ first.names, ∀ other ∈ second.names, alike name other = false := by
    intro first second hne
    cases first <;> cases second <;> first | exact absurd rfl hne | decide
  exact hkinds a.kind b.kind h

/-- Nor has a keeper a header of content policies. -/
theorem other_of_mem_names (k : Keeper) : ∀ name ∈ k.names, ContentSecurity.Other name := by
  have hkind : ∀ kind : Kind, ∀ name ∈ kind.names, ContentSecurity.Other name := by
    intro kind
    cases kind <;> decide
  exact hkind k.kind

/-- Neither of those two is one of its own. -/
theorem not_alike_policies {k : Keeper} {own : String} (ho : own ∈ k.names) :
    alike own ContentSecurity.enforcedHeader = false ∧
      alike own ContentSecurity.reportedHeader = false := by
  obtain ⟨he, hr⟩ := k.other_of_mem_names own ho
  rw [alike_comm] at he hr
  exact ⟨he, hr⟩

/-- The writes of a keeper are about different headers. -/
theorem pairwise_writes (k : Keeper) (configs : Configs) :
    (k.writes configs).Pairwise fun w v => alike w.name v.name = false := by
  have hkind : ∀ kind : Kind, kind.names.Pairwise fun name other => alike name other = false := by
    intro kind
    cases kind <;> decide
  have hnames := hkind k.kind
  rw [← Keeper.names, ← k.names_eq configs, List.pairwise_map] at hnames
  exact hnames

/-- If nobody has claimed its headers, and what it writes keeps its lines, then a keeper passes a request
on. It has written its headers then, and touched no other. -/
theorem exists_pass (k : Keeper) {configs : Configs} {ctx : Context} (htls : ctx.request.tls = true)
    (hfree : ∀ name ∈ k.names, ctx.headers.isClaimed name = false)
    (hclean : ∀ w ∈ k.writes configs, w.values.any breaksLine = false) :
    ∃ headers, k.interceptor.before configs ctx = (.pass, { ctx with headers }) ∧
      (∀ w ∈ k.writes configs, w.Done ctx.headers headers) ∧
      (∀ name, (∀ own ∈ k.names, alike own name = false) → SameAt ctx.headers headers name) ∧
      headers.cookies = ctx.headers.cookies := by
  obtain ⟨headers, hperform⟩ := HeaderWrite.performAll_sound (h := ctx.headers)
    (fun w hw => ⟨(k.claims_of_mem configs w hw).free, (k.kept_of_mem_names _ (name_mem_names hw)).1,
      hclean w hw⟩) (k.pairwise_writes configs) fun w hw => hfree w.name (name_mem_names hw)
  have hcookies := HeaderWrite.cookies_performAll ctx.headers (k.writes configs)
  rw [hperform] at hcookies
  refine ⟨headers, ?_, fun w hw => ?_, fun name hn => ?_, hcookies⟩
  · rw [k.before_eq configs htls, Context.perform_eq hperform]
    rfl
  · exact (HeaderWrite.done_of_performAll (k.claims_of_mem configs) hperform w hw).2
  · have hs := HeaderWrite.sameAt_performAll ctx.headers (k.writes configs)
      fun w hw => .inl (hn w.name (name_mem_names hw))
    rwa [hperform] at hs

end Keeper

/-! ### Links of a chain -/

/-- An interceptor that is concerned with headers alone, with its settings. -/
inductive HeaderLink where
  | keeper (k : Keeper)
  | policies (policies : List ContentPolicy)

namespace HeaderLink

/-- The interceptor. -/
def interceptor : HeaderLink → Interceptor
  | keeper k => k.interceptor
  | policies list => ContentSecurity.interceptor list

/-- The keepers of a chain, in order. -/
def keepers (links : List HeaderLink) : List Keeper :=
  links.filterMap fun | keeper k => some k | policies _ => none

/-- The policies of a chain, interceptor by interceptor. -/
def policyLists (links : List HeaderLink) : List (List ContentPolicy) :=
  links.filterMap fun | keeper _ => none | policies list => some list

/-- What the interceptor writes on a route keeps its lines. -/
def Clean (configs : Configs) (nonce : String) : HeaderLink → Prop
  | keeper k => ∀ w ∈ k.writes configs, w.values.any breaksLine = false
  | policies list => ContentSecurity.Writable list nonce configs

/-- The keepers of two chains are those of the first and those of the second. -/
theorem keepers_append (links others : List HeaderLink) :
    keepers (links ++ others) = keepers links ++ keepers others := List.filterMap_append

/-- The policies of two chains are those of the first and those of the second. -/
theorem policyLists_append (links others : List HeaderLink) :
    policyLists (links ++ others) = policyLists links ++ policyLists others := List.filterMap_append

end HeaderLink

/-! ### What a chain hands on -/

namespace HeaderLink

open ContentSecurity

variable {configs : Configs} {links : List HeaderLink} {ctx mid : Context}

/-- The context of a request that has just come over an encrypted connection. -/
structure Fresh (ctx : Context) : Prop where
  tls : ctx.request.tls = true
  unclaimed : ∀ name, ctx.headers.isClaimed name = false
  unstarted : ctx.extensions.get? .policies = none

/-- A request that was received over an encrypted connection is fresh. -/
theorem fresh_ofRequest {request : Request} (htls : request.tls = true) (captures : Captures)
    (world : World) : Fresh (.ofRequest request captures world) := ⟨htls, fun _ => rfl, rfl⟩

/-- The nonce of the response, if a chain draws one. -/
def nonceFor (ctx : Context) : String := nonceOf (ctx.world.draw nonceBytes).1

/-- No interceptor of the chain has anything to do with the header. -/
structure Untouched (links : List HeaderLink) (name : String) : Prop where
  keepers : ∀ k ∈ keepers links, ∀ own ∈ k.names, alike own name = false
  policies : policyLists links ≠ [] → Other name

/-- What a chain hands on of a fresh context. Of the order of its interceptors this says nothing but the
order of the policies. -/
structure HandsOn (configs : Configs) (links : List HeaderLink) (ctx next : Context) : Prop where
  passed : Passed configs (links.map interceptor) ctx next
  aside : ctx.Aside next
  written : ∀ k ∈ keepers links, ∀ w ∈ k.writes configs, w.Done ctx.headers next.headers
  unstarted : policyLists links = [] →
    next.extensions.get? .policies = none ∧ next.world = ctx.world
  gathered : policyLists links ≠ [] →
    Gathered next (extendAll (policyLists links) configs (fresh (nonceFor ctx))) ∧
      next.world = (ctx.world.draw nonceBytes).2
  same : ∀ name, Untouched links name → SameAt ctx.headers next.headers name

/-- No interceptors hand on what came. -/
theorem HandsOn.nil (configs : Configs) (hf : Fresh ctx) : HandsOn configs [] ctx ctx where
  passed := .nil ctx
  aside := .refl ctx
  written := List.forall_mem_nil _
  unstarted := fun _ => ⟨hf.unstarted, rfl⟩
  gathered := fun h => absurd rfl h
  same := fun name _ => .refl ctx.headers name

/-- A keeper at the end is the last of the keepers. -/
theorem keepers_concat_keeper (links : List HeaderLink) (k : Keeper) :
    keepers (links ++ [keeper k]) = keepers links ++ [k] := keepers_append links [keeper k]

/-- A keeper has no policies. -/
theorem policyLists_concat_keeper (links : List HeaderLink) (k : Keeper) :
    policyLists (links ++ [keeper k]) = policyLists links := by
  rw [policyLists_append]
  exact List.append_nil _

/-- An interceptor of policies is no keeper. -/
theorem keepers_concat_policies (links : List HeaderLink) (list : List ContentPolicy) :
    keepers (links ++ [policies list]) = keepers links := by
  rw [keepers_append]
  exact List.append_nil _

/-- The policies of an interceptor at the end come last. -/
theorem policyLists_concat_policies (links : List HeaderLink) (list : List ContentPolicy) :
    policyLists (links ++ [policies list]) = policyLists links ++ [list] :=
  policyLists_append links [policies list]

/-- A keeper of a new kind adds its headers. -/
theorem HandsOn.keeper (h : HandsOn configs links ctx mid) (hf : Fresh ctx) {k : Keeper}
    (hnew : ∀ b ∈ keepers links, b.kind ≠ k.kind)
    (hclean : ∀ w ∈ k.writes configs, w.values.any breaksLine = false) :
    ∃ next, HandsOn configs (links ++ [.keeper k]) ctx next := by
  have huntouched : ∀ name ∈ k.names, SameAt ctx.headers mid.headers name := fun name hn =>
    h.same name ⟨fun b hb own ho => Keeper.not_alike_of_kind_ne (hnew b hb) own ho name hn,
      fun _ => k.other_of_mem_names name hn⟩
  have htls : mid.request.tls = true := by rw [h.aside.request_eq, hf.tls]
  obtain ⟨headers, hbefore, hdone, hsame, hcookies⟩ := k.exists_pass htls
    (fun name hn => (huntouched name hn).isClaimed_eq.trans (hf.unclaimed name)) hclean
  refine ⟨{ mid with headers }, ?_, h.aside.trans ⟨rfl, rfl, fun _ _ => rfl, hcookies⟩, ?_, ?_, ?_, ?_⟩
  · rw [List.map_append]
    exact h.passed.append (.single hbefore)
  · rw [keepers_concat_keeper, List.forall_mem_append, List.forall_mem_singleton]
    refine ⟨fun b hb w hw => (h.written b hb w hw).of_same_after (hsame w.name fun own ho => ?_),
      fun w hw => (hdone w hw).of_same_before (huntouched _ (Keeper.name_mem_names hw))⟩
    rw [alike_comm]
    exact Keeper.not_alike_of_kind_ne (hnew b hb) _ (Keeper.name_mem_names hw) own ho
  · rw [policyLists_concat_keeper]
    exact h.unstarted
  · rw [policyLists_concat_keeper]
    intro hlists
    obtain ⟨hg, hworld⟩ := h.gathered hlists
    exact ⟨⟨hg.ready, hg.kept, hg.enforced.of_same (hsame _ fun _ ho => (Keeper.not_alike_policies ho).1),
      hg.reported.of_same (hsame _ fun _ ho => (Keeper.not_alike_policies ho).2)⟩, hworld⟩
  · intro name hn
    obtain ⟨hkeepers, hpolicies⟩ := hn
    rw [keepers_concat_keeper, List.forall_mem_append, List.forall_mem_singleton] at hkeepers
    rw [policyLists_concat_keeper] at hpolicies
    exact (h.same name ⟨hkeepers.1, hpolicies⟩).trans (hsame name hkeepers.2)

/-- All policies are written with the first nonce. -/
theorem nonce_extendAll (lists : List (List ContentPolicy)) (configs : Configs)
    (state : PolicyState) : (extendAll lists configs state).nonce = state.nonce := by
  induction lists generalizing state with
  | nil => rfl
  | cons list rest ih => rw [extendAll_cons, ih, nonce_extend]

/-- An interceptor of content policies finds what those before it have left, or starts afresh. -/
theorem HandsOn.started (h : HandsOn configs links ctx mid) (hf : Fresh ctx) :
    ∃ started, Started mid started (extendAll (policyLists links) configs (fresh (nonceFor ctx))) ∧
      started.world = (ctx.world.draw nonceBytes).2 := by
  by_cases hlists : policyLists links = []
  · obtain ⟨hkept, hworld⟩ := h.unstarted hlists
    have huntouched : ∀ name, (∀ k : Keeper, ∀ own ∈ k.names, alike own name = false) →
        mid.headers.isClaimed name = false := fun name hn =>
      (h.same name ⟨fun k _ => hn k, fun hne => absurd hlists hne⟩).isClaimed_eq.trans
        (hf.unclaimed name)
    have hu : Unstarted mid :=
      ⟨hkept, huntouched _ fun _ _ ho => (Keeper.not_alike_policies ho).1,
        huntouched _ fun _ _ ho => (Keeper.not_alike_policies ho).2⟩
    obtain ⟨started, hs, hdrawn⟩ := hu.started
    rw [hworld] at hs hdrawn
    rw [hlists]
    exact ⟨started, hs, hdrawn⟩
  · obtain ⟨hg, hworld⟩ := h.gathered hlists
    exact ⟨mid, hg.started, hworld⟩

/-- An interceptor of content policies adds its policies. -/
theorem HandsOn.policies (h : HandsOn configs links ctx mid) (hf : Fresh ctx)
    {list : List ContentPolicy} (hw : Writable list (nonceFor ctx) configs) :
    ∃ next, HandsOn configs (links ++ [.policies list]) ctx next := by
  obtain ⟨started, hs, hdrawn⟩ := h.started hf
  have hnonce : (extendAll (policyLists links) configs (fresh (nonceFor ctx))).nonce = nonceFor ctx :=
    nonce_extendAll _ configs _
  obtain ⟨next, hbefore, hg, hsame, -, hworld⟩ := before_of_started hs (hnonce ▸ hw)
  have haside := aside_before list configs mid
  rw [hbefore] at haside
  have hne : policyLists (links ++ [.policies list]) ≠ [] := by
    rw [policyLists_concat_policies]
    exact List.append_ne_nil_of_right_ne_nil _ (List.cons_ne_nil _ _)
  refine ⟨next, ?_, h.aside.trans haside, ?_, fun he => absurd he hne, fun _ => ⟨?_, ?_⟩, ?_⟩
  · rw [List.map_append]
    exact h.passed.append (.single hbefore)
  · rw [keepers_concat_policies]
    exact fun k hk w hw => (h.written k hk w hw).of_same_after
      (hsame w.name (k.other_of_mem_names _ (Keeper.name_mem_names hw)))
  · rw [policyLists_concat_policies, extendAll, List.foldl_append]
    exact hg
  · rw [hworld, hdrawn]
  · intro name hn
    obtain ⟨hkeepers, hpolicies⟩ := hn
    rw [keepers_concat_policies] at hkeepers
    exact (h.same name ⟨hkeepers, fun _ => hpolicies hne⟩).trans (hsame name (hpolicies hne))

/-- A chain of clean interceptors without a second keeper of one kind passes every request on. -/
theorem exists_handsOn (hf : Fresh ctx) (honce : ((HeaderLink.keepers links).map Keeper.kind).Nodup)
    (hclean : ∀ link ∈ links, link.Clean configs (nonceFor ctx)) :
    ∃ next, HandsOn configs links ctx next := by
  induction links using List.reverseRecOn with
  | nil => exact ⟨ctx, .nil configs hf⟩
  | append_singleton links link ih =>
    rw [List.forall_mem_append, List.forall_mem_singleton] at hclean
    cases link with
    | keeper k =>
      rw [keepers_concat_keeper, List.map_append, List.map_singleton, List.nodup_append] at honce
      obtain ⟨mid, hmid⟩ := ih honce.1 hclean.1
      refine hmid.keeper hf (fun b hb he => ?_) hclean.2
      exact honce.2.2 b.kind (List.mem_map_of_mem hb) k.kind (List.mem_singleton_self _) he
    | policies list =>
      rw [keepers_concat_policies] at honce
      obtain ⟨mid, hmid⟩ := ih honce hclean.1
      exact hmid.policies hf hclean.2

end HeaderLink

end Palisade
