import Mathlib.Data.List.Basic
import Palisade.Proofs.Security.Owners
import Palisade.Proofs.Security.Policies
import Palisade.Proofs.Security.Steps
import Palisade.Settings.Basic

/-!
# The stack of interceptors

Whatever the settings are, the interceptors fall into two groups. Those in front write the security
headers: on a route that does not tune these headers they pass every request on that counts as
encrypted, and leave exactly the headers pinned that the settings ask for. Those behind them can refuse
the request, and keep what is claimed. Routes that tune the headers are not covered.
-/
namespace Palisade

open Palisade.Text ResponseHeaders

/-! ### Routes that tune no header -/

/-- Whether a setting of a route changes what the security headers say. -/
def RouteConfig.tunesHeaders : RouteConfig → Bool
  | withoutPolicies | framingAllowed | framingBy _ | opener _ => true
  | _ => false

namespace Configs

/-- The route does not change what the security headers say. -/
def Untuned (c : Configs) : Prop := ∀ item ∈ c.items, item.tunesHeaders = false

/-- Without settings nothing is tuned. -/
theorem untuned_empty : Untuned .empty := List.forall_mem_nil _

variable {c : Configs}

/-- On such a route the setting is missing. -/
theorem Untuned.has_eq_false (h : c.Untuned) {item : RouteConfig} (ht : item.tunesHeaders = true) :
    c.has item = false := by
  cases hc : c.has item with
  | false => rfl
  | true =>
    have hm : item ∈ c.items := List.contains_iff_mem.1 hc
    rw [h item hm] at ht
    cases ht

/-- No origins may frame such a route. -/
theorem Untuned.framingBy?_eq_none (h : c.Untuned) : c.framingBy? = none := by
  rw [framingBy?, List.findSome?_eq_none_iff]
  intro item hm
  have ht := h item hm
  cases item <;> first | rfl | cases ht

/-- Such a route has no policy on openers of its own. -/
theorem Untuned.opener?_eq_none (h : c.Untuned) : c.opener? = none := by
  rw [opener?, List.findSome?_eq_none_iff]
  intro item hm
  have ht := h item hm
  cases item <;> first | rfl | cases ht

/-- On such a route the policy does not decide on framing. -/
theorem Untuned.policyDecides_eq_false (h : c.Untuned) : Framing.policyDecides c = false := by
  unfold Framing.policyDecides
  rw [h.has_eq_false rfl, h.framingBy?_eq_none]
  rfl

end Configs

namespace Settings

variable (s : Settings)

/-- Transport security as the settings have it. -/
def transportSecurity : TransportSecurity :=
  ⟨s.transport.maxAge * 1000, s.transport.includeSubdomains, s.transport.preload,
    s.transport.behindProxy⟩

/-- The content policies of each interceptor that has some. -/
def policyLists : List (List ContentPolicy) :=
  (if s.content.enabled then [s.content.policies] else []) ++
    if s.frames.enabled then [[FramingPolicy.policy ⟨false, s.frames.reportUri⟩]] else []

/-- The texts that are written into the security headers. -/
def headerTexts : List String :=
  s.openers.filterMap OpenerPolicy.reportTo ++ s.content.reportUri.toList ++
    s.content.baseUri.toList ++ s.frames.reportUri.toList

/-- The headers of content policies with a nonce. -/
def policyPins (nonce : String) : List Pin :=
  if s.content.enabled || s.frames.enabled then
    ContentSecurity.pins
      (ContentSecurity.texts (s.policyLists.flatten.filter fun p => !p.reportOnly) nonce .empty)
      (ContentSecurity.texts (s.policyLists.flatten.filter fun p => p.reportOnly) nonce .empty)
  else []

/-- The interceptors that own headers and run before those of content policies. -/
def owners : Owners :=
  [(s.transportSecurity.interceptor, s.transportSecurity.pins)] ++
    (if s.fixedHeaders then [(FixedHeaders.interceptor, FixedHeaders.pins)] else []) ++
    if s.openers.isEmpty then []
    else [(OpenerIsolation.interceptor s.openers, OpenerIsolation.pins s.openers)]

/-- The interceptor of the older header against framing, which runs behind those of content policies. -/
def framingOwners : Owners :=
  if s.frames.enabled then [(Framing.interceptor, Framing.pins)] else []

/-- The security headers of every reply, with the nonce of the reply. -/
def promised (nonce : String) : List Pin :=
  s.transportSecurity.pins ++ (if s.fixedHeaders then FixedHeaders.pins else []) ++
    (if s.openers.isEmpty then [] else OpenerIsolation.pins s.openers) ++ s.policyPins nonce ++
    if s.frames.enabled then Framing.pins else []

/-- The interceptors that write security headers, in the order in which they run. -/
def front : List Interceptor :=
  s.owners.map (·.1) ++ s.policyLists.map ContentSecurity.interceptor ++ s.framingOwners.map (·.1)

/-! ### Names -/

/-- The names of all security headers that can be promised. -/
def promisedNames : List String :=
  [TransportSecurity.headerName, FixedHeaders.typeHeader, FixedHeaders.filterHeader,
    OpenerPolicy.enforcedHeader, OpenerPolicy.reportedHeader, ContentSecurity.enforcedHeader,
    ContentSecurity.reportedHeader, Framing.headerName]

/-- The headers of the owners, in order. -/
theorem pins_owners :
    s.owners.pins = s.transportSecurity.pins ++ (if s.fixedHeaders then FixedHeaders.pins else []) ++
      if s.openers.isEmpty then [] else OpenerIsolation.pins s.openers := by
  unfold owners Owners.pins
  cases s.fixedHeaders <;> cases s.openers.isEmpty <;> rfl

/-- The owners against framing pin their header, if they are there. -/
theorem pins_framingOwners :
    s.framingOwners.pins = if s.frames.enabled then Framing.pins else [] := by
  unfold framingOwners Owners.pins
  cases s.frames.enabled <;> rfl

/-- What is promised, by the interceptors that write it. -/
theorem promised_eq (nonce : String) :
    s.promised nonce = s.owners.pins ++ s.policyPins nonce ++ s.framingOwners.pins := by
  rw [pins_owners, pins_framingOwners, promised]

/-- The owners in front pin headers of the first five names. -/
theorem names_owners : (s.owners.pins.map Pin.name).Sublist (promisedNames.take 5) := by
  have hfixed : ((if s.fixedHeaders then FixedHeaders.pins else []).map Pin.name).Sublist
      (FixedHeaders.pins.map Pin.name) := by
    cases s.fixedHeaders
    · exact List.nil_sublist _
    · exact .refl _
  have hopeners : ((if s.openers.isEmpty then [] else OpenerIsolation.pins s.openers).map
      Pin.name).Sublist ((OpenerIsolation.pins s.openers).map Pin.name) := by
    cases s.openers.isEmpty
    · exact .refl _
    · exact List.nil_sublist _
  rw [pins_owners, List.map_append, List.map_append]
  exact ((List.Sublist.refl (s.transportSecurity.pins.map Pin.name)).append hfixed).append hopeners

/-- The policies pin headers of the next two names. -/
theorem names_policyPins (nonce : String) :
    ((s.policyPins nonce).map Pin.name).Sublist ((promisedNames.drop 5).take 2) := by
  unfold policyPins
  split
  · exact .refl _
  · exact List.nil_sublist _

/-- The owners against framing pin the last header. -/
theorem names_framing : (s.framingOwners.pins.map Pin.name).Sublist (promisedNames.drop 7) := by
  rw [pins_framingOwners]
  cases s.frames.enabled
  · exact List.nil_sublist _
  · exact .refl _

/-- All headers that are promised are of the promised names, each at most once. -/
theorem names_promised (nonce : String) :
    ((s.promised nonce).map Pin.name).Sublist promisedNames := by
  have hn := (s.names_owners.append (s.names_policyPins nonce)).append s.names_framing
  rw [promised_eq, List.map_append, List.map_append]
  exact hn

/-- No header is promised twice. -/
theorem distinct_promised (nonce : String) : Pin.Distinct (s.promised nonce) := by
  have hd : promisedNames.Pairwise fun a b => alike a b = false := by decide
  exact List.pairwise_map.1 (hd.sublist (s.names_promised nonce))

/-- The encoding of a response writes no promised header. -/
theorem kept_of_promised {nonce : String} {p : Pin} (h : p ∈ s.promised nonce) :
    Service.Kept p.name := by
  have hk : ∀ name ∈ promisedNames, Service.Kept name := by decide
  exact hk _ ((s.names_promised nonce).subset (List.mem_map_of_mem h))

/-! ### Content policies -/

/-- The texts of the settings that are written into headers keep their lines. -/
def KeepsLines : Prop := ∀ t ∈ s.headerTexts, breaksLine t = false

variable {s}

/-- The addresses for reports on openers keep their lines. -/
theorem KeepsLines.openers (h : s.KeepsLines) : ∀ p ∈ s.openers, KeepsLine p.reportTo := by
  intro p hp t ht
  apply h
  have hm : t ∈ s.openers.filterMap OpenerPolicy.reportTo := List.mem_filterMap.2 ⟨p, hp, ht⟩
  simp only [headerTexts, List.mem_append, hm, true_or]

/-- The address for reports on content keeps its line. -/
theorem KeepsLines.contentUri (h : s.KeepsLines) : KeepsLine s.content.reportUri := by
  intro t ht
  apply h
  simp only [headerTexts, List.mem_append, ht, Option.mem_toList, true_or, or_true]

/-- The base of addresses keeps its line. -/
theorem KeepsLines.baseUri (h : s.KeepsLines) : KeepsLine s.content.baseUri := by
  intro t ht
  apply h
  simp only [headerTexts, List.mem_append, ht, Option.mem_toList, true_or, or_true]

/-- The address for reports on frames keeps its line. -/
theorem KeepsLines.framesUri (h : s.KeepsLines) : KeepsLine s.frames.reportUri := by
  intro t ht
  apply h
  simp only [headerTexts, List.mem_append, ht, Option.mem_toList, or_true]

/-- A policy of the settings, on a route that does not tune it, is the same text as on a route without
settings, and keeps its line. -/
theorem KeepsLines.serialize (h : s.KeepsLines) {configs : Configs} (hc : configs.Untuned)
    {nonce : String} (hn : breaksLine nonce = false) {p : ContentPolicy}
    (hp : p ∈ s.policyLists.flatten) :
    ∃ text, p.serialize nonce configs = some text ∧ p.serialize nonce .empty = some text ∧
      breaksLine text = false := by
  unfold policyLists at hp
  rw [List.flatten_append, List.mem_append] at hp
  rcases hp with hp | hp
  · have hm : p ∈ s.content.policies := by
      split at hp
      · simpa using hp
      · simp at hp
    unfold Content.policies at hm
    rw [List.mem_append] at hm
    rcases hm with hm | hm
    · obtain rfl := List.mem_singleton.1 hm
      exact ⟨_, rfl, rfl, StrictPolicy.breaksLine_serialize hn h.contentUri h.baseUri⟩
    · split at hm
      · obtain rfl := List.mem_singleton.1 hm
        exact ⟨_, rfl, rfl, ContentPolicy.breaksLine_withReports (by decide) h.contentUri⟩
      · simp at hm
  · have hm : p = FramingPolicy.policy ⟨false, s.frames.reportUri⟩ := by
      split at hp
      · simpa using hp
      · simp at hp
    subst hm
    have hserialize : ∀ cs : Configs, cs.Untuned →
        (FramingPolicy.policy ⟨false, s.frames.reportUri⟩).serialize nonce cs =
          some (ContentPolicy.withReports "frame-ancestors 'self'" s.frames.reportUri) := by
      intro cs hcs
      have hhas : cs.has .framingAllowed = false := hcs.has_eq_false rfl
      simp only [FramingPolicy.policy, FramingPolicy.serialize, hhas, hcs.framingBy?_eq_none]
      rfl
    exact ⟨_, hserialize configs hc, hserialize .empty Configs.untuned_empty,
      ContentPolicy.breaksLine_withReports (by decide) h.framesUri⟩

/-- On such a route all policies can be written. -/
theorem KeepsLines.writable (h : s.KeepsLines) {configs : Configs} (hc : configs.Untuned)
    {nonce : String} (hn : breaksLine nonce = false) :
    ContentSecurity.Writable s.policyLists.flatten nonce configs := by
  intro p hp text ht
  obtain ⟨text', he, -, hb⟩ := h.serialize hc hn hp
  rw [ht, Option.some.injEq] at he
  rwa [he]

/-- The pins of the policies are valid. -/
theorem KeepsLines.valid_policyPins (h : s.KeepsLines) {nonce : String}
    (hn : breaksLine nonce = false) : ∀ p ∈ s.policyPins nonce, p.Valid := by
  have hw := h.writable Configs.untuned_empty hn
  have he : checkName ContentSecurity.enforcedHeader = .ok () :=
    checkName_eq_ok_iff.2 (by decide)
  have hr : checkName ContentSecurity.reportedHeader = .ok () :=
    checkName_eq_ok_iff.2 (by decide)
  unfold policyPins
  split
  · unfold ContentSecurity.pins
    rw [List.forall_mem_cons, List.forall_mem_singleton]
    exact ⟨⟨he, ContentSecurity.any_texts hw _⟩, ⟨hr, ContentSecurity.any_texts hw _⟩⟩
  · exact List.forall_mem_nil _

/-- On such a route the policies are the same as without settings. -/
theorem KeepsLines.texts_eq (h : s.KeepsLines) {configs : Configs} (hc : configs.Untuned)
    {nonce : String} (hn : breaksLine nonce = false) (q : ContentPolicy → Bool) :
    ContentSecurity.texts (s.policyLists.flatten.filter q) nonce configs =
      ContentSecurity.texts (s.policyLists.flatten.filter q) nonce .empty := by
  apply List.filterMap_congr
  intro p hp
  obtain ⟨text, hconfigs, hempty, -⟩ := h.serialize hc hn (List.mem_filter.1 hp).1
  rw [hconfigs, hempty]

/-- There are no policies exactly if neither content nor frames have any. -/
theorem policyLists_eq_nil_iff :
    s.policyLists = [] ↔ (s.content.enabled || s.frames.enabled) = false := by
  unfold policyLists
  cases s.content.enabled <;> cases s.frames.enabled <;> simp

/-- The interceptors of content policies write all policies of the settings with one nonce. -/
theorem KeepsLines.stage_policies (h : s.KeepsLines) {configs : Configs} (hc : configs.Untuned)
    {ctx : Context} (hu : ContentSecurity.Unstarted ctx) :
    ∃ next, Stage configs (s.policyLists.map ContentSecurity.interceptor)
      (s.policyPins (ContentSecurity.nonceOf (ctx.world.draw ContentSecurity.nonceBytes).1))
      ctx next := by
  have hn := ContentSecurity.breaksLine_nonceOf (ctx.world.draw ContentSecurity.nonceBytes).1
  cases hl : s.policyLists with
  | nil =>
    unfold policyPins
    rw [policyLists_eq_nil_iff.1 hl]
    exact ⟨ctx, .nil configs ctx⟩
  | cons ps rest =>
    have hw : ∀ ps' ∈ ps :: rest, ContentSecurity.Writable ps'
        (ContentSecurity.nonceOf (ctx.world.draw ContentSecurity.nonceBytes).1) configs := by
      intro ps' hps' p hp
      rw [← hl] at hps'
      exact h.writable hc hn p (List.mem_flatten.2 ⟨ps', hps', hp⟩)
    obtain ⟨started, hstarted, -⟩ := hu.started
    obtain ⟨next, hp, hg, hs, hr, -⟩ := ContentSecurity.passed_of_started hstarted hw
    rw [← hl] at hp hg ⊢
    have hsome : (s.content.enabled || s.frames.enabled) = true := by
      cases he : s.content.enabled || s.frames.enabled with
      | true => rfl
      | false => simp [policyLists_eq_nil_iff.2 he] at hl
    have hpins := hg.hold
    rw [ContentSecurity.extendAll_eq (hc.has_eq_false rfl)] at hpins
    unfold policyPins
    rw [hsome, if_pos rfl, ← h.texts_eq hc hn, ← h.texts_eq hc hn]
    exact ⟨next, hp, hpins, fun name ho => hs name (ContentSecurity.other_of_pins ho), hr⟩

/-! ### All interceptors -/

/-- The pins of the owners in front are valid. -/
theorem KeepsLines.valid_owners (h : s.KeepsLines) : ∀ p ∈ s.owners.pins, p.Valid := by
  rw [pins_owners, List.forall_mem_append, List.forall_mem_append]
  refine ⟨⟨s.transportSecurity.valid, ?_⟩, ?_⟩
  · split
    · exact FixedHeaders.valid
    · exact List.forall_mem_nil _
  · split
    · exact List.forall_mem_nil _
    · exact OpenerIsolation.valid h.openers

/-- The pins against framing are valid. -/
theorem valid_framingOwners : ∀ p ∈ s.framingOwners.pins, p.Valid := by
  rw [pins_framingOwners]
  split
  · exact Framing.valid
  · exact List.forall_mem_nil _

/-- All that is promised is valid. -/
theorem KeepsLines.valid_promised (h : s.KeepsLines) {nonce : String}
    (hn : breaksLine nonce = false) : ∀ p ∈ s.promised nonce, p.Valid := by
  rw [promised_eq, List.forall_mem_append, List.forall_mem_append]
  exact ⟨⟨h.valid_owners, h.valid_policyPins hn⟩, valid_framingOwners⟩

/-- The owners own their headers for every request that counts as encrypted. -/
theorem owns_owners {configs : Configs} (hc : configs.Untuned) {ctx : Context}
    (ht : s.transport.behindProxy = true ∨ ctx.request.tls = true) :
    ∀ o ∈ s.owners, o.1.Owns configs o.2 ctx := by
  unfold owners
  rw [List.forall_mem_append, List.forall_mem_append, List.forall_mem_singleton]
  refine ⟨⟨TransportSecurity.owns ht configs, ?_⟩, ?_⟩
  · split
    · rw [List.forall_mem_singleton]
      exact FixedHeaders.owns configs ctx
    · exact List.forall_mem_nil _
  · split
    · exact List.forall_mem_nil _
    · rw [List.forall_mem_singleton]
      exact OpenerIsolation.owns s.openers hc.opener?_eq_none ctx

/-- On such a route the owners against framing own their header. -/
theorem owns_framingOwners {configs : Configs} (hc : configs.Untuned) (ctx : Context) :
    ∀ o ∈ s.framingOwners, o.1.Owns configs o.2 ctx := by
  unfold framingOwners
  split
  · rw [List.forall_mem_singleton]
    exact Framing.owns hc.policyDecides_eq_false ctx
  · exact List.forall_mem_nil _

/-- The interceptors that write security headers pass every request on that counts as encrypted, with
all promised headers pinned. -/
theorem KeepsLines.stage_front (h : s.KeepsLines) {configs : Configs} (hc : configs.Untuned)
    (request : Request) (captures : Captures) (world : World)
    (ht : s.transport.behindProxy = true ∨ request.tls = true) :
    ∃ next, Stage configs s.front
      (s.promised (ContentSecurity.nonceOf (world.draw ContentSecurity.nonceBytes).1))
      (.ofRequest request captures world) next := by
  have hd := s.distinct_promised (ContentSecurity.nonceOf (world.draw ContentSecurity.nonceBytes).1)
  rw [promised_eq, Pin.Distinct, List.pairwise_append, List.pairwise_append] at hd
  obtain ⟨⟨howners, -, hpolicies⟩, hframing, hlast⟩ := hd
  have hfree : ∀ name, (Context.ofRequest request captures world).headers.isClaimed name = false :=
    fun _ => rfl
  obtain ⟨h₁, hs₁⟩ := stage_owners (fun o ho held => owns_owners hc ht o ho) h.valid_owners howners
    (fun p _ => hfree p.name)
  have hother : ∀ name ∈ (promisedNames.drop 5).take 2, Pin.Other s.owners.pins name := by
    have hnames : ∀ name ∈ (promisedNames.drop 5).take 2, ∀ owner ∈ promisedNames.take 5,
        alike owner name = false := by decide
    intro name hn p hp
    exact hnames name hn p.name (s.names_owners.subset (List.mem_map_of_mem hp))
  have hu : ContentSecurity.Unstarted
      { Context.ofRequest request captures world with headers := h₁ } := by
    refine ⟨rfl, ?_, ?_⟩
    · exact (hs₁.isClaimed_eq (hother _ (by decide))).trans (hfree _)
    · exact (hs₁.isClaimed_eq (hother _ (by decide))).trans (hfree _)
  obtain ⟨mid, hs₂⟩ := h.stage_policies hc hu
  have hcross : ∀ p ∈ s.owners.pins, Pin.Other
      (s.policyPins (ContentSecurity.nonceOf (world.draw ContentSecurity.nonceBytes).1)) p.name := by
    intro p hp q hq
    rw [alike_comm]
    exact hpolicies p hp q hq
  have hs₁₂ := hs₁.append hs₂ hcross
  have hunclaimed : ∀ p ∈ s.framingOwners.pins, mid.headers.isClaimed p.name = false := by
    intro p hp
    have ho : Pin.Other (s.owners.pins ++ s.policyPins _) p.name := fun q hq => hlast q hq p hp
    exact (hs₁₂.isClaimed_eq ho).trans (hfree p.name)
  obtain ⟨h₃, hs₃⟩ := stage_owners (fun o ho held => owns_framingOwners hc _ o ho)
    valid_framingOwners hframing hunclaimed
  rw [promised_eq]
  refine ⟨_, hs₁₂.append hs₃ ?_⟩
  intro p hp q hq
  rw [alike_comm]
  exact hlast p hp q hq

/-- The owners in front go from step to step. -/
theorem stepwise_owners : ∀ o ∈ s.owners, o.1.Stepwise := by
  unfold owners
  rw [List.forall_mem_append, List.forall_mem_append, List.forall_mem_singleton]
  refine ⟨⟨s.transportSecurity.stepwise, ?_⟩, ?_⟩
  · split
    · rw [List.forall_mem_singleton]
      exact FixedHeaders.stepwise
    · exact List.forall_mem_nil _
  · split
    · exact List.forall_mem_nil _
    · rw [List.forall_mem_singleton]
      exact OpenerIsolation.stepwise s.openers

/-- The owners against framing go from step to step. -/
theorem stepwise_framingOwners : ∀ o ∈ s.framingOwners, o.1.Stepwise := by
  unfold framingOwners
  split
  · rw [List.forall_mem_singleton]
    exact Framing.stepwise
  · exact List.forall_mem_nil _

/-- The interceptors that write security headers do steps alone, but for those of content policies. -/
theorem front_cases :
    ∀ i ∈ s.front, i.Stepwise ∨ ∃ policies, i = ContentSecurity.interceptor policies := by
  unfold front
  rw [List.forall_mem_append, List.forall_mem_append, List.forall_mem_map, List.forall_mem_map,
    List.forall_mem_map]
  exact ⟨⟨fun o ho => .inl (stepwise_owners o ho), fun policies _ => .inr ⟨policies, rfl⟩⟩,
    fun o ho => .inl (stepwise_framingOwners o ho)⟩

/-- Behind the handler the interceptors in front respect all claims. -/
theorem respectsCommit_front : ∀ i ∈ s.front, i.RespectsCommit := by
  intro i hi
  rcases front_cases i hi with h | ⟨policies, rfl⟩
  · exact h.respectsCommit
  · exact fun _ _ _ => .refl _

/-- The interceptor of fetch metadata, if the settings want one. -/
def metadataInterceptors (s : Settings) : List Interceptor :=
  if s.metadata.enabled then
    [FetchMetadata.interceptor
      ⟨s.metadata.navigationIsolation, s.metadata.reportOnly, s.metadata.corsEndpoints⟩]
  else []

/-- The interceptor for secure transport is built from its settings. -/
theorem transport_build {i : Interceptor} (h : s.transport.build = .ok i) :
    i = s.transportSecurity.interceptor := by
  unfold Transport.build TransportSecurity.build at h
  split at h
  · cases h
  · rename_i t ht
    split at ht
    · cases ht
    · cases ht
      cases h
      rfl

/-- The metadata are checked behind all that is in front. -/
theorem front_append_metadata :
    [s.transportSecurity.interceptor] ++ s.unchecked = s.front ++ s.metadataInterceptors := by
  unfold unchecked front owners policyLists framingOwners metadataInterceptors
  cases s.fixedHeaders <;> cases s.openers.isEmpty <;> cases s.content.enabled <;>
    cases s.frames.enabled <;> rfl

/-- The check of metadata goes from step to step. -/
theorem stepwise_metadata : ∀ i ∈ s.metadataInterceptors, i.Stepwise := by
  unfold metadataInterceptors
  split
  · rw [List.forall_mem_singleton]
    exact FetchMetadata.stepwise _
  · exact List.forall_mem_nil _

/-- The gate for other origins goes from step to step. -/
theorem stepwise_origins {o : Option Origins} {is : List Interceptor}
    (h : (o.map Origins.build).getD (.ok []) = .ok is) : ∀ i ∈ is, i.Stepwise := by
  cases o with
  | none =>
    cases h
    exact List.forall_mem_nil _
  | some origins =>
    simp only [Option.map_some, Option.getD_some, Origins.build] at h
    cases hc : origins.crossOrigin with
    | error e => simp [hc] at h
    | ok c =>
      simp only [hc, Except.ok.injEq] at h
      subst h
      exact List.forall_mem_singleton.2 c.stepwise

/-- The protection of forms goes from step to step. -/
theorem stepwise_forgery {f : Forgery} {key : Bytes} {is : List Interceptor}
    (h : f.build key = .ok is) : ∀ i ∈ is, i.Stepwise := by
  cases f with
  | disabled =>
    cases h
    exact List.forall_mem_nil _
  | html =>
    simp only [Forgery.build] at h
    cases hk : TokenKey.ofBytes key with
    | error e => simp [hk] at h
    | ok k =>
      simp only [hk, Except.ok.injEq] at h
      subst h
      exact List.forall_mem_singleton.2 (FormForgery.stepwise k)
  | angular =>
    simp only [Forgery.build] at h
    cases hk : TokenKey.ofBytes key with
    | error e => simp [hk] at h
    | ok k =>
      simp only [hk, Except.ok.injEq] at h
      subst h
      exact List.forall_mem_singleton.2 (ScriptForgery.stepwise k)

/-- The stack: interceptors that write security headers, and behind them others that do steps alone. -/
theorem interceptors_eq_append {key : Bytes} {is : List Interceptor} (h : s.interceptors key = .ok is) :
    ∃ back, is = s.front ++ back ∧ ∀ i ∈ back, i.Stepwise := by
  unfold interceptors at h
  cases ht : s.transport.build with
  | error e => simp [ht] at h
  | ok transport =>
    cases ho : (s.origins.map Origins.build).getD (.ok []) with
    | error e => simp [ht, ho] at h
    | ok origins =>
      cases hf : s.forgery.build key with
      | error e => simp [ht, ho, hf] at h
      | ok forgery =>
        simp only [ht, ho, hf, Except.ok.injEq] at h
        obtain rfl := transport_build ht
        refine ⟨s.metadataInterceptors ++ origins ++ forgery, ?_, ?_⟩
        · rw [← h, front_append_metadata]
          simp only [List.append_assoc]
        · rw [List.forall_mem_append, List.forall_mem_append]
          exact ⟨⟨stepwise_metadata, stepwise_origins ho⟩, stepwise_forgery hf⟩

/-- Behind the interceptors that write security headers stand only such that keep what is claimed. -/
theorem interceptors_eq {key : Bytes} {is : List Interceptor} (h : s.interceptors key = .ok is) :
    ∃ back, is = s.front ++ back ∧ ∀ i ∈ back, i.RespectsBefore ∧ i.RespectsCommit := by
  obtain ⟨back, he, hback⟩ := interceptors_eq_append h
  exact ⟨back, he, fun i hi => ⟨(hback i hi).respectsBefore, (hback i hi).respectsCommit⟩⟩

/-- Whatever the settings are, their interceptors do steps alone, but for those of content policies. -/
theorem interceptors_cases {key : Bytes} {is : List Interceptor} (h : s.interceptors key = .ok is) :
    ∀ i ∈ is, i.Stepwise ∨ ∃ policies, i = ContentSecurity.interceptor policies := by
  obtain ⟨back, rfl, hback⟩ := interceptors_eq_append h
  rw [List.forall_mem_append]
  exact ⟨front_cases, fun i hi => .inl (hback i hi)⟩

end Settings

end Palisade
