import Palisade.Proofs.Service.Passage
import Palisade.Security.ContentSecurity

/-!
# Content policies of several interceptors

The first interceptor of content policies draws a nonce and claims two headers; each of them, the first
included, puts its policies behind those that are there. The invariant is that the two headers are
pinned to the policies that are kept with the request. So a chain of such interceptors writes all of
their policies in order, with one nonce, and passes the request on.
-/
namespace Palisade.ContentSecurity

open Palisade.Text ResponseHeaders

/-- The two headers of content policies. -/
def pins (enforced reported : List String) : List Pin :=
  [⟨enforcedHeader, enforced⟩, ⟨reportedHeader, reported⟩]

/-- Another header than these two. -/
def Other (name : String) : Prop :=
  alike enforcedHeader name = false ∧ alike reportedHeader name = false

/-- Whether a name is another can be computed. -/
instance (name : String) : Decidable (Other name) := inferInstanceAs (Decidable (_ ∧ _))

/-- A header without a pin is none of the two. -/
theorem other_of_pins {enforced reported : List String} {name : String}
    (h : Pin.Other (pins enforced reported) name) : Other name := by
  unfold Pin.Other pins at h
  rw [List.forall_mem_cons, List.forall_mem_singleton] at h
  exact h

/-- The right to write the two headers, and policies that can be written. -/
structure Ready (state : PolicyState) : Prop where
  enforce : state.enforce = ⟨enforcedHeader⟩
  report : state.report = ⟨reportedHeader⟩
  enforced : state.enforced.any breaksLine = false
  reported : state.reported.any breaksLine = false

/-- The policies of the response are kept with the request and are what the two headers say. -/
structure Gathered (ctx : Context) (state : PolicyState) : Prop where
  ready : Ready state
  kept : ctx.extensions.get? .policies = some state
  enforced : Pinned ctx.headers enforcedHeader state.enforced
  reported : Pinned ctx.headers reportedHeader state.reported

/-- What is gathered is what the headers hold. -/
theorem Gathered.hold {ctx : Context} {state : PolicyState} (h : Gathered ctx state) :
    Pin.Hold (pins state.enforced state.reported) ctx.headers := by
  intro p hp
  simp only [pins, List.mem_cons, List.not_mem_nil, or_false] at hp
  rcases hp with rfl | rfl
  · exact h.enforced
  · exact h.reported

/-! ### The start -/

/-- Both headers are claimed, and the policies so far are known. -/
structure Started (ctx started : Context) (state : PolicyState) : Prop where
  start_eq : start ctx = (started, .ok state)
  ready : Ready state
  enforced : started.headers.isClaimed enforcedHeader = true
  reported : started.headers.isClaimed reportedHeader = true
  same : ∀ name, Other name → SameAt ctx.headers started.headers name
  request_eq : started.request = ctx.request

/-- What is gathered is a start for more policies. -/
theorem Gathered.started {ctx : Context} {state : PolicyState} (h : Gathered ctx state) :
    Started ctx ctx state where
  start_eq := by
    unfold start
    rw [h.kept]
  ready := h.ready
  enforced := h.enforced.isClaimed
  reported := h.reported.isClaimed
  same := fun name _ => .refl ctx.headers name
  request_eq := rfl

/-- What the first interceptor of content policies starts with. -/
def fresh (nonce : String) : PolicyState := ⟨nonce, ⟨enforcedHeader⟩, ⟨reportedHeader⟩, [], []⟩

/-- No interceptor of content policies has run, and nobody has claimed their headers. -/
structure Unstarted (ctx : Context) : Prop where
  kept : ctx.extensions.get? .policies = none
  enforced : ctx.headers.isClaimed enforcedHeader = false
  reported : ctx.headers.isClaimed reportedHeader = false

/-- The first interceptor draws one nonce. -/
theorem Unstarted.started {ctx : Context} (h : Unstarted ctx) :
    ∃ started, Started ctx started (fresh (nonceOf (ctx.world.draw nonceBytes).1)) ∧
      started.world = (ctx.world.draw nonceBytes).2 := by
  have hne : alike enforcedHeader reportedHeader = false := by decide
  obtain ⟨h₁, hc₁⟩ : ∃ h₁, ctx.headers.claim enforcedHeader = .ok (⟨enforcedHeader⟩, h₁) :=
    ⟨_, claim_eq_ok_iff.2 ⟨checkName_eq_ok_iff.2 (by decide), h.enforced, rfl, rfl⟩⟩
  have hs₁ : ∀ name, alike enforcedHeader name = false → SameAt ctx.headers h₁ name :=
    fun name hn => sameAt_claim hc₁ (.inl hn)
  have hf₁ : h₁.isClaimed reportedHeader = false :=
    (hs₁ _ hne).isClaimed_eq.trans h.reported
  obtain ⟨h₂, hc₂⟩ : ∃ h₂, h₁.claim reportedHeader = .ok (⟨reportedHeader⟩, h₂) :=
    ⟨_, claim_eq_ok_iff.2 ⟨checkName_eq_ok_iff.2 (by decide), hf₁, rfl, rfl⟩⟩
  have hs₂ : ∀ name, alike reportedHeader name = false → SameAt h₁ h₂ name :=
    fun name hn => sameAt_claim hc₂ (.inl hn)
  have henf : h₁.isClaimed enforcedHeader = true := by
    rw [(claim_eq_ok_iff.1 hc₁).2.2.2, isClaimed_cons, alike_refl, Bool.true_or]
  have hrep : h₂.isClaimed reportedHeader = true := by
    rw [(claim_eq_ok_iff.1 hc₂).2.2.2, isClaimed_cons, alike_refl, Bool.true_or]
  refine ⟨{ ctx with world := (ctx.world.draw nonceBytes).2, headers := h₂ }, ?_, rfl⟩
  constructor
  · simp only [start, h.kept, hc₁, hc₂]
    rfl
  · exact ⟨rfl, rfl, rfl, rfl⟩
  · have hne' : alike reportedHeader enforcedHeader = false := by decide
    exact (hs₂ _ hne').isClaimed_eq.trans henf
  · exact hrep
  · intro name hn
    exact (hs₁ name hn.1).trans (hs₂ name hn.2)
  · rfl

/-! ### One interceptor -/

/-- The policies of an interceptor keep their lines on a route. -/
def Writable (policies : List ContentPolicy) (nonce : String) (configs : Configs) : Prop :=
  ∀ p ∈ policies, ∀ text, p.serialize nonce configs = some text → breaksLine text = false

/-- Texts of policies that can be written have no line breaks. -/
theorem any_texts {policies : List ContentPolicy} {nonce : String} {configs : Configs}
    (hw : Writable policies nonce configs) (q : ContentPolicy → Bool) :
    (texts (policies.filter q) nonce configs).any breaksLine = false := by
  rw [List.any_eq_false]
  intro text ht
  obtain ⟨p, hp, he⟩ := List.mem_filterMap.1 ht
  have hb := hw p (List.mem_filter.1 hp).1 text he
  simp [hb]

/-- Policies that are added leave the nonce. -/
@[simp] theorem nonce_extend (policies : List ContentPolicy) (configs : Configs)
    (state : PolicyState) : (extend policies configs state).nonce = state.nonce := by
  unfold extend
  split <;> rfl

/-- More policies that can be written are ready again. -/
theorem Ready.extend {policies : List ContentPolicy} {configs : Configs} {state : PolicyState}
    (h : Ready state) (hw : Writable policies state.nonce configs) :
    Ready (extend policies configs state) := by
  unfold ContentSecurity.extend
  split
  · exact h
  · refine ⟨h.enforce, h.report, ?_, ?_⟩
    · simp only [List.any_append, h.enforced, any_texts hw, Bool.or_false]
    · simp only [List.any_append, h.reported, any_texts hw, Bool.or_false]

/-- Writing both headers with their claims. -/
theorem perform_fills {ctx : Context} {state : PolicyState} (hr : Ready state)
    (he : ctx.headers.isClaimed enforcedHeader = true)
    (hp : ctx.headers.isClaimed reportedHeader = true) :
    ∃ h, ctx.perform [.fill state.enforce state.enforced, .fill state.report state.reported] =
        ({ ctx with headers := h }, none) ∧
      Pinned h enforcedHeader state.enforced ∧ Pinned h reportedHeader state.reported ∧
      ∀ name, Other name → SameAt ctx.headers h name := by
  obtain ⟨h₁, hs₁⟩ : ∃ h₁, ctx.headers.setClaimed ⟨enforcedHeader⟩ state.enforced = .ok h₁ :=
    ⟨_, setClaimed_eq_ok_iff.2 ⟨hr.enforced, rfl⟩⟩
  obtain ⟨h₂, hs₂⟩ : ∃ h₂, h₁.setClaimed ⟨reportedHeader⟩ state.reported = .ok h₂ :=
    ⟨_, setClaimed_eq_ok_iff.2 ⟨hr.reported, rfl⟩⟩
  have hc₁ : h₁.claimed = ctx.headers.claimed := by rw [(setClaimed_eq_ok_iff.1 hs₁).2]
  have hc₂ : h₂.claimed = h₁.claimed := by rw [(setClaimed_eq_ok_iff.1 hs₂).2]
  have hne : alike reportedHeader enforcedHeader = false := by decide
  refine ⟨h₂, ?_, ?_, ?_, ?_⟩
  · apply Context.perform_eq
    rw [hr.enforce, hr.report]
    simp only [HeaderWrite.performAll, HeaderWrite.perform, HeaderWrite.orKeep, hs₁, hs₂]
  · refine ⟨?_, ?_⟩
    · rw [isClaimed, hc₂, hc₁]
      exact he
    · rw [(sameAt_setClaimed hs₂ hne).fieldsOf_eq]
      exact fieldsOf_setClaimed hs₁ (alike_refl _)
  · refine ⟨?_, fieldsOf_setClaimed hs₂ (alike_refl _)⟩
    rw [isClaimed, hc₂, hc₁]
    exact hp
  · intro name hn
    exact (sameAt_setClaimed hs₁ hn.1).trans (sameAt_setClaimed hs₂ hn.2)

/-- What an interceptor of content policies does whose policies can be written behind those that were
there: it passes the request on, with all of them, and changes no other header. -/
theorem before_of_ready {policies : List ContentPolicy} {configs : Configs} {ctx started : Context}
    {state : PolicyState} (h : Started ctx started state) (hr : Ready (extend policies configs state)) :
    ∃ next, (interceptor policies).before configs ctx = (.pass, next) ∧
      Gathered next (extend policies configs state) ∧
      (∀ name, Other name → SameAt ctx.headers next.headers name) ∧
      next.request = ctx.request ∧ next.world = started.world := by
  obtain ⟨written, hperform, henforced, hreported, hsame⟩ := perform_fills hr h.enforced h.reported
  refine ⟨{ started with headers := written }.keep .policies (extend policies configs state), ?_,
    ⟨hr, ?_, henforced, hreported⟩, ?_, h.request_eq, rfl⟩
  · have happly : apply policies configs ctx =
        ({ started with headers := written }.keep .policies (extend policies configs state), none) := by
      simp only [apply, h.start_eq, hperform]
    simp only [interceptor, happly]
    rfl
  · exact Extensions.get?_insert_self _ _ _
  · intro name hn
    exact (h.same name hn).trans (hsame name hn)

/-- Policies that keep their lines can be written. -/
theorem before_of_started {policies : List ContentPolicy} {configs : Configs}
    {ctx started : Context} {state : PolicyState} (h : Started ctx started state)
    (hw : Writable policies state.nonce configs) :
    ∃ next, (interceptor policies).before configs ctx = (.pass, next) ∧
      Gathered next (extend policies configs state) ∧
      (∀ name, Other name → SameAt ctx.headers next.headers name) ∧
      next.request = ctx.request ∧ next.world = started.world :=
  before_of_ready h (h.ready.extend hw)

/-- Two headers that were filled keep their lines. -/
theorem lines_of_fills {h written : ResponseHeaders} {a b : Claim} {vs us : List String}
    (hp : HeaderWrite.performAll h [.fill a vs, .fill b us] = (written, none)) :
    vs.any breaksLine = false ∧ us.any breaksLine = false := by
  simp only [HeaderWrite.performAll, HeaderWrite.perform] at hp
  cases hs : h.setClaimed a vs with
  | error e => simp [hs, HeaderWrite.orKeep] at hp
  | ok first =>
    cases hs' : first.setClaimed b us with
    | error e => simp [hs, hs', HeaderWrite.orKeep] at hp
    | ok second => exact ⟨(setClaimed_eq_ok_iff.1 hs).1, (setClaimed_eq_ok_iff.1 hs').1⟩

/-- Policies can be written if the request is passed on. -/
theorem ready_of_pass {policies : List ContentPolicy} {configs : Configs} {ctx started next : Context}
    {state : PolicyState} (h : Started ctx started state)
    (hb : (interceptor policies).before configs ctx = (.pass, next)) :
    Ready (extend policies configs state) := by
  have hclaims : (extend policies configs state).enforce = ⟨enforcedHeader⟩ ∧
      (extend policies configs state).report = ⟨reportedHeader⟩ := by
    unfold extend
    split <;> exact ⟨h.ready.enforce, h.ready.report⟩
  cases hp : HeaderWrite.performAll started.headers
      [.fill (extend policies configs state).enforce (extend policies configs state).enforced,
        .fill (extend policies configs state).report (extend policies configs state).reported] with
  | mk written error? =>
    have happly : apply policies configs ctx =
        ({ started with headers := written }.keep .policies (extend policies configs state),
          error?) := by
      simp only [apply, h.start_eq, Context.perform_eq hp]
    cases error? with
    | some e =>
      simp only [interceptor, happly] at hb
      cases hb
    | none =>
      obtain ⟨henforced, hreported⟩ := lines_of_fills hp
      exact ⟨hclaims.1, hclaims.2, henforced, hreported⟩

/-- What an interceptor of content policies has done that passed the request on. -/
theorem gathered_of_pass {policies : List ContentPolicy} {configs : Configs}
    {ctx started next : Context} {state : PolicyState} (h : Started ctx started state)
    (hb : (interceptor policies).before configs ctx = (.pass, next)) :
    Gathered next (extend policies configs state) ∧ next.world = started.world := by
  obtain ⟨next', hb', hg, -, -, hworld⟩ := before_of_ready h (ready_of_pass h hb)
  rw [hb, Prod.mk.injEq] at hb'
  obtain ⟨-, rfl⟩ := hb'
  exact ⟨hg, hworld⟩

/-! ### Several interceptors -/

/-- The policies of several interceptors behind those that are there. -/
def extendAll (lists : List (List ContentPolicy)) (configs : Configs) (state : PolicyState) :
    PolicyState :=
  lists.foldl (fun state policies => extend policies configs state) state

/-- The texts of two lists of policies are those of the first and those of the second. -/
theorem texts_append (ps qs : List ContentPolicy) (nonce : String) (configs : Configs) :
    texts (ps ++ qs) nonce configs = texts ps nonce configs ++ texts qs nonce configs :=
  List.filterMap_append

/-- On a route with policies, all of them are written in order. -/
theorem extendAll_eq {configs : Configs} (hc : configs.has .withoutPolicies = false)
    (lists : List (List ContentPolicy)) (state : PolicyState) :
    extendAll lists configs state = { state with
      enforced := state.enforced ++
        texts (lists.flatten.filter fun p => !p.reportOnly) state.nonce configs
      reported := state.reported ++
        texts (lists.flatten.filter fun p => p.reportOnly) state.nonce configs } := by
  induction lists generalizing state with
  | nil => simp [extendAll, texts]
  | cons policies rest ih =>
    have hextend : extend policies configs state = { state with
        enforced := state.enforced ++ texts (policies.filter fun p => !p.reportOnly) state.nonce configs
        reported := state.reported ++
          texts (policies.filter fun p => p.reportOnly) state.nonce configs } := by
      unfold extend
      rw [if_neg (by simp [hc])]
    rw [extendAll, List.foldl_cons, ← extendAll, ih, hextend]
    simp only [List.flatten_cons, List.filter_append, texts_append, List.append_assoc]

/-- Interceptors of content policies pass the request on, with all their policies behind those that
were there. -/
theorem passed_of_started {policies : List ContentPolicy} {lists : List (List ContentPolicy)}
    {configs : Configs} {ctx started : Context} {state : PolicyState}
    (h : Started ctx started state)
    (hw : ∀ ps ∈ policies :: lists, Writable ps state.nonce configs) :
    ∃ next, Passed configs ((policies :: lists).map interceptor) ctx next ∧
      Gathered next (extendAll (policies :: lists) configs state) ∧
      (∀ name, Other name → SameAt ctx.headers next.headers name) ∧
      next.request = ctx.request ∧ next.world = started.world := by
  induction lists generalizing policies ctx started state with
  | nil =>
    obtain ⟨next, hb, hg, hs, hr, hworld⟩ := before_of_started h (hw policies List.mem_cons_self)
    exact ⟨next, .single hb, hg, hs, hr, hworld⟩
  | cons others rest ih =>
    rw [List.forall_mem_cons] at hw
    obtain ⟨mid, hb, hg, hs, hr, hworld⟩ := before_of_started h hw.1
    have hw' : ∀ ps ∈ others :: rest, Writable ps (extend policies configs state).nonce configs := by
      rw [nonce_extend]
      exact hw.2
    obtain ⟨next, hp, hg', hs', hr', hworld'⟩ := ih hg.started hw'
    refine ⟨next, .cons hb hp, hg', ?_, hr'.trans hr, hworld'.trans hworld⟩
    intro name hn
    exact (hs name hn).trans (hs' name hn)

end Palisade.ContentSecurity
