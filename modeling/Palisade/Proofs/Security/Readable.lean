import Palisade.Proofs.Security.Stack

/-!
# The interceptors keep headers readable

Most interceptors do nothing but steps each of which keeps what can be read back. Those of content
policies write with the claims that the first of them has made, and these are of their two headers. So
with any settings what a reply says can be read back.
-/
namespace Palisade

open Palisade.Text ResponseHeaders

namespace ContentSecurity

/-- The claims that an interceptor of content policies starts with are of their two headers. -/
theorem readable_start {ctx : Context} (hc : ctx.Readable) :
    (start ctx).1.Readable ∧ ∀ state, (start ctx).2 = .ok state →
      state.enforce = ⟨enforcedHeader⟩ ∧ state.report = ⟨reportedHeader⟩ := by
  unfold start
  split
  · rename_i state hs
    refine ⟨hc, ?_⟩
    rintro _ ⟨⟩
    exact hc.claims state hs
  · simp only
    split
    · refine ⟨⟨hc.headers, hc.claims⟩, ?_⟩
      rintro _ ⟨⟩
    · rename_i enforce claimed he
      obtain ⟨-, -, rfl, rfl⟩ := claim_eq_ok_iff.1 he
      split
      · refine ⟨⟨⟨hc.headers.fields, hc.headers.cookies⟩, hc.claims⟩, ?_⟩
        rintro _ ⟨⟩
      · rename_i report both hr
        obtain ⟨-, -, rfl, rfl⟩ := claim_eq_ok_iff.1 hr
        refine ⟨⟨⟨hc.headers.fields, hc.headers.cookies⟩, hc.claims⟩, ?_⟩
        rintro _ ⟨⟩
        exact ⟨rfl, rfl⟩

/-- Policies that are added leave the claims. -/
theorem claims_extend (policies : List ContentPolicy) (configs : Configs) (state : PolicyState) :
    (extend policies configs state).enforce = state.enforce ∧
      (extend policies configs state).report = state.report := by
  unfold extend
  split <;> exact ⟨rfl, rfl⟩

/-- Policies are applied under plain names. -/
theorem readable_apply (policies : List ContentPolicy) (configs : Configs) {ctx : Context}
    (hc : ctx.Readable) : (apply policies configs ctx).1.Readable := by
  obtain ⟨hstarted, hclaims⟩ := readable_start hc
  unfold apply
  cases hs : start ctx with
  | mk started result =>
    rw [hs] at hstarted hclaims
    cases result with
    | error e => exact hstarted
    | ok state =>
      obtain ⟨henforce, hreport⟩ := hclaims state rfl
      obtain ⟨he, hr⟩ := claims_extend policies configs state
      have hw : ∀ w ∈ [HeaderWrite.fill (extend policies configs state).enforce
            (extend policies configs state).enforced,
          .fill (extend policies configs state).report (extend policies configs state).reported],
          PlainName w.name := by
        rw [List.forall_mem_cons, List.forall_mem_singleton, HeaderWrite.name, HeaderWrite.name, he,
          hr, henforce, hreport]
        decide
      refine ⟨(hstarted.perform hw).headers, ?_⟩
      intro kept hk
      simp only [Context.keep, Extensions.get?_insert_self, Option.some.injEq] at hk
      subst hk
      rw [he, hr]
      exact ⟨henforce, hreport⟩

/-- An interceptor of content policies keeps what can be read back. -/
theorem keepsReadable (policies : List ContentPolicy) : (interceptor policies).KeepsReadable where
  before configs _ hc :=
    Interceptor.afterWrites_induction (fun _ e hc => hc.record e) (readable_apply policies configs hc)
  commit _ _ _ hc := hc

end ContentSecurity

/-- Whatever the settings are, their interceptors keep headers readable. -/
theorem Settings.keepsReadable {s : Settings} {key : Bytes} {is : List Interceptor}
    (h : s.interceptors key = .ok is) : ∀ i ∈ is, i.KeepsReadable := by
  intro i hi
  rcases interceptors_cases h i hi with hs | ⟨policies, rfl⟩
  · exact hs.keepsReadable
  · exact ContentSecurity.keepsReadable policies

end Palisade
