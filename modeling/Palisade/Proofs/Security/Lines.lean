import Palisade.Security.OwnHeaders

/-!
# Security headers keep their lines

The values of security headers are put together from fixed texts, numbers, nonces and texts of the
settings. Only the texts of the settings can break a line; if they do not, no value does.
-/
namespace Palisade

open Palisade.Text

/-- A nonce is one line. -/
theorem ContentSecurity.breaksLine_nonceOf (bytes : Bytes) : breaksLine (nonceOf bytes) = false := by
  have hchar : ∀ n : Fin 64, Base64.standard.char n ≠ '\r' ∧ Base64.standard.char n ≠ '\n' ∧
      Base64.standard.char n ≠ '\x00' := by decide
  rw [breaksLine_eq_false_iff, nonceOf, String.toList_ofList]
  intro c hc
  rcases List.mem_append.1 hc with hc | hc
  · obtain ⟨n, hn, rfl⟩ := Base64.exists_of_mem_encode hc
    exact hchar ⟨n, hn⟩
  · have he : c = '=' := by
      unfold Base64.padding at hc
      split at hc <;> simp at hc <;> exact hc
    subst he
    decide

/-- A text that need not be there keeps its line. -/
def KeepsLine (text : Option String) : Prop := ∀ t, text = some t → breaksLine t = false

/-- The value of the header for secure transport is one line. -/
theorem TransportSecurity.breaksLine_headerValue (t : TransportSecurity) :
    breaksLine t.headerValue = false := by
  unfold headerValue
  simp only [breaksLine_append, breaksLine_showNat, Bool.or_false]
  cases t.includeSubdomains <;> cases t.preload <;> decide

/-- A policy on openers is one line if its address for reports is. -/
theorem OpenerPolicy.breaksLine_headerValue {p : OpenerPolicy} (h : KeepsLine p.reportTo) :
    breaksLine p.headerValue = false := by
  have hmode : breaksLine p.mode.name = false := by
    cases p.mode <;> decide
  unfold headerValue
  cases hr : p.reportTo with
  | none => exact hmode
  | some group =>
    simp only [breaksLine_append, hmode, h group hr, Bool.or_false]
    decide

namespace ContentPolicy

/-- The address for reports does not break the line of a policy. -/
theorem breaksLine_withReports {policy : String} {reportUri : Option String}
    (hp : breaksLine policy = false) (hr : KeepsLine reportUri) :
    breaksLine (withReports policy reportUri) = false := by
  unfold withReports
  cases hu : reportUri with
  | none => exact hp
  | some uri =>
    simp only [breaksLine_append, hp, hr uri hu, Bool.or_false]
    decide

end ContentPolicy

/-- A strict policy is one line if what it is made of is. -/
theorem StrictPolicy.breaksLine_serialize {p : StrictPolicy} {nonce : String}
    (hn : breaksLine nonce = false) (hr : KeepsLine p.reportUri) (hb : KeepsLine p.baseUri) :
    breaksLine (p.serialize nonce) = false := by
  have hbase : breaksLine (p.baseUri.getD "'none'") = false := by
    cases hu : p.baseUri with
    | none => decide
    | some uri => exact hb uri hu
  have hsource : breaksLine (p.scriptSource nonce) = false := by
    unfold scriptSource
    simp only [breaksLine_append, hn, Bool.or_false]
    cases p.noStrictDynamic <;> cases p.unsafeEval <;> decide
  apply ContentPolicy.breaksLine_withReports _ hr
  simp only [breaksLine_append, hbase, hsource, Bool.or_false]
  decide

end Palisade
