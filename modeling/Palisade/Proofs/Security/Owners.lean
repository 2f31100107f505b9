import Palisade.Proofs.Security.Lines
import Palisade.Proofs.Service.Passage

/-!
# Which headers the interceptors own

Four of the interceptors own headers: they claim them, give them values and pass the request on. On a
route that does not tune these headers the values are those of the settings, and they can be sent.
-/
namespace Palisade

open Palisade.Text ResponseHeaders

namespace TransportSecurity

/-- The header that tells browsers to come with encryption. -/
def pins (t : TransportSecurity) : List Pin := [⟨headerName, [t.headerValue]⟩]

/-- A request that counts as encrypted gets the header. -/
theorem owns {t : TransportSecurity} {ctx : Context}
    (h : t.behindProxy = true ∨ ctx.request.tls = true) (configs : Configs) :
    t.interceptor.Owns configs t.pins ctx := by
  have hb : (t.behindProxy || ctx.request.tls) = true := by
    rwa [Bool.or_eq_true]
  unfold Interceptor.Owns interceptor
  simp only [hb, if_true]
  rfl

/-- Its value is one line, and the name can be written. -/
theorem valid (t : TransportSecurity) : ∀ p ∈ t.pins, p.Valid := by
  intro p hp
  obtain rfl := List.mem_singleton.1 hp
  have hn : checkName headerName = .ok () := checkName_eq_ok_iff.2 (by decide)
  refine ⟨hn, ?_⟩
  simp [t.breaksLine_headerValue]

end TransportSecurity

namespace FixedHeaders

/-- The two headers that every response carries. -/
def pins : List Pin := [⟨typeHeader, ["nosniff"]⟩, ⟨filterHeader, ["0"]⟩]

/-- It owns its headers on every route. -/
theorem owns (configs : Configs) (ctx : Context) : interceptor.Owns configs pins ctx := rfl

/-- Its values are lines, and the names can be written. -/
theorem valid : ∀ p ∈ pins, p.Valid := by
  intro p hp
  simp only [pins, List.mem_cons, List.not_mem_nil, or_false] at hp
  rcases hp with rfl | rfl
  · exact ⟨checkName_eq_ok_iff.2 (by decide), by decide⟩
  · exact ⟨checkName_eq_ok_iff.2 (by decide), by decide⟩

end FixedHeaders

namespace OpenerIsolation

/-- The two headers of policies on openers. -/
def pins (policies : List OpenerPolicy) : List Pin :=
  [⟨OpenerPolicy.enforcedHeader,
      (policies.filter fun p => !p.reportOnly).map OpenerPolicy.headerValue⟩,
    ⟨OpenerPolicy.reportedHeader,
      (policies.filter fun p => p.reportOnly).map OpenerPolicy.headerValue⟩]

/-- A route without a policy of its own gets the usual ones. -/
theorem owns (policies : List OpenerPolicy) {configs : Configs} (h : configs.opener? = none)
    (ctx : Context) : (interceptor policies).Owns configs (pins policies) ctx := by
  have he : effective policies configs = policies := by
    unfold effective
    rw [h]
  unfold Interceptor.Owns interceptor Interceptor.ofWrites
  simp only [he]
  rfl

/-- Its values are lines if the addresses for reports are. -/
theorem valid {policies : List OpenerPolicy} (h : ∀ p ∈ policies, KeepsLine p.reportTo) :
    ∀ p ∈ pins policies, p.Valid := by
  have hvalues : ∀ q : OpenerPolicy → Bool,
      ((policies.filter q).map OpenerPolicy.headerValue).any breaksLine = false := by
    intro q
    rw [List.any_eq_false]
    intro value hv
    obtain ⟨p, hp, rfl⟩ := List.mem_map.1 hv
    have hb := OpenerPolicy.breaksLine_headerValue (h p (List.mem_filter.1 hp).1)
    simp [hb]
  have he : checkName OpenerPolicy.enforcedHeader = .ok () := checkName_eq_ok_iff.2 (by decide)
  have hr : checkName OpenerPolicy.reportedHeader = .ok () := checkName_eq_ok_iff.2 (by decide)
  intro p hp
  simp only [pins, List.mem_cons, List.not_mem_nil, or_false] at hp
  rcases hp with rfl | rfl
  · exact ⟨he, hvalues _⟩
  · exact ⟨hr, hvalues _⟩

end OpenerIsolation

namespace Framing

/-- The older header against framing. -/
def pins : List Pin := [⟨headerName, ["SAMEORIGIN"]⟩]

/-- A route that says nothing of framing gets the header. -/
theorem owns {configs : Configs} (h : policyDecides configs = false) (ctx : Context) :
    interceptor.Owns configs pins ctx := by
  have hw : writes configs = Pin.writes pins := by
    unfold writes
    rw [h]
    rfl
  unfold Interceptor.Owns interceptor Interceptor.ofWrites
  simp only [hw]

/-- Its value is one line, and the name can be written. -/
theorem valid : ∀ p ∈ pins, p.Valid := by
  intro p hp
  obtain rfl := List.mem_singleton.1 hp
  exact ⟨checkName_eq_ok_iff.2 (by decide), by decide⟩

end Framing

end Palisade
