import Palisade.Proofs.Security.Admission
import Palisade.Proofs.Security.Frames
import Palisade.Proofs.Security.Submission

/-!
# Which headers an interceptor touches

Before the handler each interceptor of the library claims and writes a few headers that are its own,
and leaves all others as they were. From this follows what a chain of them leaves to an interceptor of
another kind: the request, and every header that is not one of theirs. What they do to their own headers
is described elsewhere.
-/
namespace Palisade

open Palisade.Text ResponseHeaders

/-! ### Interceptors with headers of their own -/

namespace Interceptor

/-- Before the handler the interceptor claims and writes no headers but those of these names. -/
def Confined (i : Interceptor) (names : List String) : Prop :=
  ∀ configs ctx other, (∀ name ∈ names, alike name other = false) →
    SameAt ctx.headers (i.before configs ctx).2.headers other

/-- Writes leave every header alone that they do not name. -/
theorem sameAt_afterWrites {name : String} {onward : Flow} {ctx : Context} {ws : List HeaderWrite}
    {other : String} (ho : ∀ w ∈ ws, alike w.name other = false) :
    SameAt ctx.headers (afterWrites name onward (ctx.perform ws)).2.headers other := by
  refine afterWrites_induction (P := fun next => SameAt ctx.headers next.headers other)
    (fun _ _ hs => hs) ?_
  exact HeaderWrite.sameAt_performAll ctx.headers ws fun w hw => .inl (ho w hw)

/-- An interceptor that only writes headers is confined to the names of its writes. -/
theorem confined_ofWrites {name : String} {writes : Configs → List HeaderWrite} {names : List String}
    (hw : ∀ configs, ∀ w ∈ writes configs, w.name ∈ names) : (ofWrites name writes).Confined names :=
  fun configs _ _ ho => sameAt_afterWrites fun w hm => ho w.name (hw configs w hm)

/-- An interceptor that is confined to other headers than those of content policies. -/
theorem Stepwise.sparesPolicies {i : Interceptor} (hs : i.Stepwise) {names : List String}
    (hi : i.Confined names) (ho : ∀ name ∈ names, ContentSecurity.Other name) : i.SparesPolicies where
  enforced configs ctx := by
    refine hi configs ctx _ fun name hn => ?_
    rw [alike_comm]
    exact (ho name hn).1
  reported configs ctx := by
    refine hi configs ctx _ fun name hn => ?_
    rw [alike_comm]
    exact (ho name hn).2
  kept configs ctx := (hs.before configs ctx).policies_eq

end Interceptor

/-- It is confined to the header of secure transport. -/
theorem TransportSecurity.confined (t : TransportSecurity) : t.interceptor.Confined [headerName] := by
  intro configs ctx other ho
  unfold interceptor
  simp only
  split
  · refine Interceptor.sameAt_afterWrites fun w hw => ?_
    obtain rfl := List.mem_singleton.1 hw
    exact ho headerName List.mem_cons_self
  · exact .refl _ other

/-- It is confined to its two headers. -/
theorem FixedHeaders.confined : interceptor.Confined [typeHeader, filterHeader] :=
  Interceptor.confined_ofWrites fun _ _ hw => List.mem_map_of_mem (f := HeaderWrite.name) hw

/-- It is confined to the two headers of openers. -/
theorem OpenerIsolation.confined (policies : List OpenerPolicy) :
    (interceptor policies).Confined [OpenerPolicy.enforcedHeader, OpenerPolicy.reportedHeader] :=
  Interceptor.confined_ofWrites fun _ _ hw => List.mem_map_of_mem (f := HeaderWrite.name) hw

/-- It is confined to the header against framing. -/
theorem Framing.confined : interceptor.Confined [headerName] := by
  refine Interceptor.confined_ofWrites fun configs w hw => ?_
  unfold writes at hw
  split at hw <;> (obtain rfl := List.mem_singleton.1 hw; exact List.mem_cons_self)

/-- It writes no header at all. -/
theorem FetchMetadata.confined (f : FetchMetadata) : f.interceptor.Confined [] := by
  intro configs ctx other _
  unfold interceptor
  simp only
  split
  · exact .refl _ other
  · split
    · exact .refl _ other
    · split <;> exact .refl _ other

/-- The protection of forms writes no header: it queues a cookie at most. -/
theorem FormForgery.confined (key : TokenKey) : (interceptor key).Confined [] := by
  intro configs ctx other _
  rcases before_cases key configs ctx with ⟨refusal, -, hb⟩ | hb
  · rw [hb]
    exact .refl _ other
  · obtain ⟨value, next, hk, hi⟩ := exists_issue key ctx
    rw [hb, hi]
    cases hk with
    | kept => exact .refl _ other
    | new => exact sameAt_addCookie ctx.headers _ other

namespace ScriptForgery

/-- A token that is renewed changes no header. -/
theorem sameAt_renew (key : TokenKey) (ctx : Context) (other : String) :
    SameAt ctx.headers (renew key ctx).2.headers other := by
  unfold renew issue
  split
  · exact .refl _ other
  · simp only
    split
    · exact sameAt_addCookie ctx.headers _ other
    · exact .refl _ other

/-- The protection of scripts writes no header either. -/
theorem confined (key : TokenKey) : (interceptor key).Confined [] := by
  intro configs ctx other _
  unfold interceptor
  simp only
  split
  · split
    · exact .refl _ other
    · exact sameAt_renew key ctx other
  · exact sameAt_renew key ctx other

end ScriptForgery

/-! ### The interceptors of the library -/

namespace Interceptor

/-- The interceptors of the library, but for those that answer requests of other origins. -/
inductive Shipped : Interceptor → Prop where
  | transport (t : TransportSecurity) : Shipped t.interceptor
  | fixed : Shipped FixedHeaders.interceptor
  | openers (policies : List OpenerPolicy) : Shipped (OpenerIsolation.interceptor policies)
  | policies (policies : List ContentPolicy) : Shipped (ContentSecurity.interceptor policies)
  | framing : Shipped Framing.interceptor
  | metadata (f : FetchMetadata) : Shipped f.interceptor
  | forms (key : TokenKey) : Shipped (FormForgery.interceptor key)
  | scripts (key : TokenKey) : Shipped (ScriptForgery.interceptor key)

/-- None of the headers that these interceptors write has the name. -/
def Unwritten (other : String) : Prop := ∀ name ∈ Settings.promisedNames, alike name other = false

/-- Whether a name is unwritten can be computed. -/
instance (other : String) : Decidable (Unwritten other) := inferInstanceAs (Decidable (∀ _ ∈ _, _))

/-- The headers of content policies are among those that are written. -/
theorem Unwritten.other {other : String} (h : Unwritten other) : ContentSecurity.Other other :=
  ⟨h _ (by decide), h _ (by decide)⟩

variable {i : Interceptor}

/-- All but those of content policies do steps alone, and write none but the headers of the library. -/
theorem Shipped.stepwise_or (h : i.Shipped) :
    (i.Stepwise ∧ ∃ names, names ⊆ Settings.promisedNames ∧ i.Confined names) ∨
      ∃ policies, i = ContentSecurity.interceptor policies := by
  cases h with
  | transport t => exact .inl ⟨t.stepwise, _, by decide, t.confined⟩
  | fixed => exact .inl ⟨FixedHeaders.stepwise, _, by decide, FixedHeaders.confined⟩
  | openers policies =>
    exact .inl ⟨OpenerIsolation.stepwise policies, _, by decide, OpenerIsolation.confined policies⟩
  | policies policies => exact .inr ⟨policies, rfl⟩
  | framing => exact .inl ⟨Framing.stepwise, _, by decide, Framing.confined⟩
  | metadata f => exact .inl ⟨f.stepwise, _, List.nil_subset _, f.confined⟩
  | forms key =>
    exact .inl ⟨FormForgery.stepwise key, _, List.nil_subset _, FormForgery.confined key⟩
  | scripts key =>
    exact .inl ⟨ScriptForgery.stepwise key, _, List.nil_subset _, ScriptForgery.confined key⟩

/-- All interceptors of the library leave the request as it is. -/
theorem Shipped.keepsRequest (h : i.Shipped) : i.KeepsRequest := by
  rcases h.stepwise_or with ⟨hs, -⟩ | ⟨policies, rfl⟩
  · exact hs.keepsRequest
  · exact ContentSecurity.keepsRequest policies

/-- Behind the handler they leave the context as it is. -/
theorem Shipped.commit_eq (h : i.Shipped) (configs : Configs) (response : Response) (ctx : Context) :
    (i.commit configs response ctx).2 = ctx := by
  rcases h.stepwise_or with ⟨hs, -⟩ | ⟨policies, rfl⟩
  · exact hs.commit configs response ctx
  · rfl

/-- All interceptors of the library leave the state of content policies consistent. -/
theorem Shipped.consistent (h : i.Shipped) (configs : Configs) {ctx : Context}
    (hc : ContentSecurity.Consistent ctx) :
    ContentSecurity.Consistent (i.before configs ctx).2 := by
  rcases h.stepwise_or with ⟨hs, -⟩ | ⟨policies, rfl⟩
  · exact hc.considerate hs.considerate
  · exact ContentSecurity.consistent_before policies configs hc

/-- Headers of other names stay as they were. -/
theorem Shipped.sameAt (h : i.Shipped) (configs : Configs) {ctx : Context}
    (hc : ContentSecurity.Consistent ctx) {other : String} (ho : Unwritten other) :
    SameAt ctx.headers (i.before configs ctx).2.headers other := by
  rcases h.stepwise_or with ⟨-, names, hsub, hi⟩ | ⟨policies, rfl⟩
  · exact hi configs ctx other fun name hn => ho name (hsub hn)
  · exact (ContentSecurity.before_cases hc rfl).1 other ho.other

end Interceptor

/-- A fresh request has no policies, and so they are consistent. -/
theorem ContentSecurity.consistent_ofRequest (request : Request) (captures : Captures)
    (world : World) : Consistent (.ofRequest request captures world) := by
  intro state hk
  cases hk

/-- What a chain of interceptors of the library hands on: the request, and all headers but its own. -/
theorem Passed.of_shipped {configs : Configs} {is : List Interceptor} {ctx next : Context}
    (h : Passed configs is ctx next) (hi : ∀ i ∈ is, i.Shipped)
    (hc : ContentSecurity.Consistent ctx) :
    next.request = ctx.request ∧ ContentSecurity.Consistent next ∧
      ∀ other, Interceptor.Unwritten other → SameAt ctx.headers next.headers other := by
  induction h with
  | nil => exact ⟨rfl, hc, fun other _ => .refl _ other⟩
  | @cons i rest ctx mid last first _ ih =>
    rw [List.forall_mem_cons] at hi
    have hr := hi.1.keepsRequest configs ctx
    have hnext := hi.1.consistent configs hc
    have hsame : ∀ other, Interceptor.Unwritten other → SameAt ctx.headers mid.headers other := by
      intro other ho
      have hs := hi.1.sameAt configs hc ho
      rwa [first] at hs
    rw [first] at hr hnext
    obtain ⟨hr', hlast, hsame'⟩ := ih hi.2 hnext
    exact ⟨hr'.trans hr, hlast, fun other ho => (hsame other ho).trans (hsame' other ho)⟩

end Palisade
