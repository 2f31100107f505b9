import Palisade.Proofs.Security.Steps
import Palisade.Proofs.Service.Layers

/-!
# Interceptors that keep headers

Four interceptors of the library claim headers of their own, give them values and do nothing else. They
are put together as data here, with the headers that they claim, so that what holds of all four is said
once. A write that claims its header succeeds only if nobody has claimed it before, and then the header
is as it says.
-/
namespace Palisade

open Palisade.Text ResponseHeaders

/-! ### Writes that claim -/

namespace HeaderWrite

/-- The write claims the header that it is about. -/
def Claims : HeaderWrite → Prop
  | reserve _ | own _ _ => True
  | _ => False

/-- The header is claimed, and it has the values that the write has given it. If it gave none then they
are those that there were before. -/
def Done (h h' : ResponseHeaders) : HeaderWrite → Prop
  | reserve name => h'.isClaimed name = true ∧ h'.headers.fieldsOf name = h.headers.fieldsOf name
  | own name values => Pinned h' name values ∧ values.any breaksLine = false
  | _ => False

variable {h mid h' : ResponseHeaders} {w : HeaderWrite} {ws : List HeaderWrite}

/-- Who claims a header needs no claim of it. -/
theorem Claims.free (hc : w.Claims) : w.Free := by
  cases w with
  | reserve name | own name values => trivial
  | fill c values | add name value | set name value => exact hc.elim

/-- Behind a write that claims, the header is claimed. -/
theorem Done.isClaimed (hd : w.Done h h') : h'.isClaimed w.name = true := by
  cases w with
  | reserve name => exact hd.1
  | own name values => exact hd.1.isClaimed
  | fill c values | add name value | set name value => exact hd.elim

/-- What was written stands as long as the header stays as it is. -/
theorem Done.of_same_after (hd : w.Done h mid) (hs : SameAt mid h' w.name) : w.Done h h' := by
  cases w with
  | reserve name => exact ⟨hs.isClaimed_eq.trans hd.1, hs.fieldsOf_eq.trans hd.2⟩
  | own name values => exact ⟨hd.1.of_same hs, hd.2⟩
  | fill c values | add name value | set name value => exact hd.elim

/-- It stands as well if the header had stayed as it was before. -/
theorem Done.of_same_before (hd : w.Done mid h') (hs : SameAt h mid w.name) : w.Done h h' := by
  cases w with
  | reserve name => exact ⟨hd.1, hd.2.trans hs.fieldsOf_eq⟩
  | own name values => exact hd
  | fill c values | add name value | set name value => exact hd.elim

/-- What was written does not depend on anything but what there was before. -/
theorem Done.sameAt (hd : w.Done h mid) (hd' : w.Done h h') : SameAt mid h' w.name := by
  refine ⟨hd'.isClaimed.trans hd.isClaimed.symm, ?_⟩
  cases w with
  | reserve name => exact hd'.2.trans hd.2.symm
  | own name values => exact hd'.1.fieldsOf.trans hd.1.fieldsOf.symm
  | fill c values | add name value | set name value => exact hd.elim

/-- A write that claims its header and is not refused finds it unclaimed. -/
theorem done_of_perform (hc : w.Claims) (hp : perform h w = (h', none)) :
    h.isClaimed w.name = false ∧ w.Done h h' := by
  cases w with
  | reserve name =>
    cases hclaim : h.claim name with
    | error e => simp [perform, hclaim, Except.map, orKeep] at hp
    | ok p =>
      obtain ⟨c, claimed⟩ := p
      simp only [perform, hclaim, Except.map, orKeep, Prod.mk.injEq, and_true] at hp
      obtain ⟨-, hf, -, he⟩ := claim_eq_ok_iff.1 hclaim
      subst hp
      rw [he]
      refine ⟨hf, ?_, rfl⟩
      rw [isClaimed_cons, alike_refl, Bool.true_or]
  | own name values =>
    rcases perform_own_cases h name values with ⟨written, hw, hf, hv, hpinned⟩ | ⟨written, e, hw, -⟩
    · rw [hp, Prod.mk.injEq] at hw
      obtain ⟨rfl, -⟩ := hw
      exact ⟨hf, hpinned, hv⟩
    · rw [hp, Prod.mk.injEq] at hw
      cases hw.2
  | fill c values | add name value | set name value => exact hc.elim

/-- Writes that claim their headers and are not refused find all of them unclaimed, and all of them are
done. -/
theorem done_of_performAll (hc : ∀ w ∈ ws, w.Claims) (hp : performAll h ws = (h', none)) :
    ∀ w ∈ ws, h.isClaimed w.name = false ∧ w.Done h h' := by
  induction ws generalizing h with
  | nil => exact List.forall_mem_nil _
  | cons w rest ih =>
    rw [List.forall_mem_cons] at hc ⊢
    unfold performAll at hp
    cases hw : perform h w with
    | mk mid error? =>
      rw [hw] at hp
      cases error? with
      | some e => cases hp
      | none =>
        simp only at hp
        obtain ⟨hf, hd⟩ := done_of_perform hc.1 hw
        have hrespects := respects_performAll mid rest fun v hv => (hc.2 v hv).free
        rw [hp] at hrespects
        refine ⟨⟨hf, hd.of_same_after (hrespects w.name hd.isClaimed)⟩, fun v hv => ?_⟩
        obtain ⟨hfree, hdone⟩ := ih hc.2 hp v hv
        have hs : SameAt h mid v.name := by
          have hne : alike w.name v.name = false := by
            rw [alike_comm]
            exact not_alike_of_isClaimed hfree hd.isClaimed
          have hsame := sameAt_perform h w (.inl hne)
          rwa [hw] at hsame
        exact ⟨hs.isClaimed_eq.symm.trans hfree, hdone.of_same_before hs⟩

end HeaderWrite

/-! ### The four -/

/-- Which of the four an interceptor is. -/
inductive Keeper.Kind where
  | transport
  | fixed
  | openers
  | framing
  deriving DecidableEq

/-- An interceptor that claims headers of its own, with its settings. -/
inductive Keeper where
  | transport (t : TransportSecurity)
  | fixed
  | openers (policies : List OpenerPolicy)
  | framing

namespace Keeper

/-- Which of the four it is. -/
def kind : Keeper → Kind
  | transport _ => .transport
  | fixed => .fixed
  | openers _ => .openers
  | framing => .framing

/-- The interceptor. -/
def interceptor : Keeper → Interceptor
  | transport t => t.interceptor
  | fixed => FixedHeaders.interceptor
  | openers policies => OpenerIsolation.interceptor policies
  | framing => Framing.interceptor

/-- What it writes on a route, for a request over an encrypted connection. -/
def writes (configs : Configs) : Keeper → List HeaderWrite
  | transport t => [.own TransportSecurity.headerName [t.headerValue]]
  | fixed => FixedHeaders.writes
  | openers policies => OpenerIsolation.writes (OpenerIsolation.effective policies configs)
  | framing => Framing.writes configs

/-- The headers of a kind. -/
def Kind.names : Kind → List String
  | transport => [TransportSecurity.headerName]
  | fixed => [FixedHeaders.typeHeader, FixedHeaders.filterHeader]
  | openers => [OpenerPolicy.enforcedHeader, OpenerPolicy.reportedHeader]
  | framing => [Framing.headerName]

/-- The headers that it claims, on every route. -/
def names (k : Keeper) : List String := k.kind.names

variable {k : Keeper} {configs : Configs} {ctx next : Context}

/-- On every route a keeper writes its own headers. -/
theorem names_eq (k : Keeper) (configs : Configs) :
    (k.writes configs).map HeaderWrite.name = k.names := by
  cases k with
  | transport t | fixed | openers policies => rfl
  | framing =>
    simp only [writes, Framing.writes]
    split <;> rfl

/-- A write of a keeper is about one of its headers. -/
theorem name_mem_names {w : HeaderWrite} (hw : w ∈ k.writes configs) : w.name ∈ k.names := by
  rw [← k.names_eq configs]
  exact List.mem_map_of_mem hw

/-- Each write of a keeper claims its header. -/
theorem claims_of_mem (k : Keeper) (configs : Configs) : ∀ w ∈ k.writes configs, w.Claims := by
  cases k with
  | transport t => exact List.forall_mem_singleton.2 trivial
  | fixed | openers policies =>
    exact List.forall_mem_cons.2 ⟨trivial, List.forall_mem_singleton.2 trivial⟩
  | framing =>
    simp only [writes, Framing.writes]
    split <;> exact List.forall_mem_singleton.2 trivial

/-- Headers of these names can be claimed, and none of them is written when a response is encoded. -/
theorem kept_of_mem_names (k : Keeper) :
    ∀ name ∈ k.names, checkName name = .ok () ∧ Service.Kept name := by
  have hkind : ∀ kind : Kind, ∀ name ∈ kind.names,
      (isToken name = true ∧ alike name cookieName = false) ∧ Service.Kept name := by
    intro kind
    cases kind <;> decide
  intro name hn
  obtain ⟨hname, hkept⟩ := hkind k.kind name hn
  exact ⟨checkName_eq_ok_iff.2 hname, hkept⟩

/-- A keeper goes from step to step. -/
theorem stepwise (k : Keeper) : k.interceptor.Stepwise := by
  cases k with
  | transport t => exact t.stepwise
  | fixed => exact FixedHeaders.stepwise
  | openers policies => exact OpenerIsolation.stepwise policies
  | framing => exact Framing.stepwise

/-- When a response has been written it does nothing. -/
theorem commit_eq (k : Keeper) (configs : Configs) (response : Response) (ctx : Context) :
    k.interceptor.commit configs response ctx = (response, ctx) := by
  cases k <;> rfl

/-- For a request over an encrypted connection it writes its headers and passes the request on. -/
theorem before_eq (k : Keeper) (configs : Configs) (htls : ctx.request.tls = true) :
    k.interceptor.before configs ctx =
      Interceptor.afterWrites k.interceptor.name .pass (ctx.perform (k.writes configs)) := by
  cases k with
  | transport t =>
    have hb : (t.behindProxy || ctx.request.tls) = true := by rw [htls, Bool.or_true]
    simp only [interceptor, TransportSecurity.interceptor, hb, if_true]
    rfl
  | fixed | openers policies | framing => rfl

/-- If it passes a request on then nobody had claimed its headers before, and they have its values. -/
theorem done_of_pass (htls : ctx.request.tls = true)
    (hb : k.interceptor.before configs ctx = (.pass, next)) :
    (∃ headers, next = { ctx with headers }) ∧
      ∀ w ∈ k.writes configs, ctx.headers.isClaimed w.name = false ∧ w.Done ctx.headers next.headers := by
  rw [before_eq k configs htls, Context.perform] at hb
  cases hp : HeaderWrite.performAll ctx.headers (k.writes configs) with
  | mk headers error? =>
    rw [hp] at hb
    cases error? with
    | some e => cases hb
    | none =>
      obtain rfl : { ctx with headers } = next := congrArg Prod.snd hb
      exact ⟨⟨headers, rfl⟩, HeaderWrite.done_of_performAll (k.claims_of_mem configs) hp⟩

/-- If somebody has claimed one of its headers before then it answers with an error of the server. -/
theorem rejects_of_isClaimed (htls : ctx.request.tls = true) {name : String} (hn : name ∈ k.names)
    (hc : ctx.headers.isClaimed name = true) :
    ∃ after, k.interceptor.before configs ctx = (.reject .internalServerError, after) := by
  rw [before_eq k configs htls, Context.perform]
  cases hp : HeaderWrite.performAll ctx.headers (k.writes configs) with
  | mk headers error? =>
    cases error? with
    | some e => exact ⟨_, rfl⟩
    | none =>
      rw [← k.names_eq configs] at hn
      obtain ⟨w, hw, rfl⟩ := List.mem_map.1 hn
      have hfree := (HeaderWrite.done_of_performAll (k.claims_of_mem configs) hp w hw).1
      rw [hc] at hfree
      cases hfree

end Keeper

end Palisade
