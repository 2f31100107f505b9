import Palisade.Proofs.Response.Fields
import Palisade.Response.HeaderWrite

/-!
# What the operations on headers do

Each operation that is not refused is described once: under which conditions it succeeds and what it
leaves. From these descriptions follows what an operation keeps: it never touches the fields or the
claim of a name that it is not about, and without the claim it never touches a claimed name.
-/
namespace Palisade

open Palisade.Text

namespace ResponseHeaders

/-- A name passes the check exactly if it is a token and not that of cookies. -/
theorem checkName_eq_ok_iff {name : String} :
    checkName name = .ok () ↔ isToken name = true ∧ alike name cookieName = false := by
  unfold checkName
  cases ht : isToken name with
  | false => simp
  | true => cases hc : alike name cookieName <;> simp

/-- A token keeps its line. -/
theorem breaksLine_of_isToken {name : String} (h : isToken name = true) :
    breaksLine name = false := by
  rw [breaksLine_eq_false_iff]
  intro c hc
  have ht : isTokenChar c = true := by
    have hall := (Bool.and_eq_true_iff.1 h).2
    exact List.all_eq_true.1 hall c hc
  refine ⟨?_, ?_, ?_⟩
  all_goals
    rintro rfl
    exact absurd ht (by decide)

/-- Values pass the check exactly if all of them keep their lines. -/
theorem checkValues_eq_ok_iff {name : String} {values : List String} :
    checkValues name values = .ok () ↔ values.any breaksLine = false := by
  unfold checkValues
  cases values.any breaksLine <;> simp

/-- Writing freely succeeds for a name that may be written and is not claimed, with a value that keeps
its line. -/
theorem write_eq_ok_iff {h h' : ResponseHeaders} {name value : String} {change : Headers → Headers} :
    h.write name value change = .ok h' ↔
      checkName name = .ok () ∧ h.isClaimed name = false ∧ breaksLine value = false ∧
        h' = { h with headers := change h.headers } := by
  unfold write checkWritable checkValue
  cases checkName name with
  | error e => simp
  | ok =>
    cases h.isClaimed name with
    | true => simp
    | false =>
      cases breaksLine value with
      | true => simp
      | false => simp [eq_comm]

/-- A claim succeeds once for a name. -/
theorem claim_eq_ok_iff {h h' : ResponseHeaders} {name : String} {c : Claim} :
    h.claim name = .ok (c, h') ↔
      checkName name = .ok () ∧ h.isClaimed name = false ∧ c = ⟨name⟩ ∧
        h' = { h with claimed := lower name :: h.claimed } := by
  unfold claim
  cases checkName name with
  | error e => simp
  | ok =>
    cases h.isClaimed name with
    | true => simp
    | false => simp [eq_comm]

/-- Writing with a claim depends on the values alone. -/
theorem setClaimed_eq_ok_iff {h h' : ResponseHeaders} {c : Claim} {values : List String} :
    h.setClaimed c values = .ok h' ↔
      values.any breaksLine = false ∧
        h' = { h with headers := insertAll (h.headers.remove c.name) c.name values } := by
  unfold setClaimed
  cases hc : checkValues c.name values with
  | error e =>
    have hb : ¬ values.any breaksLine = false := by
      intro hb
      have hok : checkValues c.name values = .ok () := checkValues_eq_ok_iff.2 hb
      rw [hok] at hc
      cases hc
    simp [hb]
  | ok =>
    have hb : values.any breaksLine = false := checkValues_eq_ok_iff.1 hc
    simp only [hb, true_and, Except.ok.injEq, eq_comm]

/-- With one more claim, the names alike to it are claimed, and those that were. -/
theorem isClaimed_cons (h : ResponseHeaders) (name other : String) :
    ({ h with claimed := lower name :: h.claimed } : ResponseHeaders).isClaimed other =
      (alike name other || h.isClaimed other) := by
  simp only [isClaimed, List.contains_cons, alike_comm name other]
  rfl

/-- A claim holds for every spelling of its name. -/
theorem isClaimed_eq_of_alike (h : ResponseHeaders) {name other : String}
    (ha : alike name other = true) : h.isClaimed name = h.isClaimed other := by
  unfold isClaimed
  rw [(alike_iff name other).1 ha]

/-! ### What an operation keeps -/

/-- A name has the same fields as before, and is claimed if it was claimed before. -/
structure SameAt (h h' : ResponseHeaders) (name : String) : Prop where
  isClaimed_eq : h'.isClaimed name = h.isClaimed name
  fieldsOf_eq : h'.headers.fieldsOf name = h.headers.fieldsOf name

/-- Where nothing changes, a name stays as it is. -/
theorem SameAt.refl (h : ResponseHeaders) (name : String) : SameAt h h name := ⟨rfl, rfl⟩

/-- A name that two changes in a row leave stays as it is. -/
theorem SameAt.trans {h h' h'' : ResponseHeaders} {name : String} (first : SameAt h h' name)
    (second : SameAt h' h'' name) : SameAt h h'' name where
  isClaimed_eq := second.isClaimed_eq.trans first.isClaimed_eq
  fieldsOf_eq := second.fieldsOf_eq.trans first.fieldsOf_eq

/-- A name that is written freely is another name than a claimed one. -/
theorem not_alike_of_isClaimed {h : ResponseHeaders} {name other : String}
    (hf : h.isClaimed name = false) (hc : h.isClaimed other = true) : alike name other = false := by
  cases ha : alike name other with
  | false => rfl
  | true => simp [isClaimed_eq_of_alike h ha, hc] at hf

/-- A change of one name keeps the fields of all others. -/
def Local (name : String) (change : Headers → Headers) : Prop :=
  ∀ (fields : Headers) (other : String), alike name other = false →
    (change fields).fieldsOf other = fields.fieldsOf other

/-- Setting a name is about this name alone. -/
theorem local_set (name value : String) : Local name fun fields => fields.set name value :=
  fun fields _ hn => fields.fieldsOf_set_of_ne value hn

/-- Inserting a field is about its name alone. -/
theorem local_insert (name value : String) : Local name fun fields => fields.insert name value :=
  fun fields _ hn => fields.fieldsOf_insert_of_ne value hn

/-- Removing a name is about this name alone. -/
theorem local_remove (name : String) : Local name fun fields => fields.remove name :=
  fun fields _ hn => fields.fieldsOf_remove_of_ne hn

/-- Writing freely keeps every other name and every claimed one. -/
theorem sameAt_write {h h' : ResponseHeaders} {name value other : String}
    {change : Headers → Headers} (hw : h.write name value change = .ok h')
    (hl : Local name change) (ho : alike name other = false ∨ h.isClaimed other = true) :
    SameAt h h' other := by
  obtain ⟨-, hf, -, rfl⟩ := write_eq_ok_iff.1 hw
  have hn : alike name other = false := by
    rcases ho with ho | ho
    · exact ho
    · exact not_alike_of_isClaimed hf ho
  exact ⟨rfl, hl h.headers other hn⟩

/-- A claim leaves other names, and those that are claimed. -/
theorem sameAt_claim {h h' : ResponseHeaders} {name other : String} {c : Claim}
    (hc : h.claim name = .ok (c, h')) (ho : alike name other = false ∨ h.isClaimed other = true) :
    SameAt h h' other := by
  obtain ⟨-, hf, -, rfl⟩ := claim_eq_ok_iff.1 hc
  refine ⟨?_, rfl⟩
  rw [isClaimed_cons]
  rcases ho with ho | ho
  · rw [ho, Bool.false_or]
  · rw [ho, Bool.or_true]

/-- Writing with a claim leaves other names than that of the claim. -/
theorem sameAt_setClaimed {h h' : ResponseHeaders} {c : Claim} {values : List String}
    {other : String} (hs : h.setClaimed c values = .ok h') (hn : alike c.name other = false) :
    SameAt h h' other := by
  obtain ⟨-, rfl⟩ := setClaimed_eq_ok_iff.1 hs
  refine ⟨rfl, ?_⟩
  rw [fieldsOf_insertAll_of_ne _ _ hn, Headers.fieldsOf_remove_of_ne _ hn]

/-- A cookie leaves all names. -/
theorem sameAt_addCookie (h : ResponseHeaders) (cookie : Cookie) (other : String) :
    SameAt h (h.addCookie cookie) other := ⟨rfl, rfl⟩

/-- Every claimed name stays as it was. -/
def Respects (h h' : ResponseHeaders) : Prop := ∀ name, h.isClaimed name = true → SameAt h h' name

/-- Where nothing changes, every claimed name stays as it is. -/
theorem Respects.refl (h : ResponseHeaders) : Respects h h := fun name _ => .refl h name

/-- A name that is claimed stays so, so that two changes in a row keep all of them if each does. -/
theorem Respects.trans {h h' h'' : ResponseHeaders} (first : Respects h h')
    (second : Respects h' h'') : Respects h h'' := by
  intro name hc
  have hs := first name hc
  exact hs.trans (second name (hs.isClaimed_eq.trans hc))

/-- Those of the names that are claimed stay as they were. -/
def RespectsAt (names : List String) (h h' : ResponseHeaders) : Prop :=
  ∀ name ∈ names, h.isClaimed name = true → SameAt h h' name

/-- Where nothing changes, no claimed name does. -/
theorem RespectsAt.refl (names : List String) (h : ResponseHeaders) : RespectsAt names h h :=
  fun name _ _ => .refl h name

/-- A name that is claimed stays so, so that two changes in a row keep it if each of them does. -/
theorem RespectsAt.trans {names : List String} {h h' h'' : ResponseHeaders}
    (first : RespectsAt names h h') (second : RespectsAt names h' h'') : RespectsAt names h h'' := by
  intro name hn hc
  have hs := first name hn hc
  exact hs.trans (second name hn (hs.isClaimed_eq.trans hc))

/-- If every claimed name stays as it was then so do those of a list. -/
theorem Respects.at {h h' : ResponseHeaders} (hr : Respects h h') (names : List String) :
    RespectsAt names h h' := fun name _ => hr name

/-- Every claimed name stays as it was if this holds of each name alone. -/
theorem respects_of_respectsAt {h h' : ResponseHeaders} (hr : ∀ name, RespectsAt [name] h h') :
    Respects h h' := fun name => hr name name List.mem_cons_self

/-- A cookie leaves every claimed name. -/
theorem respects_addCookie (h : ResponseHeaders) (cookie : Cookie) :
    Respects h (h.addCookie cookie) := fun name _ => sameAt_addCookie h cookie name

/-- Writing with a claim gives the name of the claim these values and no others. -/
theorem fieldsOf_setClaimed {h h' : ResponseHeaders} {c : Claim} {values : List String}
    (hs : h.setClaimed c values = .ok h') {name : String} (ha : alike c.name name = true) :
    h'.headers.fieldsOf name = Headers.fieldsFor c.name values := by
  obtain ⟨-, rfl⟩ := setClaimed_eq_ok_iff.1 hs
  rw [fieldsOf_insertAll_self _ _ ha, Headers.fieldsOf_remove_self _ ha, List.nil_append]

end ResponseHeaders

/-! ### Lists of writes -/

namespace HeaderWrite

open ResponseHeaders

/-- The name that a write is about. -/
def name : HeaderWrite → String
  | reserve name | own name _ | add name _ | set name _ => name
  | fill c _ => c.name

/-- An operation succeeds, or it is refused and what there was is kept. -/
theorem orKeep_cases (h : ResponseHeaders) (result : Except HeaderError ResponseHeaders) :
    (∃ h', result = .ok h' ∧ orKeep h result = (h', none)) ∨
      ∃ e, result = .error e ∧ orKeep h result = (h, some e) := by
  cases result with
  | ok h' => exact .inl ⟨h', rfl, rfl⟩
  | error e => exact .inr ⟨e, rfl, rfl⟩

/-- What holds before an operation, and after it if it succeeds, holds of what is left. -/
theorem orKeep_induction {P : ResponseHeaders → Prop} {h : ResponseHeaders} (hp : P h)
    {result : Except HeaderError ResponseHeaders} (hk : ∀ h', result = .ok h' → P h') :
    P (orKeep h result).1 := by
  rcases orKeep_cases h result with ⟨h', hr, he⟩ | ⟨e, -, he⟩
  · rw [he]
    exact hk h' hr
  · rw [he]
    exact hp

/-- What every write of a list keeps is kept by the list, also if one of them is refused. -/
theorem performAll_induction {P : ResponseHeaders → Prop} {ws : List HeaderWrite}
    (hw : ∀ w ∈ ws, ∀ h, P h → P (perform h w).1) {h : ResponseHeaders} (hp : P h) :
    P (performAll h ws).1 := by
  induction ws generalizing h with
  | nil => exact hp
  | cons w rest ih =>
    rw [List.forall_mem_cons] at hw
    have hfirst := hw.1 h hp
    unfold performAll
    cases he : perform h w with
    | mk changed error? =>
      rw [he] at hfirst
      cases error? with
      | some e => exact hfirst
      | none => exact ih hw.2 hfirst

/-- What is left after an operation that keeps a name. -/
theorem sameAt_orKeep {h : ResponseHeaders} {result : Except HeaderError ResponseHeaders}
    {other : String} (hk : ∀ h', result = .ok h' → SameAt h h' other) :
    SameAt h (orKeep h result).1 other :=
  orKeep_induction (P := fun h' => SameAt h h' other) (.refl h other) hk

/-- A claim that is given is used to write the values. -/
theorem perform_own_of_claim {h claimed : ResponseHeaders} {name : String} {c : Claim}
    (hc : h.claim name = .ok (c, claimed)) (values : List String) :
    perform h (.own name values) = orKeep claimed (claimed.setClaimed c values) := by
  simp only [perform, hc]

/-- If the claim is refused then nothing is written. -/
theorem perform_own_of_refused {h : ResponseHeaders} {name : String} {e : HeaderError}
    (hc : h.claim name = .error e) (values : List String) :
    perform h (.own name values) = (h, some e) := by
  simp only [perform, hc]

/-- The values that a write is about. -/
def values : HeaderWrite → List String
  | reserve _ => []
  | own _ values | fill _ values => values
  | add _ value | set _ value => [value]

/-- The write does not use a claim that was made before. -/
def Free : HeaderWrite → Prop
  | fill _ _ => False
  | _ => True

/-- A write keeps every name that it is not about, and without a claim every claimed one. -/
theorem sameAt_perform (h : ResponseHeaders) (w : HeaderWrite) {other : String}
    (ho : alike w.name other = false ∨ w.Free ∧ h.isClaimed other = true) :
    SameAt h (perform h w).1 other := by
  have hout : w.Free → alike w.name other = false ∨ h.isClaimed other = true :=
    fun _ => ho.imp_right And.right
  cases w with
  | reserve name =>
    apply sameAt_orKeep
    intro h' hr
    cases hc : h.claim name with
    | error e => simp [hc, Except.map] at hr
    | ok p =>
      simp only [hc, Except.map, Except.ok.injEq] at hr
      subst hr
      exact sameAt_claim hc (hout trivial)
  | own name values =>
    cases hc : h.claim name with
    | error e =>
      rw [perform_own_of_refused hc]
      exact .refl h other
    | ok p =>
      obtain ⟨c, claimed⟩ := p
      have hname : c.name = name := by rw [(claim_eq_ok_iff.1 hc).2.2.1]
      have hn : alike name other = false := by
        rcases hout trivial with hn | ht
        · exact hn
        · exact not_alike_of_isClaimed (claim_eq_ok_iff.1 hc).2.1 ht
      rw [perform_own_of_claim hc]
      refine (sameAt_claim hc (.inl hn)).trans (sameAt_orKeep ?_)
      intro h' hs
      exact sameAt_setClaimed hs (by rwa [hname])
  | fill c values =>
    apply sameAt_orKeep
    intro h' hs
    have hn : alike c.name other = false := by
      rcases ho with hn | ⟨hf, -⟩
      · exact hn
      · exact hf.elim
    exact sameAt_setClaimed hs hn
  | add name value =>
    apply sameAt_orKeep
    intro h' hs
    exact sameAt_write hs (local_insert name value) (hout trivial)
  | set name value =>
    apply sameAt_orKeep
    intro h' hs
    exact sameAt_write hs (local_set name value) (hout trivial)

/-- Writes of other names leave a name, and so do those without a claim of others if it is claimed. -/
theorem sameAt_performAll (h : ResponseHeaders) (ws : List HeaderWrite) {other : String}
    (ho : ∀ w ∈ ws, alike w.name other = false ∨ w.Free ∧ h.isClaimed other = true) :
    SameAt h (performAll h ws).1 other := by
  induction ws generalizing h with
  | nil => exact .refl h other
  | cons w rest ih =>
    rw [List.forall_mem_cons] at ho
    have hw := sameAt_perform h w ho.1
    unfold performAll
    cases hp : perform h w with
    | mk changed error? =>
      rw [hp] at hw
      cases error? with
      | some e => exact hw
      | none =>
        refine hw.trans (ih changed ?_)
        intro w' hm
        rcases ho.2 w' hm with hn | ⟨hf, hc⟩
        · exact .inl hn
        · exact .inr ⟨hf, hw.isClaimed_eq.trans hc⟩

/-- Writes without claims that were made before keep every claimed name. -/
theorem respects_performAll (h : ResponseHeaders) (ws : List HeaderWrite) (hf : ∀ w ∈ ws, w.Free) :
    Respects h (performAll h ws).1 := by
  intro name hc
  exact sameAt_performAll h ws fun w hm => .inr ⟨hf w hm, hc⟩

/-- A write is possible: without a claim that was made before, of a name that can be written and with
values that keep their lines. -/
structure Sound (w : HeaderWrite) : Prop where
  free : w.Free
  name : checkName w.name = .ok ()
  values : w.values.any breaksLine = false

/-- A possible write of a name that nobody has claimed is not refused. -/
theorem Sound.perform {w : HeaderWrite} (hw : w.Sound) {h : ResponseHeaders}
    (hc : h.isClaimed w.name = false) : ∃ h', HeaderWrite.perform h w = (h', none) := by
  obtain ⟨hf, hn, hv⟩ := hw
  obtain ⟨claimed, hclaim⟩ : ∃ claimed, h.claim w.name = .ok (⟨w.name⟩, claimed) :=
    ⟨_, claim_eq_ok_iff.2 ⟨hn, hc, rfl, rfl⟩⟩
  cases w <;> simp only [HeaderWrite.name, HeaderWrite.values] at hn hc hv hclaim
  case reserve name =>
    exact ⟨claimed, by simp only [HeaderWrite.perform, hclaim, Except.map, orKeep]⟩
  case own name values =>
    obtain ⟨written, hs⟩ : ∃ written, claimed.setClaimed ⟨name⟩ values = .ok written :=
      ⟨_, setClaimed_eq_ok_iff.2 ⟨hv, rfl⟩⟩
    exact ⟨written, by rw [perform_own_of_claim hclaim, hs, orKeep]⟩
  case fill c values => exact hf.elim
  case add name value | set name value =>
    have hb : breaksLine value = false := by simpa using hv
    exact ⟨_, congrArg (orKeep h) (write_eq_ok_iff.2 ⟨hn, hc, hb, rfl⟩)⟩

/-- Possible writes of different names that nobody has claimed are all performed. -/
theorem performAll_sound {ws : List HeaderWrite} {h : ResponseHeaders} (hw : ∀ w ∈ ws, w.Sound)
    (hd : ws.Pairwise fun w v => alike w.name v.name = false)
    (hc : ∀ w ∈ ws, h.isClaimed w.name = false) : ∃ h', performAll h ws = (h', none) := by
  induction ws generalizing h with
  | nil => exact ⟨h, rfl⟩
  | cons w rest ih =>
    rw [List.forall_mem_cons] at hw hc
    obtain ⟨hother, hd⟩ := List.pairwise_cons.1 hd
    obtain ⟨mid, hm⟩ := hw.1.perform hc.1
    have hfree : ∀ v ∈ rest, mid.isClaimed v.name = false := by
      intro v hv
      have hs := sameAt_perform h w (.inl (hother v hv))
      rw [hm] at hs
      exact hs.isClaimed_eq.trans (hc.2 v hv)
    obtain ⟨h', hr⟩ := ih hw.2 hd hfree
    exact ⟨h', by rw [performAll, hm]; exact hr⟩

end HeaderWrite

end Palisade
