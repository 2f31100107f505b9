import Mathlib.Data.List.Forall2
import Palisade.Proofs.Connection.Head
import Palisade.Proofs.Text.Trimming

/-!
# The lines of a head

Behind its first line a head has a line for each of its fields: a name, a colon, a value with blanks
around it, and a line end. The main statement says that the fields of a head that is found are exactly
those of its lines, in whichever of these ways they are written. What is refused is not said here.
-/
namespace Palisade.Head

open Palisade.Text

/-! ### Header lines -/

/-- The end of a line, with a carriage return or without. -/
def LineEnd (s : Bytes) : Prop := s = [lf] ∨ s = [cr, lf]

/-- How the line of a field may be written: the name, a colon and the value, which begins and ends in no
blank, with blanks around it and a line end behind it. -/
structure LineFor (line : Bytes) (field : Bytes × Bytes) : Prop where
  name_ne_nil : field.1 ≠ []
  name : ∀ b ∈ field.1, isTokenByte b = true
  value : ∀ b ∈ field.2, isValueByte b = true
  first : ∀ b ∈ field.2.head?, isValueBlank b = false
  last : ∀ b ∈ field.2.getLast?, isValueBlank b = false
  written : ∃ before after ending, (∀ b ∈ before ++ after, isValueBlank b = true) ∧ LineEnd ending ∧
    line = field.1 ++ colon :: (before ++ (field.2 ++ (after ++ ending)))

/-- A blank may stand in a value. -/
theorem isValueByte_of_isValueBlank {b : UInt8} (h : isValueBlank b = true) : isValueByte b = true := by
  unfold isValueBlank at h
  rw [Bool.or_eq_true, beq_iff_eq] at h
  rcases h with rfl | h
  · decide
  · rw [isValueByte, h, Bool.true_or]

/-- The first byte of a line end is neither a byte of a value nor a blank. -/
theorem LineEnd.exists_cons {ending : Bytes} (h : LineEnd ending) :
    ∃ b more, ending = b :: more ∧ isValueByte b = false ∧ isValueBlank b = false := by
  rcases h with rfl | rfl
  · exact ⟨lf, [], rfl, by decide, by decide⟩
  · exact ⟨cr, [lf], rfl, by decide, by decide⟩

/-- The end of a line is read, whatever stands behind it. -/
theorem LineEnd.lineEnd_eq {ending : Bytes} (h : LineEnd ending) (o : Offence) (rest : Bytes) :
    lineEnd o (ending ++ rest) = .ok ((), rest) := by
  have hne : cr ≠ lf := by decide
  rcases h with rfl | rfl
  · simp [lineEnd]
  · simp [lineEnd, hne]

/-- Where the end of a line is read there is one. -/
theorem exists_lineEnd {o : Offence} {s rest : Bytes} (h : lineEnd o s = .ok ((), rest)) :
    ∃ ending, LineEnd ending ∧ s = ending ++ rest := by
  fun_cases lineEnd o s <;> simp_all [lineEnd]
  · exact ⟨[lf], .inl rfl, rfl⟩
  · exact ⟨[cr, lf], .inr rfl, rfl⟩

/-- A value is read without the blanks around it. -/
theorem fieldValue_eq {value before after ending : Bytes} (hv : ∀ b ∈ value, isValueByte b = true)
    (hf : ∀ b ∈ value.head?, isValueBlank b = false) (hl : ∀ b ∈ value.getLast?, isValueBlank b = false)
    (hb : ∀ b ∈ before ++ after, isValueBlank b = true) (he : LineEnd ending) (rest : Bytes) :
    fieldValue (before ++ (value ++ (after ++ (ending ++ rest)))) = .ok (value, rest) := by
  rw [List.forall_mem_append] at hb
  obtain ⟨e, more, rfl, hbyte, hblank⟩ := he.exists_cons
  obtain ⟨line, hline, htrim, hbegun⟩ : ∃ line, (∀ b ∈ line, isValueByte b = true) ∧
      trimRight isValueBlank line = value ∧
      (before ++ (value ++ (after ++ (e :: more ++ rest)))).dropWhile isValueBlank =
        line ++ e :: (more ++ rest) := by
    rw [List.dropWhile_append_of_pos hb.1]
    cases value with
    | nil =>
      refine ⟨[], List.forall_mem_nil _, rfl, ?_⟩
      rw [List.nil_append, List.cons_append]
      exact (takeWhile_append_cons hb.2 hblank _).2
    | cons v vs =>
      refine ⟨v :: vs ++ after, ?_, trimRight_append hb.2 hl, ?_⟩
      · exact List.forall_mem_append.2 ⟨hv, fun b hm => isValueByte_of_isValueBlank (hb.2 b hm)⟩
      · rw [List.cons_append, List.dropWhile_cons_of_neg (by simp [hf v rfl])]
        simp
  obtain ⟨htake, hdrop⟩ := takeWhile_append_cons hline hbyte (more ++ rest)
  unfold fieldValue
  simp only [hbegun, htake, hdrop]
  rw [← List.cons_append, he.lineEnd_eq]
  simp only [htrim]

/-- The line of a field is read as the field. -/
theorem LineFor.scanField_eq {line : Bytes} {field : Bytes × Bytes} (h : LineFor line field)
    (rest : Bytes) : scanField (line ++ rest) = .ok (field, rest) := by
  obtain ⟨before, after, ending, hblanks, hend, rfl⟩ := h.written
  have hcolon : isTokenByte colon = false := by decide
  have hassoc : field.1 ++ colon :: (before ++ (field.2 ++ (after ++ ending))) ++ rest =
      field.1 ++ colon :: (before ++ (field.2 ++ (after ++ (ending ++ rest)))) := by simp
  obtain ⟨htake, hdrop⟩ := takeWhile_append_cons h.name hcolon
    (before ++ (field.2 ++ (after ++ (ending ++ rest))))
  unfold scanField
  simp only [hassoc, htake, hdrop, true_and, ne_eq, h.name_ne_nil, not_false_eq_true, if_true,
    fieldValue_eq h.value h.first h.last hblanks hend rest]

/-- What is read as a value has blanks around it and a line end behind it. -/
theorem exists_value {s rest value : Bytes} (h : fieldValue s = .ok (value, rest)) :
    ∃ before after ending, s = before ++ (value ++ (after ++ (ending ++ rest))) ∧
      (∀ b ∈ value, isValueByte b = true) ∧ (∀ b ∈ value.head?, isValueBlank b = false) ∧
      (∀ b ∈ value.getLast?, isValueBlank b = false) ∧
      (∀ b ∈ before ++ after, isValueBlank b = true) ∧ LineEnd ending := by
  have hs := List.takeWhile_append_dropWhile (p := isValueBlank) (l := s)
  have hfirst := head?_dropWhile isValueBlank s
  unfold fieldValue at h
  simp only at h
  generalize s.dropWhile isValueBlank = begun at h hs hfirst
  have hbegun := List.takeWhile_append_dropWhile (p := isValueByte) (l := begun)
  split at h
  case h_2 => cases h
  rename_i rest' hend
  simp only [Except.ok.injEq, Prod.mk.injEq] at h
  obtain ⟨rfl, rfl⟩ := h
  obtain ⟨ending, he, hdrop⟩ := exists_lineEnd hend
  obtain ⟨after, hafter, hline⟩ := exists_trimRight_append isValueBlank (begun.takeWhile isValueByte)
  have hlast := getLast?_trimRight isValueBlank (begun.takeWhile isValueByte)
  have hbytes : ∀ b ∈ begun.takeWhile isValueByte, isValueByte b = true := fun b => of_mem_takeWhile
  generalize trimRight isValueBlank (begun.takeWhile isValueByte) = value at hline hlast
  refine ⟨s.takeWhile isValueBlank, after, ending, ?_, ?_, ?_, hlast, ?_, he⟩
  · rw [← List.append_assoc value, ← hline, ← hdrop, hbegun, hs]
  · exact fun b hb => hbytes b (hline ▸ List.mem_append_left _ hb)
  · intro b hb
    cases value with
    | nil => cases hb
    | cons v vs =>
      refine hfirst b ?_
      rw [← hbegun, hline]
      exact hb
  · exact List.forall_mem_append.2 ⟨fun b => of_mem_takeWhile, hafter⟩

/-- What is read as a field is a line of it. -/
theorem exists_lineFor {s rest : Bytes} {field : Bytes × Bytes} (h : scanField s = .ok (field, rest)) :
    ∃ line, LineFor line field ∧ s = line ++ rest := by
  have hs := List.takeWhile_append_dropWhile (p := isTokenByte) (l := s)
  have hname : ∀ b ∈ s.takeWhile isTokenByte, isTokenByte b = true := fun b => of_mem_takeWhile
  unfold scanField at h
  simp only at h
  split at h
  · cases h
  rename_i b tail hd
  split at h
  case isFalse => cases h
  rename_i hb
  split at h
  case h_2 => cases h
  rename_i value rest' hv
  simp only [Except.ok.injEq, Prod.mk.injEq] at h
  obtain ⟨rfl, rfl⟩ := h
  obtain ⟨before, after, ending, rfl, hvalue, hfirst, hlast, hblanks, he⟩ := exists_value hv
  refine ⟨_, ⟨hb.2, hname, hvalue, hfirst, hlast, before, after, ending, hblanks, he, rfl⟩, ?_⟩
  rw [hd, hb.1] at hs
  conv_lhs => rw [← hs]
  simp only [List.append_assoc, List.cons_append]

/-! ### All lines -/

/-- A header line is not the empty line. -/
theorem LineFor.atEmptyLine_eq {line : Bytes} {field : Bytes × Bytes} (h : LineFor line field)
    (rest : Bytes) : atEmptyLine (line ++ rest) = false := by
  obtain ⟨before, after, ending, -, -, rfl⟩ := h.written
  obtain ⟨b, name, hname⟩ := List.exists_cons_of_ne_nil h.name_ne_nil
  have hb : isTokenByte b = true := h.name b (hname ▸ List.mem_cons_self)
  have hends : b ≠ cr ∧ b ≠ lf := by
    constructor
    all_goals
      rintro rfl
      exact absurd hb (by decide)
  simp [hname, atEmptyLine, hends]

/-- Where the end of a line stands there is an empty line. -/
theorem LineEnd.atEmptyLine_eq {ending : Bytes} (h : LineEnd ending) (rest : Bytes) :
    atEmptyLine (ending ++ rest) = true := by
  rcases h with rfl | rfl <;> rfl

/-- Lines of fields and an empty line are read as these fields, unless there is no room for them. -/
theorem eq_of_scanFields {lines : List Bytes} {fields : List (Bytes × Bytes)}
    (hl : List.Forall₂ LineFor lines fields) {ending : Bytes} (he : LineEnd ending) {room : Nat}
    {rest rest' : Bytes} {found : List (Bytes × Bytes)}
    (h : scanFields room (lines.flatten ++ (ending ++ rest)) = .ok (found, rest')) :
    found = fields ∧ rest' = rest := by
  induction hl generalizing room found rest' with
  | nil =>
    rw [List.flatten_nil, List.nil_append] at h
    cases room <;>
    · simp only [scanFields, he.atEmptyLine_eq, if_true, he.lineEnd_eq, Except.ok.injEq,
        Prod.mk.injEq] at h
      exact ⟨h.1.symm, h.2.symm⟩
  | @cons line field lines fields hline _ ih =>
    rw [List.flatten_cons, List.append_assoc] at h
    cases room with
    | zero =>
      simp only [scanFields, hline.atEmptyLine_eq, Bool.false_eq_true, if_false, hline.scanField_eq,
        reduceCtorEq] at h
    | succ room =>
      simp only [scanFields, hline.atEmptyLine_eq, Bool.false_eq_true, if_false,
        hline.scanField_eq] at h
      split at h
      · rename_i others last ho
        obtain ⟨rfl, rfl⟩ := ih ho
        simp only [Except.ok.injEq, Prod.mk.injEq] at h
        exact ⟨h.1.symm, h.2.symm⟩
      · cases h

/-- At an empty line there are no fields, and what is read is its end. -/
theorem exists_end {room : Nat} {s rest : Bytes} {fields : List (Bytes × Bytes)}
    (ha : atEmptyLine s = true) (h : scanFields room s = .ok (fields, rest)) :
    fields = [] ∧ ∃ ending, LineEnd ending ∧ s = ending ++ rest := by
  cases room <;>
  · simp only [scanFields, ha, if_true] at h
    split at h
    · rename_i rest' hl
      simp only [Except.ok.injEq, Prod.mk.injEq] at h
      obtain ⟨rfl, rfl⟩ := h
      exact ⟨rfl, exists_lineEnd hl⟩
    · cases h

/-- Fields that are read have lines, and an empty line behind them. -/
theorem exists_lines {room : Nat} {s rest : Bytes} {fields : List (Bytes × Bytes)}
    (h : scanFields room s = .ok (fields, rest)) :
    ∃ lines ending, List.Forall₂ LineFor lines fields ∧ LineEnd ending ∧
      s = lines.flatten ++ (ending ++ rest) := by
  induction room generalizing s fields with
  | zero =>
    cases ha : atEmptyLine s with
    | true =>
      obtain ⟨rfl, ending, he, rfl⟩ := exists_end ha h
      exact ⟨[], ending, .nil, he, rfl⟩
    | false =>
      simp only [scanFields, ha, Bool.false_eq_true, if_false] at h
      split at h <;> cases h
  | succ room ih =>
    cases ha : atEmptyLine s with
    | true =>
      obtain ⟨rfl, ending, he, rfl⟩ := exists_end ha h
      exact ⟨[], ending, .nil, he, rfl⟩
    | false =>
      simp only [scanFields, ha, Bool.false_eq_true, if_false] at h
      split at h
      case h_2 => cases h
      rename_i field mid hfield
      split at h
      case h_2 => cases h
      rename_i others last hothers
      simp only [Except.ok.injEq, Prod.mk.injEq] at h
      obtain ⟨rfl, rfl⟩ := h
      obtain ⟨line, hline, rfl⟩ := exists_lineFor hfield
      obtain ⟨lines, ending, hlines, he, rfl⟩ := ih hothers
      exact ⟨line :: lines, ending, .cons hline hlines, he, by simp⟩

/-! ### The first line -/

/-- What stands before the header lines: empty lines, and then a line that is not empty. -/
def Opening (s : Bytes) : Prop :=
  ∃ (empties : List Bytes) (b : UInt8) (line : Bytes), (∀ e ∈ empties, LineEnd e) ∧ b ≠ cr ∧
    lf ∉ b :: line ∧ s = empties.flatten ++ (b :: line ++ [lf])

/-- Empty lines are skipped, however many there are. -/
theorem skipEmptyLines_flatten {empties : List Bytes} (h : ∀ e ∈ empties, LineEnd e) (s : Bytes) :
    skipEmptyLines (empties.flatten ++ s) = skipEmptyLines s := by
  induction empties with
  | nil => rfl
  | cons e empties ih =>
    rw [List.forall_mem_cons] at h
    rw [List.flatten_cons, List.append_assoc]
    rcases h.1 with rfl | rfl
    · rw [List.singleton_append, skipEmptyLines_lf, ih h.2]
    · rw [List.cons_append, List.singleton_append, skipEmptyLines_cr, if_pos rfl, ih h.2]

/-- What is skipped are empty lines. -/
theorem exists_empties {s rest : Bytes} (h : skipEmptyLines s = .ok ((), rest)) :
    ∃ empties : List Bytes, (∀ e ∈ empties, LineEnd e) ∧ s = empties.flatten ++ rest := by
  fun_induction skipEmptyLines s with
  | case1 => cases h
  | case2 tail ih =>
    obtain ⟨empties, he, rfl⟩ := ih h
    exact ⟨[lf] :: empties, List.forall_mem_cons.2 ⟨.inl rfl, he⟩, rfl⟩
  | case3 => cases h
  | case4 _ tail ih =>
    obtain ⟨empties, he, rfl⟩ := ih h
    exact ⟨[cr, lf] :: empties, List.forall_mem_cons.2 ⟨.inr rfl, he⟩, rfl⟩
  | case5 => cases h
  | case6 b tail =>
    simp only [Except.ok.injEq, Prod.mk.injEq, true_and] at h
    exact ⟨[], List.forall_mem_nil _, h⟩

/-- A method that is read is a token with a blank behind it. -/
theorem eq_of_scanMethod {s rest method : Bytes} (h : scanMethod s = .ok (method, rest)) :
    s = method ++ space :: rest ∧ method ≠ [] ∧ ∀ b ∈ method, isTokenByte b = true := by
  have hs := List.takeWhile_append_dropWhile (p := isTokenByte) (l := s)
  have hbytes : ∀ b ∈ s.takeWhile isTokenByte, isTokenByte b = true := fun b => of_mem_takeWhile
  unfold scanMethod at h
  simp only at h
  split at h
  · cases h
  rename_i b tail hd
  split at h
  case isFalse => cases h
  rename_i hb
  simp only [Except.ok.injEq, Prod.mk.injEq] at h
  obtain ⟨rfl, rfl⟩ := h
  rw [hd, hb.1] at hs
  exact ⟨hs.symm, hb.2, hbytes⟩

/-- A target that is read is what its bytes say, and a blank stands behind them. -/
theorem exists_target {s rest : Bytes} {target : String} (h : scanTarget s = .ok (target, rest)) :
    ∃ bytes, s = bytes ++ space :: rest ∧ (∀ b ∈ bytes, isTargetByte b = true) ∧
      ofUtf8? bytes = some target := by
  have hs := List.takeWhile_append_dropWhile (p := isTargetByte) (l := s)
  have hbytes : ∀ b ∈ s.takeWhile isTargetByte, isTargetByte b = true := fun b => of_mem_takeWhile
  unfold scanTarget at h
  simp only at h
  split at h
  · cases h
  rename_i b tail hd
  split at h
  case isFalse => cases h
  rename_i hb
  split at h
  case h_2 => cases h
  rename_i text htext
  simp only [Except.ok.injEq, Prod.mk.injEq] at h
  obtain ⟨rfl, rfl⟩ := h
  rw [hd, hb.1] at hs
  exact ⟨_, hs.symm, hbytes, htext⟩

/-- A version that is read stays on its line. -/
theorem exists_version {s rest : Bytes} {minor : Nat} (h : scanVersion s = .ok (minor, rest)) :
    ∃ bytes, s = bytes ++ rest ∧ lf ∉ bytes := by
  have hstart : lf ∉ versionStart := by decide
  unfold scanVersion at h
  split at h
  case isFalse => split at h <;> cases h
  rename_i hp
  obtain ⟨more, rfl⟩ := List.isPrefixOf_iff_prefix.1 hp
  rw [List.drop_left] at h
  split at h
  · cases h
  rename_i b tail
  have hlast : b ≠ lf ∧ tail = rest := by
    split at h
    · rename_i hb
      simp only [Except.ok.injEq, Prod.mk.injEq] at h
      exact ⟨by rw [hb]; decide, h.2⟩
    · split at h
      · rename_i hb
        simp only [Except.ok.injEq, Prod.mk.injEq] at h
        exact ⟨by rw [hb]; decide, h.2⟩
      · cases h
  obtain ⟨hb, rfl⟩ := hlast
  refine ⟨versionStart ++ [b], by simp, ?_⟩
  simp [hstart, Ne.symm hb]

/-- How a head that is found begins: behind empty lines there is a line of its method, its target and a
version, and behind that line its fields are read. -/
structure FirstLine (s rest : Bytes) (head : Head) (target tail : Bytes) : Prop where
  written : ∃ version ending, lf ∉ version ∧ LineEnd ending ∧ skipEmptyLines s =
    .ok ((), head.method ++ space :: (target ++ space :: (version ++ (ending ++ tail))))
  method_ne_nil : head.method ≠ []
  method : ∀ b ∈ head.method, isTokenByte b = true
  visible : ∀ b ∈ target, isTargetByte b = true
  text : ofUtf8? target = some head.target
  fields : scanFields maxFields tail = .ok (head.fields, rest)

/-- The first line of a head that is found says its method, its target and its version. -/
theorem firstLine_of_scan {s rest : Bytes} {head : Head} (h : scan s = .ok (head, rest)) :
    ∃ target tail, FirstLine s rest head target tail := by
  unfold scan at h
  simp only [bind, Except.bind] at h
  split at h
  · cases h
  rename_i p₁ h₁
  split at h
  · cases h
  rename_i p₂ h₂
  split at h
  · cases h
  rename_i p₃ h₃
  split at h
  · cases h
  rename_i p₄ h₄
  split at h
  · cases h
  rename_i p₅ h₅
  split at h
  · cases h
  rename_i p₆ h₆
  simp only [pure, Except.pure, Except.ok.injEq, Prod.mk.injEq] at h
  obtain ⟨rfl, rfl⟩ := h
  obtain ⟨hmethod, hne, hname⟩ := eq_of_scanMethod h₂
  obtain ⟨target, htarget, hbytes, htext⟩ := exists_target h₃
  obtain ⟨version, hversion, hv⟩ := exists_version h₄
  obtain ⟨ending, hend, he⟩ := exists_lineEnd h₅
  refine ⟨target, p₅.2, ⟨version, ending, hv, hend, ?_⟩, hne, hname, hbytes, htext, h₆⟩
  rw [h₁, show p₁ = ((), p₁.2) from rfl, hmethod, htarget, hversion, he]

/-- A head that is found has a first line, and the fields are read behind it. A carriage return before
the line feed belongs to the line. -/
theorem exists_first_line {s rest : Bytes} {head : Head} (h : scan s = .ok (head, rest)) :
    ∃ b line tail, skipEmptyLines s = .ok ((), b :: line ++ lf :: tail) ∧ b ≠ cr ∧ lf ∉ b :: line ∧
      scanFields maxFields tail = .ok (head.fields, rest) := by
  obtain ⟨target, tail, hfirst⟩ := firstLine_of_scan h
  obtain ⟨version, ending, hv, hend, hskip⟩ := hfirst.written
  have hspace : lf ≠ space := by decide
  have ht : lf ∉ target := fun hm => absurd (hfirst.visible lf hm) (by decide)
  obtain ⟨b, name, hname⟩ := List.exists_cons_of_ne_nil hfirst.method_ne_nil
  have hmethod := hfirst.method
  rw [hname] at hskip hmethod
  have hb : b ≠ cr := fun he => absurd (hmethod cr (he ▸ List.mem_cons_self)) (by decide)
  have hn : lf ∉ b :: name := fun hm => absurd (hmethod lf hm) (by decide)
  rw [List.mem_cons, not_or] at hn
  obtain ⟨last, rfl, hlf⟩ : ∃ last, ending = last ++ [lf] ∧ lf ∉ last := by
    rcases hend with rfl | rfl
    · exact ⟨[], rfl, List.not_mem_nil⟩
    · exact ⟨[cr], rfl, by decide⟩
  refine ⟨b, name ++ space :: (target ++ space :: (version ++ last)), tail, ?_, hb, ?_, hfirst.fields⟩
  · rw [hskip]
    simp
  · simp [hn, hv, ht, hlf, hspace]

/-- The bytes begin with a head whose header lines are those of the fields. -/
def HasFields (s : Bytes) (fields : List (Bytes × Bytes)) : Prop :=
  ∃ opening lines ending body, Opening opening ∧ List.Forall₂ LineFor lines fields ∧ LineEnd ending ∧
    s = opening ++ (lines.flatten ++ (ending ++ body))

/-- The fields of a head that is found are those of its lines. -/
theorem hasFields_iff {s rest : Bytes} {head : Head} (h : scan s = .ok (head, rest))
    {fields : List (Bytes × Bytes)} : HasFields s fields ↔ fields = head.fields := by
  obtain ⟨b, line, tail, hskip, hb, hline, hfields⟩ := exists_first_line h
  constructor
  · rintro ⟨_, lines, ending, body, ⟨empties, b', line', hempties, hb', hline', rfl⟩, hlines, he, rfl⟩
    have hlf : b' ≠ lf := fun hbl => hline' (hbl ▸ List.mem_cons_self)
    rw [List.append_assoc, skipEmptyLines_flatten hempties, List.append_assoc, List.cons_append,
      skipEmptyLines_of_ne hlf hb', Except.ok.injEq, Prod.mk.injEq, ← List.cons_append] at hskip
    have hcut := cutAt_append hline' (lines.flatten ++ (ending ++ body))
    have hsame : b' :: line' ++ lf :: (lines.flatten ++ (ending ++ body)) = b :: line ++ lf :: tail :=
      hskip.2
    rw [hsame, cutAt_append hline, Option.some.injEq, Prod.mk.injEq] at hcut
    rw [hcut.2] at hfields
    exact (eq_of_scanFields hlines he hfields).1.symm
  · rintro rfl
    obtain ⟨empties, hempties, rfl⟩ := exists_empties hskip
    obtain ⟨lines, ending, hlines, he, rfl⟩ := exists_lines hfields
    refine ⟨_, lines, ending, rest, ⟨empties, b, line, hempties, hb, hline, rfl⟩, hlines, he, ?_⟩
    simp

end Palisade.Head
