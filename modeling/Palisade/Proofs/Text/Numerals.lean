import Palisade.Text.Numeral

/-!
# Numerals that are read

A numeral of a number is not only the one that is written for it: zeros may stand in front of the digits,
and a plus sign in front of these. The main statement says that a reader accepts exactly the numerals of
the numbers in its range.
-/
namespace Palisade.Text

/-- A numeral of a number: decimal digits, as many as one likes, with a plus sign in front or none. -/
def Numeral (s : List Char) (n : Nat) : Prop :=
  ∃ digits, (s = digits ∨ s = '+' :: digits) ∧ digits ≠ [] ∧ (∀ c ∈ digits, c.isDigit = true) ∧
    n = Nat.ofDigitChars 10 digits 0

/-- A digit has the value of its place behind the zero. -/
theorem digitValue?_eq_some_iff {c : Char} {d : Nat} :
    digitValue? c = some d ↔ c.isDigit = true ∧ d = c.toNat - '0'.toNat := by
  rw [Char.isDigit_iff_toNat]
  unfold digitValue?
  constructor
  · intro h
    split at h
    · rename_i hc
      exact ⟨hc, (Option.some.inj h).symm⟩
    · cases h
  · rintro ⟨hc, rfl⟩
    exact if_pos hc

/-- Digits are read as the number that they are of. -/
theorem valueFrom_eq_some_iff {start n : Nat} {s : List Char} :
    valueFrom start s = some n ↔
      (∀ c ∈ s, c.isDigit = true) ∧ n = Nat.ofDigitChars 10 s start := by
  induction s generalizing start with
  | nil =>
    have hnil : Nat.ofDigitChars 10 [] start = start := rfl
    rw [valueFrom, hnil, Option.some.injEq, and_iff_right (List.forall_mem_nil _), eq_comm]
  | cons c rest ih =>
    rw [valueFrom, Option.bind_eq_some_iff, List.forall_mem_cons]
    constructor
    · rintro ⟨d, hd, hr⟩
      obtain ⟨hc, rfl⟩ := digitValue?_eq_some_iff.1 hd
      obtain ⟨hrest, rfl⟩ := ih.1 hr
      refine ⟨⟨hc, hrest⟩, ?_⟩
      rw [Nat.mul_comm]
      rfl
    · rintro ⟨⟨hc, hrest⟩, rfl⟩
      refine ⟨_, digitValue?_eq_some_iff.2 ⟨hc, rfl⟩, ih.2 ⟨hrest, ?_⟩⟩
      rw [Nat.mul_comm]
      rfl

/-- Digits are read as the number that they write. -/
theorem readDigits?_eq_some_iff {n : Nat} {s : List Char} :
    readDigits? s = some n ↔
      s ≠ [] ∧ (∀ c ∈ s, c.isDigit = true) ∧ n = Nat.ofDigitChars 10 s 0 := by
  rw [← valueFrom_eq_some_iff]
  cases s with
  | nil =>
    constructor
    · intro h
      cases h
    · intro h
      exact absurd rfl h.1
  | cons c rest => exact (and_iff_right (List.cons_ne_nil c rest)).symm

/-- Reading accepts exactly the numerals of the numbers in the range. -/
theorem readNat?_eq_some_iff {largest n : Nat} {s : String} :
    readNat? largest s = some n ↔ Numeral s.toList n ∧ n ≤ largest := by
  have hplus : '+'.isDigit = false := by decide
  unfold readNat? Numeral
  simp only [Option.filter_eq_some_iff, decide_eq_true_eq, and_congr_left_iff]
  intro _
  split
  · rename_i rest hs
    rw [readDigits?_eq_some_iff, hs]
    constructor
    · intro h
      exact ⟨rest, .inr rfl, h⟩
    · rintro ⟨digits, rfl | he, hne, hd, hn⟩
      · exact absurd (hd '+' List.mem_cons_self) (by simp [hplus])
      · obtain rfl := (List.cons.inj he).2
        exact ⟨hne, hd, hn⟩
  · rename_i hs
    rw [readDigits?_eq_some_iff]
    constructor
    · intro h
      exact ⟨s.toList, .inl rfl, h⟩
    · rintro ⟨digits, he | he, hne, hd, hn⟩
      · rw [he]
        exact ⟨hne, hd, hn⟩
      · exact absurd he (hs digits)

end Palisade.Text
