import Palisade.Text.Ascii

/-!
# Decimal numerals

Whole numbers are written with the fewest decimal digits and read from digits with an optional sign.
Readers are given the range they accept, so that a number too large for it is refused and never
wrapped. The main statement says that a number written is read back.
-/
namespace Palisade.Text

/-- The character of a digit below ten. -/
def digitChar (d : Nat) : Char := Char.ofNat (0x30 + d)

/-- The value of a decimal digit. -/
def digitValue? (c : Char) : Option Nat :=
  if 0x30 ≤ c.toNat ∧ c.toNat ≤ 0x39 then some (c.toNat - 0x30) else none

/-- The decimal digits of a number, the greatest first. -/
def decimal (n : Nat) : List Char :=
  if n < 10 then [digitChar n] else decimal (n / 10) ++ [digitChar (n % 10)]

/-- A number in decimal. -/
def showNat (n : Nat) : String := String.ofList (decimal n)

/-- A number in decimal, with a minus sign if it is negative. -/
def showInt : Int → String
  | .ofNat n => showNat n
  | .negSucc n => "-" ++ showNat (n + 1)

/-- The value of a list of digits that continues a number. -/
def valueFrom (start : Nat) : List Char → Option Nat
  | [] => some start
  | c :: rest => (digitValue? c).bind fun d => valueFrom (start * 10 + d) rest

/-- The value of a list of digits. At least one is required and nothing else is allowed. -/
def readDigits? (s : List Char) : Option Nat :=
  if s.isEmpty then none else valueFrom 0 s

/-- Reads a number from zero to `largest`: digits, after a plus sign or none. -/
def readNat? (largest : Nat) (s : String) : Option Nat :=
  let digits := match s.toList with
    | '+' :: rest => rest
    | all => all
  (readDigits? digits).filter (· ≤ largest)

/-- Reads a number from `least` to `largest`: digits, after a plus sign, a minus sign or none. -/
def readInt? (least largest : Int) (s : String) : Option Int :=
  let value : Option Int := match s.toList with
    | '-' :: rest => (readDigits? rest).map fun n => -Int.ofNat n
    | '+' :: rest => (readDigits? rest).map Int.ofNat
    | all => (readDigits? all).map Int.ofNat
  value.filter fun n => least ≤ n && n ≤ largest

/-- The largest number that sixty-four bits hold. -/
def largest64 : Nat := Nat.pow 2 64 - 1

/-- The digit of a number below ten is read as this number. -/
theorem digitValue?_digitChar {d : Nat} (h : d < 10) : digitValue? (digitChar d) = some d := by
  have : ∀ d : Fin 10, digitValue? (digitChar d) = some d.1 := by decide
  exact this ⟨d, h⟩

/-- Digits are read from the left, the later ones from what the earlier ones have come to. -/
theorem valueFrom_append (start : Nat) (s t : List Char) :
    valueFrom start (s ++ t) = (valueFrom start s).bind fun n => valueFrom n t := by
  induction s generalizing start with
  | nil => simp [valueFrom]
  | cons c s ih =>
    simp only [List.cons_append, valueFrom, Option.bind_assoc]
    congr 1
    funext d
    exact ih _

/-- Every number has a digit. -/
theorem decimal_ne_nil (n : Nat) : decimal n ≠ [] := by
  rw [decimal]
  split <;> simp

/-- What is written in digits is read as it was. -/
theorem valueFrom_decimal (n : Nat) : valueFrom 0 (decimal n) = some n := by
  induction n using Nat.strongRecOn with
  | _ n ih =>
    rw [decimal]
    split
    · rename_i h
      simp [valueFrom, digitValue?_digitChar h]
    · rw [valueFrom_append, ih (n / 10) (by omega)]
      simp [valueFrom, digitValue?_digitChar (Nat.mod_lt n (by decide : 0 < 10))]
      omega

/-- Digits written are read back. -/
theorem readDigits?_decimal (n : Nat) : readDigits? (decimal n) = some n := by
  simp [readDigits?, decimal_ne_nil, valueFrom_decimal]

/-- Every character of a numeral is a digit. -/
theorem isDigit_of_mem_decimal {n : Nat} {c : Char} (h : c ∈ decimal n) :
    ∃ d, d < 10 ∧ c = digitChar d := by
  induction n using Nat.strongRecOn with
  | _ n ih =>
    rw [decimal] at h
    split at h
    · exact ⟨n, by assumption, by simpa using h⟩
    · simp only [List.mem_append, List.mem_singleton] at h
      obtain h | h := h
      · exact ih (n / 10) (by omega) h
      · exact ⟨n % 10, Nat.mod_lt n (by decide), h⟩

/-- No two numbers have the same numeral. -/
theorem decimal_injective {m n : Nat} (h : decimal m = decimal n) : m = n := by
  have hr := congrArg readDigits? h
  simpa [readDigits?_decimal] using hr

/-- A character that is no digit is in no numeral. -/
theorem not_mem_decimal {c : Char} (h : ∀ d : Fin 10, digitChar d ≠ c) (n : Nat) :
    c ∉ decimal n := by
  intro hc
  obtain ⟨d, hd, he⟩ := isDigit_of_mem_decimal hc
  exact h ⟨d, hd⟩ he.symm

/-- A number within the range is read back from its numeral. -/
theorem readNat?_showNat {largest n : Nat} (h : n ≤ largest) :
    readNat? largest (showNat n) = some n := by
  have hp : ∀ rest, decimal n ≠ '+' :: rest := by
    intro rest he
    have hn : '+' ∉ decimal n := not_mem_decimal (by decide) n
    exact hn (by simp [he])
  unfold readNat? showNat
  simp only [String.toList_ofList]
  simp [readDigits?_decimal, h]

/-- Numerals keep the line that they stand in. -/
theorem breaksLine_showNat (n : Nat) : breaksLine (showNat n) = false := by
  rw [breaksLine_eq_false_iff, showNat, String.toList_ofList]
  intro c hc
  refine ⟨?_, ?_, ?_⟩
  all_goals
    rintro rfl
    exact not_mem_decimal (by decide) n hc

end Palisade.Text
