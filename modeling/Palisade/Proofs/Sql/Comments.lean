import Mathlib.Data.List.Basic
import Palisade.Sql.Trusted

/-!
# Comments that no piece of SQL holds

Two dashes begin a comment. Pieces without comments can make one where they meet: the first dash ends one
piece and the second begins the next. The main statement says where the comments of a whole number between
two literals are: in the literals, and besides only between a dash and the sign of a negative number.
-/
namespace Palisade.TrustedSql

open Palisade.Text

/-- The pattern stands in the text behind so many characters. -/
def OccursAt (pattern s : List Char) (place : Nat) : Prop := pattern <+: s.drop place

/-- Whether a pattern occurs at a place can be computed. -/
instance (pattern s : List Char) (place : Nat) : Decidable (OccursAt pattern s place) :=
  inferInstanceAs (Decidable (pattern <+: s.drop place))

/-- What begins a comment. -/
def commentMark : List Char := ['-', '-']

variable {x y c : Char} {s t : List Char} {place : Nat}

/-- One character is a prefix of what begins with it. -/
theorem singleton_prefix_iff : [y] <+: t ↔ t.head? = some y := by
  cases t with
  | nil => simp
  | cons d rest => simp [eq_comm]

/-- Behind the first character all places are one less. -/
theorem occursAt_cons_succ {pattern : List Char} :
    OccursAt pattern (c :: s) (place + 1) ↔ OccursAt pattern s place := Iff.rfl

/-- Two characters occur in front if one is the first and the other follows it. -/
theorem occursAt_cons_zero :
    OccursAt [x, y] (c :: s) 0 ↔ x = c ∧ s.head? = some y := by
  rw [OccursAt, List.drop_zero, List.cons_prefix_cons, singleton_prefix_iff]

/-- Two characters stand next to each other in one of two texts, or they meet where the texts meet. -/
theorem occursAt_append_iff :
    OccursAt [x, y] (s ++ t) place ↔
      OccursAt [x, y] s place ∨
      (s.getLast? = some x ∧ t.head? = some y ∧ place + 1 = s.length) ∨
      (s.length ≤ place ∧ OccursAt [x, y] t (place - s.length)) := by
  induction s generalizing place with
  | nil => simp [OccursAt]
  | cons c s ih =>
    cases place with
    | zero =>
      rw [List.cons_append, occursAt_cons_zero, occursAt_cons_zero]
      cases s with
      | nil => simp [eq_comm]
      | cons d rest => simp
    | succ place =>
      rw [List.cons_append, occursAt_cons_succ, occursAt_cons_succ, ih, List.length_cons,
        Nat.add_sub_add_right]
      cases s with
      | nil => simp
      | cons d rest => simp [List.getLast?_cons_cons]

/-! ### The digits of a number -/

/-- A number is its digits, with a dash in front if it is negative. -/
theorem toList_showInt (n : Int) :
    (showInt n).toList = (if n < 0 then ['-'] else []) ++ decimal n.natAbs := by
  cases n with
  | ofNat n => simp [showInt, showNat]
  | negSucc n => simp [showInt, showNat, Int.negSucc_lt_zero]

/-- Digits are no dashes. -/
theorem dash_not_mem_decimal (n : Nat) : '-' ∉ decimal n := not_mem_decimal (by decide) n

/-- A text does not begin with a character that is not in it. -/
theorem head?_ne_of_not_mem (h : c ∉ s) : s.head? ≠ some c := fun he => h (List.mem_of_mem_head? he)

/-- A number begins with a dash if it is negative. -/
theorem head?_number_append (n : Int) :
    ((showInt n).toList ++ t).head? = some '-' ↔ n < 0 := by
  rw [toList_showInt]
  have hne := decimal_ne_nil n.natAbs
  have hdigit : (decimal n.natAbs).head? ≠ some '-' := head?_ne_of_not_mem (dash_not_mem_decimal _)
  split
  · simp_all
  · rw [List.nil_append, List.head?_append_of_ne_nil _ hne]
    simp_all

/-- No number ends with a dash. -/
theorem getLast?_number (n : Int) : (showInt n).toList.getLast? ≠ some '-' := by
  rw [toList_showInt, List.getLast?_append_of_ne_nil _ (decimal_ne_nil _)]
  intro h
  exact dash_not_mem_decimal _ (List.mem_of_mem_getLast? h)

/-- No number holds two dashes. -/
theorem not_occursAt_number (n : Int) (place : Nat) :
    ¬ OccursAt commentMark (showInt n).toList place := by
  have hdigits : ∀ place, ¬ OccursAt commentMark (decimal n.natAbs) place := by
    intro place h
    have hm : '-' ∈ (decimal n.natAbs).drop place := h.subset List.mem_cons_self
    exact dash_not_mem_decimal _ (List.mem_of_mem_drop hm)
  rw [toList_showInt]
  split
  · have hdigit : (decimal n.natAbs).head? ≠ some '-' := head?_ne_of_not_mem (dash_not_mem_decimal _)
    cases place with
    | zero =>
      rw [List.singleton_append, commentMark, occursAt_cons_zero]
      exact fun h => hdigit h.2
    | succ place => exact hdigits place
  · exact hdigits place

/-! ### A number between literals -/

/-- The text of a number between two literals. -/
theorem toList_concat (a b : String) (n : Int) :
    (concat [literal a, ofInt n, literal b]).text.toList =
      a.toList ++ ((showInt n).toList ++ b.toList) := by
  simp [concat, literal, ofInt, String.join]

/-- The marks of comments in a number between two literals are those in the literals, and one more if the
number is negative and the literal before it ends with a dash: that dash with the sign of the number. -/
theorem comments_around_number (a b : String) (n : Int) (place : Nat) :
    OccursAt commentMark (concat [literal a, ofInt n, literal b]).text.toList place ↔
      OccursAt commentMark a.toList place ∨
      (n < 0 ∧ a.toList.getLast? = some '-' ∧ place + 1 = a.length) ∨
      (a.length + (ofInt n).text.length ≤ place ∧
        OccursAt commentMark b.toList (place - (a.length + (ofInt n).text.length))) := by
  have hnumber := not_occursAt_number n (place - a.toList.length)
  have hlast := getLast?_number n
  have hlength : (ofInt n).text.length = (showInt n).toList.length := String.length_toList.symm
  rw [commentMark] at hnumber
  rw [toList_concat, commentMark, occursAt_append_iff, occursAt_append_iff, head?_number_append,
    ← String.length_toList, hlength, ← Nat.sub_sub]
  constructor
  · rintro (ha | ⟨hl, hn, hp⟩ | ⟨hp, hi | ⟨hl, -⟩ | ⟨hp', hb⟩⟩)
    · exact .inl ha
    · exact .inr (.inl ⟨hn, hl, hp⟩)
    · exact absurd hi hnumber
    · exact absurd hl hlast
    · exact .inr (.inr ⟨by omega, hb⟩)
  · rintro (ha | ⟨hn, hl, hp⟩ | ⟨hp, hb⟩)
    · exact .inl ha
    · exact .inr (.inl ⟨hl, hn, hp⟩)
    · exact .inr (.inr ⟨by omega, .inr (.inr ⟨by omega, hb⟩)⟩)

/-- A literal that ends with a dash and a negative number begin a comment that is in neither literal. -/
theorem comment_between_pieces :
    let before := "SELECT 1-"
    OccursAt commentMark (concat [literal before, ofInt (-1), literal ""]).text.toList 8 ∧
      ¬ 8 + commentMark.length ≤ before.length ∧ ¬ before.length + (ofInt (-1)).text.length ≤ 8 := by
  decide +kernel

end Palisade.TrustedSql
