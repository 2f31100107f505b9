import Palisade.Text.Split

/-!
# Blanks and trimming

The blank characters are those with the White_Space property. Trimming drops them from both ends
of a text.
-/
namespace Palisade.Text

/-- Characters with the White_Space property. -/
def isBlank (c : Char) : Bool :=
  let n := c.toNat
  (0x09 ≤ n && n ≤ 0x0D) || n == 0x20 || n == 0x85 || n == 0xA0 || n == 0x1680 ||
    (0x2000 ≤ n && n ≤ 0x200A) || n == 0x2028 || n == 0x2029 || n == 0x202F || n == 0x205F ||
    n == 0x3000

/-- A text without the blanks at its ends. -/
def trimBlanks (s : List Char) : List Char := trimBoth isBlank s

/-- Where nothing is to be dropped, trimming drops nothing. -/
theorem trimBoth_eq_self {α : Type} {drop : α → Bool} {s : List α}
    (h : ∀ c ∈ s, drop c = false) : trimBoth drop s = s := by
  have hd : s.dropWhile drop = s := by
    cases s with
    | nil => rfl
    | cons c r => simp [List.dropWhile, h c (by simp)]
  have hr : s.reverse.dropWhile drop = s.reverse := by
    cases hs : s.reverse with
    | nil => rfl
    | cons c r =>
      have : c ∈ s := by
        have : c ∈ s.reverse := by simp [hs]
        simpa using this
      simp [List.dropWhile, h c this]
  simp [trimBoth, hd, hr]

/-- What is dropped may as well not stand in front. -/
theorem trimBoth_cons {α : Type} {drop : α → Bool} {c : α} (h : drop c = true) (s : List α) :
    trimBoth drop (c :: s) = trimBoth drop s := by
  rw [trimBoth, trimBoth, List.dropWhile_cons_of_pos h]

end Palisade.Text
