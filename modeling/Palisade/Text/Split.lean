/-!
# Cutting text apart

Lists are cut at a separator, at a pattern, or trimmed at both ends. The cuts are leftmost unless
their names say otherwise, and every cut comes with the equation that puts the pieces together
again. Cuts are defined on lists, so they serve characters and bytes alike.
-/
namespace Palisade.Text

variable {α : Type} [BEq α]

/-- What stands before and after the leftmost occurrence of `mark`, if it occurs at all. -/
def cutAt (mark : α) : List α → Option (List α × List α)
  | [] => none
  | x :: rest =>
    if x == mark then some ([], rest)
    else (cutAt mark rest).map fun (before, after) => (x :: before, after)

/-- What stands before and after the last occurrence of `mark`, if it occurs at all. -/
def cutAtLast (mark : α) : List α → Option (List α × List α)
  | [] => none
  | x :: rest =>
    match cutAtLast mark rest with
    | some (before, after) => some (x :: before, after)
    | none => if x == mark then some ([], rest) else none

/-- What stands before and after the leftmost occurrence of `pattern`, if it occurs at all. -/
def cutPattern (pattern : List α) : List α → Option (List α × List α)
  | [] => if pattern.isEmpty then some ([], []) else none
  | x :: rest =>
    if pattern.isPrefixOf (x :: rest) then some ([], (x :: rest).drop pattern.length)
    else (cutPattern pattern rest).map fun (before, after) => (x :: before, after)

/-- The pieces between the occurrences of a separator, one more than there are occurrences. -/
def pieces (mark : α) : List α → List (List α)
  | [] => [[]]
  | x :: rest =>
    if x == mark then [] :: pieces mark rest
    else match pieces mark rest with
      | [] => [[x]]
      | piece :: others => (x :: piece) :: others

/-- Drops the elements of a class from both ends. -/
def trimBoth (drop : α → Bool) (s : List α) : List α :=
  ((s.dropWhile drop).reverse.dropWhile drop).reverse

/-- Drops the elements of a class from the right end. -/
def trimRight (drop : α → Bool) (s : List α) : List α :=
  (s.reverse.dropWhile drop).reverse

/-- A cut at a mark puts the mark between what stands before and behind it, and it is the first one. -/
theorem cutAt_eq_some [LawfulBEq α] {mark : α} {s before after : List α}
    (h : cutAt mark s = some (before, after)) :
    s = before ++ mark :: after ∧ mark ∉ before := by
  induction s generalizing before with
  | nil => simp [cutAt] at h
  | cons x rest ih =>
    by_cases hx : x = mark
    · simp [cutAt, hx] at h
      obtain ⟨rfl, rfl⟩ := h
      simp [hx]
    · simp [cutAt, hx] at h
      obtain ⟨b, hb, rfl⟩ := h
      obtain ⟨rfl, hm⟩ := ih hb
      simp [hm, Ne.symm hx]

/-- Where the mark does not stand before, a text is cut at this mark. -/
theorem cutAt_append [LawfulBEq α] {mark : α} {before : List α} (h : mark ∉ before)
    (after : List α) : cutAt mark (before ++ mark :: after) = some (before, after) := by
  induction before with
  | nil => simp [cutAt]
  | cons x rest ih =>
    simp only [List.mem_cons, not_or] at h
    simp [cutAt, Ne.symm h.1, ih h.2]

/-- There is no cut exactly if the mark does not occur. -/
theorem cutAt_eq_none_iff [LawfulBEq α] {mark : α} {s : List α} :
    cutAt mark s = none ↔ mark ∉ s := by
  induction s with
  | nil => simp [cutAt]
  | cons x rest ih =>
    by_cases hx : x = mark
    · simp [cutAt, hx]
    · simp [cutAt, hx, ih, Ne.symm hx]

/-- There is no last cut exactly if the mark does not occur. -/
theorem cutAtLast_eq_none_iff [LawfulBEq α] {mark : α} {s : List α} :
    cutAtLast mark s = none ↔ mark ∉ s := by
  induction s with
  | nil => simp [cutAtLast]
  | cons x rest ih =>
    rw [cutAtLast]
    cases hr : cutAtLast mark rest with
    | some p =>
      have hmem : mark ∈ rest := by
        apply Classical.byContradiction
        intro hn
        simp [ih.2 hn] at hr
      simp [hmem]
    | none =>
      have hn := ih.1 hr
      by_cases hx : x = mark
      · simp [hx]
      · simp [hx, hn, Ne.symm hx]

/-- The last cut has no mark behind it. -/
theorem cutAtLast_eq_some [LawfulBEq α] {mark : α} {s before after : List α}
    (h : cutAtLast mark s = some (before, after)) :
    s = before ++ mark :: after ∧ mark ∉ after := by
  induction s generalizing before with
  | nil => simp [cutAtLast] at h
  | cons x rest ih =>
    rw [cutAtLast] at h
    cases hr : cutAtLast mark rest with
    | some p =>
      obtain ⟨b, a⟩ := p
      rw [hr] at h
      simp at h
      obtain ⟨rfl, rfl⟩ := h
      obtain ⟨rfl, hm⟩ := ih hr
      simp [hm]
    | none =>
      rw [hr] at h
      simp at h
      obtain ⟨rfl, rfl, rfl⟩ := h
      exact ⟨by simp, cutAtLast_eq_none_iff.1 hr⟩

/-- Where the mark does not stand behind, a text is cut at this mark when it is cut at the last one. -/
theorem cutAtLast_append [LawfulBEq α] {mark : α} (before : List α) {after : List α}
    (h : mark ∉ after) : cutAtLast mark (before ++ mark :: after) = some (before, after) := by
  induction before with
  | nil =>
    have hn : cutAtLast mark after = none := cutAtLast_eq_none_iff.2 h
    simp [cutAtLast, hn]
  | cons x rest ih => simp [cutAtLast, ih]

/-- A cut at a pattern loses nothing but the pattern. -/
theorem cutPattern_eq_some [LawfulBEq α] {pattern s before after : List α}
    (h : cutPattern pattern s = some (before, after)) : s = before ++ pattern ++ after := by
  induction s generalizing before with
  | nil =>
    simp [cutPattern] at h
    obtain ⟨rfl, rfl, rfl⟩ := h
    rfl
  | cons x rest ih =>
    rw [cutPattern] at h
    split at h
    · rename_i hp
      simp at h
      obtain ⟨rfl, rfl⟩ := h
      obtain ⟨t, ht⟩ := List.isPrefixOf_iff_prefix.1 hp
      rw [← ht]
      simp
    · simp at h
      obtain ⟨b, hb, rfl⟩ := h
      simp [ih hb]

/-- A pattern is found behind a text that does not hold its first element. -/
theorem cutPattern_append [LawfulBEq α] {mark : α} {before : List α} (h : mark ∉ before)
    (pattern after : List α) :
    cutPattern (mark :: pattern) (before ++ (mark :: pattern ++ after)) = some (before, after) := by
  induction before with
  | nil => simp [cutPattern]
  | cons x rest ih =>
    simp only [List.mem_cons, not_or] at h
    have hx : (mark == x) = false := by simpa using h.1
    rw [List.cons_append, cutPattern, ih h.2]
    simp [List.isPrefixOf, hx]

/-- Cutting at a pattern that is not empty leaves less than there was. -/
theorem length_after_cutPattern [LawfulBEq α] {pattern s before after : List α}
    (h : cutPattern pattern s = some (before, after)) (hp : pattern ≠ []) :
    after.length < s.length := by
  have := congrArg List.length (cutPattern_eq_some h)
  have : 0 < pattern.length := List.length_pos_iff.2 hp
  simp at *
  omega

/-- Every text has a piece, if an empty one. -/
theorem pieces_ne_nil (mark : α) (s : List α) : pieces mark s ≠ [] := by
  cases s with
  | nil => simp [pieces]
  | cons x rest =>
    rw [pieces]
    split
    · simp
    · split <;> simp

/-- Writing the separator between the pieces gives the text back. -/
theorem intercalate_pieces [LawfulBEq α] (mark : α) (s : List α) :
    List.intercalate [mark] (pieces mark s) = s := by
  induction s with
  | nil => simp [pieces, List.intercalate]
  | cons x rest ih =>
    rw [pieces]
    have hne := pieces_ne_nil mark rest
    split
    · rename_i hx
      have hx : x = mark := by simpa using hx
      cases hp : pieces mark rest with
      | nil => exact absurd hp hne
      | cons p ps =>
        rw [hp] at ih
        simp [List.intercalate, List.intersperse, hx] at ih ⊢
        exact ih
    · cases hp : pieces mark rest with
      | nil => exact absurd hp hne
      | cons p ps =>
        rw [hp] at ih
        cases ps with
        | nil => simpa [List.intercalate, List.intersperse] using ih
        | cons q qs => simpa [List.intercalate, List.intersperse] using ih

omit [BEq α] in

/-- Dropping something from the front does not make a text longer. -/
theorem length_dropWhile_le (p : α → Bool) (s : List α) : (s.dropWhile p).length ≤ s.length :=
  (List.dropWhile_sublist p).length_le

end Palisade.Text
