import Palisade.Text.Split

/-!
# The pieces of a text

What stands between the separators of a text that was put together with separators: the parts again, if
none of them has a separator. A separator of several characters is cut at its first, and the others stand
in front of the next part.
-/
namespace Palisade.Text

variable {α : Type} [BEq α]

/-- The pieces are those that the library splits a list into. -/
theorem pieces_eq_splitOn (mark : α) (s : List α) : pieces mark s = s.splitOn mark := by
  induction s with
  | nil => rfl
  | cons x rest ih =>
    have hne := pieces_ne_nil mark rest
    rw [List.splitOn_cons_eq_if_modifyHead, pieces, ih]
    rw [ih] at hne
    cases hs : rest.splitOn mark with
    | nil => exact absurd hs hne
    | cons piece others => rfl

variable [LawfulBEq α] {mark : α}

/-- Texts without the separator are the pieces of the text that is put together from them. -/
theorem pieces_intercalate {parts : List (List α)} (hne : parts ≠ [])
    (h : ∀ part ∈ parts, mark ∉ part) : pieces mark (List.intercalate [mark] parts) = parts := by
  rw [pieces_eq_splitOn]
  exact List.splitOn_intercalate mark h hne

/-- Without the mark there is one piece. -/
theorem pieces_of_not_mem {s : List α} (h : mark ∉ s) : pieces mark s = [s] := by
  have hp := pieces_intercalate (List.cons_ne_nil s []) (List.forall_mem_singleton.2 h)
  rwa [List.intercalate_singleton] at hp

/-- A mark between two texts parts their pieces. -/
theorem pieces_append_cons (mark : α) (s t : List α) :
    pieces mark (s ++ mark :: t) = pieces mark s ++ pieces mark t := by
  rw [pieces_eq_splitOn, pieces_eq_splitOn, pieces_eq_splitOn]
  exact List.splitOnP_append_cons s t (BEq.refl mark)

/-- A text without the separator stands in front of the first piece. -/
theorem pieces_append {front : List α} (hf : mark ∉ front) (s : List α) :
    ∃ first others, pieces mark (front ++ s) = (front ++ first) :: others := by
  induction front with
  | nil => exact List.exists_cons_of_ne_nil (pieces_ne_nil mark s)
  | cons c rest ih =>
    rw [List.mem_cons, not_or] at hf
    obtain ⟨first, others, hp⟩ := ih hf.2
    have hc : (c == mark) = false := beq_eq_false_iff_ne.2 (Ne.symm hf.1)
    refine ⟨first, others, ?_⟩
    rw [List.cons_append, pieces, hp, if_neg (by simp [hc])]
    rfl

/-- The mark is in no piece. -/
theorem not_mem_of_mem_pieces {s piece : List α} (h : piece ∈ pieces mark s) : mark ∉ piece := by
  induction s generalizing piece with
  | nil =>
    rw [pieces, List.mem_singleton] at h
    rw [h]
    exact List.not_mem_nil
  | cons x rest ih =>
    rw [pieces] at h
    split at h
    · rcases List.mem_cons.1 h with rfl | h
      · exact List.not_mem_nil
      · exact ih h
    · rename_i hx
      have hne : mark ≠ x := fun he => hx (by simp [he])
      split at h
      · rw [List.mem_singleton.1 h]
        simpa using hne
      · rename_i first others hp
        rw [hp] at ih
        rcases List.mem_cons.1 h with rfl | h
        · rw [List.mem_cons, not_or]
          exact ⟨hne, ih List.mem_cons_self⟩
        · exact ih (List.mem_cons_of_mem _ h)

/-! ### Longer separators -/

omit [BEq α] [LawfulBEq α] in
/-- Each part but the first stands behind a separator. -/
theorem intercalate_cons_eq_flatMap (sep first : List α) (others : List (List α)) :
    List.intercalate sep (first :: others) = first ++ others.flatMap (sep ++ ·) := by
  induction others generalizing first with
  | nil => simp
  | cons second others ih =>
    rw [List.intercalate_cons_cons, ih, List.flatMap_cons]
    simp only [List.append_assoc]

omit [BEq α] [LawfulBEq α] in
/-- What holds of the characters of a separator and of all parts holds of what is put together. -/
theorem forall_mem_intercalate {p : α → Prop} {sep : List α} {parts : List (List α)}
    (hs : ∀ x ∈ sep, p x) (h : ∀ part ∈ parts, ∀ x ∈ part, p x) :
    ∀ x ∈ List.intercalate sep parts, p x := by
  cases parts with
  | nil => exact List.forall_mem_nil _
  | cons first others =>
    rw [List.forall_mem_cons] at h
    rw [intercalate_cons_eq_flatMap, List.forall_mem_append]
    refine ⟨h.1, fun x hx => ?_⟩
    obtain ⟨part, hp, hx⟩ := List.mem_flatMap.1 hx
    rcases List.mem_append.1 hx with hx | hx
    · exact hs x hx
    · exact h.2 part hp x hx

/-- A character of a text is the separator or stands in a piece. -/
theorem eq_or_mem_piece (mark : α) {s : List α} {x : α} (hx : x ∈ s) :
    x = mark ∨ ∃ piece ∈ pieces mark s, x ∈ piece := by
  rw [← intercalate_pieces mark s] at hx
  have hmark : ∀ y ∈ [mark], y = mark ∨ ∃ piece ∈ pieces mark s, y ∈ piece :=
    List.forall_mem_singleton.2 (.inl rfl)
  exact forall_mem_intercalate hmark (fun piece hp y hy => .inr ⟨piece, hp, hy⟩) x hx

/-- The pieces of parts that were put together with a separator of several characters are the pieces of the
first, and of each other one behind the rest of the separator. -/
theorem pieces_intercalate_flatMap (sep first : List α) (others : List (List α)) :
    pieces mark (List.intercalate (mark :: sep) (first :: others)) =
      pieces mark first ++ others.flatMap fun part => pieces mark (sep ++ part) := by
  induction others generalizing first with
  | nil => simp
  | cons second others ih =>
    have hmove : sep ++ List.intercalate (mark :: sep) (second :: others) =
        List.intercalate (mark :: sep) ((sep ++ second) :: others) := by
      rw [intercalate_cons_eq_flatMap, intercalate_cons_eq_flatMap, List.append_assoc]
    rw [List.intercalate_cons_cons, List.append_assoc, List.cons_append, pieces_append_cons, hmove, ih,
      List.flatMap_cons]

/-- Parts without the first character of the separator are found among the pieces, the first as it is. -/
theorem pieces_intercalate_cons {sep first : List α} {others : List (List α)} (hs : mark ∉ sep)
    (h : ∀ part ∈ first :: others, mark ∉ part) :
    pieces mark (List.intercalate (mark :: sep) (first :: others)) =
      first :: others.map (sep ++ ·) := by
  rw [List.forall_mem_cons] at h
  have hothers : ∀ part ∈ others, pieces mark (sep ++ part) = [sep ++ part] := fun part hp =>
    pieces_of_not_mem fun hm => (List.mem_append.1 hm).elim hs (h.2 part hp)
  rw [pieces_intercalate_flatMap, pieces_of_not_mem h.1, List.flatMap_def,
    List.map_congr_left hothers, ← List.flatMap_def, ← List.map_eq_flatMap, List.singleton_append]

end Palisade.Text
