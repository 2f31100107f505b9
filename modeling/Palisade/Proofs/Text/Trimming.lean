import Palisade.Text.Split

/-!
# What trimming leaves

A text that is trimmed loses runs of a class of characters at its ends, and nothing else: what is left
neither begins nor ends in the class. The main statement says that nothing else is left of it. Characters
of the class inside the text are not touched.
-/
namespace Palisade.Text

variable {α : Type} {p : α → Bool} {s t : List α}

/-- What is taken passes the test. -/
theorem of_mem_takeWhile {x : α} (h : x ∈ s.takeWhile p) : p x = true :=
  List.all_eq_true.1 List.all_takeWhile x h

/-- What is left begins with something that fails the test. -/
theorem head?_dropWhile (p : α → Bool) (s : List α) : ∀ x ∈ (s.dropWhile p).head?, p x = false := by
  intro x hx
  have hnot := List.head?_dropWhile_not p s
  rw [Option.mem_def] at hx
  rw [hx] at hnot
  simpa using hnot

/-- A run of one class goes up to the first character of another. -/
theorem takeWhile_append_cons (hs : ∀ x ∈ s, p x = true) {x : α} (hx : p x = false) (rest : List α) :
    (s ++ x :: rest).takeWhile p = s ∧ (s ++ x :: rest).dropWhile p = x :: rest := by
  have hstop : ¬ p x = true := by simp [hx]
  rw [List.takeWhile_append_of_pos hs, List.dropWhile_append_of_pos hs,
    List.takeWhile_cons_of_neg hstop, List.dropWhile_cons_of_neg hstop, List.append_nil]
  exact ⟨rfl, rfl⟩

/-! ### At the right end -/

/-- What is trimmed at the right end stands behind what is left. -/
theorem exists_trimRight_append (p : α → Bool) (s : List α) :
    ∃ after, (∀ x ∈ after, p x = true) ∧ s = trimRight p s ++ after := by
  refine ⟨(s.reverse.takeWhile p).reverse, fun x hx => of_mem_takeWhile (List.mem_reverse.1 hx), ?_⟩
  rw [trimRight, ← List.reverse_append, List.takeWhile_append_dropWhile, List.reverse_reverse]

/-- What is left ends with something that fails the test. -/
theorem getLast?_trimRight (p : α → Bool) (s : List α) :
    ∀ x ∈ (trimRight p s).getLast?, p x = false := by
  rw [trimRight, List.getLast?_reverse]
  exact head?_dropWhile p s.reverse

/-- Trimming takes away what was written behind a text that does not end in the class. -/
theorem trimRight_append {after : List α} (ha : ∀ x ∈ after, p x = true)
    (hl : ∀ x ∈ s.getLast?, p x = false) : trimRight p (s ++ after) = s := by
  have hreverse : ∀ x ∈ after.reverse, p x = true := fun x hx => ha x (List.mem_reverse.1 hx)
  rw [trimRight, List.reverse_append, List.dropWhile_append_of_pos hreverse]
  rw [← List.head?_reverse] at hl
  cases hr : s.reverse with
  | nil => simpa using hr
  | cons x rest =>
    rw [hr] at hl
    rw [List.dropWhile_cons_of_neg (by simp [hl x rfl]), ← hr, List.reverse_reverse]

/-! ### At both ends -/

/-- What is left of a text between a run of a class before it and another behind it, neither beginning nor
ending in the class itself. -/
structure Trimmed (p : α → Bool) (s t : List α) : Prop where
  around : ∃ before after, s = before ++ (t ++ after) ∧ (∀ x ∈ before, p x = true) ∧
    ∀ x ∈ after, p x = true
  first : ∀ x ∈ t.head?, p x = false
  last : ∀ x ∈ t.getLast?, p x = false

/-- A text is trimmed by this. -/
theorem trimmed_trimBoth (p : α → Bool) (s : List α) : Trimmed p s (trimBoth p s) := by
  obtain ⟨after, hafter, hs⟩ := exists_trimRight_append p (s.dropWhile p)
  have hlast := getLast?_trimRight p (s.dropWhile p)
  have hfirst := head?_dropWhile p s
  have hboth : trimBoth p s = trimRight p (s.dropWhile p) := rfl
  rw [hboth]
  refine ⟨⟨s.takeWhile p, after, ?_, fun x => of_mem_takeWhile, hafter⟩, ?_, hlast⟩
  · rw [← hs, List.takeWhile_append_dropWhile]
  · intro x hx
    refine hfirst x ?_
    rw [hs, List.head?_append]
    simp [Option.mem_def.1 hx]

/-- A text is trimmed in one way. -/
theorem Trimmed.trimBoth_eq (h : Trimmed p s t) : trimBoth p s = t := by
  obtain ⟨before, after, rfl, hbefore, hafter⟩ := h.around
  have hboth : trimBoth p (before ++ (t ++ after)) = trimRight p ((t ++ after).dropWhile p) := by
    rw [← List.dropWhile_append_of_pos hbefore]
    rfl
  rw [hboth]
  cases t with
  | nil =>
    have hdrop : after.dropWhile p = [] := by
      rw [← List.append_nil after, List.dropWhile_append_of_pos hafter]
      rfl
    rw [List.nil_append, hdrop]
    rfl
  | cons x rest =>
    have hx : p x = false := h.first x rfl
    rw [List.cons_append, List.dropWhile_cons_of_neg (by simp [hx]), ← List.cons_append]
    exact trimRight_append hafter h.last

/-- Trimming takes away only what is in the class. -/
theorem mem_trimBoth {x : α} (hx : x ∈ s) (hp : p x = false) : x ∈ trimBoth p s := by
  obtain ⟨before, after, he, hbefore, hafter⟩ := (trimmed_trimBoth p s).around
  rw [he, List.mem_append, List.mem_append] at hx
  rcases hx with hx | hx | hx
  · exact absurd (hbefore x hx) (by simp [hp])
  · exact hx
  · exact absurd (hafter x hx) (by simp [hp])

/-- Trimming leaves exactly what neither begins nor ends in the class. -/
theorem trimBoth_eq_iff : trimBoth p s = t ↔ Trimmed p s t :=
  ⟨fun h => h ▸ trimmed_trimBoth p s, Trimmed.trimBoth_eq⟩

end Palisade.Text
