import Mathlib.Data.List.Basic
import Palisade.Text.Split

/-!
# The first place in a text

Texts are cut where something stands for the first time: a pattern, or any other property of what is
there. The place is given by what stands before it and behind it, so that it does not depend on how it
is searched. The main statements say that a search finds it, that there is only one, and what of the
text behind it matters.
-/
namespace Palisade.Text

/-- What stands before and behind the first place of a text at which a property holds of what is
there. -/
structure Leftmost (p : List Char → Bool) (before rest : List Char) : Prop where
  here : p rest = true
  first : ∀ k < before.length, p ((before ++ rest).drop k) = false

/-- The leftmost place is in front exactly if the test holds there. -/
theorem leftmost_nil_iff {p : List Char → Bool} {rest : List Char} :
    Leftmost p [] rest ↔ p rest = true :=
  ⟨fun h => h.here, fun h => ⟨h, fun _ hk => absurd hk (Nat.not_lt_zero _)⟩⟩

/-- The leftmost place is farther on exactly if the test fails in front. -/
theorem leftmost_cons_iff {p : List Char → Bool} {c : Char} {before rest : List Char} :
    Leftmost p (c :: before) rest ↔ p (c :: before ++ rest) = false ∧ Leftmost p before rest := by
  constructor
  · intro h
    refine ⟨h.first 0 (Nat.zero_lt_succ _), h.here, fun k hk => ?_⟩
    exact h.first (k + 1) (Nat.succ_lt_succ hk)
  · rintro ⟨hc, h⟩
    refine ⟨h.here, fun k hk => ?_⟩
    cases k with
    | zero => exact hc
    | succ k => exact h.first k (Nat.lt_of_succ_lt_succ hk)

/-- A function that goes through a text until a property holds cuts it at the first such place. -/
theorem cut_eq_some_iff {p : List Char → Bool} {cut : List Char → Option (List Char × List Char)}
    (hp : p [] = false) (hnil : cut [] = none)
    (hcons : ∀ c rest, cut (c :: rest) = if p (c :: rest) then some ([], c :: rest)
      else (cut rest).map fun (before, after) => (c :: before, after))
    {s before after : List Char} :
    cut s = some (before, after) ↔ s = before ++ after ∧ Leftmost p before after := by
  induction s generalizing before with
  | nil =>
    rw [hnil]
    constructor
    · intro h
      cases h
    · rintro ⟨he, h⟩
      obtain ⟨rfl, rfl⟩ := List.append_eq_nil_iff.1 he.symm
      have hc := h.here
      rw [hp] at hc
      cases hc
  | cons x rest ih =>
    rw [hcons]
    cases hx : p (x :: rest) with
    | true =>
      rw [if_pos rfl]
      constructor
      · intro h
        simp only [Option.some.injEq, Prod.mk.injEq] at h
        obtain ⟨rfl, rfl⟩ := h
        exact ⟨rfl, leftmost_nil_iff.2 hx⟩
      · rintro ⟨he, h⟩
        cases before with
        | nil => rw [he, List.nil_append]
        | cons c before =>
          have hc := (leftmost_cons_iff.1 h).1
          rw [← he, hx] at hc
          cases hc
    | false =>
      rw [if_neg Bool.false_ne_true]
      constructor
      · intro h
        obtain ⟨⟨b, a⟩, hb, he⟩ := Option.map_eq_some_iff.1 h
        simp only [Prod.mk.injEq] at he
        obtain ⟨rfl, rfl⟩ := he
        obtain ⟨rfl, hl⟩ := ih.1 hb
        exact ⟨rfl, leftmost_cons_iff.2 ⟨hx, hl⟩⟩
      · rintro ⟨he, h⟩
        cases before with
        | nil =>
          have hc := h.here
          rw [List.nil_append] at he
          rw [← he, hx] at hc
          cases hc
        | cons c before =>
          rw [List.cons_append, List.cons.injEq] at he
          obtain ⟨rfl, rfl⟩ := he
          rw [ih.2 ⟨rfl, (leftmost_cons_iff.1 h).2⟩]
          rfl

/-- A text is cut at the first occurrence of a pattern. -/
theorem cutPattern_eq_some_iff {pattern s before after : List Char} (hne : pattern ≠ []) :
    cutPattern pattern s = some (before, after) ↔
      s = before ++ (pattern ++ after) ∧ Leftmost pattern.isPrefixOf before (pattern ++ after) := by
  have hp : pattern.isPrefixOf [] = false := by
    cases pattern with
    | nil => exact absurd rfl hne
    | cons => rfl
  have hcut := @cut_eq_some_iff pattern.isPrefixOf
    (fun s => (cutPattern pattern s).map fun (before, after) => (before, pattern ++ after)) hp
    (by simp [cutPattern, hne])
    (by
      intro c rest
      rw [cutPattern]
      split
      · rename_i hc
        obtain ⟨t, ht⟩ := List.isPrefixOf_iff_prefix.1 hc
        rw [← ht, List.drop_left]
        rfl
      · rw [Option.map_map, Option.map_map]
        rfl)
  rw [← hcut, Option.map_eq_some_iff]
  constructor
  · intro h
    exact ⟨_, h, rfl⟩
  · rintro ⟨⟨b, a⟩, h, he⟩
    simp only [Prod.mk.injEq, List.append_cancel_left_eq] at he
    rw [h, he.1, he.2]

/-- A text is cut at the leftmost place of a pattern. -/
theorem Leftmost.cutPattern_eq {pattern before after : List Char} (hne : pattern ≠ [])
    (h : Leftmost pattern.isPrefixOf before (pattern ++ after)) :
    cutPattern pattern (before ++ (pattern ++ after)) = some (before, after) :=
  (cutPattern_eq_some_iff hne).2 ⟨rfl, h⟩

/-- What stands behind a character that is not in a pattern does not decide whether the pattern is at
the front. -/
theorem prefix_append_cons_iff {p s : List Char} {x : Char} (hx : x ∉ p) (more : List Char) :
    p <+: s ++ x :: more ↔ p <+: s := by
  constructor
  · intro h
    rcases List.prefix_or_prefix_of_prefix h (List.prefix_append s (x :: more)) with hp | hp
    · exact hp
    · obtain ⟨t, rfl⟩ := hp
      rw [List.prefix_append_right_inj] at h
      cases t with
      | nil => simp
      | cons y t =>
        rw [List.cons_prefix_cons] at h
        exact absurd (List.mem_append_right s (h.1 ▸ List.mem_cons_self)) hx
  · intro h
    exact h.trans (List.prefix_append s _)

/-- A pattern that is not found is not at the front, nor found behind the first character. -/
theorem cutPattern_cons_eq_none_iff {pattern : List Char} {c : Char} {rest : List Char} :
    cutPattern pattern (c :: rest) = none ↔
      ¬ pattern <+: c :: rest ∧ cutPattern pattern rest = none := by
  rw [cutPattern, ← List.isPrefixOf_iff_prefix]
  split <;> simp_all

/-- A pattern is not found exactly if it occurs nowhere. -/
theorem cutPattern_eq_none_iff {pattern s : List Char} (hne : pattern ≠ []) :
    cutPattern pattern s = none ↔ ¬ pattern <:+: s := by
  induction s with
  | nil => simp [cutPattern, hne]
  | cons c rest ih => rw [cutPattern_cons_eq_none_iff, List.infix_cons_iff, not_or, ih]

/-- Before its first occurrence a pattern does not occur. -/
theorem Leftmost.not_infix {pattern before rest : List Char} (hne : pattern ≠ [])
    (h : Leftmost pattern.isPrefixOf before rest) : ¬ pattern <:+: before := by
  rintro ⟨front, back, rfl⟩
  have hfirst := h.first front.length (by
    rw [List.length_append, List.length_append]
    have hlen := List.length_pos_iff.2 hne
    omega)
  rw [List.append_assoc, List.append_assoc, List.drop_left] at hfirst
  have hhere := List.isPrefixOf_iff_prefix.2 (List.prefix_append pattern (back ++ rest))
  rw [hhere] at hfirst
  cases hfirst

/-- The first occurrence of a pattern does not depend on what stands behind it. -/
theorem leftmost_append {pattern before more : List Char}
    (h : Leftmost pattern.isPrefixOf before (pattern ++ more)) (more' : List Char) :
    Leftmost pattern.isPrefixOf before (pattern ++ more') := by
  have hp (k : Nat) (hk : k < before.length) (s : List Char) :
      pattern.isPrefixOf ((before ++ (pattern ++ s)).drop k) =
        pattern.isPrefixOf (before.drop k ++ pattern) := by
    have hle : pattern.length ≤ (before.drop k ++ pattern).length := by simp
    rw [List.drop_append_of_le_length (Nat.le_of_lt hk), ← List.append_assoc, Bool.eq_iff_iff,
      List.isPrefixOf_iff_prefix, List.isPrefixOf_iff_prefix]
    constructor
    · intro h
      exact List.prefix_of_prefix_length_le h (List.prefix_append _ s) hle
    · intro h
      exact h.trans (List.prefix_append _ s)
  refine ⟨List.isPrefixOf_iff_prefix.2 (List.prefix_append _ _), fun k hk => ?_⟩
  rw [hp k hk more', ← hp k hk more]
  exact h.first k hk

/-! ### Comparing first places -/

variable {p q : List Char → Bool} {before rest before' rest' : List Char}

/-- What holds at more places holds for the first time no later. -/
theorem Leftmost.prefix_of_imp (h : Leftmost p before rest) (h' : Leftmost q before' rest')
    (he : before ++ rest = before' ++ rest') (hi : q rest' = true → p rest' = true) :
    before <+: before' := by
  rcases List.append_eq_append_iff.1 he with ⟨v, rfl, -⟩ | ⟨v, rfl, rfl⟩
  · exact List.prefix_append before v
  · cases v with
    | nil => simp
    | cons c v =>
      have hf := h.first before'.length (by simp)
      rw [he, List.drop_left, hi h'.here] at hf
      cases hf

/-- The first place is what it is if the property holds there and not before. -/
theorem Leftmost.unique (h : Leftmost p before rest) (h' : Leftmost p before' rest')
    (he : before ++ rest = before' ++ rest') : before = before' :=
  (h.prefix_of_imp h' he id).eq_of_length_le (h'.prefix_of_imp h he.symm id).length_le

end Palisade.Text
