import Palisade.Proofs.Markup.Cuts

/-!
# Where something is written into markup

The walk visits start tags at positions of the text, and each of them has the places at which it gets a
nonce or a token. The main statement says that the places are all there is to writing: whether it
succeeds depends on the text alone, and if it does, the outcome is the text with the two texts written
into it at the places of the tags that were visited. Positions count characters.
-/
namespace Palisade

open Palisade.Text

namespace Markup

/-- A text with texts written into it at places in ascending order. The text itself begins at the
position `start`. -/
def splice (start : Nat) : List (Nat × List Char) → List Char → List Char
  | [], s => s
  | (place, written) :: rest, s =>
    s.take (place - start) ++ written ++ splice place rest (s.drop (place - start))

/-- The start tags that are visited, with their positions; the pieces begin at `start`. -/
def visited (start : Nat) : List Piece → List (Nat × StartTag)
  | [] => []
  | .verbatim s :: rest => visited (start + s.length) rest
  | .tag t :: rest => (start, t) :: visited (start + t.source.length) rest

/-- The places of a start tag: right behind the name of a script without an attribute of the name
nonce, and right behind the closing bracket of a form. -/
def places (w : Insertions) (position : Nat) (t : StartTag) : List (Nat × List Char) :=
  (if w.nonces = true ∧ t.name = "script" ∧ "nonce" ∉ t.attributes then
    [(position + t.opening.length, nonceText)] else []) ++
  (if w.tokens = true ∧ t.name = "form" then [(position + t.source.length, tokenText)] else [])

/-- All places, in order; the pieces begin at `start`. -/
def marks (w : Insertions) (start : Nat) (ps : List Piece) : List (Nat × List Char) :=
  (visited start ps).flatMap fun p => places w p.1 p.2

variable {w : Insertions} {start : Nat}

/-- In what is copied there is no mark. -/
theorem marks_verbatim (s : List Char) (rest : List Piece) :
    marks w start (.verbatim s :: rest) = marks w (start + s.length) rest := rfl

/-- The marks of a tag stand in front of those behind it. -/
theorem marks_tag (t : StartTag) (rest : List Piece) :
    marks w start (.tag t :: rest) = places w start t ++ marks w (start + t.source.length) rest := rfl

/-- The tags of pieces in a row are visited in a row. -/
theorem visited_append (ps qs : List Piece) :
    visited start (ps ++ qs) = visited start ps ++ visited (start + (source ps).length) qs := by
  induction ps generalizing start with
  | nil => rfl
  | cons p rest ih =>
    cases p with
    | verbatim s =>
      simp only [List.cons_append, visited, ih, source, List.flatMap_cons, Piece.source,
        List.length_append, Nat.add_assoc]
    | tag t =>
      simp only [List.cons_append, visited, ih, source, List.flatMap_cons, Piece.source,
        List.length_append, Nat.add_assoc]

/-- The places of a tag are behind its name. -/
theorem mem_places {position : Nat} {t : StartTag} {m : Nat × List Char}
    (h : m ∈ places w position t) :
    position + t.opening.length ≤ m.1 ∧ m.1 ≤ position + t.source.length := by
  have hs : t.source.length = t.opening.length + t.inside.length := List.length_append
  unfold places at h
  rw [List.mem_append] at h
  rcases h with h | h
  · split at h
    · obtain rfl := List.mem_singleton.1 h
      constructor <;> simp only <;> omega
    · cases h
  · split at h
    · obtain rfl := List.mem_singleton.1 h
      constructor <;> simp only <;> omega
    · cases h

/-- All places are in the text of the pieces. -/
theorem mem_marks {ps : List Piece} {m : Nat × List Char} (h : m ∈ marks w start ps) :
    start ≤ m.1 ∧ m.1 ≤ start + (source ps).length := by
  induction ps generalizing start with
  | nil => cases h
  | cons p rest ih =>
    cases p with
    | verbatim s =>
      rw [marks_verbatim] at h
      have hm := ih h
      simp only [source, List.flatMap_cons, Piece.source, List.length_append] at hm ⊢
      omega
    | tag t =>
      rw [marks_tag, List.mem_append] at h
      have hl : (source (.tag t :: rest)).length = t.source.length + (source rest).length := by
        simp only [source, List.flatMap_cons, Piece.source, List.length_append]
      rcases h with h | h
      · have hm := mem_places h
        omega
      · have hm := ih h
        omega

/-! ### Writing at places -/

/-- What stands before all places is kept. -/
theorem splice_append {ms : List (Nat × List Char)} {v : List Char} (s : List Char)
    (h : ∀ m ∈ ms, start + v.length ≤ m.1) :
    splice start ms (v ++ s) = v ++ splice (start + v.length) ms s := by
  cases ms with
  | nil => rfl
  | cons m rest =>
    obtain ⟨place, written⟩ := m
    have hp : start + v.length ≤ place := h _ List.mem_cons_self
    have hn : place - start = v.length + (place - (start + v.length)) := by omega
    simp only [splice]
    rw [hn, List.take_length_add_append, List.drop_length_add_append]
    simp only [List.append_assoc]

/-- What may be written at the very front. -/
theorem splice_front (c : Prop) [Decidable c] (written : List Char) (ms : List (Nat × List Char))
    (s : List Char) :
    splice start ((if c then [(start, written)] else []) ++ ms) s =
      (if c then written else []) ++ splice start ms s := by
  split
  · simp [splice]
  · rfl

/-- A tag as it is filled, in the words of its places. -/
theorem fillTag_eq (w : Insertions) (t : StartTag) :
    fillTag w t =
      t.opening ++ ((if w.nonces = true ∧ t.name = "script" ∧ "nonce" ∉ t.attributes then nonceText
        else []) ++ (t.inside ++ if w.tokens = true ∧ t.name = "form" then tokenText else [])) := by
  have hn : (w.nonces && needsNonce t) = true ↔
      w.nonces = true ∧ t.name = "script" ∧ "nonce" ∉ t.attributes := by
    simp [needsNonce]
  have ht : (w.tokens && needsToken t) = true ↔ w.tokens = true ∧ t.name = "form" := by
    simp [needsToken]
  simp only [fillTag, hn, ht, List.append_assoc]

/-- Filling a tag is writing at its places. -/
theorem splice_places (t : StartTag) {ms : List (Nat × List Char)} (s : List Char)
    (h : ∀ m ∈ ms, start + t.source.length ≤ m.1) :
    splice start (places w start t ++ ms) (t.source ++ s) =
      fillTag w t ++ splice (start + t.source.length) ms s := by
  have hs : t.source.length = t.opening.length + t.inside.length := List.length_append
  have hnonce : ∀ m ∈ places w start t ++ ms, start + t.opening.length ≤ m.1 := by
    rw [List.forall_mem_append]
    exact ⟨fun m hm => (mem_places hm).1, fun m hm => by have := h m hm; omega⟩
  have htoken : ∀ m ∈ (if w.tokens = true ∧ t.name = "form" then
      [(start + t.source.length, tokenText)] else []) ++ ms,
      start + t.opening.length + t.inside.length ≤ m.1 := by
    rw [Nat.add_assoc, ← hs, List.forall_mem_append]
    refine ⟨fun m hm => ?_, h⟩
    split at hm
    · exact Nat.le_of_eq (congrArg Prod.fst (List.mem_singleton.1 hm)).symm
    · cases hm
  have hsource : t.source ++ s = t.opening ++ (t.inside ++ s) := List.append_assoc _ _ _
  rw [hsource, splice_append _ hnonce, places, List.append_assoc,
    splice_front, splice_append _ htoken, Nat.add_assoc, ← hs, splice_front, fillTag_eq]
  simp only [List.append_assoc]

/-- Filling pieces is writing at their places. -/
theorem flatMap_filled_eq (w : Insertions) (start : Nat) (ps : List Piece) :
    ps.flatMap (Piece.filled w) = splice start (marks w start ps) (source ps) := by
  induction ps generalizing start with
  | nil => rfl
  | cons p rest ih =>
    rw [List.flatMap_cons]
    cases p with
    | verbatim s =>
      have hs : source (.verbatim s :: rest) = s ++ source rest := rfl
      rw [hs, marks_verbatim, splice_append _ fun m hm => (mem_marks hm).1, ← ih]
      rfl
    | tag t =>
      have hs : source (.tag t :: rest) = t.source ++ source rest := rfl
      rw [hs, marks_tag, splice_places t _ fun m hm => (mem_marks hm).1, ← ih]
      rfl

/-- The places of a tag come one after the other, and only a form has one at its end. -/
theorem pairwise_places {position : Nat} (t : StartTag) :
    (places w position t).Pairwise fun m n => m.1 < n.1 := by
  unfold places
  split
  · rename_i hn
    rw [if_neg fun ht => by simp [hn.2.1] at ht, List.append_nil]
    exact List.pairwise_singleton _ _
  · rw [List.nil_append]
    split
    · exact List.pairwise_singleton _ _
    · exact .nil

/-- If tags have names then no place is at the very front. -/
theorem lt_of_mem_marks {ps : List Piece} (ho : ∀ t, .tag t ∈ ps → t.opening ≠ [])
    {m : Nat × List Char} (h : m ∈ marks w start ps) : start < m.1 := by
  induction ps generalizing start with
  | nil => cases h
  | cons p rest ih =>
    have hrest : ∀ t, .tag t ∈ rest → t.opening ≠ [] := fun t ht => ho t (List.mem_cons_of_mem p ht)
    cases p with
    | verbatim s =>
      have hm := ih hrest h
      omega
    | tag t =>
      rw [marks_tag, List.mem_append] at h
      rcases h with h | h
      · have hm := (mem_places h).1
        have hl := List.length_pos_iff.2 (ho t List.mem_cons_self)
        omega
      · have hm := ih hrest h
        omega

/-- All places are different and come in ascending order. -/
theorem pairwise_marks {ps : List Piece} (ho : ∀ t, .tag t ∈ ps → t.opening ≠ []) :
    (marks w start ps).Pairwise fun m n => m.1 < n.1 := by
  induction ps generalizing start with
  | nil => exact .nil
  | cons p rest ih =>
    have hrest : ∀ t, .tag t ∈ rest → t.opening ≠ [] := fun t ht => ho t (List.mem_cons_of_mem p ht)
    cases p with
    | verbatim s => exact ih hrest
    | tag t =>
      rw [marks_tag, List.pairwise_append]
      refine ⟨pairwise_places t, ih hrest, ?_⟩
      intro m hm n hn
      exact Nat.lt_of_le_of_lt (mem_places hm).2 (lt_of_mem_marks hrest hn)

/-- A tag is visited where it stands among the pieces. -/
theorem exists_of_mem_visited {ps : List Piece} {position : Nat} {t : StartTag}
    (h : (position, t) ∈ visited start ps) :
    ∃ before after, ps = before ++ .tag t :: after ∧ position = start + (source before).length := by
  induction ps generalizing start with
  | nil => cases h
  | cons p rest ih =>
    have later : (position, t) ∈ visited (start + p.source.length) rest →
        ∃ before after, p :: rest = before ++ .tag t :: after ∧
          position = start + (source before).length := by
      intro hr
      obtain ⟨before, after, rfl, rfl⟩ := ih hr
      refine ⟨p :: before, after, rfl, ?_⟩
      simp only [source, List.flatMap_cons, List.length_append, Nat.add_assoc]
    cases p with
    | verbatim s => exact later h
    | tag u =>
      rcases List.mem_cons.1 h with he | hr
      · simp only [Prod.mk.injEq] at he
        obtain ⟨rfl, rfl⟩ := he
        exact ⟨[], rest, rfl, rfl⟩
      · exact later hr

/-- Writing into a text that can be cut. -/
theorem inject_of_cut {s : List Char} {ps : List Piece} (h : Cut s ps) (w : Insertions) :
    inject w s = .ok (splice 0 (marks w 0 ps) s) := by
  rw [inject, pieces_eq_ok_iff.2 h]
  simp only [Except.map, flatMap_filled_eq w 0, h.source_eq]

/-- Writing into markup depends on the text alone: either the text cannot be cut, and whatever is to be
written the error is the same; or it has one cut, every tag that is visited stands in the text as the
grammar has it, and the outcome is the text with the nonces and tokens written at the places of these
tags, which are different, in ascending order, and all there is. -/
theorem writes_at_places (s : List Char) :
    (∃ e, (∀ ps, ¬ Cut s ps) ∧ ∀ w, inject w s = .error e) ∨
      ∃ ps, Cut s ps ∧ (∀ qs, Cut s qs → qs = ps) ∧
        (∀ position t, (position, t) ∈ visited 0 ps →
          (∃ last, t.Written last) ∧ t.source <+: s.drop position) ∧
        ∀ w, (marks w 0 ps).Pairwise (fun m n => m.1 < n.1) ∧
          inject w s = .ok (splice 0 (marks w 0 ps) s) := by
  cases hp : pieces s with
  | error e =>
    left
    refine ⟨e, ?_, ?_⟩
    · intro ps hc
      rw [pieces_eq_ok_iff.2 hc] at hp
      cases hp
    · intro w
      rw [inject, hp]
      rfl
  | ok ps =>
    right
    have hc : Cut s ps := pieces_eq_ok_iff.1 hp
    refine ⟨ps, hc, fun qs hq => hq.unique hc, ?_, ?_⟩
    · intro position t ht
      obtain ⟨before, after, rfl, rfl⟩ := exists_of_mem_visited ht
      refine ⟨hc.written (List.mem_append_right before List.mem_cons_self), ?_⟩
      rw [← hc.source_eq, Nat.zero_add, source_append, List.drop_left]
      exact List.prefix_append _ _
    · intro w
      refine ⟨pairwise_marks fun t ht => ?_, inject_of_cut hc w⟩
      obtain ⟨last, hw⟩ := hc.written ht
      exact hw.opening_ne_nil

end Markup

end Palisade
