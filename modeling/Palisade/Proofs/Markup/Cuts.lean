import Palisade.Markup.Inject
import Palisade.Proofs.Markup.StartTags
import Palisade.Proofs.Text.Leftmost

/-!
# How markup is cut into pieces

The grammar of markup as a relation between a text and its pieces: text without brackets, comments,
declarations and end tags, brackets that begin nothing, and start tags with the raw text behind them.
The main statement says that the walk succeeds exactly on the texts that can be cut so, and gives the
pieces of the cut, of which there is only one. Errors are not covered.
-/
namespace Palisade

open Palisade.Text

namespace Markup

/-- The text behind a tag is cut at the first place where the end tag of the element begins. -/
theorem cutClosing_eq_some_iff {name : String} {s before after : List Char} :
    cutClosing name s = some (before, after) ↔
      s = before ++ after ∧ Leftmost (closes name) before after :=
  cut_eq_some_iff rfl rfl fun _ _ => rfl

/-! ### The grammar -/

/-- The raw text behind a start tag, and what stands behind the raw text. An element of another kind
has none, nor has one with a slash right before the bracket. -/
inductive Raw (t : StartTag) : List Char → List Char → Prop where
  | none {after : List Char} (h : (!t.selfClosing && rawElements.contains t.name) = false) :
      Raw t [] after
  | text {raw after : List Char} (h : (!t.selfClosing && rawElements.contains t.name) = true)
      (hl : Leftmost (closes t.name) raw after) : Raw t raw after

/-- Raw text that is read is cut off where the rules say. -/
theorem rawText_eq_ok_iff {position : Nat} {t : StartTag} {s raw after : List Char} :
    rawText position t s = .ok (raw, after) ↔ s = raw ++ after ∧ Raw t raw after := by
  unfold rawText
  split
  · rename_i h
    constructor
    · intro hr
      split at hr
      · rename_i b a hc
        simp only [Except.ok.injEq, Prod.mk.injEq] at hr
        obtain ⟨rfl, rfl⟩ := hr
        obtain ⟨he, hl⟩ := cutClosing_eq_some_iff.1 hc
        exact ⟨he, .text h hl⟩
      · cases hr
    · rintro ⟨he, hr⟩
      cases hr with
      | none hn =>
        rw [h] at hn
        cases hn
      | text _ hl => rw [cutClosing_eq_some_iff.2 ⟨he, hl⟩]
  · rename_i h
    constructor
    · intro hr
      simp only [Except.ok.injEq, Prod.mk.injEq] at hr
      obtain ⟨rfl, rfl⟩ := hr
      exact ⟨rfl, .none (by simpa using h)⟩
    · rintro ⟨rfl, hr⟩
      cases hr with
      | none => rfl
      | text ht => exact absurd ht h

/-- What an opening bracket begins, as pieces, and what stands behind it. -/
inductive Construct : List Piece → List Char → Prop where
  | comment {inner after : List Char}
      (hl : Leftmost "-->".toList.isPrefixOf inner ("-->".toList ++ after)) :
      Construct [.verbatim ("<!--".toList ++ inner ++ "-->".toList)] after
  /-- A declaration, an instruction or an end tag. -/
  | declaration {inner after : List Char} (hc : ∃ c ∈ inner.head?, c = '/' ∨ c = '!' ∨ c = '?')
      (hn : ¬ "!--".toList <+: inner) (hi : '>' ∉ inner) :
      Construct [.verbatim ('<' :: inner ++ ['>'])] after
  /-- A bracket that begins nothing. -/
  | loose {after : List Char}
      (ha : ∀ c ∈ after.head?, ¬ (c = '/' ∨ c = '!' ∨ c = '?') ∧ c.isAlpha = false) :
      Construct [.verbatim ['<']] after
  | tag {t : StartTag} {last raw after : List Char} (ht : t.Written last) (hr : Raw t raw after) :
      Construct [.tag t, .verbatim raw] after

/-- A text of markup and its pieces. -/
inductive Cut : List Char → List Piece → Prop where
  | text {s : List Char} (h : '<' ∉ s) : Cut s [.verbatim s]
  | construct {text after : List Char} {ps more : List Piece} (h : '<' ∉ text)
      (hc : Construct ps after) (hm : Cut after more) :
      Cut (text ++ (source ps ++ after)) (.verbatim text :: ps ++ more)

/-- The mark of a comment has no bracket in it. -/
theorem not_mem_dashes : '>' ∉ "!--".toList := by decide

/-- A construct of the grammar is found by the walk. -/
theorem Construct.bracket_eq {ps : List Piece} {after : List Char} (h : Construct ps after)
    (position : Nat) {r : List Char} (he : '<' :: r = source ps ++ after) :
    bracket position r = .ok (ps, after) := by
  cases h with
  | @comment inner _ hl =>
    have hr : r = "!--".toList ++ (inner ++ ("-->".toList ++ after)) := by
      simpa [source, Piece.source] using he
    have hp : "!--".toList.isPrefixOf r = true :=
      List.isPrefixOf_iff_prefix.2 (hr ▸ List.prefix_append _ _)
    have hdrop : r.drop 3 = inner ++ ("-->".toList ++ after) := by rw [hr]; rfl
    have htake : '<' :: r.take 3 = "<!--".toList := by rw [hr]; rfl
    have hcut := (cutPattern_eq_some_iff (by decide)).2 ⟨hdrop, hl⟩
    unfold bracket
    rw [if_pos hp, hcut]
    simp only [htake]
  | @declaration inner _ hc hn hi =>
    have hr : r = inner ++ '>' :: after := by simpa [source, Piece.source] using he
    have hp : ¬ "!--".toList.isPrefixOf r = true := by
      rw [List.isPrefixOf_iff_prefix, hr, prefix_append_cons_iff not_mem_dashes]
      exact hn
    obtain ⟨c, hc, hkind⟩ := hc
    obtain ⟨tail, rfl⟩ : ∃ tail, inner = c :: tail := by
      cases inner with
      | nil => cases hc
      | cons d tail => exact ⟨tail, by rw [Option.some.inj hc]⟩
    have hcut := cutAt_append hi after
    unfold bracket
    rw [if_neg hp, hr]
    simp only [List.cons_append] at hcut ⊢
    simp only [if_pos hkind, hcut, List.cons_append]
  | loose ha =>
    have hr : r = after := by simpa [source, Piece.source] using he
    subst hr
    cases r with
    | nil => rfl
    | cons c tail =>
      obtain ⟨hkind, hl⟩ := ha c rfl
      have hp : ¬ "!--".toList.isPrefixOf (c :: tail) = true := by
        intro hp
        obtain ⟨rest, hrest⟩ := List.isPrefixOf_iff_prefix.1 hp
        obtain rfl : '!' = c := (List.cons.inj hrest).1
        exact hkind (.inr (.inl rfl))
      unfold bracket
      rw [if_neg hp]
      simp only [if_neg hkind, hl, Bool.false_eq_true, if_false]
  | @tag t last raw _ ht hraw =>
    obtain ⟨c, tail, hs, ha⟩ := ht.front
    have hr : r = c :: (tail ++ (raw ++ after)) := by
      simpa [source, Piece.source, hs] using he
    have hscan : StartTag.scan position ('<' :: r) = .ok (t, raw ++ after) := by
      refine (StartTag.scan_eq_ok_iff ⟨c, by rw [hr]; rfl, ha⟩).2 ⟨?_, last, ht⟩
      rw [hr, hs, List.cons_append, List.cons_append]
    have hkind : ¬ (c = '/' ∨ c = '!' ∨ c = '?') := by
      rintro (rfl | rfl | rfl) <;> exact absurd ha (by decide)
    have hp : ¬ "!--".toList.isPrefixOf r = true := by
      intro hp
      obtain ⟨rest, hrest⟩ := List.isPrefixOf_iff_prefix.1 hp
      rw [hr] at hrest
      obtain rfl : '!' = c := (List.cons.inj hrest).1
      exact hkind (.inr (.inl rfl))
    have htext : rawText position t (raw ++ after) = .ok (raw, after) :=
      rawText_eq_ok_iff.2 ⟨rfl, hraw⟩
    subst hr
    unfold bracket
    rw [if_neg hp]
    simp only [if_neg hkind, if_pos ha, hscan, htext]

/-- The walk at a bracket finds what the grammar has there. -/
theorem bracket_eq_ok_iff {position : Nat} {r after : List Char} {ps : List Piece} :
    bracket position r = .ok (ps, after) ↔ '<' :: r = source ps ++ after ∧ Construct ps after := by
  have hne : "-->".toList ≠ [] := by decide
  constructor
  · intro h
    refine ⟨bracket_eq h, ?_⟩
    unfold bracket at h
    split at h
    · rename_i hc
      obtain ⟨tail, rfl⟩ := List.isPrefixOf_iff_prefix.1 hc
      split at h
      · rename_i inner rest hcut
        simp only [Except.ok.injEq, Prod.mk.injEq] at h
        obtain ⟨rfl, rfl⟩ := h
        exact .comment ((cutPattern_eq_some_iff hne).1 hcut).2
      · cases h
    rename_i hcomment
    rw [List.isPrefixOf_iff_prefix] at hcomment
    split at h
    · simp only [Except.ok.injEq, Prod.mk.injEq] at h
      obtain ⟨rfl, rfl⟩ := h
      exact .loose (by simp)
    rename_i c tail
    split at h
    · rename_i hc
      split at h
      · rename_i inner rest hcut
        simp only [Except.ok.injEq, Prod.mk.injEq] at h
        obtain ⟨rfl, rfl⟩ := h
        obtain ⟨he, hn⟩ := cutAt_eq_some hcut
        rw [he, prefix_append_cons_iff (by decide)] at hcomment
        refine .declaration ?_ hcomment hn
        cases inner with
        | nil =>
          rw [List.nil_append, List.cons.injEq] at he
          rw [he.1] at hc
          exact absurd hc (by decide)
        | cons d inner =>
          rw [List.cons_append, List.cons.injEq] at he
          exact ⟨d, rfl, he.1 ▸ hc⟩
      · cases h
    rename_i hc
    split at h
    · rename_i ha
      split at h
      · cases h
      rename_i t rest hscan
      split at h
      · cases h
      rename_i raw rest' hraw
      simp only [Except.ok.injEq, Prod.mk.injEq] at h
      obtain ⟨rfl, rfl⟩ := h
      obtain ⟨-, last, ht⟩ := (StartTag.scan_eq_ok_iff ⟨c, rfl, ha⟩).1 hscan
      exact .tag ht (rawText_eq_ok_iff.1 hraw).2
    · rename_i ha
      simp only [Except.ok.injEq, Prod.mk.injEq] at h
      obtain ⟨rfl, rfl⟩ := h
      refine .loose ?_
      intro d hd
      obtain rfl : c = d := Option.some.inj hd
      exact ⟨hc, by simpa using ha⟩
  · rintro ⟨he, h⟩
    exact h.bracket_eq position he

/-- Every construct begins with its bracket. -/
theorem Construct.front {ps : List Piece} {after : List Char} (h : Construct ps after) :
    ∃ r, source ps = '<' :: r := by
  cases h with
  | comment => exact ⟨_, rfl⟩
  | declaration => exact ⟨_, rfl⟩
  | loose => exact ⟨[], rfl⟩
  | @tag t last raw _ ht =>
    obtain ⟨c, tail, hs, -⟩ := ht.front
    refine ⟨c :: tail ++ (raw ++ []), ?_⟩
    simp only [source, List.flatMap_cons, List.flatMap_nil, Piece.source, hs, List.cons_append]

/-- The walk at a text without brackets. -/
theorem walk_of_text {position : Nat} {s : List Char} (h : s.dropWhile (· != '<') = []) :
    walk position s = .ok [.verbatim (s.takeWhile (· != '<'))] := by
  rw [walk.eq_def]
  split <;> simp_all

/-- The walk at a text whose first bracket begins a construct. -/
theorem walk_of_bracket {position : Nat} {s r after : List Char} {c : Char} {ps more : List Piece}
    (h : s.dropWhile (· != '<') = c :: r)
    (hb : bracket (position + byteLength (s.takeWhile (· != '<'))) r = .ok (ps, after))
    (hm : walk (position + byteLength (s.takeWhile (· != '<')) + byteLength (source ps)) after =
      .ok more) :
    walk position s = .ok (.verbatim (s.takeWhile (· != '<')) :: ps ++ more) := by
  rw [walk.eq_def]
  split
  · simp_all
  · rename_i c' r' h'
    rw [h] at h'
    simp only [List.cons.injEq] at h'
    obtain ⟨rfl, rfl⟩ := h'
    simp only
    split
    · rename_i e he
      rw [hb] at he
      cases he
    · rename_i ps' after' hb'
      rw [hb] at hb'
      simp only [Except.ok.injEq, Prod.mk.injEq] at hb'
      obtain ⟨rfl, rfl⟩ := hb'
      rw [hm]

/-- A run up to a bracket has no bracket in it. -/
theorem not_mem_of_run {text rest : List Char} (h : Run (· != '<') text rest) : '<' ∉ text := by
  intro hm
  have hb := h.all '<' hm
  simp at hb

/-- The text before the first bracket. -/
theorem run_text {text r : List Char} (h : '<' ∉ text) : Run (· != '<') text ('<' :: r) := by
  constructor
  · intro c hc
    have hne : c ≠ '<' := fun he => h (he ▸ hc)
    simpa using hne
  · intro c hc
    obtain rfl : '<' = c := Option.some.inj hc
    decide

/-- The walk gives the pieces of the cut. -/
theorem walk_eq_ok_iff {position : Nat} {s : List Char} {ps : List Piece} :
    walk position s = .ok ps ↔ Cut s ps := by
  constructor
  · intro h
    fun_induction walk position s generalizing ps with
    | case1 =>
      rename_i s text hs
      have hrun := Run.takeWhile_dropWhile (· != '<') s
      have hsplit := List.takeWhile_append_dropWhile (p := (· != '<')) (l := s)
      simp only [Except.ok.injEq] at h
      subst h
      rw [hs, List.append_nil] at hsplit
      have hcut := Cut.text (not_mem_of_run hrun)
      have htext : text = s := hsplit
      rwa [htext, ← hsplit]
    | case2 => cases h
    | case3 => cases h
    | case4 =>
      rename_i s text c r hs here qs after hb more hm ih
      have hrun := Run.takeWhile_dropWhile (· != '<') s
      have hsplit := List.takeWhile_append_dropWhile (p := (· != '<')) (l := s)
      simp only [Except.ok.injEq] at h
      subst h
      obtain ⟨he, hc⟩ := bracket_eq_ok_iff.1 hb
      have hbracket : c = '<' := by
        have hstop := hrun.stops c (by rw [hs]; rfl)
        simpa using hstop
      rw [hs, hbracket, he] at hsplit
      have hcut := Cut.construct (not_mem_of_run hrun) hc (ih hm)
      rwa [hsplit] at hcut
  · intro h
    induction h generalizing position with
    | @text s h =>
      have hall : ∀ c ∈ s, (c != '<') = true := by
        intro c hc
        have hne : c ≠ '<' := fun he => h (he ▸ hc)
        simpa using hne
      have hrun : Run (· != '<') s [] := ⟨hall, by simp⟩
      have ht := hrun.takeWhile_eq
      have hd := hrun.dropWhile_eq
      rw [List.append_nil] at ht hd
      rw [walk_of_text hd, ht]
    | @construct text after ps more h hc _ ih =>
      obtain ⟨r, hr⟩ := hc.front
      have hrun := run_text h (r := r ++ after)
      have he : '<' :: (r ++ after) = source ps ++ after := by rw [hr, List.cons_append]
      have ht := hrun.takeWhile_eq
      have hd := hrun.dropWhile_eq
      rw [he] at ht hd
      rw [walk_of_bracket (hd.trans he.symm) (hc.bracket_eq _ he) ih, ht]

/-- A text is taken apart into these pieces exactly if they are a cut of it. -/
theorem pieces_eq_ok_iff {s : List Char} {ps : List Piece} : pieces s = .ok ps ↔ Cut s ps :=
  walk_eq_ok_iff

/-- There is only one way to cut a text. -/
theorem Cut.unique {s : List Char} {ps qs : List Piece} (h : Cut s ps) (h' : Cut s qs) : ps = qs := by
  have hw := pieces_eq_ok_iff.2 h
  rw [pieces_eq_ok_iff.2 h', Except.ok.injEq] at hw
  exact hw.symm

/-- The pieces of a cut, one after the other, are the text. -/
theorem Cut.source_eq {s : List Char} {ps : List Piece} (h : Cut s ps) : source ps = s :=
  source_walk (pieces_eq_ok_iff.2 h)

/-- The source of pieces in a row is theirs in a row. -/
theorem source_append (ps qs : List Piece) : source (ps ++ qs) = source ps ++ source qs :=
  List.flatMap_append

/-- The tags of a construct are those of the grammar. -/
theorem Construct.written {ps : List Piece} {after : List Char} (h : Construct ps after)
    {t : StartTag} (ht : .tag t ∈ ps) : ∃ last, t.Written last := by
  cases h with
  | tag hw =>
    simp only [List.mem_cons, Piece.tag.injEq, reduceCtorEq, List.not_mem_nil, or_false] at ht
    subst ht
    exact ⟨_, hw⟩
  | comment | declaration | loose => simp at ht

/-- The tags of a cut are those of the grammar. -/
theorem Cut.written {s : List Char} {ps : List Piece} (h : Cut s ps) {t : StartTag}
    (ht : .tag t ∈ ps) : ∃ last, t.Written last := by
  induction h with
  | text => simp at ht
  | construct _ hc _ ih =>
    rw [List.cons_append, List.mem_cons, List.mem_append] at ht
    rcases ht with ht | ht | ht
    · cases ht
    · exact hc.written ht
    · exact ih ht

end Markup

end Palisade
