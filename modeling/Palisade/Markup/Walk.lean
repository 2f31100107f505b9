import Palisade.Markup.Tag

/-!
# Walking through markup

Markup falls apart into start tags and what lies between them: text, comments, declarations, end tags
and the content of elements that hold raw text. The walk visits every start tag that is none of
these and keeps every character: the pieces, written one after the other, are the markup.
-/
namespace Palisade

open Palisade.Text

namespace Markup

/-- A part of a text of markup. -/
inductive Piece where
  /-- Characters that get nothing inserted. -/
  | verbatim (s : List Char)
  /-- A start tag. -/
  | tag (t : StartTag)
  deriving Repr, DecidableEq

/-- A piece as written. -/
def Piece.source : Piece → List Char
  | verbatim s => s
  | tag t => t.source

/-- Pieces as written, one after the other. -/
def source (pieces : List Piece) : List Char := pieces.flatMap Piece.source

/-- Elements whose content is text up to their end tag. -/
def rawElements : List String := ["script", "style", "textarea", "title"]

/-- Whether the end tag of an element begins here, whatever its case and whatever follows. -/
def closes (name : String) (s : List Char) : Bool :=
  ("</".toList ++ name.toList).isPrefixOf (s.map Char.toLower)

/-- The characters before the first place where the end tag of an element begins, and those from
there on. -/
def cutClosing (name : String) : List Char → Option (List Char × List Char)
  | [] => none
  | c :: rest =>
    if closes name (c :: rest) then some ([], c :: rest)
    else (cutClosing name rest).map fun (before, after) => (c :: before, after)

/-- The raw text after a start tag at `position`, and the text after it. -/
def rawText (position : Nat) (t : StartTag) (after : List Char) :
    Except MarkupError (List Char × List Char) :=
  if !t.selfClosing && rawElements.contains t.name then
    match cutClosing t.name after with
    | some (raw, rest) => .ok (raw, rest)
    | none => .error (.unclosedElement t.name position)
  else .ok ([], after)

/-- What an opening bracket begins, the bracket not being in `r`: the pieces and the text after
them. A bracket that begins nothing stands for itself. -/
def bracket (position : Nat) (r : List Char) : Except MarkupError (List Piece × List Char) :=
  if "!--".toList.isPrefixOf r then
    match cutPattern "-->".toList (r.drop 3) with
    | some (comment, after) =>
      .ok ([.verbatim ('<' :: r.take 3 ++ comment ++ "-->".toList)], after)
    | none => .error (.unterminatedComment position)
  else match r with
    | [] => .ok ([.verbatim ['<']], [])
    | c :: _ =>
      if c = '/' ∨ c = '!' ∨ c = '?' then
        match cutAt '>' r with
        | some (inner, after) => .ok ([.verbatim ('<' :: inner ++ ['>'])], after)
        | none => .error (.unterminatedTag position)
      else if c.isAlpha then
        match StartTag.scan position ('<' :: r) with
        | .error e => .error e
        | .ok (t, after) =>
          match rawText position t after with
          | .error e => .error e
          | .ok (raw, rest) => .ok ([.tag t, .verbatim raw], rest)
      else .ok ([.verbatim ['<']], r)

/-- The cut at a closing tag loses nothing. -/
theorem cutClosing_eq_some {name : String} {s before after : List Char}
    (h : cutClosing name s = some (before, after)) : s = before ++ after := by
  induction s generalizing before with
  | nil => simp [cutClosing] at h
  | cons c rest ih =>
    rw [cutClosing] at h
    split at h
    · simp at h
      simp [← h.1, ← h.2]
    · simp at h
      obtain ⟨b, hb, rfl⟩ := h
      simp [ih hb]

/-- The content of an element stands in front of what is left. -/
theorem rawText_eq {position : Nat} {t : StartTag} {s raw rest : List Char}
    (h : rawText position t s = .ok (raw, rest)) : s = raw ++ rest := by
  unfold rawText at h
  split at h
  · split at h
    · rename_i b a hc
      simp only [Except.ok.injEq, Prod.mk.injEq] at h
      rw [cutClosing_eq_some hc, h.1, h.2]
    · simp at h
  · simp only [Except.ok.injEq, Prod.mk.injEq] at h
    simp [← h.1, ← h.2]

/-- The pieces that a bracket begins and the text after them are the text from the bracket on. -/
theorem bracket_eq {position : Nat} {r after : List Char} {ps : List Piece}
    (h : bracket position r = .ok (ps, after)) : '<' :: r = source ps ++ after := by
  unfold bracket at h
  split at h
  · split at h
    · rename_i comment rest hc
      simp only [Except.ok.injEq, Prod.mk.injEq] at h
      obtain ⟨rfl, rfl⟩ := h
      have := cutPattern_eq_some hc
      conv => lhs; rw [← List.take_append_drop 3 r, this]
      simp [source, Piece.source]
    · simp at h
  · split at h
    · simp only [Except.ok.injEq, Prod.mk.injEq] at h
      simp [← h.1, ← h.2, source, Piece.source]
    · rename_i c tail
      split at h
      · split at h
        · rename_i inner rest hc
          simp only [Except.ok.injEq, Prod.mk.injEq] at h
          obtain ⟨rfl, rfl⟩ := h
          rw [(cutAt_eq_some hc).1]
          simp [source, Piece.source]
        · simp at h
      · split at h
        · split at h
          · simp at h
          · rename_i t rest hs
            split at h
            · simp at h
            · rename_i raw rest' hr
              simp only [Except.ok.injEq, Prod.mk.injEq] at h
              obtain ⟨rfl, rfl⟩ := h
              rw [StartTag.scan_eq hs, rawText_eq hr]
              simp [source, Piece.source]
        · simp only [Except.ok.injEq, Prod.mk.injEq] at h
          simp [← h.1, ← h.2, source, Piece.source]

/-- A bracket takes at least itself. -/
theorem length_lt_of_bracket {position : Nat} {r after : List Char} {ps : List Piece}
    (h : bracket position r = .ok (ps, after)) : after.length < ('<' :: r).length := by
  have he := congrArg List.length (bracket_eq h)
  have : 0 < (source ps).length := by
    unfold bracket at h
    split at h
    · split at h
      · simp only [Except.ok.injEq, Prod.mk.injEq] at h
        simp [← h.1, source, Piece.source]
      · simp at h
    · split at h
      · simp only [Except.ok.injEq, Prod.mk.injEq] at h
        simp [← h.1, source, Piece.source]
      · split at h
        · split at h
          · simp only [Except.ok.injEq, Prod.mk.injEq] at h
            simp [← h.1, source, Piece.source]
          · simp at h
        · split at h
          · split at h
            · simp at h
            · rename_i t rest hs
              have hl := StartTag.length_lt_of_scan hs
              have hq := congrArg List.length (StartTag.scan_eq hs)
              split at h
              · simp at h
              · simp only [Except.ok.injEq, Prod.mk.injEq] at h
                simp only [List.length_append] at hq
                simp [← h.1, source, Piece.source]
                omega
          · simp only [Except.ok.injEq, Prod.mk.injEq] at h
            simp [← h.1, source, Piece.source]
  simp only [List.length_append] at he
  omega

/-- The pieces of a text that stands at `position`. -/
def walk (position : Nat) (s : List Char) : Except MarkupError (List Piece) :=
  let text := s.takeWhile (· != '<')
  match _hs : s.dropWhile (· != '<') with
  | [] => .ok [.verbatim text]
  | _ :: r =>
    let here := position + byteLength text
    match _hb : bracket here r with
    | .error e => .error e
    | .ok (ps, after) =>
      match walk (here + byteLength (source ps)) after with
      | .error e => .error e
      | .ok rest => .ok (.verbatim text :: ps ++ rest)
termination_by s.length
decreasing_by
  have hl := length_lt_of_bracket _hb
  have hd := length_dropWhile_le (· != '<') s
  rw [_hs] at hd
  simp only [List.length_cons] at hl hd
  omega

/-- The pieces of a text of markup. -/
def pieces (s : List Char) : Except MarkupError (List Piece) := walk 0 s

/-- The pieces of a text, written one after the other, are the text. -/
theorem source_walk {position : Nat} {s : List Char} {ps : List Piece}
    (h : walk position s = .ok ps) : source ps = s := by
  fun_induction walk position s generalizing ps with
  | case1 =>
    rename_i s text hs
    have hw := List.takeWhile_append_dropWhile (p := (· != '<')) (l := s)
    rw [hs] at hw
    simp only [Except.ok.injEq] at h
    simp [← h, source, Piece.source, text]
    simpa using hw
  | case2 => simp at h
  | case3 => simp at h
  | case4 =>
    rename_i s text c r hs here qs after hb rest hr ih
    have hw := List.takeWhile_append_dropWhile (p := (· != '<')) (l := s)
    have hc : c = '<' := by
      have := List.head?_dropWhile_not (· != '<') s
      rw [hs] at this
      simpa using this
    simp only [Except.ok.injEq] at h
    have e := bracket_eq hb
    subst hc
    rw [hs, e, ← ih hr] at hw
    rw [← h, ← hw]
    simp [source, Piece.source, text]

end Markup

end Palisade
