import Palisade.Text.Ascii
import Palisade.Text.Split
import Palisade.Text.Utf8
import Palisade.Text.Numeral

/-!
# Start tags

A start tag is scanned from the bracket that opens it to the one that closes it. Attribute values may
stand between quotation marks or apostrophes, and those may hold the closing bracket. Nothing is
decoded: a tag keeps its text, so that writing the parts one after the other gives the tag back.
Errors name byte positions in the text.
-/
namespace Palisade

open Palisade.Text

/-- Why markup cannot be scanned; positions count bytes from the start of the text. -/
inductive MarkupError where
  | unterminatedComment (position : Nat)
  | unterminatedTag (position : Nat)
  /-- The position is that of the quotation mark. -/
  | unterminatedAttribute (position : Nat)
  | unclosedElement (element : String) (position : Nat)
  deriving Repr, DecidableEq

/-- The message of an error. -/
def MarkupError.message : MarkupError → String
  | unterminatedComment position => "unterminated comment starting at byte " ++ showNat position
  | unterminatedTag position => "unterminated tag starting at byte " ++ showNat position
  | unterminatedAttribute position =>
    "unterminated attribute value starting at byte " ++ showNat position
  | unclosedElement element position =>
    "<" ++ element ++ "> opened at byte " ++ showNat position ++ " is never closed"

/-- A start tag. -/
structure StartTag where
  /-- The bracket and the name, as written. -/
  opening : List Char
  /-- Everything after the name, the closing bracket included. -/
  inside : List Char
  /-- The names of the attributes in small letters, in order. -/
  attributes : List String
  deriving Repr, DecidableEq

namespace StartTag

/-- The name in small letters. -/
def name (t : StartTag) : String := lower (String.ofList (t.opening.drop 1))

/-- The tag as written. -/
def source (t : StartTag) : List Char := t.opening ++ t.inside

/-- Whether a slash stands right before the closing bracket. -/
def selfClosing (t : StartTag) : Bool := t.source.dropLast.getLast? == some '/'

/-- Characters that end a tag's or an attribute's name. -/
def endsName (c : Char) : Bool := isMarkupBlank c || c == '>' || c == '/'

/-- Characters between attributes. -/
def isFiller (c : Char) : Bool := isMarkupBlank c || c == '/'

/-- Characters of an attribute's name. -/
def isNameChar (c : Char) : Bool := !endsName c && c != '='

/-- Characters of a value without quotation marks. -/
def isBareChar (c : Char) : Bool := !isMarkupBlank c && c != '>'

/-- The rest of a tag: what it holds, the names of its attributes and the text after it. -/
structure Rest where
  /-- The characters up to and including the closing bracket. -/
  inside : List Char
  /-- The names of the attributes in small letters. -/
  attributes : List String
  /-- The text after the tag. -/
  after : List Char

/-- An attribute's value from the equality sign on: the characters taken and the text after them. -/
def scanValue (start position : Nat) (s : List Char) :
    Except MarkupError (List Char × List Char) :=
  let blanks := s.takeWhile isMarkupBlank
  match s.dropWhile isMarkupBlank with
  | [] => .error (.unterminatedTag start)
  | c :: r =>
    if c = '\"' ∨ c = '\'' then
      match cutAt c r with
      | some (value, after) => .ok (blanks ++ c :: value ++ [c], after)
      | none => .error (.unterminatedAttribute (position + byteLength blanks))
    else .ok (blanks ++ (c :: r).takeWhile isBareChar, (c :: r).dropWhile isBareChar)

/-- One attribute that begins here: the characters taken and the text after them. -/
def scanAttribute (start position : Nat) (s : List Char) :
    Except MarkupError (List Char × List Char) :=
  let name := s.takeWhile isNameChar
  let rest := s.dropWhile isNameChar
  let blanks := rest.takeWhile isMarkupBlank
  match rest.dropWhile isMarkupBlank with
  | '=' :: r =>
    match scanValue start (position + byteLength (name ++ blanks) + 1) r with
    | .error e => .error e
    | .ok (value, after) => .ok (name ++ blanks ++ '=' :: value, after)
  | r => .ok (name ++ blanks, r)

/-- A value that is scanned stands in front of what is left. -/
theorem scanValue_eq {start position : Nat} {s taken after : List Char}
    (h : scanValue start position s = .ok (taken, after)) : s = taken ++ after := by
  have hs := List.takeWhile_append_dropWhile (p := isMarkupBlank) (l := s)
  unfold scanValue at h
  simp only at h
  split at h
  · simp at h
  · rename_i c r heq
    rw [heq] at hs
    split at h
    · split at h
      · rename_i value rest hc
        simp only [Except.ok.injEq, Prod.mk.injEq] at h
        obtain ⟨rfl, rfl⟩ := h
        rw [(cutAt_eq_some hc).1] at hs
        conv => lhs; rw [← hs]
        simp
      · simp at h
    · simp only [Except.ok.injEq, Prod.mk.injEq] at h
      obtain ⟨rfl, rfl⟩ := h
      rw [List.append_assoc, List.takeWhile_append_dropWhile, hs]

/-- An attribute that is scanned stands in front of what is left. -/
theorem scanAttribute_eq {start position : Nat} {s taken after : List Char}
    (h : scanAttribute start position s = .ok (taken, after)) : s = taken ++ after := by
  have hn := List.takeWhile_append_dropWhile (p := isNameChar) (l := s)
  have hb := List.takeWhile_append_dropWhile (p := isMarkupBlank) (l := s.dropWhile isNameChar)
  unfold scanAttribute at h
  simp only at h
  split at h
  · rename_i r heq
    rw [heq] at hb
    split at h
    · simp at h
    · rename_i value rest hv
      simp only [Except.ok.injEq, Prod.mk.injEq] at h
      obtain ⟨rfl, rfl⟩ := h
      rw [scanValue_eq hv] at hb
      conv => lhs; rw [← hn, ← hb]
      simp
  · simp only [Except.ok.injEq, Prod.mk.injEq] at h
    obtain ⟨rfl, rfl⟩ := h
    rw [List.append_assoc, hb, hn]

/-- An attribute takes at least one character unless the tag's end or a filler stands there. -/
theorem length_lt_of_scanAttribute {start position : Nat} {c : Char} {s taken after : List Char}
    (hc : isFiller c = false) (hg : c ≠ '>')
    (h : scanAttribute start position (c :: s) = .ok (taken, after)) :
    after.length < (c :: s).length := by
  have he := scanAttribute_eq h
  have : taken ≠ [] := by
    unfold scanAttribute at h
    simp only at h
    split at h
    · split at h
      · simp at h
      · simp only [Except.ok.injEq, Prod.mk.injEq] at h
        simp [← h.1]
    · rename_i hne
      simp only [Except.ok.injEq, Prod.mk.injEq] at h
      by_cases hq : c = '='
      · subst hq
        exact absurd rfl (hne s)
      · have hb : isMarkupBlank c = false ∧ c ≠ '/' := by simpa [isFiller, not_or] using hc
        have hn : isNameChar c = true := by simp [isNameChar, endsName, hb, hg, hq]
        simp [← h.1, List.takeWhile, hn]
  have hl := congrArg List.length he
  have : 0 < taken.length := List.length_pos_iff.2 this
  simp only [List.length_append] at hl
  omega

/-- Scans the attributes up to the closing bracket of the tag that begins at `start`; `position` is
where the text stands. -/
def scanAttributes (start position : Nat) (s : List Char) : Except MarkupError Rest :=
  let filler := s.takeWhile isFiller
  match _hs : s.dropWhile isFiller with
  | [] => .error (.unterminatedTag start)
  | c :: r =>
    if _hg : c = '>' then .ok ⟨filler ++ ['>'], [], r⟩
    else
      let here := position + byteLength filler
      match _ha : scanAttribute start here (c :: r) with
      | .error e => .error e
      | .ok (taken, after) =>
        let name := lower (String.ofList ((c :: r).takeWhile isNameChar))
        match scanAttributes start (here + byteLength taken) after with
        | .error e => .error e
        | .ok rest => .ok ⟨filler ++ taken ++ rest.inside, name :: rest.attributes, rest.after⟩
termination_by s.length
decreasing_by
  have hle := length_dropWhile_le isFiller s
  have hc : isFiller c = false := by
    have := List.head?_dropWhile_not isFiller s
    rw [_hs] at this
    simpa using this
  have := length_lt_of_scanAttribute hc _hg _ha
  rw [_hs] at hle
  omega

/-- A tag and the text after it are the text that was scanned. -/
theorem scanAttributes_eq {start position : Nat} {s : List Char} {rest : Rest}
    (h : scanAttributes start position s = .ok rest) : s = rest.inside ++ rest.after := by
  fun_induction scanAttributes start position s generalizing rest with
  | case1 => simp at h
  | case2 =>
    rename_i s filler r hs
    have hw := List.takeWhile_append_dropWhile (p := isFiller) (l := s)
    simp only [Except.ok.injEq] at h
    subst h
    rw [hs] at hw
    conv => lhs; rw [← hw]
    simp [filler]
  | case3 => simp at h
  | case4 => simp at h
  | case5 =>
    rename_i s filler c r hs _ here taken after ha name tail hr ih
    have hw := List.takeWhile_append_dropWhile (p := isFiller) (l := s)
    simp only [Except.ok.injEq] at h
    subst h
    rw [hs, scanAttribute_eq ha, ih hr] at hw
    conv => lhs; rw [← hw]
    simp [filler]

/-- Scans the tag at the front of the text, whose first character is the opening bracket. -/
def scan (start : Nat) (s : List Char) : Except MarkupError (StartTag × List Char) :=
  let opening := s.take 1 ++ (s.drop 1).takeWhile fun c => !endsName c
  let rest := (s.drop 1).dropWhile fun c => !endsName c
  match scanAttributes start (start + byteLength opening) rest with
  | .error e => .error e
  | .ok rest => .ok (⟨opening, rest.inside, rest.attributes⟩, rest.after)

/-- A start tag that is scanned stands in front of what is left, as it is written. -/
theorem scan_eq {start : Nat} {s after : List Char} {t : StartTag}
    (h : scan start s = .ok (t, after)) : s = t.source ++ after := by
  unfold scan at h
  simp only at h
  split at h
  · simp at h
  · rename_i rest heq
    simp only [Except.ok.injEq, Prod.mk.injEq] at h
    obtain ⟨rfl, rfl⟩ := h
    simp only [source, List.append_assoc]
    rw [← scanAttributes_eq heq, List.takeWhile_append_dropWhile, List.take_append_drop]

/-- A tag holds at least its opening bracket. -/
theorem length_lt_of_scan {start : Nat} {c : Char} {s after : List Char} {t : StartTag}
    (h : scan start (c :: s) = .ok (t, after)) : after.length < (c :: s).length := by
  have he := congrArg List.length (scan_eq h)
  have : 0 < t.source.length := by
    unfold scan at h
    simp only at h
    split at h
    · simp at h
    · simp only [Except.ok.injEq, Prod.mk.injEq] at h
      obtain ⟨rfl, -⟩ := h
      simp [source]
  simp only [List.length_append] at he
  omega

end StartTag

end Palisade
