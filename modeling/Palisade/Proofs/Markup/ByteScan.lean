import Palisade.Markup.Inject
import Palisade.Proofs.Text.Offsets

/-!
# Writing into markup by offsets of bytes

Markup is also scanned as its bytes, by a loop over offsets, with a copy of the bytes in small letters
beside them. There an offset can lie outside of the bytes or inside of a character, and a loop can stand
still. The scan is written here with a check at each step: a part is cut out only between two boundaries of
both texts, a single byte is looked at only if it is there, and something is written only at offsets that are
in order. Nothing says here that the checks hold. The main statements say that every round of the loop over
attributes and every round of the loop over brackets goes forward, whatever the bytes are, so that both
loops end.
-/
namespace Palisade

open Palisade.Text Palisade.Markup

/-- Why a scan stops. -/
inductive Halt where
  /-- The markup cannot be scanned. -/
  | fault (error : MarkupError)
  /-- A check failed. -/
  | breach
  deriving Repr, DecidableEq

namespace Halt

variable {α β : Type}

/-- What has succeeded goes on with its result. -/
theorem ok_bind (x : α) (next : α → Except Halt β) : (Except.ok x >>= next) = next x := rfl

/-- If two steps in a row succeed then so does the first, and the second with its result. -/
theorem bind_eq_ok {first : Except Halt α} {next : α → Except Halt β} {result : β}
    (h : (first >>= next) = .ok result) : ∃ x, first = .ok x ∧ next x = .ok result := by
  cases first with
  | error halt => cases h
  | ok x => exact ⟨x, rfl, h⟩

end Halt

/-- Markup as bytes, and the same bytes in small letters. -/
structure MarkupBytes where
  /-- The bytes as they are written. -/
  html : Bytes
  /-- The bytes in small letters. -/
  lower : Bytes

namespace MarkupBytes

/-- The bytes of a text. -/
def ofText (s : List Char) : MarkupBytes := ⟨encode s, lowerBytes (encode s)⟩

/-! ### Steps with checks -/

/-- Whether an offset is a boundary of both texts. -/
def isBoundary (m : MarkupBytes) (offset : Nat) : Bool :=
  Text.isBoundary m.html offset && Text.isBoundary m.lower offset

/-- The bytes of one of the texts from an offset up to another, if the offsets are in order and boundaries of
both texts. -/
def slice (m : MarkupBytes) (text : Bytes) (first last : Nat) : Except Halt Bytes :=
  if first ≤ last ∧ m.isBoundary first = true ∧ m.isBoundary last = true then
    .ok ((text.take last).drop first)
  else .error .breach

/-- The bytes of one of the texts from an offset on. -/
def sliceFrom (m : MarkupBytes) (text : Bytes) (first : Nat) : Except Halt Bytes :=
  m.slice text first text.length

/-- The byte before an offset, if there is one. -/
def byteBefore (m : MarkupBytes) (offset : Nat) : Except Halt Char :=
  if 0 < offset then
    match byteAt? m.html (offset - 1) with
    | some c => .ok c
    | none => .error .breach
  else .error .breach

/-! ### Start tags -/

/-- The offset behind a value; its equality sign stands before `offset`, and its tag begins at `start`. -/
def value (m : MarkupBytes) (start offset : Nat) : Except Halt Nat :=
  let here := skip isMarkupBlank m.html offset
  match byteAt? m.html here with
  | none => .error (.fault (.unterminatedTag start))
  | some c =>
    if c = '\"' ∨ c = '\'' then do
      let behind ← m.sliceFrom m.html (here + 1)
      match find? [byteOf c] behind with
      | none => .error (.fault (.unterminatedAttribute here))
      | some close => .ok (here + close + 2)
    else .ok (skip StartTag.isBareChar m.html here)

/-- What a round of the loop over attributes finds. -/
inductive Round where
  /-- The bracket that closes the tag: the offset behind it, and whether a slash stands before it. -/
  | closed (behind : Nat) (slash : Bool)
  /-- An attribute: its name in small letters, and the offset behind it. -/
  | named (name : Bytes) (behind : Nat)

/-- The attribute at an offset. -/
def attributeAt (m : MarkupBytes) (start offset : Nat) : Except Halt Round := do
  let nameEnd := skip StartTag.isNameChar m.html offset
  let name ← m.slice m.lower offset nameEnd
  let behind := skip isMarkupBlank m.html nameEnd
  if byteAt? m.html behind = some '=' then do
    let behind ← m.value start (behind + 1)
    return .named name behind
  else return .named name behind

/-- A round of the loop over attributes. -/
def round (m : MarkupBytes) (start offset : Nat) : Except Halt Round :=
  let here := skip StartTag.isFiller m.html offset
  match byteAt? m.html here with
  | none => .error (.fault (.unterminatedTag start))
  | some c =>
    if c = '>' then do
      let before ← m.byteBefore here
      return .closed (here + 1) (before == '/')
    else m.attributeAt start here

variable {m : MarkupBytes} {start offset : Nat}

/-- A value does not end before it begins. -/
theorem le_of_value {behind : Nat} (h : m.value start offset = .ok behind) : offset ≤ behind := by
  have hle := le_skip isMarkupBlank m.html offset
  unfold value at h
  simp only at h
  split at h
  · cases h
  split at h
  · obtain ⟨text, -, h⟩ := Halt.bind_eq_ok h
    split at h
    · cases h
    · cases h
      omega
  · cases h
    exact Nat.le_trans hle (le_skip _ _ _)

/-- An attribute takes at least one byte, unless the tag's end or a filler stands there. -/
theorem lt_of_attributeAt {c : Char} {name : Bytes} {behind : Nat} (hat : byteAt? m.html offset = some c)
    (hc : StartTag.isFiller c = false) (hg : c ≠ '>')
    (h : m.attributeAt start offset = .ok (.named name behind)) : offset < behind := by
  have hblanks := le_skip isMarkupBlank m.html (skip StartTag.isNameChar m.html offset)
  obtain ⟨text, -, h⟩ := Halt.bind_eq_ok h
  by_cases hq : c = '='
  · subst hq
    have hname := skip_of_byteAt? hat (by decide : StartTag.isNameChar '=' = false)
    have hblank := skip_of_byteAt? hat (by decide : isMarkupBlank '=' = false)
    rw [hname, hblank, if_pos hat] at h
    obtain ⟨last, hv, h⟩ := Halt.bind_eq_ok h
    cases h
    have hle := le_of_value hv
    omega
  · have hb : isMarkupBlank c = false ∧ c ≠ '/' := by simpa [StartTag.isFiller, not_or] using hc
    have hn : StartTag.isNameChar c = true := by
      simp [StartTag.isNameChar, StartTag.endsName, hb, hg, hq]
    have hlt := lt_skip hat hn
    simp only at h
    split at h
    · obtain ⟨last, hv, h⟩ := Halt.bind_eq_ok h
      cases h
      have hle := le_of_value hv
      omega
    · cases h
      omega

/-- What stands at an attribute does not close the tag. -/
theorem not_closed_of_attributeAt {behind : Nat} {slash : Bool} :
    m.attributeAt start offset ≠ .ok (.closed behind slash) := by
  intro h
  obtain ⟨text, -, h⟩ := Halt.bind_eq_ok h
  simp only at h
  split at h
  · obtain ⟨last, -, h⟩ := Halt.bind_eq_ok h
    cases h
  · cases h

/-- Every round of the loop over attributes begins before the end of the bytes and goes forward. -/
theorem lt_of_round {found : Round} (h : m.round start offset = .ok found) :
    offset < m.html.length ∧
      match found with
      | .closed behind _ | .named _ behind => offset < behind := by
  have hle := le_skip StartTag.isFiller m.html offset
  unfold round at h
  simp only at h
  split at h
  · cases h
  rename_i c hat
  have hlt := lt_of_byteAt? hat
  refine ⟨by omega, ?_⟩
  split at h
  · obtain ⟨before, -, h⟩ := Halt.bind_eq_ok h
    cases h
    exact Nat.lt_succ_of_le hle
  · rename_i hg
    cases found with
    | closed => exact absurd h not_closed_of_attributeAt
    | named name behind =>
      have hbehind := lt_of_attributeAt hat (byteAt?_skip hat) hg h
      exact Nat.lt_of_le_of_lt hle hbehind

/-- What a tag holds behind its name. -/
structure Inside where
  /-- The offset behind the closing bracket. -/
  behind : Nat
  /-- The names of the attributes in small letters, in order. -/
  names : List Bytes
  /-- Whether a slash stands right before the closing bracket. -/
  slash : Bool

/-- The loop over attributes. -/
def attributes (m : MarkupBytes) (start offset : Nat) : Except Halt Inside :=
  match _h : m.round start offset with
  | .error halt => .error halt
  | .ok (.closed behind slash) => .ok ⟨behind, [], slash⟩
  | .ok (.named name behind) =>
    match m.attributes start behind with
    | .error halt => .error halt
    | .ok rest => .ok { rest with names := name :: rest.names }
termination_by m.html.length - offset
decreasing_by
  have hlt := lt_of_round _h
  simp only at hlt
  omega

variable {halt : Halt} {name : Bytes} {behind : Nat} {slash : Bool}

/-- If a round fails then so do the attributes from there on. -/
theorem attributes_of_error (h : m.round start offset = .error halt) :
    m.attributes start offset = .error halt := by
  rw [attributes]
  split <;> simp_all

/-- If a round finds the end of the tag then there is no attribute from there on. -/
theorem attributes_of_closed (h : m.round start offset = .ok (.closed behind slash)) :
    m.attributes start offset = .ok ⟨behind, [], slash⟩ := by
  rw [attributes]
  split <;> simp_all

/-- If a round finds an attribute then it stands in front of those behind it. -/
theorem attributes_of_named (h : m.round start offset = .ok (.named name behind)) :
    m.attributes start offset =
      (m.attributes start behind).map fun rest => { rest with names := name :: rest.names } := by
  rw [attributes]
  split
  · simp_all
  · simp_all
  · rename_i hr
    rw [h] at hr
    cases hr
    cases m.attributes start behind <;> rfl

/-- Attributes take at least the bracket that ends the tag. -/
theorem lt_of_attributes {found : Inside} (h : m.attributes start offset = .ok found) :
    offset < found.behind := by
  fun_induction attributes m start offset generalizing found with
  | case1 => cases h
  | case2 offset behind slash hr =>
    cases h
    exact (lt_of_round hr).2
  | case3 => cases h
  | case4 offset name behind hr rest hrest ih =>
    have hlt : behind < rest.behind := ih hrest
    cases h
    exact Nat.lt_trans (lt_of_round hr).2 hlt

/-- A start tag by its offsets. -/
structure Tag where
  /-- The name in small letters. -/
  name : Bytes
  /-- The offset behind the name. -/
  nameEnd : Nat
  /-- What it holds behind the name. -/
  inside : Inside

/-- The start tag whose bracket stands at an offset. -/
def tag (m : MarkupBytes) (start : Nat) : Except Halt Tag := do
  let nameEnd := skip (fun c => !StartTag.endsName c) m.html (start + 1)
  let name ← m.slice m.lower (start + 1) nameEnd
  let inside ← m.attributes start nameEnd
  return ⟨name, nameEnd, inside⟩

/-- A tag takes at least its bracket. -/
theorem lt_of_tag {t : Tag} (h : m.tag start = .ok t) : start < t.inside.behind := by
  have hle := le_skip (fun c => !StartTag.endsName c) m.html (start + 1)
  obtain ⟨name, -, h⟩ := Halt.bind_eq_ok h
  obtain ⟨inside, hi, h⟩ := Halt.bind_eq_ok h
  cases h
  have hlt := lt_of_attributes hi
  change start < inside.behind
  omega

/-! ### Writing -/

/-- How far the loop over brackets has come. -/
structure Progress where
  /-- What has been written. -/
  out : Bytes
  /-- The offset up to which the markup has been copied. -/
  copied : Nat
  /-- The offset at which the next bracket is looked for. -/
  position : Nat

/-- Copies up to an offset of a tag and writes a text behind it, if all offsets are in order. -/
def write (m : MarkupBytes) (t : Tag) (p : Progress) (offset : Nat) (text : List Char) :
    Except Halt Progress :=
  if p.copied ≤ t.nameEnd ∧ t.nameEnd ≤ t.inside.behind ∧ t.inside.behind ≤ m.html.length then do
    let kept ← m.slice m.html p.copied offset
    return ⟨p.out ++ kept ++ encode text, offset, p.position⟩
  else .error .breach

/-- Writes a nonce behind the name of a script that has none. -/
def writeNonce (w : Insertions) (m : MarkupBytes) (t : Tag) (p : Progress) : Except Halt Progress :=
  if w.nonces && (t.name == utf8 "script" && !t.inside.names.contains (utf8 "nonce")) then
    m.write t p t.nameEnd nonceText
  else return p

/-- Writes a token behind a form's start tag. -/
def writeToken (w : Insertions) (m : MarkupBytes) (t : Tag) (p : Progress) : Except Halt Progress :=
  if w.tokens && t.name == utf8 "form" then m.write t p t.inside.behind tokenText else return p

/-- The offset behind a tag and its raw text. -/
def passRawText (m : MarkupBytes) (start : Nat) (t : Tag) : Except Halt Nat :=
  match rawElements.find? (fun element => !t.inside.slash && t.name == utf8 element) with
  | none => return t.inside.behind
  | some element => do
    let text ← m.sliceFrom m.lower t.inside.behind
    match find? (utf8 "</" ++ t.name) text with
    | none => .error (.fault (.unclosedElement element start))
    | some count => return t.inside.behind + count

/-- Passes the element whose bracket stands at an offset. -/
def element (w : Insertions) (m : MarkupBytes) (start : Nat) (p : Progress) : Except Halt Progress := do
  let t ← m.tag start
  let p ← m.writeNonce w t p
  let p ← m.writeToken w t p
  let position ← m.passRawText start t
  return { p with position }

/-- The offset behind the comment whose bracket stands at an offset. -/
def comment (m : MarkupBytes) (start : Nat) : Except Halt Nat := do
  let text ← m.sliceFrom m.html (start + 4)
  match find? (utf8 "-->") text with
  | none => .error (.fault (.unterminatedComment start))
  | some count => return start + 4 + count + 3

/-- The offset behind the declaration or end tag whose bracket stands at an offset. -/
def declaration (m : MarkupBytes) (start : Nat) : Except Halt Nat := do
  let text ← m.sliceFrom m.html start
  match find? (utf8 ">") text with
  | none => .error (.fault (.unterminatedTag start))
  | some count => return start + count + 1

/-- Passes what the bracket at an offset begins. -/
def construct (w : Insertions) (m : MarkupBytes) (start : Nat) (p : Progress) :
    Except Halt Progress := do
  let text ← m.sliceFrom m.html start
  if (utf8 "<!--").isPrefixOf text then do
    let position ← m.comment start
    return { p with position }
  else if (utf8 "</").isPrefixOf text || (utf8 "<!").isPrefixOf text || (utf8 "<?").isPrefixOf text then do
    let position ← m.declaration start
    return { p with position }
  else do
    let behind ← m.sliceFrom m.html (start + 1)
    if (byteAt? behind 0).any Char.isAlpha then m.element w start p
    else return { p with position := start + 1 }

/-- A round of the loop over brackets; there is none if no bracket is left. -/
def step (w : Insertions) (m : MarkupBytes) (p : Progress) : Except Halt (Option Progress) := do
  let text ← m.sliceFrom m.html p.position
  match find? (utf8 "<") text with
  | none => return none
  | some count => do
    let next ← m.construct w (p.position + count) p
    return some next

variable {w : Insertions} {p next : Progress}

/-- Passing raw text does not lead back into the tag. -/
theorem le_of_passRawText {t : Tag} {position : Nat} (h : m.passRawText start t = .ok position) :
    t.inside.behind ≤ position := by
  unfold passRawText at h
  split at h
  · cases h
    exact Nat.le_refl _
  · obtain ⟨text, -, h⟩ := Halt.bind_eq_ok h
    split at h
    · cases h
    · cases h
      exact Nat.le_add_right _ _

/-- Everything that a bracket begins ends behind the bracket. -/
theorem lt_of_construct (h : m.construct w start p = .ok next) : start < next.position := by
  obtain ⟨text, -, h⟩ := Halt.bind_eq_ok h
  split at h
  · obtain ⟨position, hp, h⟩ := Halt.bind_eq_ok h
    obtain ⟨behind, -, hp⟩ := Halt.bind_eq_ok hp
    cases h
    split at hp
    · cases hp
    · cases hp
      change start < start + 4 + _ + 3
      omega
  split at h
  · obtain ⟨position, hp, h⟩ := Halt.bind_eq_ok h
    obtain ⟨behind, -, hp⟩ := Halt.bind_eq_ok hp
    cases h
    split at hp
    · cases hp
    · cases hp
      change start < start + _ + 1
      omega
  · obtain ⟨behind, -, h⟩ := Halt.bind_eq_ok h
    split at h
    · obtain ⟨t, ht, h⟩ := Halt.bind_eq_ok h
      obtain ⟨first, -, h⟩ := Halt.bind_eq_ok h
      obtain ⟨second, -, h⟩ := Halt.bind_eq_ok h
      obtain ⟨position, hp, h⟩ := Halt.bind_eq_ok h
      cases h
      exact Nat.lt_of_lt_of_le (lt_of_tag ht) (le_of_passRawText hp)
    · cases h
      exact Nat.lt_succ_self start

/-- A slice that succeeds is what stands from there on. -/
theorem sliceFrom_eq_ok {text behind : Bytes} (h : m.sliceFrom text offset = .ok behind) :
    behind = text.drop offset := by
  unfold sliceFrom slice at h
  split at h
  · rw [List.take_length] at h
    exact (Except.ok.inj h).symm
  · cases h

/-- Every round of the loop over brackets begins before the end of the bytes and goes forward. -/
theorem lt_of_step (h : m.step w p = .ok (some next)) :
    p.position < m.html.length ∧ p.position < next.position := by
  obtain ⟨text, ht, h⟩ := Halt.bind_eq_ok h
  split at h
  · cases h
  rename_i count hf
  obtain ⟨found, hc, h⟩ := Halt.bind_eq_ok h
  cases h
  have hlt := lt_of_construct hc
  refine ⟨?_, by omega⟩
  have hne : text ≠ [] := by
    rintro rfl
    cases hf
  apply Classical.byContradiction
  intro hle
  exact hne ((sliceFrom_eq_ok ht).trans (List.drop_eq_nil_of_le (Nat.le_of_not_lt hle)))

/-- The loop over brackets, and what is copied behind it. -/
def run (w : Insertions) (m : MarkupBytes) (p : Progress) : Except Halt Bytes :=
  match _h : m.step w p with
  | .error halt => .error halt
  | .ok none => do
    let kept ← m.sliceFrom m.html p.copied
    return p.out ++ kept
  | .ok (some next) => m.run w next
termination_by m.html.length - p.position
decreasing_by
  have hlt := lt_of_step _h
  omega

/-- If a step fails then so does the run. -/
theorem run_of_error {halt : Halt} (h : m.step w p = .error halt) : m.run w p = .error halt := by
  rw [run]
  split <;> simp_all

/-- If there is no step left then the run ends with what was not copied yet. -/
theorem run_of_none (h : m.step w p = .ok none) :
    m.run w p = (m.sliceFrom m.html p.copied).map (p.out ++ ·) := by
  rw [run]
  split
  · simp_all
  · cases m.sliceFrom m.html p.copied <;> rfl
  · simp_all

/-- If a step is made then the run goes on from there. -/
theorem run_of_some (h : m.step w p = .ok (some next)) : m.run w p = m.run w next := by
  rw [run]
  split <;> simp_all

/-- Writes into markup. -/
def inject (w : Insertions) (m : MarkupBytes) : Except Halt Bytes := m.run w ⟨[], 0, 0⟩

end MarkupBytes

end Palisade
