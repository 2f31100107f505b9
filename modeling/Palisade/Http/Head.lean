import Palisade.Text.Split
import Palisade.Text.Utf8

/-!
# The head of a request

The head is the request line and the header lines up to the empty line. It is scanned from the left
and the first offence against the grammar is the answer; where the bytes end before the head does and
nothing offends, more bytes are asked for. Line ends may lack the carriage return. Header values
stay bytes here, because they need not be UTF-8; the target must be. Folded lines are refused.
-/
namespace Palisade.Head

open Palisade.Text

/-- An offence against the grammar of the head. -/
inductive Offence where
  | token
  | headerName
  | headerValue
  | newLine
  | tooManyHeaders
  | version
  deriving Repr, DecidableEq

/-- The message of an offence. -/
def Offence.message : Offence → String
  | .token => "invalid token"
  | .headerName => "invalid header name"
  | .headerValue => "invalid header value"
  | .newLine => "invalid new line"
  | .tooManyHeaders => "too many headers"
  | .version => "invalid HTTP version"

/-- Why a scan stops. -/
inductive Stop where
  /-- The bytes end before the head does. -/
  | incomplete
  /-- The bytes are no head. -/
  | offence (o : Offence)
  deriving Repr, DecidableEq

/-- What a scan gives: a value and the bytes after it, or a reason to stop. -/
abbrev Scan (α : Type) := Except Stop (α × Bytes)

/-- Line feed. -/
def lf : UInt8 := 0x0A

/-- Carriage return. -/
def cr : UInt8 := 0x0D

/-- The space. -/
def space : UInt8 := 0x20

/-- The colon. -/
def colon : UInt8 := 0x3A

/-- Characters of tokens: letters, digits and fifteen marks. -/
def isTokenByte (b : UInt8) : Bool :=
  let c := Char.ofNat b.toNat
  b.toNat < 0x80 && (c.isAlphanum || "!#$%&'*+-.^_`|~".toList.contains c)

/-- Bytes of targets: everything but controls, the space and DEL. -/
def isTargetByte (b : UInt8) : Bool := 0x20 < b.toNat && b.toNat != 0x7F

/-- Bytes of header values: everything but controls; the tab is allowed. -/
def isValueByte (b : UInt8) : Bool := b.toNat == 0x09 || 0x20 ≤ b.toNat && b.toNat != 0x7F

/-- Space and tab. -/
def isValueBlank (b : UInt8) : Bool := b == space || b.toNat == 0x09

/-- Drops the empty lines before the request line. -/
def skipEmptyLines : Bytes → Scan Unit
  | [] => .error .incomplete
  | b :: rest =>
    if b = lf then skipEmptyLines rest
    else if b = cr then
      match rest with
      | [] => .error .incomplete
      | b' :: rest' => if b' = lf then skipEmptyLines rest' else .error (.offence .newLine)
    else .ok ((), b :: rest)

/-- The end of a line; `offence` is the answer when a carriage return stands alone. -/
def lineEnd (offence : Offence) : Bytes → Scan Unit
  | [] => .error .incomplete
  | b :: rest =>
    if b = lf then .ok ((), rest)
    else if b = cr then
      match rest with
      | [] => .error .incomplete
      | b' :: rest' => if b' = lf then .ok ((), rest') else .error (.offence offence)
    else .error (.offence offence)

/-- The method: a token and one space. -/
def scanMethod (s : Bytes) : Scan Bytes :=
  let name := s.takeWhile isTokenByte
  match s.dropWhile isTokenByte with
  | [] => .error .incomplete
  | b :: rest =>
    if b = space ∧ name ≠ [] then .ok (name, rest) else .error (.offence .token)

/-- The target: visible characters and one space. -/
def scanTarget (s : Bytes) : Scan String :=
  let bytes := s.takeWhile isTargetByte
  match s.dropWhile isTargetByte with
  | [] => .error .incomplete
  | b :: rest =>
    if b = space ∧ bytes ≠ [] then
      match ofUtf8? bytes with
      | some target => .ok (target, rest)
      | none => .error (.offence .token)
    else .error (.offence .token)

/-- What every supported version begins with. -/
def versionStart : Bytes := utf8 "HTTP/1."

/-- The version: its minor number, zero or one. -/
def scanVersion (s : Bytes) : Scan Nat :=
  if versionStart.isPrefixOf s then
    match s.drop versionStart.length with
    | [] => .error .incomplete
    | b :: rest =>
      if b = 0x30 then .ok (0, rest)
      else if b = 0x31 then .ok (1, rest)
      else .error (.offence .version)
  else if s.isPrefixOf versionStart then .error .incomplete
  else .error (.offence .version)

/-- A header line's value up to and including its line end, without the blanks around it. -/
def fieldValue (s : Bytes) : Scan Bytes :=
  let begun := s.dropWhile isValueBlank
  let line := begun.takeWhile isValueByte
  match lineEnd .headerValue (begun.dropWhile isValueByte) with
  | .ok ((), rest) => .ok (trimRight isValueBlank line, rest)
  | .error stop => .error stop

/-- A header line: a name, a colon and a value. -/
def scanField (s : Bytes) : Scan (Bytes × Bytes) :=
  let name := s.takeWhile isTokenByte
  match s.dropWhile isTokenByte with
  | [] => .error .incomplete
  | b :: rest =>
    if b = colon ∧ name ≠ [] then
      match fieldValue rest with
      | .ok (value, rest') => .ok ((name, value), rest')
      | .error stop => .error stop
    else .error (.offence .headerName)

/-- Whether the empty line that ends the head stands here. -/
def atEmptyLine (s : Bytes) : Bool :=
  match s.head? with
  | some b => b == cr || b == lf
  | none => true

/-- The header lines and the empty line after them; there is room for `room` of them. -/
def scanFields : Nat → Bytes → Scan (List (Bytes × Bytes))
  | 0, s =>
    if atEmptyLine s then
      match lineEnd .newLine s with
      | .ok ((), rest) => .ok ([], rest)
      | .error stop => .error stop
    else match scanField s with
      | .ok _ => .error (.offence .tooManyHeaders)
      | .error stop => .error stop
  | room + 1, s =>
    if atEmptyLine s then
      match lineEnd .newLine s with
      | .ok ((), rest) => .ok ([], rest)
      | .error stop => .error stop
    else match scanField s with
      | .ok (first, rest) =>
        match scanFields room rest with
        | .ok (others, rest') => .ok (first :: others, rest')
        | .error stop => .error stop
      | .error stop => .error stop

end Head

/-- A scanned head. -/
structure Head where
  /-- The method's token. -/
  method : Bytes
  /-- The target, as it stands on the request line. -/
  target : String
  /-- The minor number of the version. -/
  minor : Nat
  /-- Names and values of the header lines, in order. -/
  fields : List (Bytes × Bytes)

namespace Head

/-- How many header lines a head may have. -/
def maxFields : Nat := 64

/-- Scans a head from the front of the bytes. -/
def scan (s : Bytes) : Except Stop (Head × Bytes) := do
  let ((), s) ← skipEmptyLines s
  let (method, s) ← scanMethod s
  let (target, s) ← scanTarget s
  let (minor, s) ← scanVersion s
  let ((), s) ← lineEnd .newLine s
  let (fields, s) ← scanFields maxFields s
  return (⟨method, target, minor, fields⟩, s)

/-! ### What a scan leaves is a proper end of what it was given -/

/-- A scan that succeeds takes at least one byte and leaves the others as they are. -/
def Takes {α : Type} (scan : Bytes → Scan α) : Prop :=
  ∀ s value rest, scan s = .ok (value, rest) → ∃ taken, taken ≠ [] ∧ s = taken ++ rest

/-- Skipping empty lines leaves an end of the text. -/
theorem skipEmptyLines_suffix {s rest : Bytes} (h : skipEmptyLines s = .ok ((), rest)) :
    ∃ taken, s = taken ++ rest := by
  fun_induction skipEmptyLines s with
  | case1 => simp at h
  | case2 tail ih =>
    obtain ⟨t, rfl⟩ := ih h
    exact ⟨lf :: t, rfl⟩
  | case3 => simp at h
  | case4 _ tail ih =>
    obtain ⟨t, rfl⟩ := ih h
    exact ⟨cr :: lf :: t, rfl⟩
  | case5 => simp at h
  | case6 b tail =>
    simp only [Except.ok.injEq, Prod.mk.injEq, true_and] at h
    exact ⟨[], by simp [h]⟩

/-- The end of a line, where there is one, takes something. -/
theorem lineEnd_takes (o : Offence) : Takes (lineEnd o) := by
  intro s value rest h
  fun_cases lineEnd o s <;> simp_all [lineEnd]
  · exact ⟨[lf], by simp, rfl⟩
  · exact ⟨[cr, lf], by simp, rfl⟩

/-- A method that is read takes something. -/
theorem scanMethod_takes : Takes scanMethod := by
  intro s value rest h
  have hs := List.takeWhile_append_dropWhile (p := isTokenByte) (l := s)
  unfold scanMethod at h
  simp only at h
  split at h
  · simp at h
  · rename_i b tail heq
    split at h
    · simp only [Except.ok.injEq, Prod.mk.injEq] at h
      exact ⟨s.takeWhile isTokenByte ++ [b], by simp, by rw [← h.2]; simpa [heq] using hs.symm⟩
    · simp at h

/-- A value that is read takes something, at least the end of its line. -/
theorem fieldValue_takes : Takes fieldValue := by
  intro s value rest h
  have hs := List.takeWhile_append_dropWhile (p := isValueBlank) (l := s)
  have hb := List.takeWhile_append_dropWhile (p := isValueByte) (l := s.dropWhile isValueBlank)
  unfold fieldValue at h
  simp only at h
  split at h
  · rename_i rest' heq
    simp only [Except.ok.injEq, Prod.mk.injEq] at h
    obtain ⟨t, ht, e⟩ := lineEnd_takes _ _ _ _ heq
    refine ⟨s.takeWhile isValueBlank ++ ((s.dropWhile isValueBlank).takeWhile isValueByte ++ t),
      by simp [ht], ?_⟩
    rw [← h.2, List.append_assoc, List.append_assoc, ← e, hb, hs]
  · simp at h

/-- A field that is read takes something. -/
theorem scanField_takes : Takes scanField := by
  intro s value rest h
  have hs := List.takeWhile_append_dropWhile (p := isTokenByte) (l := s)
  unfold scanField at h
  simp only at h
  split at h
  · simp at h
  · rename_i b tail heq
    split at h
    · split at h
      · rename_i v rest' hv
        simp only [Except.ok.injEq, Prod.mk.injEq] at h
        obtain ⟨t, ht, rfl⟩ := fieldValue_takes _ _ _ hv
        refine ⟨s.takeWhile isTokenByte ++ b :: t, by simp, ?_⟩
        rw [← h.2]
        simpa [heq] using hs.symm
      · simp at h
    · simp at h

/-- Fields that are read take something, at least the empty line behind them. -/
theorem scanFields_takes (room : Nat) : Takes (scanFields room) := by
  induction room with
  | zero =>
    intro s value rest h
    unfold scanFields at h
    split at h
    · split at h
      · rename_i rest' heq
        simp only [Except.ok.injEq, Prod.mk.injEq] at h
        exact h.2 ▸ lineEnd_takes _ _ _ _ heq
      · simp at h
    · split at h <;> simp at h
  | succ room ih =>
    intro s value rest h
    unfold scanFields at h
    split at h
    · split at h
      · rename_i rest' heq
        simp only [Except.ok.injEq, Prod.mk.injEq] at h
        exact h.2 ▸ lineEnd_takes _ _ _ _ heq
      · simp at h
    · split at h
      · rename_i first mid hf
        split at h
        · rename_i others last hm
          simp only [Except.ok.injEq, Prod.mk.injEq] at h
          obtain ⟨t, ht, rfl⟩ := scanField_takes _ _ _ hf
          obtain ⟨u, hu, rfl⟩ := ih _ _ _ hm
          exact ⟨t ++ u, by simp [ht], by rw [← h.2, List.append_assoc]⟩
        · simp at h
      · simp at h

/-- What is left behind a target is an end of the text. -/
theorem scanTarget_suffix {s rest : Bytes} {value : String} (h : scanTarget s = .ok (value, rest)) :
    ∃ taken, s = taken ++ rest := by
  have hs := List.takeWhile_append_dropWhile (p := isTargetByte) (l := s)
  unfold scanTarget at h
  simp only at h
  split at h
  · simp at h
  · rename_i b tail heq
    split at h
    · split at h
      · simp only [Except.ok.injEq, Prod.mk.injEq] at h
        exact ⟨s.takeWhile isTargetByte ++ [b], by rw [← h.2]; simpa [heq] using hs.symm⟩
      · simp at h
    · simp at h

/-- What is left behind a version is an end of the text. -/
theorem scanVersion_suffix {s rest : Bytes} {value : Nat} (h : scanVersion s = .ok (value, rest)) :
    ∃ taken, s = taken ++ rest := by
  unfold scanVersion at h
  split at h
  · have hs := List.take_append_drop versionStart.length s
    split at h
    · simp at h
    · rename_i b tail heq
      rw [heq] at hs
      refine ⟨s.take versionStart.length ++ [b], ?_⟩
      split at h
      · simp only [Except.ok.injEq, Prod.mk.injEq] at h
        rw [← h.2]
        simpa using hs.symm
      · split at h
        · simp only [Except.ok.injEq, Prod.mk.injEq] at h
          rw [← h.2]
          simpa using hs.symm
        · simp at h
  · split at h <;> simp at h

/-- A head takes at least one byte and leaves the others as they are. -/
theorem scan_takes : Takes scan := by
  intro s value rest h
  unfold scan at h
  simp only [bind, Except.bind] at h
  split at h
  · simp at h
  rename_i p₁ h₁
  split at h
  · simp at h
  rename_i p₂ h₂
  split at h
  · simp at h
  rename_i p₃ h₃
  split at h
  · simp at h
  rename_i p₄ h₄
  split at h
  · simp at h
  rename_i p₅ h₅
  split at h
  · simp at h
  rename_i p₆ h₆
  simp only [pure, Except.pure, Except.ok.injEq, Prod.mk.injEq] at h
  obtain ⟨t₁, rfl⟩ : ∃ taken, s = taken ++ p₁.2 := skipEmptyLines_suffix h₁
  obtain ⟨t₂, ht₂, e₂⟩ := scanMethod_takes _ p₂.1 p₂.2 h₂
  obtain ⟨t₃, e₃⟩ : ∃ taken, p₂.2 = taken ++ p₃.2 := scanTarget_suffix h₃
  obtain ⟨t₄, e₄⟩ : ∃ taken, p₃.2 = taken ++ p₄.2 := scanVersion_suffix h₄
  obtain ⟨t₅, _, e₅⟩ := lineEnd_takes _ _ p₅.1 p₅.2 h₅
  obtain ⟨t₆, _, e₆⟩ := scanFields_takes _ _ p₆.1 p₆.2 h₆
  refine ⟨t₁ ++ (t₂ ++ (t₃ ++ (t₄ ++ (t₅ ++ t₆)))), by simp [ht₂], ?_⟩
  rw [e₂, e₃, e₄, e₅, e₆, h.2]
  simp

end Palisade.Head
