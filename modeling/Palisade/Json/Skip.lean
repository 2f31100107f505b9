import Palisade.Json.Reader

/-!
# Skipping a JSON value

A value that nobody asks for is passed over without being built. Only its tokens and their order are
checked: halves of surrogate pairs, sizes of numbers and depth are not, and after a comma the next
token is judged as the start of an item or of a key.
-/
namespace Palisade.Json.Reader

/-- What a value being skipped stands in. -/
inductive Enclosure where
  | list
  | object
  deriving DecidableEq

/-- Where the skipping reader stands. -/
inductive Place where
  /-- In front of a value. -/
  | atValue
  /-- Behind a value, or at the start of a list or object; a comma is allowed only behind a value. -/
  | behind (commaAllowed : Bool)

/-- Passes over an escape, its backslash taken. -/
def skipEscape : Reader Unit := do
  match ← look with
  | none => throw .endInText
  | some 'u' => do
    next
    let _ ← hexUnit
  | some c => if (letterEscape? c).isSome then next else throw .badEscape

/-- Passes over a text up to its closing quotation mark. `fuel` bounds the steps. -/
def skipText : Nat → Reader Unit
  | 0 => throw .endInText
  | fuel + 1 => do
    match ← look with
    | none => throw .endInText
    | some '\"' => next
    | some '\\' => do
      next
      skipEscape
      skipText fuel
    | some c =>
      if c.toNat < 0x20 then throw .controlInText
      else do
        next
        skipText fuel

/-- Passes over the exponent of a number, its letter not yet taken. -/
def skipExponent : Reader Unit := do
  next
  let sign ← look
  if sign == some '+' || sign == some '-' then next
  if (← digits).isEmpty then throw .badNumber

/-- Passes over a number after its minus sign, if it has one. -/
def skipNumber : Reader Unit := do
  match ← look with
  | some '0' => do
    next
    match ← look with
    | some c => if c.isDigit then throw .badNumber
    | none => pure ()
  | _ => if (← digits).isEmpty then throw .badNumber
  match ← look with
  | some '.' => do
    next
    if (← digits).isEmpty then throw .badNumber
    match ← look with
    | some 'e' | some 'E' => skipExponent
    | _ => pure ()
  | some 'e' | some 'E' => skipExponent
  | _ => pure ()

/-- Passes over a key and its colon. -/
def skipKey : Reader Unit := do
  match ← lookPastOr .endInObject with
  | '\"' => do
    next
    skipText (1 + (← get).length)
    colon
  | _ => throw .keyNotText

/-- Goes on inside a list or object: an object's next token is a key. -/
def enterItem : Enclosure → Reader Unit
  | .list => pure ()
  | .object => skipKey

/-- Passes over the rest of a value that stands in the given lists and objects, the innermost first.
`fuel` bounds the steps. -/
def skipFrom : Nat → Place → List Enclosure → Reader Unit
  | 0, _, _ => throw .endInValue
  | fuel + 1, .atValue, around => do
    match ← lookPastOr .endInValue with
    | 'n' => word "null".toList
    | 't' => word "true".toList
    | 'f' => word "false".toList
    | '\"' => do
      next
      skipText (1 + (← get).length)
    | '[' => do
      next
      return ← skipFrom fuel (.behind false) (.list :: around)
    | '\x7b' => do
      next
      return ← skipFrom fuel (.behind false) (.object :: around)
    | '-' => do
      next
      skipNumber
    | c => if c.isDigit then skipNumber else throw .expectedValue
    skipFrom fuel (.behind true) around
  | _ + 1, .behind _, [] => pure ()
  | fuel + 1, .behind commaAllowed, enclosure :: outer => do
    match ← lookPast, enclosure with
    | some ']', .list | some '\x7d', .object => do
      next
      skipFrom fuel (.behind true) outer
    | some c, _ =>
      if !commaAllowed then do
        enterItem enclosure
        skipFrom fuel .atValue (enclosure :: outer)
      else if c == ',' then do
        next
        enterItem enclosure
        skipFrom fuel .atValue (enclosure :: outer)
      else match enclosure with
        | .list => throw .expectedListComma
        | .object => throw .expectedObjectComma
    | none, .list => throw .endInList
    | none, .object => throw .endInObject

/-- Passes over one value. -/
def skip : Reader Unit := do
  skipFrom (2 + 2 * (← get).length) .atValue []

end Palisade.Json.Reader
