import Palisade.Json.Skip
import Palisade.Json.Printer

/-!
# Documents of a known shape

Readers for values whose type is known beforehand. They check the type while they read, so a fault of
the shape is reported before a fault of the grammar that stands behind it. A record may be written
as an object or as the list of its values in order; fields that are left out keep their defaults.
-/
namespace Palisade.Json.Reader

/-- How a message shows a number. -/
def Number.found : Json.Number → Found
  | .whole n => .integer (Text.showNat n)
  | .negative n => .integer (Text.showInt (-(n + 1 : Nat)))
  | .fraction bits => .fraction (String.ofList (printFraction bits))

/-- Names the value at the front and refuses it. -/
def mismatch {α : Type} (expected : String) : Reader α := do
  match ← lookPastOr .endInValue with
  | 'n' => do
    word "null".toList
    throw (.wrongType .null expected)
  | 't' => do
    word "true".toList
    throw (.wrongType (.bool true) expected)
  | 'f' => do
    word "false".toList
    throw (.wrongType (.bool false) expected)
  | '\"' => do
    next
    throw (.wrongType (.text (← textBody)) expected)
  | '[' => throw (.wrongType .list expected)
  | '\x7b' => throw (.wrongType .object expected)
  | c =>
    if c == '-' || c.isDigit then throw (.wrongType (Number.found (← number)) expected)
    else throw .expectedValue

/-- True or false. -/
def bool : Reader Bool := do
  match ← lookPastOr .endInValue with
  | 't' => do
    word "true".toList
    return true
  | 'f' => do
    word "false".toList
    return false
  | _ => mismatch "a boolean"

/-- A whole number from zero to `2^64 - 1`. -/
def whole : Reader Nat := do
  let c ← lookPastOr .endInValue
  if c == '-' || c.isDigit then
    match ← number with
    | .whole n => return n
    | .negative n => throw (.wrongValue (Number.found (.negative n)) "u64")
    | .fraction bits => throw (.wrongType (Number.found (.fraction bits)) "u64")
  else mismatch "u64"

/-- A text. -/
def text : Reader String := do
  match ← lookPastOr .endInValue with
  | '\"' => do
    next
    textBody
  | _ => mismatch "a string"

/-- Null, or what the other reader takes. -/
def optional {α : Type} (reader : Reader α) : Reader (Option α) := do
  match ← lookPast with
  | some 'n' => do
    word "null".toList
    return none
  | _ => return some (← reader)

/-- A list of what the other reader takes. -/
def listOf {α : Type} (item : Reader α) : Reader (List α) := do
  match ← lookPastOr .endInValue with
  | '[' => do
    next
    listBody item
  | _ => mismatch "a sequence"

/-- The null value, as what an alternative without data carries. -/
def unit : Reader Unit := do
  match ← lookPastOr .endInValue with
  | 'n' => word "null".toList
  | _ => mismatch "unit"

/-- The name of one of the known alternatives. -/
def variantName {α : Type} (known : List (String × α)) : Reader α := do
  match ← lookPastOr .endInValue with
  | '\"' => do
    next
    let name ← textBody
    match known.lookup name with
    | some result => return result
    | none => throw (.unknownVariant name (known.map Prod.fst))
  | _ => mismatch "variant identifier"

/-- The name of an alternative as the key of an object. An object that ends without a key lacks
the value it was to carry. -/
def variantKey {α : Type} (known : List (String × α)) : Reader α := do
  match ← lookPastOr .endInObject with
  | '\"' => variantName known
  | '\x7d' => throw .expectedValue
  | _ => throw .keyNotText

/-- One of the known alternatives: its name, or an object with its name as key and null as value. -/
def variant {α : Type} (known : List (String × α)) : Reader α := do
  match ← lookPastOr .endInValue with
  | '\"' => variantName known
  | '\x7b' => do
    next
    let result ← variantKey known
    colon
    unit
    match ← lookPastOr .endInObject with
    | '\x7d' => do
      next
      return result
    | _ => throw .expectedValue
  | _ => throw .expectedValue

/-- A field of a record: its name, and a reader that says how its value changes the record. -/
structure Field (α : Type) where
  /-- The key in an object. -/
  name : String
  /-- Takes the value and gives the change. -/
  change : Reader (α → α)

/-- A record that is written as an object or as a list. -/
structure Record (α : Type) where
  /-- What messages call the record. -/
  name : String
  /-- The value of the record when no field is written. -/
  default : α
  /-- The fields, in the order in which a list gives them. -/
  fields : List (Field α)
  /-- Whether a key that is no field is passed over instead of refused. -/
  lenient : Bool

/-- The values of the fields in order, up to the end of the list. -/
def fieldsInOrder {α : Type} : List (Field α) → α → Bool → Reader α
  | [], done, _ => do
    match ← lookPastOr .endInList with
    | ']' => do
      next
      return done
    | ',' => do
      next
      match ← lookPast with
      | some ']' => throw .trailingComma
      | _ => throw .trailingText
    | _ => throw .trailingText
  | field :: rest, done, atStart => do
    if ← moreItems atStart then do
      let change ← field.change
      fieldsInOrder rest (change done) false
    else fieldsInOrder rest done atStart

/-- The fields by name, up to the end of the object. `fuel` bounds their number. -/
def fieldsByName {α : Type} (record : Record α) : Nat → List String → α → Bool → Reader α
  | 0, _, _, _ => throw .endInObject
  | fuel + 1, seen, done, atStart => do
    if ← moreMembers atStart then do
      next
      let name ← textBody
      match record.fields.find? (·.name == name) with
      | some field =>
        if seen.contains name then throw (.duplicateField name)
        else do
          colon
          let change ← field.change
          fieldsByName record fuel (name :: seen) (change done) false
      | none =>
        if record.lenient then do
          colon
          skip
          fieldsByName record fuel seen done false
        else throw (.unknownField name (record.fields.map (·.name)))
    else do
      next
      return done

/-- Reads a record. -/
def record {α : Type} (shape : Record α) : Reader α := do
  match ← lookPastOr .endInValue with
  | '[' => do
    next
    fieldsInOrder shape.fields shape.default true
  | '\x7b' => do
    next
    fieldsByName shape (1 + (← get).length) [] shape.default true
  | _ => mismatch ("struct " ++ shape.name)

/-- A field that a setter writes. -/
def field {α β : Type} (name : String) (reader : Reader β) (set : β → α → α) : Field α :=
  ⟨name, do return set (← reader)⟩

end Palisade.Json.Reader
