import Palisade.Json.Basic

/-!
# What can be wrong with a JSON document

A document may end too early, break the grammar, or hold data of the wrong shape. Each cause has its
message.
-/
namespace Palisade.Json

/-- The three classes of causes. -/
inductive FaultClass where
  /-- The document ends too early. -/
  | earlyEnd
  /-- The document breaks the grammar. -/
  | grammar
  /-- The document has the wrong shape. -/
  | data
  deriving Repr, DecidableEq

/-- What stood where something else was expected. -/
inductive Found where
  | null
  | bool (value : Bool)
  /-- A number, by its numeral as a message shows it. -/
  | integer (numeral : String)
  | fraction (numeral : String)
  | text (value : String)
  | list
  | object
  deriving Repr, DecidableEq

/-- A cause for refusing a document. -/
inductive Fault where
  | endInList
  | endInObject
  | endInText
  | endInValue
  | expectedColon
  | expectedListComma
  | expectedObjectComma
  | expectedWord
  | expectedValue
  | badEscape
  | badNumber
  | numberTooLarge
  /-- The bytes of a text are not UTF-8. -/
  | badCodePoint
  | controlInText
  | keyNotText
  | loneSurrogate
  | trailingComma
  | trailingText
  /-- The first half of a surrogate pair without the second. -/
  | halfPair
  | tooDeep
  /-- A value of another type than the shape asks for. -/
  | wrongType (found : Found) (expected : String)
  /-- A number outside the range that the shape asks for. -/
  | wrongValue (found : Found) (expected : String)
  | unknownField (name : String) (known : List String)
  | unknownVariant (name : String) (known : List String)
  | duplicateField (name : String)
  deriving Repr, DecidableEq

/-- The class of a cause. -/
def Fault.faultClass : Fault → FaultClass
  | .endInList | .endInObject | .endInText | .endInValue => .earlyEnd
  | .wrongType .. | .wrongValue .. | .unknownField .. | .unknownVariant .. | .duplicateField .. =>
    .data
  | _ => .grammar

/-- What was found, in the words of a message. -/
def Found.describe : Found → String
  | .null => "null"
  | .bool value => "boolean `" ++ (if value then "true" else "false") ++ "`"
  | .integer numeral => "integer `" ++ numeral ++ "`"
  | .fraction numeral => "floating point `" ++ numeral ++ "`"
  | .text value => "string " ++ Text.quote value
  | .list => "sequence"
  | .object => "map"

/-- A name between grave accents. -/
def ticked (name : String) : String := "`" ++ name ++ "`"

/-- The names a message offers. -/
def oneOf : List String → String
  | [name] => ticked name
  | [first, second] => ticked first ++ " or " ++ ticked second
  | names => "one of " ++ String.intercalate ", " (names.map ticked)

/-- A refusal of a name that is none of the known ones; `kind` and `kinds` say what it names. -/
def unknownName (kind kinds name : String) (known : List String) : String :=
  "unknown " ++ kind ++ " " ++ ticked name ++ ", " ++
    (if known.isEmpty then "there are no " ++ kinds else "expected " ++ oneOf known)

/-- The message of a cause. -/
def Fault.message : Fault → String
  | .endInList => "EOF while parsing a list"
  | .endInObject => "EOF while parsing an object"
  | .endInText => "EOF while parsing a string"
  | .endInValue => "EOF while parsing a value"
  | .expectedColon => "expected `:`"
  | .expectedListComma => "expected `,` or `]`"
  | .expectedObjectComma => "expected `,` or `\x7d`"
  | .expectedWord => "expected ident"
  | .expectedValue => "expected value"
  | .badEscape => "invalid escape"
  | .badNumber => "invalid number"
  | .numberTooLarge => "number out of range"
  | .badCodePoint => "invalid unicode code point"
  | .controlInText => "control character (\\u0000-\\u001F) found while parsing a string"
  | .keyNotText => "key must be a string"
  | .loneSurrogate => "lone leading surrogate in hex escape"
  | .trailingComma => "trailing comma"
  | .trailingText => "trailing characters"
  | .halfPair => "unexpected end of hex escape"
  | .tooDeep => "recursion limit exceeded"
  | .wrongType found expected => "invalid type: " ++ found.describe ++ ", expected " ++ expected
  | .wrongValue found expected => "invalid value: " ++ found.describe ++ ", expected " ++ expected
  | .unknownField name known => unknownName "field" "fields" name known
  | .unknownVariant name known => unknownName "variant" "variants" name known
  | .duplicateField name => "duplicate field " ++ ticked name

end Palisade.Json
