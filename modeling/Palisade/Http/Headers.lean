import Palisade.Text.Ascii

/-!
# Header fields

A header map is a list of fields. Names are compared without regard to the case of ASCII letters;
several fields may have one name, and their order is kept. The map checks nothing: what may be
written into a response is decided where responses are built.
-/
namespace Palisade

/-- One header line. -/
structure Field where
  /-- The name, in the spelling it was written with. -/
  name : String
  /-- The value. -/
  value : String
  deriving Repr, DecidableEq

/-- A field answers to a name in any case. -/
def Field.named (f : Field) (name : String) : Bool := Text.alike f.name name

/-- An ordered map from names to values, with repetition. -/
structure Headers where
  /-- The fields in the order in which they are sent. -/
  fields : List Field
  deriving Repr, DecidableEq

namespace Headers

/-- No fields. -/
def empty : Headers := ⟨[]⟩

/-- Appends a field. -/
def insert (h : Headers) (name value : String) : Headers := ⟨h.fields ++ [⟨name, value⟩]⟩

/-- Gives the first field of a name a new value, drops its other fields, and appends a field if
there was none. The first field keeps its place and its spelling. -/
def setFields (name value : String) : List Field → List Field
  | [] => [⟨name, value⟩]
  | f :: rest =>
    if f.named name then ⟨f.name, value⟩ :: rest.filter fun g => !g.named name
    else f :: setFields name value rest

/-- Replaces the values of a name by one value. -/
def set (h : Headers) (name value : String) : Headers := ⟨setFields name value h.fields⟩

/-- Drops every field of a name. -/
def remove (h : Headers) (name : String) : Headers := ⟨h.fields.filter fun f => !f.named name⟩

/-- Whether a name has a field. -/
def contains (h : Headers) (name : String) : Bool := h.fields.any (·.named name)

/-- The values of a name, in order. -/
def getAll (h : Headers) (name : String) : List String :=
  (h.fields.filter (·.named name)).map (·.value)

/-- The first value of a name. -/
def get? (h : Headers) (name : String) : Option String :=
  (h.fields.find? (·.named name)).map (·.value)

/-- The number of fields. -/
def size (h : Headers) : Nat := h.fields.length

/-- Whether dropping the fields of a name leaves fewer. -/
def removes (h : Headers) (name : String) : Bool := (h.remove name).size < h.size

/-- The fields as lines, each with its line end. -/
def display (h : Headers) : String :=
  String.join (h.fields.map fun f => f.name ++ ": " ++ f.value ++ "\r\n")

/-- A field that is inserted is the last value of its name, in any spelling, and changes no other name.
-/
theorem getAll_insert (h : Headers) (name value other : String) :
    (h.insert name value).getAll other =
      if Text.alike name other then h.getAll other ++ [value] else h.getAll other := by
  simp only [getAll, insert, List.filter_append, List.filter_cons, List.filter_nil, Field.named]
  split <;> simp

/-- A name that was removed has no values. -/
theorem getAll_remove_self (h : Headers) (name : String) : (h.remove name).getAll name = [] := by
  simp [getAll, remove]

/-- The first value is the head of all values. -/
theorem get?_eq_head?_getAll (h : Headers) (name : String) : h.get? name = (h.getAll name).head? := by
  simp [get?, getAll, List.head?_filter]

/-- A name is contained exactly if it has values. -/
theorem contains_iff_getAll_ne_nil (h : Headers) (name : String) :
    h.contains name = true ↔ h.getAll name ≠ [] := by
  simp [contains, getAll]

end Headers

end Palisade
