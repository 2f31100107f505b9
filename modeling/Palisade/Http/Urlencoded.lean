import Palisade.Text.Split
import Palisade.Codec.Percent

/-!
# Form encoding

A query and the body of a form are pairs of keys and values, joined by ampersands and equality
signs. In either part a plus sign stands for a space and a percent sign with two digits for a byte.
Keys may repeat and pairs keep their order. Bytes that are not UTF-8 are repaired.
-/
namespace Palisade

open Palisade.Text

/-- Decoded pairs of keys and values, in order. -/
structure Params where
  /-- The pairs. -/
  pairs : List (String × String)
  deriving Repr, DecidableEq

namespace Params

/-- The values of a key, in order. -/
def getAll (p : Params) (key : String) : List String :=
  (p.pairs.filter (·.1 == key)).map (·.2)

/-- The first value of a key. -/
def get? (p : Params) (key : String) : Option String :=
  (p.pairs.find? (·.1 == key)).map (·.2)

/-- Whether a key occurs. -/
def contains (p : Params) (key : String) : Bool := p.pairs.any (·.1 == key)

/-- The keys without repetition, in rising order. -/
def keys (p : Params) : List String :=
  (p.pairs.map (·.1)).eraseDups.mergeSort fun a b => decide (a ≤ b)

/-- Every key with its values, the keys in rising order. -/
def grouped (p : Params) : List (String × List String) := p.keys.map fun k => (k, p.getAll k)

/-- The value of a key is the first of its values. -/
theorem get?_eq_head?_getAll (p : Params) (key : String) : p.get? key = (p.getAll key).head? := by
  simp [get?, getAll, List.head?_filter]

/-- A key is contained exactly if it has values. -/
theorem contains_iff_getAll_ne_nil (p : Params) (key : String) :
    p.contains key = true ↔ p.getAll key ≠ [] := by
  simp [contains, getAll]

end Params

namespace Urlencoded

/-- A plus sign stands for a space. -/
def unplus (c : Char) : Char := if c = '+' then ' ' else c

/-- What a key or a value stands for. -/
def decodePart (s : List Char) : String :=
  String.ofList (decodeLossy (Percent.decode (encode (s.map unplus))))

/-- What a pair stands for. A pair without an equality sign is a key with an empty value. -/
def decodePair (s : List Char) : String × String :=
  match cutAt '=' s with
  | some (key, value) => (decodePart key, decodePart value)
  | none => (decodePart s, decodePart [])

/-- Reads the pairs of a text. Empty pairs are passed over. -/
def parse (s : String) : Params :=
  ⟨((pieces '&' s.toList).filter fun p => !p.isEmpty).map decodePair⟩

end Urlencoded

end Palisade
