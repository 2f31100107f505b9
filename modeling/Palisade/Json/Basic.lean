import Palisade.Text.Quoted
import Palisade.Text.Numeral

/-!
# JSON values

A JSON value as a tree. An object holds its members in the rising order of their keys, one member
for each key; `insert` keeps that order, and of two members with one key the later one stays.
Numbers keep the kind they were written in: a whole number from zero up, a negative whole number, or
a binary fraction given by its bits.
-/
namespace Palisade

/-- A number in a JSON value. -/
inductive Json.Number where
  /-- A whole number from zero to `2^64 - 1`. -/
  | whole (value : Nat)
  /-- The number `-(value + 1)`, from `-2^63` up. -/
  | negative (value : Nat)
  /-- The bits of a finite 64-bit fraction. -/
  | fraction (bits : Nat)
  deriving Repr, DecidableEq

/-- A JSON value. -/
inductive Json where
  /-- The null value. -/
  | null
  /-- True or false. -/
  | bool (value : Bool)
  /-- A number. -/
  | number (value : Json.Number)
  /-- A text. -/
  | text (value : String)
  /-- A list of values. -/
  | list (items : List Json)
  /-- Members in the rising order of their keys. -/
  | object (members : List (String × Json))
  deriving Repr

namespace Json

/-- Puts a member into an ordered list of members and replaces one with the same key. -/
def insert (key : String) (value : Json) : List (String × Json) → List (String × Json)
  | [] => [(key, value)]
  | (k, v) :: rest =>
    if key = k then (key, value) :: rest
    else if key < k then (key, value) :: (k, v) :: rest
    else (k, v) :: insert key value rest

/-- An object with the given members; a later member replaces an earlier one of the same key. -/
def ofMembers (members : List (String × Json)) : Json :=
  .object (members.foldl (fun done (k, v) => insert k v done) [])

/-- A whole number from zero up. -/
def ofNat (n : Nat) : Json := .number (.whole n)

/-- A whole number. -/
def ofInt : Int → Json
  | .ofNat n => .number (.whole n)
  | .negSucc n => .number (.negative n)

/-- The member of an object under a key. No other value has members. -/
def member? (key : String) : Json → Option Json
  | .object members => members.lookup key
  | _ => none

/-- A member that was inserted is found. -/
@[simp] theorem lookup_insert (key : String) (value : Json) (members : List (String × Json)) :
    (insert key value members).lookup key = some value := by
  induction members with
  | nil => simp [insert]
  | cons m rest ih =>
    obtain ⟨k, v⟩ := m
    rw [insert]
    split
    · simp
    · rename_i hk
      split
      · simp
      · simp [List.lookup_cons, beq_eq_false_iff_ne.2 hk, ih]

/-- Inserting a member leaves those of other keys. -/
theorem lookup_insert_of_ne {key other : String} (h : other ≠ key) (value : Json)
    (members : List (String × Json)) :
    (insert key value members).lookup other = members.lookup other := by
  have hf : (other == key) = false := beq_eq_false_iff_ne.2 h
  induction members with
  | nil => simp [insert, List.lookup_cons, hf]
  | cons m rest ih =>
    obtain ⟨k, v⟩ := m
    rw [insert]
    split
    · rename_i hk
      subst hk
      simp [List.lookup_cons, hf]
    · split
      · simp [List.lookup_cons, hf]
      · simp only [List.lookup_cons, ih]

end Json

end Palisade
