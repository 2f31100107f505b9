import Palisade.Response.Headers

/-!
# Extensions of a request

While a request is served, values are kept with it in slots, one value in each, so that later steps
find what earlier ones left. Two slots belong to the library and three to applications. The type of
a value is that of its slot.
-/
namespace Palisade

/-- What the content policies of one response have come to. -/
structure PolicyState where
  /-- The nonce that all of them share. -/
  nonce : String
  /-- The right to write the header of enforced policies. -/
  enforce : Claim
  /-- The right to write the header of reported policies. -/
  report : Claim
  /-- The enforced policies, in order. -/
  enforced : List String
  /-- The policies whose violations are only reported, in order. -/
  reported : List String
  deriving Repr, DecidableEq

/-- The place of a value. -/
inductive Slot where
  /-- The content policies of the response. -/
  | policies
  /-- The token that was issued for the request. -/
  | token
  /-- A whole number of the application. -/
  | integer
  /-- A text of the application. -/
  | text
  /-- A truth value of the application. -/
  | flag
  deriving Repr, DecidableEq

/-- The type of the values of a slot. -/
abbrev Slot.Value : Slot → Type
  | policies => PolicyState
  | token => String
  | integer => Int
  | text => String
  | flag => Bool

/-- Values in slots. -/
structure Extensions where
  /-- The value of a slot. -/
  get? : (slot : Slot) → Option slot.Value

namespace Extensions

/-- No slot has a value. -/
def empty : Extensions := ⟨fun _ => none⟩

/-- Replaces what is in a slot. -/
def put (e : Extensions) (slot : Slot) (value : Option slot.Value) : Extensions :=
  ⟨fun s => if h : s = slot then h ▸ value else e.get? s⟩

/-- Gives a slot a value. -/
def insert (e : Extensions) (slot : Slot) (value : slot.Value) : Extensions :=
  e.put slot (some value)

/-- Empties a slot. -/
def remove (e : Extensions) (slot : Slot) : Extensions := e.put slot none

/-- Changes the value of a slot that has one. -/
def modify (e : Extensions) (slot : Slot) (change : slot.Value → slot.Value) : Extensions :=
  e.put slot ((e.get? slot).map change)

/-- A slot holds what was put there. -/
@[simp] theorem get?_put_self (e : Extensions) (slot : Slot) (value : Option slot.Value) :
    (e.put slot value).get? slot = value := by
  simp [put]

/-- Putting something into a slot leaves the others. -/
theorem get?_put_of_ne (e : Extensions) {slot other : Slot} (h : other ≠ slot)
    (value : Option slot.Value) : (e.put slot value).get? other = e.get? other := by
  simp [put, h]

/-- A slot that was given a value has it. -/
@[simp] theorem get?_insert_self (e : Extensions) (slot : Slot) (value : slot.Value) :
    (e.insert slot value).get? slot = some value := by
  simp [insert]

/-- A slot that was emptied has no value. -/
@[simp] theorem get?_remove_self (e : Extensions) (slot : Slot) :
    (e.remove slot).get? slot = none := by
  simp [remove]

end Extensions

end Palisade
