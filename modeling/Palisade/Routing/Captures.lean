/-!
# Captures

What a pattern captures from a path: named values, one for each name. A value that is captured again
under a name replaces the earlier one.
-/
namespace Palisade

/-- Named values. -/
structure Captures where
  /-- Names with their values, no name twice. -/
  entries : List (String × String)
  deriving Repr, DecidableEq

namespace Captures

/-- Nothing is captured. -/
def empty : Captures := ⟨[]⟩

/-- Replaces the value of a name in a list of named values, or appends it. -/
def put (name value : String) : List (String × String) → List (String × String)
  | [] => [(name, value)]
  | (n, v) :: rest => if n = name then (name, value) :: rest else (n, v) :: put name value rest

/-- Captures a value under a name. -/
def insert (c : Captures) (name value : String) : Captures := ⟨put name value c.entries⟩

/-- The value captured under a name. -/
def get? (c : Captures) (name : String) : Option String := c.entries.lookup name

/-- The number of names. -/
def size (c : Captures) : Nat := c.entries.length

/-- Where nothing was captured no name has a value. -/
@[simp] theorem get?_empty (name : String) : empty.get? name = none := rfl

/-- A name that was put among others has its new value, and the others keep theirs. -/
theorem lookup_put (name value other : String) (entries : List (String × String)) :
    (put name value entries).lookup other =
      if other = name then some value else entries.lookup other := by
  induction entries with
  | nil =>
    by_cases h : other = name
    · simp [put, h]
    · simp [put, List.lookup_cons, beq_eq_false_iff_ne.2 h, h]
  | cons e rest ih =>
    obtain ⟨n, v⟩ := e
    rw [put]
    by_cases hn : n = name
    · subst hn
      by_cases h : other = n
      · simp [h]
      · simp [List.lookup_cons, beq_eq_false_iff_ne.2 h, h]
    · rw [if_neg hn, List.lookup_cons, ih, List.lookup_cons]
      by_cases h : other = n
      · subst h
        simp [hn]
      · simp [beq_eq_false_iff_ne.2 h]

/-- The last value captured under a name counts. -/
@[simp] theorem get?_insert (c : Captures) (name value other : String) :
    (c.insert name value).get? other = if other = name then some value else c.get? other :=
  lookup_put name value other c.entries

end Captures

end Palisade
