import Palisade.Proofs.Response.Fields

/-!
# Headers as a multimap

A map of headers goes through changes: fields are inserted, the values of a name are replaced by one, and
all fields of a name are removed. The main statement describes the map behind any list of changes by the
values of each name, which every change revises on its own. It also says which fields stay as they were, and
where a field stands that was replaced.
-/
namespace Palisade.Headers

open Palisade.Text

/-- A change to a map of headers. -/
inductive Edit where
  | insert (name value : String)
  | set (name value : String)
  | remove (name : String)
  deriving Repr, DecidableEq

namespace Edit

/-- The name that a change is about. -/
def name : Edit → String
  | insert name _ | set name _ | remove name => name

/-- Makes a change. -/
def apply (h : Headers) : Edit → Headers
  | insert name value => h.insert name value
  | set name value => h.set name value
  | remove name => h.remove name

/-- What a change makes of the values of a name. -/
def revise (name : String) (values : List String) : Edit → List String
  | insert spelling value => if alike spelling name then values ++ [value] else values
  | set spelling value => if alike spelling name then [value] else values
  | remove spelling => if alike spelling name then [] else values

/-- Makes changes one after the other. -/
def applyAll (edits : List Edit) (h : Headers) : Headers := edits.foldl apply h

/-- None of the changes is about the name of the field. -/
def spares (edits : List Edit) (f : Field) : Bool := edits.all fun e => !f.named e.name

end Edit

variable {name value : String} {fields : List Field}

/-! ### The values of a name -/

/-- A change revises the values of every name. -/
theorem Edit.getAll_apply (h : Headers) (e : Edit) (name : String) :
    (e.apply h).getAll name = e.revise name (h.getAll name) := by
  cases e with
  | insert spelling value => exact getAll_insert h spelling value name
  | set spelling value => exact getAll_set h spelling value name
  | remove spelling => exact getAll_remove h spelling name

/-- Changes revise the values of every name one after the other. -/
theorem Edit.getAll_applyAll (edits : List Edit) (h : Headers) (name : String) :
    (applyAll edits h).getAll name = edits.foldl (revise name) (h.getAll name) := by
  induction edits generalizing h with
  | nil => rfl
  | cons e rest ih => rw [List.foldl_cons, ← getAll_apply, ← ih, applyAll, List.foldl_cons, applyAll]

/-! ### Fields that stay -/

/-- A change leaves the fields of all other names as they were, in their order. -/
theorem Edit.others_apply (h : Headers) (e : Edit) : (e.apply h).others e.name = h.others e.name := by
  cases e with
  | insert name value => exact others_insert h name value
  | set name value => exact others_set h name value
  | remove name => exact others_remove h name

/-- Changes leave the fields of all names that they are not about as they were, in their order. -/
theorem Edit.filter_spares_applyAll (edits : List Edit) (h : Headers) :
    (applyAll edits h).fields.filter (spares edits) = h.fields.filter (spares edits) := by
  induction edits generalizing h with
  | nil => rfl
  | cons e rest ih =>
    have hspares : spares (e :: rest) = fun f => spares rest f && !f.named e.name := by
      funext f
      rw [spares, List.all_cons, Bool.and_comm, spares]
    have hothers : ∀ k : Headers, k.fields.filter (spares (e :: rest)) =
        (k.others e.name).filter (spares rest) := by
      intro k
      rw [hspares, others, List.filter_filter]
    have hrest : ∀ k : Headers, k.fields.filter (spares (e :: rest)) =
        (k.fields.filter (spares rest)).filter fun f => !f.named e.name := by
      intro k
      rw [hspares, List.filter_filter]
      exact List.filter_congr fun f _ => Bool.and_comm _ _
    calc (applyAll rest (e.apply h)).fields.filter (spares (e :: rest))
        = (e.apply h).fields.filter (spares (e :: rest)) := by rw [hrest, ih, ← hrest]
      _ = h.fields.filter (spares (e :: rest)) := by rw [hothers, others_apply, ← hothers]

/-! ### The field that is replaced -/

/-- What replacing the values of a name makes of the fields. The first field of the name keeps its place and
its spelling, and the others go; if there is none, a field is appended. -/
inductive Replaced (name value : String) : List Field → List Field → Prop where
  | inPlace {before rest : List Field} {f : Field} (hb : ∀ g ∈ before, g.named name = false)
      (hf : f.named name = true) :
      Replaced name value (before ++ f :: rest)
        (before ++ ⟨f.name, value⟩ :: rest.filter fun g => !g.named name)
  | atEnd {fields : List Field} (h : ∀ g ∈ fields, g.named name = false) :
      Replaced name value fields (fields ++ [⟨name, value⟩])

/-- A field of another name in front changes nothing about what is replaced. -/
theorem Replaced.cons {f : Field} {after : List Field} (h : Replaced name value fields after)
    (hf : f.named name = false) : Replaced name value (f :: fields) (f :: after) := by
  cases h with
  | inPlace hb hg => exact .inPlace (List.forall_mem_cons.2 ⟨hf, hb⟩) hg
  | atEnd hn => exact .atEnd (List.forall_mem_cons.2 ⟨hf, hn⟩)

/-- Setting a name replaces its fields. -/
theorem replaced_setFields (name value : String) (fields : List Field) :
    Replaced name value fields (setFields name value fields) := by
  induction fields with
  | nil => exact .atEnd (List.forall_mem_nil _)
  | cons f rest ih =>
    unfold setFields
    split
    · rename_i hf
      exact .inPlace (List.forall_mem_nil _) hf
    · rename_i hf
      exact ih.cons (by simpa using hf)

/-! ### What removing tells -/

/-- Fewer fields are left exactly if one had the name. -/
theorem removes_iff (h : Headers) (name : String) :
    h.removes name = true ↔ ∃ f ∈ h.fields, f.named name = true := by
  rw [removes, decide_eq_true_eq, size, size, remove, List.length_filter_lt_length_iff_exists]
  simp

/-- A map of headers behind any list of changes, for a name in whatever case. Its values are those that it
had, revised by one change after the other; the first of them is what is found for it, and there are any
exactly if the map is said to contain it. All fields of names that the changes are not about are as they
were, in their order. Replacing its values keeps the place and the spelling of its first field, and removing
it tells whether it had one. -/
theorem multimap_of_edits (start : Headers) (edits : List Edit) (name : String) :
    let now := Edit.applyAll edits start
    now.getAll name = edits.foldl (Edit.revise name) (start.getAll name) ∧
      now.get? name = (now.getAll name).head? ∧
      (now.contains name = true ↔ now.getAll name ≠ []) ∧
      now.fields.filter (Edit.spares edits) = start.fields.filter (Edit.spares edits) ∧
      (∀ value, Replaced name value now.fields (now.set name value).fields) ∧
      (now.removes name = true ↔ ∃ f ∈ now.fields, f.named name = true) := by
  intro now
  refine ⟨Edit.getAll_applyAll edits start name, get?_eq_head?_getAll now name,
    contains_iff_getAll_ne_nil now name, Edit.filter_spares_applyAll edits start, ?_,
    removes_iff now name⟩
  intro value
  exact replaced_setFields name value now.fields

/-- The first of two fields of one name is replaced in its place. -/
example :
    (Edit.applyAll [.insert "Vary" "Accept", .insert "X-Other" "1", .insert "vary" "Origin",
      .set "VARY" "Cookie"] .empty).fields = [⟨"Vary", "Cookie"⟩, ⟨"X-Other", "1"⟩] := by
  decide +kernel

end Palisade.Headers
