import Palisade.Response.Headers

/-!
# The fields of a name

What a map of headers holds under a name is the list of its fields that answer to it. A change to one
name gives that name the fields it says and leaves the fields of all other names as they were, their
places among each other included.
-/
namespace Palisade

open Palisade.Text

/-- Names that are alike are alike to the same names. -/
theorem Text.alike_congr_left {a b : String} (h : alike a b = true) (c : String) :
    alike a c = alike b c := by
  rw [alike_comm a c, alike_comm b c, alike_congr_right h]

/-- A name is not alike to those that a name alike to it is not alike to. -/
theorem Text.not_alike_of_alike {a b c : String} (h : alike a b = true)
    (hn : alike b c = false) : alike a c = false := by
  rw [alike_congr_left h, hn]

namespace Headers

/-- The fields that answer to a name, in order. -/
def fieldsOf (h : Headers) (name : String) : List Field := h.fields.filter (·.named name)

/-- A field for each value. -/
def fieldsFor (name : String) (values : List String) : List Field :=
  values.map fun value => ⟨name, value⟩

/-- The values of a name are those of its fields. -/
theorem getAll_eq_map_fieldsOf (h : Headers) (name : String) :
    h.getAll name = (h.fieldsOf name).map Field.value := rfl

/-- The values of a name with these fields are the values that the fields were made of. -/
theorem getAll_of_fieldsOf {h : Headers} {name spelling : String} {values : List String}
    (hf : h.fieldsOf name = fieldsFor spelling values) : h.getAll name = values := by
  rw [getAll_eq_map_fieldsOf, hf, fieldsFor, List.map_map]
  exact List.map_id values

/-- A field that is inserted stands behind those of its name. -/
theorem fieldsOf_insert (h : Headers) (name value other : String) :
    (h.insert name value).fieldsOf other =
      if alike name other then h.fieldsOf other ++ [⟨name, value⟩] else h.fieldsOf other := by
  simp only [fieldsOf, insert, List.filter_append, List.filter_cons, List.filter_nil, Field.named]
  split <;> simp

/-- A field that is inserted changes no other name. -/
theorem fieldsOf_insert_of_ne (h : Headers) {name other : String} (value : String)
    (hn : alike name other = false) : (h.insert name value).fieldsOf other = h.fieldsOf other := by
  rw [fieldsOf_insert, if_neg (by simp [hn])]

/-- A name that was removed has no fields. -/
theorem fieldsOf_remove_self (h : Headers) {name other : String} (ha : alike name other = true) :
    (h.remove name).fieldsOf other = [] := by
  rw [fieldsOf, remove, List.filter_filter, List.filter_eq_nil_iff]
  intro f _
  simp only [Field.named, alike_congr_right ha, Bool.and_eq_true, Bool.not_eq_true']
  rintro ⟨ht, hf⟩
  rw [ht] at hf
  exact absurd hf (by decide)

/-- Removing a name leaves the others. -/
theorem fieldsOf_remove_of_ne (h : Headers) {name other : String} (hn : alike name other = false) :
    (h.remove name).fieldsOf other = h.fieldsOf other := by
  rw [fieldsOf, fieldsOf, remove, List.filter_filter]
  apply List.filter_congr
  intro f _
  cases hf : f.named other with
  | false => rfl
  | true =>
    have hfn : f.named name = false := by
      unfold Field.named at hf ⊢
      rw [alike_congr_left hf, alike_comm, hn]
    rw [hfn]
    rfl

/-- Fields of one name are none of another. -/
theorem filter_map_field_of_ne {α : Type} {name other : String} (value : α → String)
    (items : List α) (hn : alike name other = false) :
    (items.map fun item => (⟨name, value item⟩ : Field)).filter (·.named other) = [] := by
  rw [List.filter_eq_nil_iff]
  intro f hf
  obtain ⟨item, -, rfl⟩ := List.mem_map.1 hf
  simp [Field.named, hn]

/-- Replacing the values of a name leaves the fields of every other name. -/
theorem filter_setFields_of_ne {name other : String} (value : String) (fields : List Field)
    (hn : alike name other = false) :
    (setFields name value fields).filter (·.named other) = fields.filter (·.named other) := by
  induction fields with
  | nil => simp [setFields, Field.named, hn]
  | cons f rest ih =>
    unfold setFields
    split
    · rename_i hf
      have hfo : alike f.name other = false := not_alike_of_alike hf hn
      have hrest := fieldsOf_remove_of_ne ⟨rest⟩ hn
      simp only [fieldsOf, remove] at hrest
      rw [List.filter_cons_of_neg (by simp [Field.named, hfo]),
        List.filter_cons_of_neg (by simp [Field.named, hfo]), hrest]
    · simp only [List.filter_cons, ih]

/-- Setting a name leaves the others. -/
theorem fieldsOf_set_of_ne (h : Headers) {name other : String} (value : String)
    (hn : alike name other = false) : (h.set name value).fieldsOf other = h.fieldsOf other :=
  filter_setFields_of_ne value h.fields hn

/-- Where a name has got one value, one field has it, and the others are as they were. -/
theorem exists_setFields (name value : String) (fields : List Field) :
    ∃ before spelling after, setFields name value fields = before ++ ⟨spelling, value⟩ :: after ∧
      alike spelling name = true ∧ before ++ after = fields.filter fun f => !f.named name := by
  induction fields with
  | nil => exact ⟨[], name, [], rfl, alike_refl name, rfl⟩
  | cons f rest ih =>
    unfold setFields
    by_cases hf : f.named name = true
    · rw [if_pos hf]
      exact ⟨[], f.name, _, rfl, hf, by simp [hf]⟩
    · obtain ⟨before, spelling, after, he, ha, hothers⟩ := ih
      rw [if_neg hf, he]
      exact ⟨f :: before, spelling, after, rfl, ha, by simp [hf, hothers]⟩

/-- Replacing the values of a name leaves it one field. -/
theorem exists_fieldsOf_set (h : Headers) {name other : String} (value : String)
    (ha : alike name other = true) :
    ∃ spelling, (h.set name value).fieldsOf other = [⟨spelling, value⟩] := by
  obtain ⟨before, spelling, after, he, hs, hothers⟩ := exists_setFields name value h.fields
  have hnamed : ∀ f : Field, f.named other = f.named name := fun f => (alike_congr_right ha f.name).symm
  have hnone : ∀ f ∈ before ++ after, f.named name = false := by
    intro f hf
    rw [hothers] at hf
    simpa using (List.mem_filter.1 hf).2
  rw [List.forall_mem_append] at hnone
  have hfield : (⟨spelling, value⟩ : Field).named name = true := hs
  refine ⟨spelling, ?_⟩
  have hbefore : before.filter (·.named name) = [] := by simpa using hnone.1
  have hafter : after.filter (·.named name) = [] := by simpa using hnone.2
  simp only [fieldsOf, set, he, hnamed, List.filter_append, List.filter_cons, hbefore, hafter, hfield,
    if_true, List.nil_append]

/-- A name that was set has this value alone. -/
theorem getAll_set_self (h : Headers) {name other : String} (value : String)
    (ha : alike name other = true) : (h.set name value).getAll other = [value] := by
  obtain ⟨spelling, hf⟩ := h.exists_fieldsOf_set value ha
  rw [getAll_eq_map_fieldsOf, hf, List.map_singleton]

/-- What a change of one name leaves: under the name what it says, and under others what there was. -/
theorem getAll_set (h : Headers) (name value other : String) :
    (h.set name value).getAll other = if alike name other then [value] else h.getAll other := by
  cases ha : alike name other with
  | true => exact h.getAll_set_self value ha
  | false => exact congrArg (List.map Field.value) (h.fieldsOf_set_of_ne value ha)

/-- A name that was removed has no values, and the others keep theirs. -/
theorem getAll_remove (h : Headers) (name other : String) :
    (h.remove name).getAll other = if alike name other then [] else h.getAll other := by
  cases ha : alike name other with
  | true => exact congrArg (List.map Field.value) (h.fieldsOf_remove_self ha)
  | false => exact congrArg (List.map Field.value) (h.fieldsOf_remove_of_ne ha)

/-! ### The fields of all other names -/

/-- The fields that do not answer to a name, in order. -/
def others (h : Headers) (name : String) : List Field := h.fields.filter fun f => !f.named name

/-- The fields of one name are found among those that do not answer to another. -/
theorem fieldsOf_eq_filter_others (h : Headers) {name other : String}
    (hn : alike name other = false) : h.fieldsOf other = (h.others name).filter (·.named other) := by
  have hr := fieldsOf_remove_of_ne h hn
  exact hr.symm

/-- Where the fields of all other names are the same, each of them has the same fields. -/
theorem fieldsOf_of_others_eq {h h' : Headers} {name other : String}
    (ho : h'.others name = h.others name) (hn : alike name other = false) :
    h'.fieldsOf other = h.fieldsOf other := by
  rw [fieldsOf_eq_filter_others h' hn, fieldsOf_eq_filter_others h hn, ho]

/-- A field that is inserted leaves the fields of all other names. -/
theorem others_insert (h : Headers) (name value : String) :
    (h.insert name value).others name = h.others name := by
  simp [others, insert, Field.named]

/-- Removing a name leaves the fields of all other names. -/
theorem others_remove (h : Headers) (name : String) : (h.remove name).others name = h.others name := by
  simp [others, remove, List.filter_filter]

/-- Replacing the values of a name leaves all other fields in their places. -/
theorem others_set (h : Headers) (name value : String) :
    (h.set name value).others name = h.others name := by
  unfold others set
  generalize h.fields = fields
  induction fields with
  | nil => simp [setFields, Field.named]
  | cons f rest ih =>
    by_cases hf : f.named name = true
    · have hv : (⟨f.name, value⟩ : Field).named name = true := hf
      simp [setFields, hf, hv, List.filter_filter]
    · simp only [setFields, if_neg hf, List.filter_cons, ih]

/-! ### What holds of every field -/

variable {P : Field → Prop} {h : Headers}

/-- What holds of all fields holds of those that are left. -/
theorem forall_remove (hs : ∀ f ∈ h.fields, P f) (name : String) : ∀ f ∈ (h.remove name).fields, P f :=
  fun f hf => hs f (List.mem_filter.1 hf).1

/-- What holds of all fields and of a new one holds when that is inserted. -/
theorem forall_insert (hs : ∀ f ∈ h.fields, P f) {name value : String} (hnew : P ⟨name, value⟩) :
    ∀ f ∈ (h.insert name value).fields, P f := by
  unfold insert
  rw [List.forall_mem_append, List.forall_mem_singleton]
  exact ⟨hs, hnew⟩

/-- A field that gets a new value keeps its name. -/
theorem forall_set (hs : ∀ f ∈ h.fields, P f) {name value : String} (hnew : P ⟨name, value⟩)
    (hold : ∀ f, P f → P ⟨f.name, value⟩) : ∀ f ∈ (h.set name value).fields, P f := by
  unfold set
  generalize h.fields = fields at hs ⊢
  induction fields with
  | nil => exact List.forall_mem_singleton.2 hnew
  | cons f rest ih =>
    rw [List.forall_mem_cons] at hs
    unfold setFields
    split
    · rw [List.forall_mem_cons]
      exact ⟨hold f hs.1, fun g hg => hs.2 g (List.mem_filter.1 hg).1⟩
    · rw [List.forall_mem_cons]
      exact ⟨hs.1, ih hs.2⟩

end Headers

namespace ResponseHeaders

open Headers

/-- Values are inserted behind all fields, each as a field of the name. -/
theorem fields_insertAll (fields : Headers) (name : String) (values : List String) :
    insertAll fields name values = ⟨fields.fields ++ fieldsFor name values⟩ := by
  unfold insertAll
  induction values generalizing fields with
  | nil => simp [fieldsFor]
  | cons value rest ih =>
    rw [List.foldl_cons, ih]
    simp [Headers.insert, fieldsFor]

/-- What holds of all fields and of new ones holds when these are inserted. -/
theorem forall_insertAll {P : Field → Prop} {fields : Headers} (hs : ∀ f ∈ fields.fields, P f)
    {name : String} {values : List String} (hv : ∀ value ∈ values, P ⟨name, value⟩) :
    ∀ f ∈ (insertAll fields name values).fields, P f := by
  rw [fields_insertAll, List.forall_mem_append]
  exact ⟨hs, List.forall_mem_map.2 hv⟩

/-- Values that are inserted stand behind those of their name. -/
theorem fieldsOf_insertAll_self (fields : Headers) {name other : String} (values : List String)
    (ha : alike name other = true) :
    (insertAll fields name values).fieldsOf other = fields.fieldsOf other ++ fieldsFor name values := by
  rw [fields_insertAll, fieldsOf, fieldsOf, List.filter_append]
  congr 1
  rw [List.filter_eq_self]
  intro f hf
  obtain ⟨value, -, rfl⟩ := List.mem_map.1 hf
  exact ha

/-- Values that are inserted change no other name. -/
theorem fieldsOf_insertAll_of_ne (fields : Headers) {name other : String} (values : List String)
    (hn : alike name other = false) :
    (insertAll fields name values).fieldsOf other = fields.fieldsOf other := by
  have hnil : (fieldsFor name values).filter (·.named other) = [] :=
    filter_map_field_of_ne (fun value => value) values hn
  rw [fields_insertAll, fieldsOf, fieldsOf, List.filter_append, hnil, List.append_nil]

/-- Giving a name other fields leaves all fields of other names in their places. -/
theorem others_insertAll_remove (fields : Headers) (name : String) (values : List String) :
    (insertAll (fields.remove name) name values).others name = fields.others name := by
  have hnil : (fieldsFor name values).filter (fun f => !f.named name) = [] := by
    rw [List.filter_eq_nil_iff]
    intro f hf
    obtain ⟨value, -, rfl⟩ := List.mem_map.1 hf
    simp [Field.named]
  rw [fields_insertAll, others, List.filter_append, hnil, List.append_nil]
  exact others_remove fields name

end ResponseHeaders

end Palisade
