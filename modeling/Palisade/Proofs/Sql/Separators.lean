import Mathlib.Data.List.Infix
import Palisade.Proofs.Text.Leftmost
import Palisade.Proofs.Text.Pieces
import Palisade.Sql.Trusted

/-!
# Splitting SQL and joining it again

What splitting gives as a relation between a text and its pieces: the text is cut at the leftmost
separator, and what stands behind that is cut in the same way, so that no two separators overlap. The main
statement says that joining the pieces gives the text back, whatever the separator, and that splitting
gives back the parts that were joined with a separator of one character, if none of them holds it.
-/
namespace Palisade.TrustedSql

open Palisade.Text

/-- A text and its pieces between separators. -/
inductive Divides (separator : List Char) : List Char → List (List Char) → Prop where
  | whole {s : List Char} (h : ¬ separator <:+: s) : Divides separator s [s]
  | cut {before after : List Char} {pieces : List (List Char)}
      (h : Leftmost separator.isPrefixOf before (separator ++ after))
      (hp : Divides separator after pieces) :
      Divides separator (before ++ (separator ++ after)) (before :: pieces)

variable {separator s : List Char} {pieces : List (List Char)}

/-- There is always a piece, be it an empty one. -/
theorem Divides.ne_nil (h : Divides separator s pieces) : pieces ≠ [] := by
  cases h with
  | whole => exact List.cons_ne_nil _ _
  | cut => exact List.cons_ne_nil _ _

/-- With separators between them the pieces are the text. -/
theorem Divides.intercalate_eq (h : Divides separator s pieces) :
    List.intercalate separator pieces = s := by
  induction h with
  | whole => exact List.intercalate_singleton
  | @cut before after pieces _ hp ih =>
    rw [List.intercalate_cons_of_ne_nil hp.ne_nil, ih, List.append_assoc]

/-- A text without the separator is one piece. -/
theorem splitAt_of_whole (hne : separator ≠ []) (h : ¬ separator <:+: s) :
    splitAt separator hne s = [s] := by
  have hcut := (cutPattern_eq_none_iff hne).2 h
  rw [splitAt.eq_def]
  split
  · rfl
  · rename_i hs
    rw [hcut] at hs
    cases hs

/-- A text is cut at the leftmost separator, and the rest in the same way. -/
theorem splitAt_of_cut {before after : List Char} (hne : separator ≠ [])
    (h : Leftmost separator.isPrefixOf before (separator ++ after)) :
    splitAt separator hne (before ++ (separator ++ after)) =
      before :: splitAt separator hne after := by
  have hcut := h.cutPattern_eq hne
  rw [splitAt.eq_def]
  split
  · rename_i hs
    rw [hcut] at hs
    cases hs
  · rename_i hs
    rw [hcut, Option.some.injEq, Prod.mk.injEq] at hs
    obtain ⟨rfl, rfl⟩ := hs
    rfl

/-- Splitting gives the pieces of the text, and there are no others. -/
theorem splitAt_eq_iff (hne : separator ≠ []) :
    splitAt separator hne s = pieces ↔ Divides separator s pieces := by
  constructor
  · rintro rfl
    fun_induction splitAt separator hne s with
    | case1 s hs => exact .whole ((cutPattern_eq_none_iff hne).1 hs)
    | case2 s before after hs ih =>
      obtain ⟨rfl, hl⟩ := (cutPattern_eq_some_iff hne).1 hs
      exact .cut hl ih
  · intro h
    induction h with
    | whole h => exact splitAt_of_whole hne h
    | cut h _ ih => rw [splitAt_of_cut hne h, ih]

/-- The pieces between separators, the empty one included, are the text when they are joined. -/
theorem intercalate_splitText (separator s : List Char) :
    List.intercalate separator (splitText separator s) = s := by
  unfold splitText
  split
  · rename_i h
    rw [h, List.append_assoc, List.singleton_append, intercalate_cons_eq_flatMap]
    simp [List.flatMap_map]
  · rename_i hne
    exact ((splitAt_eq_iff hne).1 rfl).intercalate_eq

/-! ### Separators of one character -/

variable {mark : Char}

/-- The first place of a character is behind what does not hold it. -/
theorem leftmost_of_not_mem {before : List Char} (h : mark ∉ before) (after : List Char) :
    Leftmost [mark].isPrefixOf before ([mark] ++ after) := by
  have hcut := cutPattern_append h [] after
  exact ((cutPattern_eq_some_iff (List.cons_ne_nil mark [])).1 hcut).2

/-- Parts without a character are the pieces of what is joined with it. -/
theorem divides_intercalate {parts : List (List Char)} (hne : parts ≠ [])
    (h : ∀ part ∈ parts, mark ∉ part) : Divides [mark] (List.intercalate [mark] parts) parts := by
  induction parts with
  | nil => exact absurd rfl hne
  | cons part others ih =>
    rw [List.forall_mem_cons] at h
    cases others with
    | nil =>
      rw [List.intercalate_singleton]
      exact .whole fun hm => h.1 ((List.singleton_infix_iff mark part).1 hm)
    | cons next rest =>
      rw [List.intercalate_cons_cons, List.append_assoc]
      exact .cut (leftmost_of_not_mem h.1 _) (ih (List.cons_ne_nil next rest) h.2)

/-- Pieces without the mark between them are the pieces of what they are joined to. -/
theorem splitText_intercalate {parts : List (List Char)} (hne : parts ≠ [])
    (h : ∀ part ∈ parts, mark ∉ part) :
    splitText [mark] (List.intercalate [mark] parts) = parts := by
  have hmark : ([mark] : List Char) ≠ [] := List.cons_ne_nil mark []
  rw [splitText, dif_neg hmark, splitAt_eq_iff]
  exact divides_intercalate hne h

/-! ### Trusted SQL -/

/-- Joined queries have the texts of the parts, with that of the separator between them. -/
theorem toList_join (parts : List TrustedSql) (separator : TrustedSql) :
    (join parts separator).text.toList =
      List.intercalate separator.text.toList (parts.map (·.text.toList)) := by
  rw [join, String.toList_intercalate, List.map_map]
  rfl

/-- The parts of a query have the pieces of its text. -/
theorem map_toList_split (sql separator : TrustedSql) :
    (sql.split separator).map (·.text.toList) = splitText separator.text.toList sql.text.toList := by
  rw [split, List.map_map]
  exact List.map_id'' (fun _ => String.toList_ofList) _

/-- Queries with one text are the same. -/
theorem toList_injective : Function.Injective fun sql : TrustedSql => sql.text.toList := by
  rintro ⟨a⟩ ⟨b⟩ h
  obtain rfl := String.toList_inj.1 h
  rfl

/-- Splitting loses nothing and joining hides nothing. The pieces of any SQL between separators are that SQL
when they are joined with the separator, the empty one included. And parts of which none contains a
separator of one character are the pieces of what is joined from them with it. -/
theorem splits_and_rejoins :
    (∀ sql separator : TrustedSql, join (sql.split separator) separator = sql) ∧
      ∀ (parts : List TrustedSql) (separator : TrustedSql), separator.text.length = 1 → parts ≠ [] →
        (∀ part ∈ parts, ¬ separator.text.toList <:+: part.text.toList) →
        (join parts separator).split separator = parts := by
  constructor
  · intro sql separator
    have htext : (join (sql.split separator) separator).text.toList = sql.text.toList := by
      rw [toList_join, map_toList_split, intercalate_splitText]
    exact toList_injective htext
  · intro parts separator hl hne h
    obtain ⟨mark, hmark⟩ := List.length_eq_one_iff.1 (String.length_toList.trans hl)
    rw [hmark] at h
    have hparts : ∀ part ∈ parts.map (·.text.toList), mark ∉ part := by
      rw [List.forall_mem_map]
      intro part hp hm
      exact h part hp ((List.singleton_infix_iff mark _).2 hm)
    apply toList_injective.list_map
    rw [map_toList_split, toList_join, hmark, splitText_intercalate (by simpa using hne) hparts]

/-- A script whose first and last statements are empty. -/
theorem script_splits_and_rejoins :
    let script : List TrustedSql := ["", "CREATE TABLE a (x INT)", "", ""].map literal
    (";".length = 1 ∧ script ≠ [] ∧ ∀ part ∈ script, ¬ ";".toList <:+: part.text.toList) ∧
      (join script (literal ";")).split (literal ";") = script := by
  intro script
  have hparts : ∀ part ∈ script, ¬ ";".toList <:+: part.text.toList := by decide +kernel
  exact ⟨⟨rfl, by decide, hparts⟩, splits_and_rejoins.2 script (literal ";") rfl (by decide) hparts⟩

end Palisade.TrustedSql
