import Mathlib.Data.List.Forall2
import Palisade.Template.Fill

/-!
# What a filled template can hold

Whatever is filled into a template shows as the text that it is. The brackets and quotation marks of
the outcome are those of the template's own text, so that they do not depend on the data or the
functions, and a browser that decodes character references reads the values that were filled in. The
main statement says this of any two fillings of a template. Fillings that fail are not covered.
-/
namespace Palisade

open Palisade.Text

namespace Markup

/-! ### Character references -/

/-- The references that have a name in every dialect of markup. -/
def namedReferences : List (List Char × Char) :=
  [("amp".toList, '&'), ("lt".toList, '<'), ("gt".toList, '>'), ("quot".toList, '\"'),
    ("apos".toList, '\'')]

/-- The character that a reference stands for, by what is between its ampersand and its semicolon: a
name, or a sign and the decimal digits of a code point. -/
def referenced? : List Char → Option Char
  | '#' :: digits => (readDigits? digits).bind fun n =>
    if n.isValidChar then some (Char.ofNat n) else none
  | name => namedReferences.lookup name

/-- The text that escaped text shows as. An ampersand that begins no reference stands for itself. -/
def unescape : List Char → List Char
  | [] => []
  | c :: rest =>
    if c = '&' then
      match _h : cutAt ';' rest with
      | none => c :: unescape rest
      | some (name, after) =>
        match referenced? name with
        | none => c :: unescape rest
        | some d => d :: unescape after
    else c :: unescape rest
termination_by s => s.length
decreasing_by
  all_goals try exact Nat.lt_succ_self _
  have hl := congrArg List.length (cutAt_eq_some _h).1
  simp only [List.length_append, List.length_cons] at hl ⊢
  omega

/-- The five entities of escaped text, by what is between ampersand and semicolon, with the characters
that they are written for. -/
def entities : List (List Char × Char) :=
  [("amp".toList, '&'), ("lt".toList, '<'), ("gt".toList, '>'), ("#34".toList, '\"'),
    ("#39".toList, '\'')]

/-- A character as it shows: markup cannot hold NUL. -/
def shown (c : Char) : Char := if c = '\x00' then replacement else c

/-- Every ampersand of a text begins one of the five entities. -/
def OnlyEntities (s : List Char) : Prop :=
  ∀ before after, s = before ++ '&' :: after → ∃ e ∈ entities, e.1 ++ [';'] <+: after

/-- Nothing shows as nothing. -/
theorem unescape_nil : unescape [] = [] := by
  rw [unescape]

/-- A character other than an ampersand shows as itself. -/
theorem unescape_cons {c : Char} (h : c ≠ '&') (rest : List Char) :
    unescape (c :: rest) = c :: unescape rest := by
  rw [unescape, if_neg h]

/-- A reference shows as the character that it stands for. -/
theorem unescape_reference {name : List Char} {d : Char} (hn : ';' ∉ name)
    (hd : referenced? name = some d) (rest : List Char) :
    unescape ('&' :: (name ++ ';' :: rest)) = d :: unescape rest := by
  have hcut := cutAt_append hn rest
  rw [unescape, if_pos rfl]
  split
  · simp_all
  · rename_i name' after h
    rw [hcut, Option.some.injEq, Prod.mk.injEq] at h
    obtain ⟨rfl, rfl⟩ := h
    rw [hd]

/-- A character is escaped as an entity or as it shows. -/
theorem escapeChar_cases (c : Char) :
    (∃ e ∈ entities, e.2 = c ∧ escapeChar c = '&' :: (e.1 ++ [';'])) ∨
      escapeChar c = [shown c] ∧ shown c ≠ '&' := by
  unfold escapeChar shown
  split
  · rename_i h
    exact .inl ⟨("amp".toList, '&'), by decide, h.symm, rfl⟩
  split
  · rename_i h
    exact .inl ⟨("lt".toList, '<'), by decide, h.symm, rfl⟩
  split
  · rename_i h
    exact .inl ⟨("gt".toList, '>'), by decide, h.symm, rfl⟩
  split
  · rename_i h
    exact .inl ⟨("#34".toList, '\"'), by decide, h.symm, rfl⟩
  split
  · rename_i h
    exact .inl ⟨("#39".toList, '\''), by decide, h.symm, rfl⟩
  split
  · exact .inr ⟨rfl, by decide⟩
  · rename_i hamp _ _ _ _ _
    exact .inr ⟨rfl, hamp⟩

/-- The entities are references to their characters. -/
theorem referenced?_of_mem_entities : ∀ e ∈ entities,
    ';' ∉ e.1 ∧ '&' ∉ e.1 ∧ referenced? e.1 = some e.2 ∧ shown e.2 = e.2 := by decide

/-- A character that was escaped is read as it shows, whatever follows. -/
theorem unescape_escapeChar_append (c : Char) (rest : List Char) :
    unescape (escapeChar c ++ rest) = shown c :: unescape rest := by
  rcases escapeChar_cases c with ⟨e, he, rfl, hc⟩ | ⟨hc, hne⟩
  · obtain ⟨hn, -, hr, hs⟩ := referenced?_of_mem_entities e he
    have ht : escapeChar e.2 ++ rest = '&' :: (e.1 ++ ';' :: rest) := by rw [hc]; simp
    rw [ht, unescape_reference hn hr, hs]
  · rw [hc, List.singleton_append, unescape_cons hne]

/-- Text is escaped character by character. -/
theorem escape_cons (c : Char) (rest : List Char) :
    escape (c :: rest) = escapeChar c ++ escape rest := List.flatMap_cons

/-- Escaping loses nothing but NUL. -/
theorem unescape_escape (s : List Char) : unescape (escape s) = s.map shown := by
  induction s with
  | nil => exact unescape_nil
  | cons c rest ih => rw [escape_cons, unescape_escapeChar_append, ih, List.map_cons]

/-- An entity in front of a text begins with the only ampersand that it has. -/
theorem OnlyEntities.entity_append {e : List Char × Char} {s : List Char} (he : e ∈ entities)
    (hs : OnlyEntities s) : OnlyEntities ('&' :: (e.1 ++ [';']) ++ s) := by
  obtain ⟨-, hn, -, -⟩ := referenced?_of_mem_entities e he
  intro before after h
  cases before with
  | nil =>
    obtain rfl := (List.cons.inj h).2
    exact ⟨e, he, List.prefix_append _ s⟩
  | cons c before =>
    have hrest : e.1 ++ [';'] ++ s = before ++ '&' :: after := (List.cons.inj h).2
    rcases List.append_eq_append_iff.1 hrest with ⟨v, rfl, hv⟩ | ⟨v, hv, hafter⟩
    · exact hs v after hv
    · cases v with
      | nil => exact hs [] after hafter.symm
      | cons d v =>
        obtain rfl := (List.cons.inj hafter).1
        have hm : '&' ∈ e.1 ++ [';'] := hv ▸ List.mem_append_right before List.mem_cons_self
        simp [hn] at hm

/-- A character other than an ampersand may stand in front of such text. -/
theorem OnlyEntities.cons {c : Char} {s : List Char} (hc : c ≠ '&') (hs : OnlyEntities s) :
    OnlyEntities (c :: s) := by
  intro before after h
  cases before with
  | nil => exact absurd (List.cons.inj h).1 hc
  | cons d before => exact hs before after (List.cons.inj h).2

/-- Escaping writes no ampersand but those of the entities. -/
theorem onlyEntities_escape (s : List Char) : OnlyEntities (escape s) := by
  induction s with
  | nil =>
    intro before after h
    simp [escape] at h
  | cons c rest ih =>
    rw [escape_cons]
    rcases escapeChar_cases c with ⟨e, he, -, hc⟩ | ⟨hc, hne⟩
    · rw [hc]
      exact ih.entity_append he
    · rw [hc]
      exact ih.cons hne

/-- Escaped text has none of the characters that delimit markup. -/
theorem filter_isDelimiter_escape (s : List Char) : (escape s).filter isDelimiter = [] := by
  rw [List.filter_eq_nil_iff]
  intro c hc
  rw [not_isDelimiter_of_mem_escape hc]
  decide

end Markup

namespace Template

open Palisade.Markup

/-- The text of a part that stands for itself; other parts have none of their own. -/
def Node.ownText : Node → List Char
  | .text markup => markup
  | _ => []

/-- The value that a part stands for, if it has one. -/
def Node.value? (data : Json) (fs : Functions) : Node → Option (List Char)
  | .text _ => none
  | .function name => (fs.get? name).map String.toList
  | .field path => (lookup path data).map showValue

/-- A part, and what it is in a filled template. -/
inductive Filled (data : Json) (fs : Functions) : Node → List Char → Prop where
  | text (markup : List Char) : Filled data fs (.text markup) markup
  /-- A value shows as it is and holds nothing but entities and text. -/
  | value {node : Node} {value part : List Char} (hv : node.value? data fs = some value)
      (hs : unescape part = value.map shown) (he : OnlyEntities part)
      (hd : part.filter isDelimiter = []) : Filled data fs node part

variable {data : Json} {fs : Functions}

/-- A part with a value is filled with the value, escaped. -/
theorem filled_escape {node : Node} {value : List Char} (hv : node.value? data fs = some value) :
    Filled data fs node (escape value) :=
  .value hv (unescape_escape value) (onlyEntities_escape value) (filter_isDelimiter_escape value)

/-- What is filled in for a part is its own text or its escaped value. -/
theorem filled_of_fillNode {node : Node} {part : List Char} (h : fillNode data fs node = .ok part) :
    Filled data fs node part := by
  unfold fillNode at h
  split at h
  · obtain rfl := Except.ok.inj h
    exact .text _
  · split at h
    · rename_i name value hv
      obtain rfl := Except.ok.inj h
      exact filled_escape (by rw [Node.value?, hv]; rfl)
    · cases h
  · split at h
    · rename_i path value hv
      obtain rfl := Except.ok.inj h
      exact filled_escape (by rw [Node.value?, hv]; rfl)
    · cases h

/-- A filled template is its parts as they are filled, one after the other. -/
theorem exists_filled_of_fillNodes {nodes : List Node} {out : List Char}
    (h : fillNodes data fs nodes = .ok out) :
    ∃ parts, List.Forall₂ (Filled data fs) nodes parts ∧ out = parts.flatten := by
  induction nodes generalizing out with
  | nil =>
    obtain rfl := Except.ok.inj h
    exact ⟨[], .nil, rfl⟩
  | cons node rest ih =>
    rw [fillNodes] at h
    split at h
    · cases h
    · rename_i front hf
      split at h
      · cases h
      · rename_i back hb
        obtain rfl := Except.ok.inj h
        obtain ⟨parts, hparts, rfl⟩ := ih hb
        exact ⟨front :: parts, .cons (filled_of_fillNode hf) hparts, rfl⟩

/-- The brackets and quotation marks of a part are those of its own text. -/
theorem Filled.filter_isDelimiter {node : Node} {part : List Char} (h : Filled data fs node part) :
    part.filter isDelimiter = node.ownText.filter isDelimiter := by
  cases h with
  | text => rfl
  | value hv _ _ hd =>
    cases node with
    | text => cases hv
    | field | function => exact hd

/-- The brackets and quotation marks of parts are those of their own text. -/
theorem filter_isDelimiter_flatten {nodes : List Node} {parts : List (List Char)}
    (h : List.Forall₂ (Filled data fs) nodes parts) :
    parts.flatten.filter isDelimiter = (nodes.flatMap Node.ownText).filter isDelimiter := by
  induction h with
  | nil => rfl
  | cons hf _ ih =>
    rw [List.flatten_cons, List.flatMap_cons, List.filter_append, List.filter_append, ih,
      hf.filter_isDelimiter]

/-- A filled document is made of its parts, each filled. -/
theorem exists_filled_of_fill {t : Template} {html : SafeHtml} (h : t.fill data fs = .ok html) :
    ∃ parts, List.Forall₂ (Filled data fs) t.nodes parts ∧ html.text.toList = parts.flatten := by
  unfold fill at h
  split at h
  · cases h
  · rename_i out ho
    obtain rfl := Except.ok.inj h
    obtain ⟨parts, hparts, rfl⟩ := exists_filled_of_fillNodes ho
    exact ⟨parts, hparts, String.toList_ofList⟩

/-- Two fillings of a template have the brackets and quotation marks of its own text, and so the same,
whatever data and functions they were made of. What was filled in for a part shows as the value of the
part, with no ampersand but those of the five entities. -/
theorem fill_is_inert_and_lossless {t : Template} {data data' : Json} {fs fs' : Functions}
    {html html' : SafeHtml} (h : t.fill data fs = .ok html) (h' : t.fill data' fs' = .ok html') :
    html.text.toList.filter isDelimiter = (t.nodes.flatMap Node.ownText).filter isDelimiter ∧
      html'.text.toList.filter isDelimiter = html.text.toList.filter isDelimiter ∧
      ∃ parts, List.Forall₂ (Filled data fs) t.nodes parts ∧ html.text.toList = parts.flatten := by
  obtain ⟨parts, hparts, hout⟩ := exists_filled_of_fill h
  obtain ⟨parts', hparts', hout'⟩ := exists_filled_of_fill h'
  have hd := filter_isDelimiter_flatten hparts
  have hd' := filter_isDelimiter_flatten hparts'
  rw [← hout] at hd
  rw [← hout'] at hd'
  exact ⟨hd, hd'.trans hd.symm, parts, hparts, hout⟩

/-! A link with a nested value, a value that looks like markup, and NUL; and the same link with other
data. -/

namespace Link

/-- A template with a field and a function in an attribute. -/
def template : Template :=
  ⟨[.text "<a title=\"".toList, .field ["user"], .text "\">".toList, .function "Label",
    .text "</a>".toList]⟩

/-- Data with a value that tries to leave the attribute. -/
def nested : Json := .object [("user", .object [("name", .text "\"><b>&lt;")])]

/-- Data without a value there. -/
def plain : Json := .object [("user", .null)]

/-- A function with a quotation mark and a NUL. -/
def functions : Functions := Functions.empty.insert "Label" "it's\x00"

/-- The document that is filled. -/
def html : SafeHtml :=
  ⟨"<a title=\"\x7b&#34;name&#34;:&#34;\\&#34;&gt;&lt;b&gt;&amp;lt;&#34;\x7d\">it&#39;s\uFFFD</a>"⟩

/-- Neither the field nor the function adds a bracket or a quotation mark. -/
theorem filled_twice :
    html.text.toList.filter isDelimiter = "<\"\"><>".toList ∧
      ∃ parts, List.Forall₂ (Filled nested functions) template.nodes parts ∧
        html.text.toList = parts.flatten := by
  have h : template.fill nested functions = .ok html := by decide +kernel
  have h' : template.fill plain (Functions.empty.insert "Label" "") =
      .ok ⟨"<a title=\"\"></a>"⟩ := by decide +kernel
  obtain ⟨hd, -, hp⟩ := fill_is_inert_and_lossless h h'
  refine ⟨hd.trans ?_, hp⟩
  decide

end Link

end Template

end Palisade
