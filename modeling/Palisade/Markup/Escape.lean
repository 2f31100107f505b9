import Palisade.Text.Utf8

/-!
# Safe markup

Markup that may be sent to a browser comes from its author or from escaping. Escaped text shows as
it is: the five characters with a meaning in markup become entities, and NUL, which markup cannot
hold, becomes the replacement character.
-/
namespace Palisade

/-- Markup that is known to be safe. -/
structure SafeHtml where
  /-- The markup. -/
  text : String
  deriving Repr, DecidableEq

namespace Markup

/-- A character as it is written in markup. -/
def escapeChar (c : Char) : List Char :=
  if c = '&' then "&amp;".toList
  else if c = '<' then "&lt;".toList
  else if c = '>' then "&gt;".toList
  else if c = '\"' then "&#34;".toList
  else if c = '\'' then "&#39;".toList
  else if c = '\x00' then [Text.replacement]
  else [c]

/-- A text as it is written in markup. -/
def escape (s : List Char) : List Char := s.flatMap escapeChar

/-- A text is escaped character by character. -/
@[simp] theorem escape_append (s t : List Char) : escape (s ++ t) = escape s ++ escape t := by
  simp [escape]

/-- Whether a character opens or closes a tag or an attribute value. -/
def isDelimiter (c : Char) : Bool := c == '<' || c == '>' || c == '\"' || c == '\''

/-- If no character of a text is a delimiter, one of them is none. -/
theorem isDelimiter_eq_false_of_all {s : List Char} (h : s.all (fun c => !isDelimiter c) = true)
    {c : Char} (hc : c ∈ s) : isDelimiter c = false := by
  simpa using List.all_eq_true.1 h c hc

/-- Escaped text holds none of the characters that delimit markup. -/
theorem not_isDelimiter_of_mem_escape {c : Char} {s : List Char} (h : c ∈ escape s) :
    isDelimiter c = false := by
  simp only [escape, List.mem_flatMap] at h
  obtain ⟨d, -, h⟩ := h
  unfold escapeChar at h
  split at h
  · exact isDelimiter_eq_false_of_all (by decide) h
  split at h
  · exact isDelimiter_eq_false_of_all (by decide) h
  split at h
  · exact isDelimiter_eq_false_of_all (by decide) h
  split at h
  · exact isDelimiter_eq_false_of_all (by decide) h
  split at h
  · exact isDelimiter_eq_false_of_all (by decide) h
  split at h
  · exact isDelimiter_eq_false_of_all (by decide) h
  · simp only [List.mem_singleton] at h
    subst h
    simp_all [isDelimiter]

end Markup

/-- Markup that shows a text as it is. -/
def SafeHtml.escape (s : String) : SafeHtml := ⟨String.ofList (Markup.escape s.toList)⟩

/-- Markup written by the application's author. -/
def SafeHtml.trusted (s : String) : SafeHtml := ⟨s⟩

end Palisade
