/-!
# ASCII classes and case

Names on the wire are compared without regard to the case of ASCII letters, and their grammars are
given by classes of ASCII characters. The letter, digit and case functions of `Char` know ASCII
alone, so they are used as they are; this module adds the classes that `Char` lacks. Case folding
of other alphabets is not covered, because no rule of this library asks for it.
-/
namespace Palisade.Text

/-- A text with its ASCII capitals made small. Every other character stays. -/
def lower (s : String) : String := String.ofList (s.toList.map Char.toLower)

/-- A text with its small ASCII letters made capital. Every other character stays. -/
def upper (s : String) : String := String.ofList (s.toList.map Char.toUpper)

/-- Two texts name the same thing when they differ at most in the case of ASCII letters. -/
def alike (a b : String) : Bool := lower a == lower b

/-- Small letters are taken character by character. -/
theorem toList_lower (s : String) : (lower s).toList = s.toList.map Char.toLower := by
  simp [lower]

/-- Two names are alike exactly if they agree in small letters. -/
theorem alike_iff (a b : String) : alike a b = true ↔ lower a = lower b := by
  simp [alike]

/-- A name is alike to itself. -/
@[simp] theorem alike_refl (a : String) : alike a a = true := by simp [alike]

/-- Which of two names comes first does not matter for their being alike. -/
theorem alike_comm (a b : String) : alike a b = alike b a := by
  simp [alike, Bool.beq_comm]

/-- Names that are alike to the same name are alike. -/
theorem alike_trans {a b c : String} (ab : alike a b = true) (bc : alike b c = true) :
    alike a c = true := by
  rw [alike_iff] at *
  exact ab.trans bc

/-- Comparing with either of two alike texts gives the same answer. -/
theorem alike_congr_right {a b : String} (h : alike a b = true) (c : String) :
    alike c a = alike c b := by
  rw [alike_iff] at h
  simp [alike, h]

/-- What is no letter is small only if it was written so. -/
theorem eq_of_toLower_eq {c d : Char} (h : c.toLower = d) (hd : d.toNat < 97) : c = d := by
  unfold Char.toLower at h
  split at h
  · rename_i hu
    have hlow : 65 ≤ c.val.toNat := hu.1
    have hhigh : c.val.toNat ≤ 90 := hu.2
    subst h
    have hsum : (c.val + 32).toNat < 97 := hd
    have h32 : (32 : UInt32).toNat = 32 := rfl
    rw [UInt32.toNat_add] at hsum
    omega
  · exact h

/-- Control characters: the first thirty-two code points and DEL. -/
def isControl (c : Char) : Bool := c.toNat < 0x20 || c.toNat == 0x7F

/-- Visible ASCII: everything from the exclamation mark to the tilde. -/
def isVisible (c : Char) : Bool := 0x21 ≤ c.toNat && c.toNat ≤ 0x7E

/-- The blanks of markup: space, tab, line feed, form feed and carriage return. -/
def isMarkupBlank (c : Char) : Bool :=
  c == ' ' || c == '\t' || c == '\n' || c == '\x0c' || c == '\r'

/-- A text that would end a header line early holds a carriage return, a line feed or a NUL. -/
def breaksLine (s : String) : Bool :=
  s.toList.any fun c => c == '\r' || c == '\n' || c == '\x00'

/-- A text keeps its line exactly if it has no line end and no NUL. -/
theorem breaksLine_eq_false_iff (s : String) :
    breaksLine s = false ↔ ∀ c ∈ s.toList, c ≠ '\r' ∧ c ≠ '\n' ∧ c ≠ '\x00' := by
  simp [breaksLine, not_or, and_assoc]

/-- Small letters do not change whether a text breaks its line. -/
theorem breaksLine_lower (s : String) : breaksLine (lower s) = breaksLine s := by
  have hchar : ∀ c d : Char, d.toNat < 97 → d.toLower = d → (c.toLower == d) = (c == d) := by
    intro c d hd hl
    rw [Bool.eq_iff_iff, beq_iff_eq, beq_iff_eq]
    exact ⟨fun h => eq_of_toLower_eq h hd, fun h => by rw [h, hl]⟩
  have hbreaks : ((fun c => c == '\r' || c == '\n' || c == '\x00') ∘ Char.toLower) =
      fun c => c == '\r' || c == '\n' || c == '\x00' := by
    funext c
    simp only [Function.comp_apply, hchar c '\r' (by decide) (by decide),
      hchar c '\n' (by decide) (by decide), hchar c '\x00' (by decide) (by decide)]
  rw [breaksLine, toList_lower, List.any_map, hbreaks, breaksLine]

/-- Alike texts keep their lines or break them together. -/
theorem breaksLine_eq_of_alike {a b : String} (h : alike a b = true) :
    breaksLine a = breaksLine b := by
  rw [← breaksLine_lower a, ← breaksLine_lower b, (alike_iff a b).1 h]

/-- Two texts in a row break their line exactly if one of them does. -/
theorem breaksLine_append (s t : String) : breaksLine (s ++ t) = (breaksLine s || breaksLine t) := by
  simp [breaksLine]

/-- A text of characters none of which ends a line keeps its line. -/
theorem breaksLine_of_chars {allowed : Char → Bool} {s : String}
    (hends : allowed '\r' = false ∧ allowed '\n' = false ∧ allowed '\x00' = false)
    (h : ∀ c ∈ s.toList, allowed c = true) : breaksLine s = false := by
  obtain ⟨hreturn, hfeed, hnul⟩ := hends
  rw [breaksLine_eq_false_iff]
  intro c hc
  have ha := h c hc
  refine ⟨?_, ?_, ?_⟩ <;> rintro rfl
  · simp [ha] at hreturn
  · simp [ha] at hfeed
  · simp [ha] at hnul

/-- Texts that keep their lines still do with a mark between them that does. -/
theorem breaksLine_intercalate {mark : String} (hm : breaksLine mark = false) {parts : List String}
    (h : ∀ part ∈ parts, breaksLine part = false) :
    breaksLine (String.intercalate mark parts) = false := by
  induction parts with
  | nil => rfl
  | cons part others ih =>
    rw [List.forall_mem_cons] at h
    cases others with
    | nil => simpa using h.1
    | cons next rest =>
      rw [String.intercalate_cons_of_ne_nil (List.cons_ne_nil next rest), breaksLine_append,
        breaksLine_append, h.1, hm, ih h.2]
      rfl

end Palisade.Text
