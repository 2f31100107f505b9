/-!
# UTF-8

Encoding, strict decoding and repairing decoding of byte strings. Repair replaces each maximal part
that begins a character but does not finish it by one replacement character, as the Unicode
standard recommends. The main statement says that decoding, strict or repairing, undoes encoding.
-/
namespace Palisade

/-- Bytes as they travel. -/
abbrev Bytes := List UInt8

namespace Text

/-- The bytes of one character: one below 80 hexadecimal, then two, three or four. -/
def encodeChar (c : Char) : Bytes :=
  let n := c.toNat
  if n < 0x80 then [UInt8.ofNat n]
  else if n < 0x800 then [UInt8.ofNat (0xC0 + n / 64), UInt8.ofNat (0x80 + n % 64)]
  else if n < 0x10000 then
    [UInt8.ofNat (0xE0 + n / 4096), UInt8.ofNat (0x80 + n / 64 % 64), UInt8.ofNat (0x80 + n % 64)]
  else
    [UInt8.ofNat (0xF0 + n / 262144), UInt8.ofNat (0x80 + n / 4096 % 64),
      UInt8.ofNat (0x80 + n / 64 % 64), UInt8.ofNat (0x80 + n % 64)]

/-- The bytes of a list of characters. -/
def encode (s : List Char) : Bytes := s.flatMap encodeChar

/-- The bytes of a text. -/
def utf8 (s : String) : Bytes := encode s.toList

/-- How many bytes a list of characters takes. -/
def byteLength (s : List Char) : Nat := (encode s).length

/-- What stands at the front of a byte string. -/
inductive Front where
  /-- Nothing is left. -/
  | finished
  /-- A whole character, and the bytes after it. -/
  | char (c : Char) (rest : Bytes)
  /-- A part that no character begins or finishes with, and the bytes after it. -/
  | broken (rest : Bytes)

/-- Bytes that continue a character. -/
def isContinuation (b : UInt8) : Bool := 0x80 ≤ b.toNat && b.toNat ≤ 0xBF

/-- The second bytes allowed after a leading byte of a long form. They leave out overlong forms,
surrogates and what lies above the last code point. -/
def isSecond (lead second : UInt8) : Bool :=
  let low := if lead.toNat == 0xE0 then 0xA0 else if lead.toNat == 0xF0 then 0x90 else 0x80
  let high := if lead.toNat == 0xED then 0x9F else if lead.toNat == 0xF4 then 0x8F else 0xBF
  low ≤ second.toNat && second.toNat ≤ high

/-- Reads the character at the front. -/
def front : Bytes → Front
  | [] => .finished
  | a :: r =>
    let lead := a.toNat
    if lead < 0x80 then .char (Char.ofNat lead) r
    else if 0xC2 ≤ lead ∧ lead ≤ 0xDF then
      match r with
      | [] => .broken []
      | b :: r₁ =>
        if isContinuation b then .char (Char.ofNat ((lead - 0xC0) * 64 + (b.toNat - 0x80))) r₁
        else .broken r
    else if 0xE0 ≤ lead ∧ lead ≤ 0xEF then
      match r with
      | [] => .broken []
      | b :: r₁ =>
        if !isSecond a b then .broken r
        else match r₁ with
          | [] => .broken []
          | c :: r₂ =>
            if isContinuation c then
              .char (Char.ofNat
                ((lead - 0xE0) * 4096 + (b.toNat - 0x80) * 64 + (c.toNat - 0x80))) r₂
            else .broken r₁
    else if 0xF0 ≤ lead ∧ lead ≤ 0xF4 then
      match r with
      | [] => .broken []
      | b :: r₁ =>
        if !isSecond a b then .broken r
        else match r₁ with
          | [] => .broken []
          | c :: r₂ =>
            if !isContinuation c then .broken r₁
            else match r₂ with
              | [] => .broken []
              | d :: r₃ =>
                if isContinuation d then
                  .char (Char.ofNat
                    ((lead - 0xF0) * 262144 + (b.toNat - 0x80) * 4096 + (c.toNat - 0x80) * 64 +
                      (d.toNat - 0x80))) r₃
                else .broken r₂
    else .broken r

/-- A character that is read takes a byte. -/
theorem length_lt_of_front_char {s rest : Bytes} {c : Char} (h : front s = .char c rest) :
    rest.length < s.length := by
  revert h
  fun_cases front s <;> grind

/-- A broken front takes a byte. -/
theorem length_lt_of_front_broken {s rest : Bytes} (h : front s = .broken rest) :
    rest.length < s.length := by
  revert h
  fun_cases front s <;> grind

/-- The characters of a byte string, or nothing if it is not UTF-8. -/
def decode? (s : Bytes) : Option (List Char) :=
  match _h : front s with
  | .finished => some []
  | .char c rest => (decode? rest).map (c :: ·)
  | .broken _ => none
termination_by s.length
decreasing_by exact length_lt_of_front_char (by assumption)

/-- The replacement character. -/
def replacement : Char := '\uFFFD'

/-- The characters of a byte string, with a replacement character for each broken part. -/
def decodeLossy (s : Bytes) : List Char :=
  match _h : front s with
  | .finished => []
  | .char c rest => c :: decodeLossy rest
  | .broken rest => replacement :: decodeLossy rest
termination_by s.length
decreasing_by
  · exact length_lt_of_front_char (by assumption)
  · exact length_lt_of_front_broken (by assumption)

/-- The text of a byte string, or nothing if it is not UTF-8. -/
def ofUtf8? (s : Bytes) : Option String := (decode? s).map String.ofList

/-- The empty text has no bytes. -/
@[simp] theorem encode_nil : encode [] = [] := rfl

/-- The bytes of a text are those of its characters in a row. -/
@[simp] theorem encode_cons (c : Char) (s : List Char) :
    encode (c :: s) = encodeChar c ++ encode s := rfl

/-- The bytes of two texts in a row are theirs in a row. -/
@[simp] theorem encode_append (s t : List Char) : encode (s ++ t) = encode s ++ encode t := by
  simp [encode]

/-- The bytes of two texts in a row are as many as theirs together. -/
@[simp] theorem byteLength_append (s t : List Char) :
    byteLength (s ++ t) = byteLength s + byteLength t := by simp [byteLength]

/-- A character at the front is read back, whatever follows it. -/
theorem front_encodeChar (c : Char) (rest : Bytes) :
    front (encodeChar c ++ rest) = .char c rest := by
  have hv : c.toNat < 0xD800 ∨ (0xDFFF < c.toNat ∧ c.toNat < 0x110000) := c.valid
  have hc : Char.ofNat c.toNat = c := Char.ofNat_toNat c
  generalize hn : c.toNat = n at *
  unfold encodeChar
  simp only [hn]
  split
  · rename_i h
    have : (UInt8.ofNat n).toNat = n := by simp; omega
    simp [front, this, h, hc]
  · split
    · have h1 : (UInt8.ofNat (0xC0 + n / 64)).toNat = 0xC0 + n / 64 := by simp; omega
      have h2 : (UInt8.ofNat (0x80 + n % 64)).toNat = 0x80 + n % 64 := by simp; omega
      have e : (0xC0 + n / 64 - 0xC0) * 64 + (0x80 + n % 64 - 0x80) = n := by omega
      simp only [List.cons_append, List.nil_append, front, h1, h2, isContinuation]
      rw [if_neg (by omega), if_pos (by omega), if_pos (by simp; omega), e, hc]
    · split
      · have h1 : (UInt8.ofNat (0xE0 + n / 4096)).toNat = 0xE0 + n / 4096 := by simp; omega
        have h2 : (UInt8.ofNat (0x80 + n / 64 % 64)).toNat = 0x80 + n / 64 % 64 := by simp; omega
        have h3 : (UInt8.ofNat (0x80 + n % 64)).toNat = 0x80 + n % 64 := by simp; omega
        have e : (0xE0 + n / 4096 - 0xE0) * 4096 + (0x80 + n / 64 % 64 - 0x80) * 64 +
            (0x80 + n % 64 - 0x80) = n := by omega
        simp only [List.cons_append, List.nil_append, front, h1, h2, h3, isContinuation, isSecond]
        rw [if_neg (by omega), if_neg (by omega), if_pos (by omega), if_neg, if_pos (by simp; omega),
          e, hc]
        simp only [Bool.not_eq_true', Bool.and_eq_false_iff, decide_eq_false_iff_not, beq_iff_eq,
          not_or, Classical.not_not]
        constructor <;> split <;> (try split) <;> omega
      · have h1 : (UInt8.ofNat (0xF0 + n / 262144)).toNat = 0xF0 + n / 262144 := by simp; omega
        have h2 : (UInt8.ofNat (0x80 + n / 4096 % 64)).toNat = 0x80 + n / 4096 % 64 := by
          simp; omega
        have h3 : (UInt8.ofNat (0x80 + n / 64 % 64)).toNat = 0x80 + n / 64 % 64 := by simp; omega
        have h4 : (UInt8.ofNat (0x80 + n % 64)).toNat = 0x80 + n % 64 := by simp; omega
        have e : (0xF0 + n / 262144 - 0xF0) * 262144 + (0x80 + n / 4096 % 64 - 0x80) * 4096 +
            (0x80 + n / 64 % 64 - 0x80) * 64 + (0x80 + n % 64 - 0x80) = n := by omega
        simp only [List.cons_append, List.nil_append, front, h1, h2, h3, h4, isContinuation,
          isSecond]
        rw [if_neg (by omega), if_neg (by omega), if_neg (by omega), if_pos (by omega), if_neg,
          if_neg (by simp; omega), if_pos (by simp; omega), e, hc]
        simp only [Bool.not_eq_true', Bool.and_eq_false_iff, decide_eq_false_iff_not, beq_iff_eq,
          not_or, Classical.not_not]
        constructor <;> split <;> (try split) <;> omega

/-- No other character than that of an ASCII code has the byte of the code. -/
theorem ofNat_not_mem_encodeChar {c : Char} {n : Nat} (hn : n < 0x80) (h : c.toNat ≠ n) :
    UInt8.ofNat n ∉ encodeChar c := by
  have eq_of_byte {m : Nat} (hm : m < 256) (he : UInt8.ofNat n = UInt8.ofNat m) : m = n := by
    have ht := congrArg UInt8.toNat he
    rw [UInt8.toNat_ofNat', UInt8.toNat_ofNat', Nat.mod_eq_of_lt hm,
      Nat.mod_eq_of_lt (by omega)] at ht
    exact ht.symm
  have hv : c.toNat < 0x110000 := by
    rcases c.valid with hv | hv <;> simp only [Char.toNat] <;> omega
  intro hm
  unfold encodeChar at hm
  simp only at hm
  split at hm
  · exact h (eq_of_byte (by omega) (List.mem_singleton.1 hm))
  · split at hm
    · simp only [List.mem_cons, List.not_mem_nil, or_false] at hm
      rcases hm with hm | hm <;> have he := eq_of_byte (by omega) hm <;> omega
    · split at hm
      · simp only [List.mem_cons, List.not_mem_nil, or_false] at hm
        rcases hm with hm | hm | hm <;> have he := eq_of_byte (by omega) hm <;> omega
      · simp only [List.mem_cons, List.not_mem_nil, or_false] at hm
        rcases hm with hm | hm | hm | hm <;> have he := eq_of_byte (by omega) hm <;> omega

/-- Strict decoding undoes encoding. -/
theorem decode?_encode (s : List Char) : decode? (encode s) = some s := by
  induction s with
  | nil => rw [decode?]; simp [front]
  | cons c s ih =>
    rw [decode?]
    split <;> rename_i heq <;> rw [encode_cons, front_encodeChar] at heq
    · simp at heq
    · injection heq with h1 h2
      subst h1 h2
      simp [ih]
    · simp at heq

/-- Repairing decoding undoes encoding. -/
theorem decodeLossy_encode (s : List Char) : decodeLossy (encode s) = s := by
  induction s with
  | nil => rw [decodeLossy]; simp [front]
  | cons c s ih =>
    rw [decodeLossy]
    split <;> rename_i heq <;> rw [encode_cons, front_encodeChar] at heq
    · simp at heq
    · injection heq with h1 h2
      subst h1 h2
      simp [ih]
    · simp at heq

/-- No two texts have the same bytes. -/
theorem encode_injective {s t : List Char} (h : encode s = encode t) : s = t := by
  have := congrArg decodeLossy h
  simpa [decodeLossy_encode] using this

end Text

end Palisade
