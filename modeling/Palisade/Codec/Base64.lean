import Palisade.Text.Utf8

/-!
# Base 64

Three bytes are four characters of sixty-four. There are two alphabets: the standard one, written
with padding, and the one for names and addresses, written without. Reading is strict: no padding, no
other character, no length that leaves a single character, and no bits set that the last character
does not use. The main statement says that what is written without padding is read back.
-/
namespace Palisade.Base64

/-- The two characters in which the alphabets differ. -/
structure Alphabet where
  /-- The character of 62. -/
  penultimate : Char
  /-- The character of 63. -/
  last : Char

/-- The alphabet of ordinary text. -/
def standard : Alphabet := ⟨'+', '/'⟩

/-- The alphabet that needs no escape in names and addresses. -/
def urlSafe : Alphabet := ⟨'-', '_'⟩

/-- The character of a number below sixty-four. -/
def Alphabet.char (a : Alphabet) (n : Nat) : Char :=
  if n < 26 then Char.ofNat (0x41 + n)
  else if n < 52 then Char.ofNat (0x61 + (n - 26))
  else if n < 62 then Char.ofNat (0x30 + (n - 52))
  else if n = 62 then a.penultimate
  else a.last

/-- The number of a character. -/
def Alphabet.value? (a : Alphabet) (c : Char) : Option Nat :=
  if c.isUpper then some (c.toNat - 0x41)
  else if c.isLower then some (c.toNat - 0x61 + 26)
  else if c.isDigit then some (c.toNat - 0x30 + 52)
  else if c = a.penultimate then some 62
  else if c = a.last then some 63
  else none

/-- The characters of a byte string, without padding. -/
def encode (a : Alphabet) : Bytes → List Char
  | [] => []
  | [x] => [a.char (x.toNat / 4), a.char (x.toNat % 4 * 16)]
  | [x, y] =>
    [a.char (x.toNat / 4), a.char (x.toNat % 4 * 16 + y.toNat / 16), a.char (y.toNat % 16 * 4)]
  | x :: y :: z :: rest =>
    a.char (x.toNat / 4) :: a.char (x.toNat % 4 * 16 + y.toNat / 16) ::
      a.char (y.toNat % 16 * 4 + z.toNat / 64) :: a.char (z.toNat % 64) :: encode a rest

/-- The characters that fill up the last group of four. -/
def padding (length : Nat) : List Char :=
  match length % 3 with
  | 1 => ['=', '=']
  | 2 => ['=']
  | _ => []

/-- The characters of a byte string, with padding. -/
def encodePadded (a : Alphabet) (s : Bytes) : List Char := encode a s ++ padding s.length

/-- The bytes of characters without padding. -/
def decode (a : Alphabet) : List Char → Option Bytes
  | [] => some []
  | [_] => none
  | [p, q] => do
    let p ← a.value? p
    let q ← a.value? q
    if q % 16 = 0 then some [UInt8.ofNat (p * 4 + q / 16)] else none
  | [p, q, r] => do
    let p ← a.value? p
    let q ← a.value? q
    let r ← a.value? r
    if r % 4 = 0 then
      some [UInt8.ofNat (p * 4 + q / 16), UInt8.ofNat (q % 16 * 16 + r / 4)]
    else none
  | p :: q :: r :: s :: rest => do
    let p ← a.value? p
    let q ← a.value? q
    let r ← a.value? r
    let s ← a.value? s
    let others ← decode a rest
    some (UInt8.ofNat (p * 4 + q / 16) :: UInt8.ofNat (q % 16 * 16 + r / 4) ::
      UInt8.ofNat (r % 4 * 64 + s) :: others)

/-- The character of a number below sixty-four is read as this number. -/
theorem urlSafe_value?_char {n : Nat} (h : n < 64) : urlSafe.value? (urlSafe.char n) = some n := by
  have : ∀ n : Fin 64, urlSafe.value? (urlSafe.char n) = some n.1 := by decide
  exact this ⟨n, h⟩

/-- Every character that is written belongs to a number below sixty-four. -/
theorem exists_of_mem_encode {a : Alphabet} {s : Bytes} {c : Char} (h : c ∈ encode a s) :
    ∃ n, n < 64 ∧ c = a.char n := by
  fun_induction encode a s with
  | case1 => simp at h
  | case2 x =>
    have hx := x.toNat_lt
    rcases List.mem_cons.1 h with rfl | h
    · exact ⟨x.toNat / 4, by omega, rfl⟩
    · exact ⟨x.toNat % 4 * 16, by omega, List.mem_singleton.1 h⟩
  | case3 x y =>
    have hx := x.toNat_lt
    have hy := y.toNat_lt
    simp only [List.mem_cons, List.not_mem_nil, or_false] at h
    rcases h with rfl | rfl | rfl
    · exact ⟨x.toNat / 4, by omega, rfl⟩
    · exact ⟨x.toNat % 4 * 16 + y.toNat / 16, by omega, rfl⟩
    · exact ⟨y.toNat % 16 * 4, by omega, rfl⟩
  | case4 x y z rest ih =>
    have hx := x.toNat_lt
    have hy := y.toNat_lt
    have hz := z.toNat_lt
    simp only [List.mem_cons] at h
    rcases h with rfl | rfl | rfl | rfl | h
    · exact ⟨x.toNat / 4, by omega, rfl⟩
    · exact ⟨x.toNat % 4 * 16 + y.toNat / 16, by omega, rfl⟩
    · exact ⟨y.toNat % 16 * 4 + z.toNat / 64, by omega, rfl⟩
    · exact ⟨z.toNat % 64, by omega, rfl⟩
    · exact ih h

/-- What is written in the alphabet of names is read back. -/
theorem decode_encode_urlSafe (s : Bytes) : decode urlSafe (encode urlSafe s) = some s := by
  fun_induction encode urlSafe s with
  | case1 => rfl
  | case2 x =>
    have hx := x.toNat_lt
    have e : x.toNat / 4 * 4 + x.toNat % 4 * 16 / 16 = x.toNat := by omega
    simp only [decode, urlSafe_value?_char (show x.toNat / 4 < 64 by omega),
      urlSafe_value?_char (show x.toNat % 4 * 16 < 64 by omega), Option.bind_eq_bind,
      Option.bind_some, e, UInt8.ofNat_toNat]
    rw [if_pos (by omega)]
  | case3 x y =>
    have hx := x.toNat_lt
    have hy := y.toNat_lt
    have e₁ : x.toNat / 4 * 4 + (x.toNat % 4 * 16 + y.toNat / 16) / 16 = x.toNat := by omega
    have e₂ : (x.toNat % 4 * 16 + y.toNat / 16) % 16 * 16 + y.toNat % 16 * 4 / 4 = y.toNat := by
      omega
    simp only [decode, urlSafe_value?_char (show x.toNat / 4 < 64 by omega),
      urlSafe_value?_char (show x.toNat % 4 * 16 + y.toNat / 16 < 64 by omega),
      urlSafe_value?_char (show y.toNat % 16 * 4 < 64 by omega), Option.bind_eq_bind,
      Option.bind_some, e₁, e₂, UInt8.ofNat_toNat]
    rw [if_pos (by omega)]
  | case4 x y z rest ih =>
    have hx := x.toNat_lt
    have hy := y.toNat_lt
    have hz := z.toNat_lt
    have e₁ : x.toNat / 4 * 4 + (x.toNat % 4 * 16 + y.toNat / 16) / 16 = x.toNat := by omega
    have e₂ : (x.toNat % 4 * 16 + y.toNat / 16) % 16 * 16 +
        (y.toNat % 16 * 4 + z.toNat / 64) / 4 = y.toNat := by omega
    have e₃ : (y.toNat % 16 * 4 + z.toNat / 64) % 4 * 64 + z.toNat % 64 = z.toNat := by omega
    simp only [decode, urlSafe_value?_char (show x.toNat / 4 < 64 by omega),
      urlSafe_value?_char (show x.toNat % 4 * 16 + y.toNat / 16 < 64 by omega),
      urlSafe_value?_char (show y.toNat % 16 * 4 + z.toNat / 64 < 64 by omega),
      urlSafe_value?_char (show z.toNat % 64 < 64 by omega), Option.bind_eq_bind,
      Option.bind_some, ih, e₁, e₂, e₃, UInt8.ofNat_toNat]

end Palisade.Base64
