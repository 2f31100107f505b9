import Palisade.Codec.Percent
import Palisade.Text.Quoted

/-!
# Base 16

Bytes are written as two digits each, with small letters, and read from digits in either case. The
main statement says that bytes written are read back.
-/
namespace Palisade.Base16

open Palisade.Text

/-- The digits of a byte. -/
def digits (b : UInt8) : List Char := [hexDigit (b.toNat / 16), hexDigit (b.toNat % 16)]

/-- Bytes as digits. -/
def encode (s : Bytes) : List Char := s.flatMap digits

/-- The value of a digit. -/
def value? (c : Char) : Option Nat :=
  if c.toNat < 128 then Percent.hexValue? (UInt8.ofNat c.toNat) else none

/-- The bytes that digits stand for. -/
def decode : List Char → Option Bytes
  | [] => some []
  | [_] => none
  | high :: low :: rest => do
    let h ← value? high
    let l ← value? low
    let others ← decode rest
    return UInt8.ofNat (h * 16 + l) :: others

/-- The digit of a number below sixteen is read as this number. -/
theorem value?_hexDigit {d : Nat} (h : d < 16) : value? (hexDigit d) = some d := by
  have : ∀ d : Fin 16, value? (hexDigit d) = some d.1 := by decide
  exact this ⟨d, h⟩

/-- Bytes that are written are read back. -/
theorem decode_encode (s : Bytes) : decode (encode s) = some s := by
  induction s with
  | nil => rfl
  | cons b rest ih =>
    have hb : b.toNat < 256 := b.toNat_lt
    have h1 := value?_hexDigit (d := b.toNat / 16) (by omega)
    have h2 := value?_hexDigit (d := b.toNat % 16) (by omega)
    have hn : b.toNat / 16 * 16 + b.toNat % 16 = b.toNat := by omega
    simp only [encode, List.flatMap_cons, digits, List.cons_append, List.nil_append] at *
    simp only [decode, h1, h2, ih, hn, Option.pure_def, Option.bind_eq_bind, Option.bind_some,
      UInt8.ofNat_toNat]

end Palisade.Base16
