import Palisade.Text.Utf8

/-!
# Percent decoding

A percent sign with two digits of base sixteen stands for the byte they name. Everything else,
a percent sign without its digits included, stands for itself.
-/
namespace Palisade.Percent

/-- The value of a digit of base sixteen. -/
def hexValue? (b : UInt8) : Option Nat :=
  let n := b.toNat
  if 0x30 ≤ n ∧ n ≤ 0x39 then some (n - 0x30)
  else if 0x41 ≤ n ∧ n ≤ 0x46 then some (n - 0x37)
  else if 0x61 ≤ n ∧ n ≤ 0x66 then some (n - 0x57)
  else none

/-- The byte of two digits of base sixteen. -/
def byte? (high low : UInt8) : Option UInt8 := do
  let h ← hexValue? high
  let l ← hexValue? low
  return UInt8.ofNat (h * 16 + l)

/-- The percent sign. -/
def sign : UInt8 := 0x25

/-- The bytes that a byte string with percent signs stands for. -/
def decode : Bytes → Bytes
  | [] => []
  | [x] => [x]
  | [x, y] => [x, y]
  | x :: high :: low :: rest =>
    if x = sign then
      match byte? high low with
      | some b => b :: decode rest
      | none => x :: decode (high :: low :: rest)
    else x :: decode (high :: low :: rest)

/-- Bytes without a percent sign stand for themselves. -/
theorem decode_eq_self {s : Bytes} (h : sign ∉ s) : decode s = s := by
  fun_induction decode s with
  | case1 => rfl
  | case2 => rfl
  | case3 => rfl
  | case4 => simp at h
  | case5 => simp at h
  | case6 x high low rest hx ih => rw [ih (fun hm => h (List.mem_cons_of_mem _ hm))]

end Palisade.Percent
