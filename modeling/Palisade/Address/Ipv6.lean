import Palisade.Address.Ipv4

/-!
# Numeric addresses of eight groups

An address is written as eight groups of up to four hexadecimal digits with colons between them. Two
colons in a row stand once for one or more groups of zero, and the last two groups may be written as
an address of four bytes.
-/
namespace Palisade.Ipv6

open Palisade.Text

/-- Reads one group. -/
def readGroup? (s : List Char) : Option Nat := if s.length ≤ 4 then Ipv4.value? 16 s else none

/-- Reads groups; the last piece may stand for two of them. -/
def readLast? : List (List Char) → Option (List Nat)
  | [] => some []
  | [last] =>
    match readGroup? last, Ipv4.readStrict? last with
    | some group, _ => some [group]
    | none, some [a, b, c, d] => some [a * 256 + b, c * 256 + d]
    | none, _ => none
  | piece :: rest => do
    let group ← readGroup? piece
    let others ← readLast? rest
    return group :: others

/-- The pieces between colons; no text has none. -/
def groupPieces (s : List Char) : List (List Char) := if s.isEmpty then [] else pieces ':' s

/-- Reads an address as its eight groups. -/
def read? (s : List Char) : Option (List Nat) :=
  match cutPattern [':', ':'] s with
  | none => (readLast? (groupPieces s)).filter (·.length = 8)
  | some (front, back) => do
    let before ← (groupPieces front).mapM readGroup?
    let after ← readLast? (groupPieces back)
    let missing := 8 - (before.length + after.length)
    if missing = 0 then none else some (before ++ List.replicate missing 0 ++ after)

/-- Addresses of groups of receivers. -/
def isMulticast (groups : List Nat) : Bool := groups.headD 0 / 256 == 0xFF

/-- Addresses that one machine or one link has for itself, so that they need a device. -/
def isLocal (groups : List Nat) : Bool :=
  groups.headD 0 / 64 == 0xFE80 / 64 ||
    isMulticast groups && (groups.headD 0 % 16 == 1 || groups.headD 0 % 16 == 2)

/-- The address that stands for all. -/
def isUnspecified (groups : List Nat) : Bool := groups == List.replicate 8 0

/-- Addresses that stand for one of four bytes. -/
def isMapped (groups : List Nat) : Bool := groups.take 6 == [0, 0, 0, 0, 0, 0xFFFF]

/-- The number of a device in decimal. -/
def readDevice? (s : List Char) : Option Nat := (readDigits? s).filter (· < Nat.pow 2 32)

/-- The device of a local address by its name; every machine has one for itself. -/
def namedDevice? (groups : List Nat) (name : List Char) : Option Nat :=
  if isLocal groups && name == "lo".toList then some 1 else none

/-- An address with the number of a device; zero stands for none. -/
structure Scoped where
  /-- The eight groups. -/
  groups : List Nat
  /-- The device. -/
  device : Nat
  deriving Repr, DecidableEq

/-- Reads an address, and its device behind a percent sign. -/
def readScoped? (device? : List Nat → List Char → Option Nat) (s : List Char) : Option Scoped := do
  match cutAt '%' s with
  | none => return ⟨← read? s, 0⟩
  | some (front, back) =>
    let groups ← read? front
    return ⟨groups, ← device? groups back⟩

end Palisade.Ipv6
