import Palisade.Decimal.Binary64

/-!
# The shortest decimal that reads back

A positive finite binary fraction is a whole significand times a power of two. The decimals that
round to it fill an interval around it, ends included when the significand is even. The shortest
decimal has the fewest digits among those in the interval and is the nearest of them; an exact tie
goes to the even digit. For each number of digits only the two neighbours of the fraction on that
decimal grid have to be tried: if any point of a grid lies in the interval, so does one of these.
-/
namespace Palisade.Decimal

/-- A positive finite fraction: a significand and the exponent of its last place. -/
structure Fraction where
  /-- The whole number that the power of two multiplies. -/
  significand : Nat
  /-- The exponent of the power of two. -/
  place : Int

/-- The fraction of a bit pattern without its sign. -/
def Fraction.ofBits (bits : Nat) : Fraction :=
  let field : Nat := bits / Nat.pow 2 52 % Nat.pow 2 11
  let low : Nat := bits % Nat.pow 2 52
  if field = 0 then ⟨low, -1074⟩ else ⟨Nat.pow 2 52 + low, Int.ofNat field - 1075⟩

/-- The interval of reals that round to a fraction, all over one denominator. -/
structure Interval where
  /-- Four times the fraction, as a numerator. -/
  middle : Nat
  /-- The lower end, as a numerator. -/
  low : Nat
  /-- The upper end, as a numerator. -/
  high : Nat
  /-- The common denominator of the three. -/
  denominator : Nat
  /-- Whether the ends belong to the interval. -/
  closed : Bool

/-- The interval of a fraction. Below a power of two the neighbour is only half as far away. -/
def Fraction.interval (x : Fraction) : Interval :=
  let unit := if 0 ≤ x.place then Nat.pow 2 x.place.toNat else 1
  let denominator := if 0 ≤ x.place then 4 else 4 * Nat.pow 2 (-x.place).toNat
  let below := if x.significand = Nat.pow 2 52 ∧ -1074 < x.place then unit else 2 * unit
  { middle := 4 * x.significand * unit
    low := 4 * x.significand * unit - below
    high := 4 * x.significand * unit + 2 * unit
    denominator := denominator
    closed := x.significand % 2 = 0 }

/-- Numerators of `digits · 10^exponent` and of another number, made comparable. -/
def Interval.scaled (i : Interval) (digits : Nat) (exponent : Int) (numerator : Nat) : Nat × Nat :=
  if 0 ≤ exponent then (digits * Nat.pow 10 exponent.toNat * i.denominator, numerator)
  else (digits * i.denominator, numerator * Nat.pow 10 (-exponent).toNat)

/-- Whether a decimal rounds to the fraction. -/
def Interval.holds (i : Interval) (digits : Nat) (exponent : Int) : Bool :=
  let (a, low) := i.scaled digits exponent i.low
  let (b, high) := i.scaled digits exponent i.high
  if i.closed then low ≤ a && b ≤ high else low < a && b < high

/-- The exponent of the leading decimal digit of the fraction. -/
def Interval.magnitude (i : Interval) : Int :=
  let guess : Int := ((i.middle.log2 : Int) - i.denominator.log2) * 30103 / 100000
  let reaches (exponent : Int) : Bool :=
    let (a, v) := i.scaled 1 exponent i.middle
    a ≤ v
  if reaches (guess + 1) then guess + 1 else if reaches guess then guess else guess - 1

/-- The decimal on one grid that rounds to the fraction, the nearer of two. -/
def Interval.onGrid (i : Interval) (exponent : Int) : Option Nat :=
  let (unit, value) := i.scaled 1 exponent i.middle
  let under := value / unit
  let above := under + 1
  match i.holds under exponent, i.holds above exponent with
  | true, true =>
    let left := 2 * (value % unit)
    if left < unit then some under
    else if unit < left then some above
    else if under % 2 = 0 then some under else some above
  | true, false => some under
  | false, true => some above
  | false, false => none

/-- The first grid with a hit, from a number of digits on. Seventeen digits always suffice. The neighbour
above may be the next power of ten, which one digit writes. -/
def Interval.search (i : Interval) (magnitude : Int) : Nat → Nat → Nat × Int
  | 0, _ => (0, 0)
  | tries + 1, count =>
    let exponent := magnitude - count + 1
    match i.onGrid exponent with
    | some digits => if digits = Nat.pow 10 count then (1, exponent + count) else (digits, exponent)
    | none => i.search magnitude tries (count + 1)

/-- The shortest decimal of a positive finite bit pattern: digits and the power of ten. -/
def shortest (bits : Nat) : Nat × Int :=
  let i := (Fraction.ofBits bits).interval
  i.search i.magnitude 17 1

end Palisade.Decimal
