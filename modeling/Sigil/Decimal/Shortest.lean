/-!
# Shortest decimals

A finite double is `significand * 2 ^ exponent`.  Among the decimals that round
to it, this module finds one with the fewest digits, and of those the nearest to
the double.  All arithmetic is on natural numbers, so nothing is lost on the way.
-/

namespace Sigil

/-- What the bits of a double stand for. -/
inductive Binary where
  | nan
  | infinite (negative : Bool)
  | finite (negative : Bool) (significand : Nat) (exponent : Int)
  deriving DecidableEq, Repr

/-- Reads the bits of a double. -/
def Binary.ofFloat (x : Float) : Binary :=
  let bits := x.toBits.toNat
  let negative := decide (bits / Nat.pow 2 63 = 1)
  let field : Nat := bits / Nat.pow 2 52 % Nat.pow 2 11
  let fraction : Nat := bits % Nat.pow 2 52
  if field = 2047 then
    if fraction = 0 then .infinite negative else .nan
  else if field = 0 then .finite negative fraction (-1074)
  else .finite negative (Nat.pow 2 52 + fraction) ((field : Int) - 1075)

/-- The decimal `coefficient * 10 ^ exponent`. -/
structure Decimal where
  coefficient : Nat
  exponent : Int
  deriving DecidableEq, Repr

namespace Decimal

/-- The decimal digits of a natural number. -/
def digitsOf (n : Nat) : List Char := Nat.toDigits 10 n

/-- A fraction, numerator before denominator, times `base ^ exponent`. -/
def scaleBy (base : Nat) (exponent : Int) (fraction : Nat × Nat) : Nat × Nat :=
  if 0 ≤ exponent then (fraction.1 * base.pow exponent.toNat, fraction.2)
  else (fraction.1, fraction.2 * base.pow (-exponent).toNat)

/-- The exponent `e` with `10 ^ e ≤ numerator / denominator < 10 ^ (e + 1)`. -/
def leadingExponent (numerator denominator : Nat) : Int :=
  if denominator ≤ numerator then (digitsOf (numerator / denominator)).length - 1
  else -((digitsOf ((denominator - 1) / numerator)).length : Int)

/-- The reals that round to a double, in units of a quarter of its last place: from `low` to
`high` around `value`, the ends included or not. -/
structure Interval where
  low : Nat
  value : Nat
  high : Nat
  closed : Bool

/-- The rounding interval of a positive double.  Below a power of two the doubles lie twice as
close. -/
def Interval.around (significand : Nat) (exponent : Int) : Interval where
  low := if significand = Nat.pow 2 52 ∧ exponent ≠ -1074 then 4 * significand - 1
    else 4 * significand - 2
  value := 4 * significand
  high := 4 * significand + 2
  closed := significand % 2 = 0

/-- The point `numerator / denominator` lies in the interval. -/
def Interval.holds (i : Interval) (numerator denominator : Nat) : Bool :=
  if i.closed then i.low * denominator ≤ numerator && numerator ≤ i.high * denominator
  else i.low * denominator < numerator && numerator < i.high * denominator

/-- The point of the grid with the given step that lies in the interval nearest to its value, as
a multiple of the step.  Of two equally near points the greater one is taken. -/
def Interval.nearest? (i : Interval) (step : Nat × Nat) : Option Nat :=
  let below := i.value * step.2 / step.1
  let lowHit := i.holds (below * step.1) step.2
  let highHit := i.holds ((below + 1) * step.1) step.2
  if lowHit && highHit then
    if i.value * step.2 - below * step.1 < (below + 1) * step.1 - i.value * step.2 then some below
    else some (below + 1)
  else if lowHit then some below
  else if highHit then some (below + 1)
  else none

/-- Moves the zeros at the end of the coefficient into the exponent; `places` bounds how many. -/
def trim : Nat → Decimal → Decimal
  | 0, d => d
  | places + 1, d =>
    if d.coefficient ≠ 0 ∧ d.coefficient % 10 = 0 then
      trim places ⟨d.coefficient / 10, d.exponent + 1⟩
    else d

/-- Tries grids of ever finer steps, `10 ^ exponent` the first; `tries` bounds their number. -/
def onGrid (interval : Interval) (unit : Int) : Nat → Int → Decimal
  | 0, exponent => ⟨0, exponent⟩
  | tries + 1, exponent =>
    match interval.nearest? (scaleBy 2 (-unit) (scaleBy 10 exponent (1, 1))) with
    | some n => trim 20 ⟨n, exponent⟩
    | none => onGrid interval unit tries (exponent - 1)

/-- The shortest decimal that rounds to the double `significand * 2 ^ exponent`.  Seventeen
digits always suffice. -/
def shortest (significand : Nat) (exponent : Int) : Decimal :=
  if significand = 0 then ⟨0, 0⟩
  else
    let (numerator, denominator) := scaleBy 2 exponent (significand, 1)
    onGrid (.around significand exponent) (exponent - 2) 17
      (leadingExponent numerator denominator)

/-- The exponent of the first digit. -/
def magnitude (d : Decimal) : Int := d.exponent + (digitsOf d.coefficient).length - 1

end Decimal

end Sigil
