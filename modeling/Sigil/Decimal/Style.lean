import Sigil.Decimal.Shortest

/-!
# Texts of numbers

The same shortest digits are written in two styles: one for the values a script
prints, one for the dumps of its statements.  A style is a record of the
decisions that differ.
-/

namespace Sigil

/-- How numbers are written. -/
structure NumberStyle where
  /-- The least exponent of the first digit that is written with a point only. -/
  least : Int
  /-- The greatest exponent of the first digit that is written with a point only. -/
  greatest : Int
  /-- A whole number ends in `.0`. -/
  pointZero : Bool
  /-- A positive exponent carries a plus sign. -/
  signedExponent : Bool
  /-- Zero keeps its minus sign. -/
  signedZero : Bool
  /-- The text of infinity, without a sign. -/
  infinity : String

namespace NumberStyle

/-- Numbers as a script prints them. -/
def printed : NumberStyle where
  least := -6
  greatest := 20
  pointZero := false
  signedExponent := true
  signedZero := false
  infinity := "Infinity"

/-- Numbers as the dumps show them. -/
def dumped : NumberStyle where
  least := -4
  greatest := 15
  pointZero := true
  signedExponent := false
  signedZero := true
  infinity := "inf"

/-- Digits with a point after the first `whole` of them, filled with zeros on either side. -/
def withPoint (style : NumberStyle) (digits : List Char) (whole : Int) : List Char :=
  if whole ≤ 0 then '0' :: '.' :: (List.replicate (-whole).toNat '0' ++ digits)
  else if whole.toNat < digits.length then
    digits.take whole.toNat ++ '.' :: digits.drop whole.toNat
  else
    digits ++ List.replicate (whole.toNat - digits.length) '0' ++
      (if style.pointZero then ['.', '0'] else [])

/-- Digits with a point after the first, and the exponent of the first. -/
def withExponent (style : NumberStyle) (digits : List Char) (exponent : Int) : List Char :=
  let fraction := digits.drop 1
  let sign := if exponent < 0 then ['-'] else if style.signedExponent then ['+'] else []
  digits.take 1 ++ (if fraction.isEmpty then [] else '.' :: fraction) ++
    'e' :: sign ++ Decimal.digitsOf exponent.natAbs

/-- The text of a decimal. -/
def decimal (style : NumberStyle) (d : Decimal) : List Char :=
  let digits := Decimal.digitsOf d.coefficient
  let exponent := d.magnitude
  if d.coefficient = 0 ∨ (style.least ≤ exponent ∧ exponent ≤ style.greatest) then
    style.withPoint digits (exponent + 1)
  else style.withExponent digits exponent

/-- The text of a double. -/
def text (style : NumberStyle) (x : Float) : String :=
  match Binary.ofFloat x with
  | .nan => "NaN"
  | .infinite negative => (if negative then "-" else "") ++ style.infinity
  | .finite negative significand exponent =>
    let sign := if negative && (style.signedZero || significand ≠ 0) then ['-'] else []
    String.ofList (sign ++ style.decimal (Decimal.shortest significand exponent))

end NumberStyle

end Sigil
