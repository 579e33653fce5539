import Sigil.Text.Charset

/-!
# Numerals

A numeral is hexadecimal after `0x`, octal after another leading zero, and
decimal otherwise; an eight or a nine anywhere after a leading zero makes it
decimal as well.  Only decimal numerals take a fraction.
-/

namespace Sigil

/-- The value of a run of digits in base `radix`, accumulated in floating point.  Characters that
are no digits of that base are skipped. -/
def foldDigits (radix : Nat) (digits : List Char) : Float :=
  (digits.filterMap (digitIn? radix)).foldl
    (fun value digit ↦ value * Float.ofNat radix + Float.ofNat digit) 0

/-- The natural number written by decimal digits. -/
def decimalValue (digits : List Char) : Nat :=
  digits.foldl (fun n d ↦ 10 * n + (d.toNat - '0'.toNat)) 0

/-- A numeral by its form, with the digits as they are written. -/
inductive Numeral where
  | hexadecimal (digits : List Char)
  | octal (digits : List Char)
  | decimal (whole fraction : List Char)
  deriving DecidableEq, Repr

namespace Numeral

/-- The text of a numeral. -/
def text : Numeral → List Char
  | .hexadecimal digits => '0' :: 'x' :: digits
  | .octal digits => '0' :: digits
  | .decimal whole [] => whole
  | .decimal whole fraction => whole ++ '.' :: fraction

/-- The double nearest to a numeral, or `none` if it has no digits. -/
def value? : Numeral → Option Float
  | .hexadecimal [] => none
  | .hexadecimal digits => some (foldDigits 16 digits)
  | .octal digits => some (foldDigits 8 digits)
  | .decimal whole [] => some (Float.ofNat (decimalValue whole))
  | .decimal whole fraction =>
    some (Float.ofScientific (decimalValue (whole ++ fraction)) true fraction.length)

/-- A point and at least one digit at the front of a text give the digits; otherwise there is no
fraction. -/
def fraction : List Char → List Char × List Char
  | '.' :: cs =>
    if (cs.takeWhile Char.isDigit).isEmpty then ([], '.' :: cs)
    else (cs.takeWhile Char.isDigit, cs.dropWhile Char.isDigit)
  | cs => ([], cs)

/-- A decimal numeral whose digits before the point are given, and what follows it. -/
def withFraction (whole rest : List Char) : Numeral × List Char :=
  (.decimal whole (fraction rest).1, (fraction rest).2)

/-- The numeral that starts with the digit `c`, and what follows it. -/
def read (c : Char) (cs : List Char) : Numeral × List Char :=
  let digits := cs.takeWhile Char.isDigit
  let rest := cs.dropWhile Char.isDigit
  if c = '0' then
    match cs with
    | 'x' :: hex => (.hexadecimal (hex.takeWhile isHexDigit), hex.dropWhile isHexDigit)
    | _ =>
      if digits.all isOctalDigit then (.octal digits, rest) else withFraction (c :: digits) rest
  else withFraction (c :: digits) rest

theorem fraction_append (whole cs : List Char) :
    (Numeral.decimal whole (fraction cs).1).text ++ (fraction cs).2 = whole ++ cs := by
  unfold fraction
  split
  · split
    · simp [text]
    · rename_i cs h
      cases hd : cs.takeWhile Char.isDigit with
      | nil => simp [hd] at h
      | cons d ds =>
        have := List.takeWhile_append_dropWhile (p := Char.isDigit) (l := cs)
        rw [hd] at this
        simp only [text, List.append_assoc, List.cons_append, List.append_cancel_left_eq,
          List.cons.injEq, true_and]
        exact this
  · simp [text]

/-- Nothing is lost in reading a numeral. -/
theorem read_append (c : Char) (cs : List Char) :
    (read c cs).1.text ++ (read c cs).2 = c :: cs := by
  unfold read
  dsimp only
  split
  · subst_vars
    split
    · simp [text, List.takeWhile_append_dropWhile]
    · split
      · simp [text, List.takeWhile_append_dropWhile]
      · rw [withFraction, fraction_append]
        simp [List.takeWhile_append_dropWhile]
  · rw [withFraction, fraction_append]
    simp [List.takeWhile_append_dropWhile]

theorem decimal_text_ne_nil (c : Char) (whole fraction : List Char) :
    (Numeral.decimal (c :: whole) fraction).text ≠ [] := by
  cases fraction <;> simp [text]

/-- A numeral has at least one character. -/
theorem read_text_ne_nil (c : Char) (cs : List Char) : (read c cs).1.text ≠ [] := by
  unfold read
  dsimp only
  split
  · split
    · simp [text]
    · split
      · simp [text]
      · exact decimal_text_ne_nil _ _ _
  · exact decimal_text_ne_nil _ _ _

end Numeral

end Sigil
