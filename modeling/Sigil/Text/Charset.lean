/-!
# Character classes of script text

Two notions of empty space meet in a script.  The blanks separate lexemes; the
spaces end a sigil name.  They differ on a few code points, so each has its own
table.
-/

namespace Sigil

/-- The characters that separate lexemes. -/
def blanks : List Char :=
  [' ', '\t', '\r', '\n', '\u00a0', '\u1680', '\u180e', '\u2000', '\u200a', '\u202f', '\u205f',
    '\u3000']

/-- `c` separates lexemes. -/
def isBlank (c : Char) : Bool := blanks.contains c

/-- `c` has the Unicode property White_Space. -/
def isSpace (c : Char) : Bool :=
  (0x09 ≤ c.val && c.val ≤ 0x0d) || c.val == 0x20 || c.val == 0x85 || c.val == 0xa0 ||
    c.val == 0x1680 || (0x2000 ≤ c.val && c.val ≤ 0x200a) || c.val == 0x2028 ||
    c.val == 0x2029 || c.val == 0x202f || c.val == 0x205f || c.val == 0x3000

/-- The punctuation that ends a sigil name. -/
def nameStops : List Char :=
  ['\x60', '~', '!', '@', '#', '$', '%', '^', '&', '*', '(', ')', '|', '+', '-', '=', '?', ';',
    ':', '\x27', '\x22', ',', '.', '<', '>', '\x7b', '\x7d', '[', ']', '\\', '/']

/-- `c` is punctuation that ends a sigil name. -/
def isNameStop (c : Char) : Bool := nameStops.contains c

/-- `c` may stand inside a sigil name. -/
def isNameChar (c : Char) : Bool := !isSpace c && !isNameStop c

/-- `c` is an octal digit. -/
def isOctalDigit (c : Char) : Bool := '0' ≤ c && c ≤ '7'

/-- `c` is a hexadecimal digit of either case. -/
def isHexDigit (c : Char) : Bool :=
  c.isDigit || ('a' ≤ c && c ≤ 'f') || ('A' ≤ c && c ≤ 'F')

/-- `c` may continue a bare word. -/
def isWordChar (c : Char) : Bool := c.isAlphanum || c == '_'

/-- The value of an ASCII digit or letter of either case: `0` to `9`, then `10` to `35`. -/
def digitValue? (c : Char) : Option Nat :=
  if c.isDigit then some (c.toNat - '0'.toNat)
  else if c.isLower then some (c.toNat - 'a'.toNat + 10)
  else if c.isUpper then some (c.toNat - 'A'.toNat + 10)
  else none

/-- The value of `c` as a digit of base `radix`. -/
def digitIn? (radix : Nat) (c : Char) : Option Nat := (digitValue? c).filter (· < radix)

end Sigil
