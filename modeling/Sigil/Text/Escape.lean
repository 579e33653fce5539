import Sigil.Text.Charset

/-!
# Escapes

A double-quoted literal writes some characters as a backslash and a letter;
`unescape` reads them back.  Text substituted into a template is protected by a
second, different escape: control characters become backslash pairs and quotes
are doubled.
-/

namespace Sigil

/-- The number written by hexadecimal digits. -/
def hexValue (digits : List Char) : Nat :=
  digits.foldl (fun n d ↦ 16 * n + (digitValue? d).getD 0) 0

/-- The character of a code point, or the replacement character for a surrogate. -/
def charOfCode (code : Nat) : Char :=
  if code.isValidChar then Char.ofNat code else '\ufffd'

/-- Resolves the backslash escapes of a double-quoted body: a newline, a tab, a code point of
four hexadecimal digits; any other escaped character stands for itself, and a backslash at the
end is kept. -/
def unescape : List Char → List Char
  | [] => []
  | '\\' :: 'n' :: cs => '\n' :: unescape cs
  | '\\' :: 't' :: cs => '\t' :: unescape cs
  | '\\' :: 'u' :: a :: b :: c :: d :: cs =>
    if [a, b, c, d].all isHexDigit then charOfCode (hexValue [a, b, c, d]) :: unescape cs
    else 'u' :: unescape (a :: b :: c :: d :: cs)
  | '\\' :: c :: cs => c :: unescape cs
  | c :: cs => c :: unescape cs

/-- One character of text substituted into a template. -/
def protectChar (c : Char) : List Char :=
  if c = '\x00' then ['\\', '0']
  else if c = '\n' then ['\\', 'n']
  else if c = '\r' then ['\\', 'r']
  else if c = '\x08' then ['\\', 'b']
  else if c = '\t' then ['\\', 't']
  else if c = '\x1a' then ['\\', 'Z']
  else if c = '\x27' then ['\x27', '\x27']
  else if c = '\x22' then ['\x22', '\x22']
  else if c = '\\' then ['\\', '\\']
  else [c]

/-- Text as it is substituted into a template. -/
def protect (text : List Char) : List Char := text.flatMap protectChar

/-- One character of a quoted form: quotes, backslashes and control characters are escaped.  Every
character from U+00A0 on is kept as it is, where a full debug form also escapes those of them that
cannot be printed or that combine with the character before. -/
def quoteChar (c : Char) : List Char :=
  if c = '\x22' then ['\\', '\x22']
  else if c = '\\' then ['\\', '\\']
  else if c = '\n' then ['\\', 'n']
  else if c = '\r' then ['\\', 'r']
  else if c = '\t' then ['\\', 't']
  else if c = '\x00' then ['\\', '0']
  else if c.val < 0x20 || (0x7f ≤ c.val && c.val < 0xa0) then
    ['\\', 'u', '\x7b'] ++ Nat.toDigits 16 c.toNat ++ ['\x7d']
  else [c]

/-- A text between double quotes, in the form used by the dumps. -/
def quoted (text : String) : String :=
  String.ofList ('\x22' :: text.toList.flatMap quoteChar ++ ['\x22'])

end Sigil
