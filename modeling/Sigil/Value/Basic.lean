import Sigil.Decimal.Style
import Sigil.Text.Escape

/-!
# Values

A script computes with four kinds of values.  Literals of the source text are
values too: a token carries one, with `null` standing for no literal.
-/

namespace Sigil

/-- A value of a script. -/
inductive Value where
  | null
  | number (x : Float)
  | boolean (b : Bool)
  | text (s : String)
  deriving Repr, Inhabited

namespace Value

/-- The value counts as true in a condition.  Null, zero, the empty text and the text `false`
do not. -/
def truthy : Value → Bool
  | .null => false
  | .number x => x != 0
  | .boolean b => b
  | .text s => s != "" && s != "false"

/-- The name of the value's type. -/
def typeName : Value → String
  | .null => "null"
  | .number _ => "number"
  | .boolean _ => "boolean"
  | .text _ => "string"

/-- A number or a boolean as a number, true being one. -/
def numeric? : Value → Option Float
  | .number x => some x
  | .boolean b => some (if b then 1 else 0)
  | _ => none

/-- The text a script prints for the value. -/
def display : Value → String
  | .null => "null"
  | .number x => NumberStyle.printed.text x
  | .boolean b => if b then "true" else "false"
  | .text s => s

/-- The text substituted into a template for the value. -/
def substituted : Value → String
  | .text s => String.ofList (protect s.toList)
  | value => value.display

/-- Equality of values: the same type and the same content, numbers compared as numbers. -/
def same : Value → Value → Bool
  | .null, .null => true
  | .number x, .number y => x == y
  | .boolean a, .boolean b => a == b
  | .text s, .text t => s == t
  | _, _ => false

end Value

end Sigil
