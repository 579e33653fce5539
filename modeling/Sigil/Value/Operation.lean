import Sigil.Operator
import Sigil.RuntimeError
import Sigil.Value.Basic

/-!
# Operations on values

What each operator computes, and which operands it refuses.
-/

namespace Sigil

namespace Value

/-- Applies a function to two numbers. -/
def arithmetic (refusal : RuntimeError) (f : Float → Float → Float) :
    Value → Value → Except RuntimeError Value
  | .number x, .number y => .ok (.number (f x y))
  | _, _ => .error refusal

/-- Adds two numbers, or appends a number or a text to a text. -/
def add : Value → Value → Except RuntimeError Value
  | .number x, .number y => .ok (.number (x + y))
  | .text s, .number y => .ok (.text (s ++ (Value.number y).display))
  | .text s, .text t => .ok (.text (s ++ t))
  | _, _ => .error .invalidAddition

/-- Divides two numbers; zero of either sign does not divide. -/
def divide : Value → Value → Except RuntimeError Value
  | .number x, .number y =>
    if y == 0 then .error .divisionByZero else .ok (.number (x / y))
  | _, _ => .error .invalidDivision

/-- The order of two numbers, absent if one of them is not a number. -/
def orderNumbers (x y : Float) : Option Ordering :=
  if x < y then some .lt else if x == y then some .eq else if y < x then some .gt else none

/-- The order of two texts, by code points. -/
def orderTexts (s t : String) : Ordering :=
  if s < t then .lt else if s = t then .eq else .gt

/-- The order of two booleans, false before true. -/
def orderBooleans : Bool → Bool → Ordering
  | false, true => .lt
  | true, false => .gt
  | _, _ => .eq

/-- The order of two values of one ordered type. -/
def order : Value → Value → Except RuntimeError (Option Ordering)
  | .number x, .number y => .ok (orderNumbers x y)
  | .boolean a, .boolean b => .ok (some (orderBooleans a b))
  | .text s, .text t => .ok (some (orderTexts s t))
  | _, _ => .error .implicitCast

/-- Tests the order of two values; values without an order pass no test. -/
def compareBy (test : Ordering → Bool) (left right : Value) : Except RuntimeError Value :=
  (order left right).map fun ordering ↦ .boolean (ordering.any test)

end Value

/-- The value of a binary operation. -/
def BinaryOperator.apply : BinaryOperator → Value → Value → Except RuntimeError Value
  | .add, left, right => left.add right
  | .sub, left, right => left.arithmetic .invalidSubtraction (· - ·) right
  | .mul, left, right => left.arithmetic .invalidMultiplication (· * ·) right
  | .div, left, right => left.divide right
  | .equal, left, right => .ok (.boolean (left.same right))
  | .notEqual, left, right => .ok (.boolean (!left.same right))
  | .greater, left, right => left.compareBy (· == .gt) right
  | .greaterEqual, left, right => left.compareBy (· != .lt) right
  | .less, left, right => left.compareBy (· == .lt) right
  | .lessEqual, left, right => left.compareBy (· != .gt) right

/-- The value of a unary operation.  The two that update a variable have no value of their
own: they need a variable, not its value. -/
def UnaryOperator.apply : UnaryOperator → Value → Except RuntimeError Value
  | .plus, .number x => .ok (.number x)
  | .plus, .boolean b => .ok (.boolean b)
  | .plus, _ => .error .expectedNumberOrBoolean
  | .negate, value =>
    match value.numeric? with
    | some x => .ok (.number (-x))
    | none => .error .expectedNumberOrBoolean
  | .not, value => .ok (.boolean (!value.truthy))
  | .typeof, value => .ok (.text value.typeName)
  | .increment, _ => .error .expectedNumericVariable
  | .decrement, _ => .error .expectedNumericVariable

end Sigil
