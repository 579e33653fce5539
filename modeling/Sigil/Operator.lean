/-!
# Operators

The operators of expressions, their spellings and the names the dumps use.
-/

namespace Sigil

/-- An operator on two values that are both evaluated. -/
inductive BinaryOperator where
  | add
  | sub
  | mul
  | div
  | equal
  | notEqual
  | greater
  | greaterEqual
  | less
  | lessEqual
  deriving DecidableEq, Repr

/-- How the operator is spelled in a script. -/
def BinaryOperator.symbol : BinaryOperator → String
  | .add => "+"
  | .sub => "-"
  | .mul => "*"
  | .div => "/"
  | .equal => "=="
  | .notEqual => "!="
  | .greater => ">"
  | .greaterEqual => ">="
  | .less => "<"
  | .lessEqual => "<="

/-- The name of the operator in dumps. -/
def BinaryOperator.name : BinaryOperator → String
  | .add => "Add"
  | .sub => "Sub"
  | .mul => "Mul"
  | .div => "Div"
  | .equal => "Equal"
  | .notEqual => "NotEqual"
  | .greater => "Greater"
  | .greaterEqual => "GreaterEqual"
  | .less => "Less"
  | .lessEqual => "LessEqual"

/-- Every binary operator. -/
def BinaryOperator.all : List BinaryOperator :=
  [.add, .sub, .mul, .div, .equal, .notEqual, .greater, .greaterEqual, .less, .lessEqual]

/-- An operator whose right operand is evaluated only if the left one does not decide. -/
inductive LogicalOperator where
  | and
  | or
  deriving DecidableEq, Repr

/-- How the operator is spelled in a script. -/
def LogicalOperator.symbol : LogicalOperator → String
  | .and => "and"
  | .or => "or"

/-- The name of the operator in dumps. -/
def LogicalOperator.name : LogicalOperator → String
  | .and => "And"
  | .or => "Or"

/-- An operator before its operand. -/
inductive UnaryOperator where
  | plus
  | negate
  | not
  | typeof
  | increment
  | decrement
  deriving DecidableEq, Repr

/-- The name of the operator in dumps. -/
def UnaryOperator.name : UnaryOperator → String
  | .plus => "Plus"
  | .negate => "Negate"
  | .not => "Not"
  | .typeof => "Typeof"
  | .increment => "Increment"
  | .decrement => "Decrement"

/-- Every unary operator. -/
def UnaryOperator.all : List UnaryOperator :=
  [.plus, .negate, .not, .typeof, .increment, .decrement]

end Sigil
