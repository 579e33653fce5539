/-!
# Runtime errors

The causes that stop a running script, and how each is worded.
-/

namespace Sigil

/-- Why a running script stopped. -/
inductive RuntimeError where
  | undefinedVariable (name : String)
  | undefinedAssignment (name : String)
  | redeclared (name : String)
  | constantAssignment (name : String)
  | invalidAddition
  | invalidSubtraction
  | invalidMultiplication
  | invalidDivision
  | divisionByZero
  | implicitCast
  | expectedNumberOrBoolean
  | expectedNumericVariable
  | escapedBreak
  | escapedContinue
  | output (cause : String)
  deriving DecidableEq, Repr

/-- The line that reports the error. -/
def RuntimeError.message : RuntimeError → String
  | .undefinedVariable name => "Undefined variable \"" ++ name ++ "\"."
  | .undefinedAssignment name => "\"" ++ name ++ "\" is undefined."
  | .redeclared name => "\"" ++ name ++ "\" already defined."
  | .constantAssignment name => "\"" ++ name ++ "\" is a constant!."
  | .invalidAddition => "At [:] >Operands must be in a valid type to add them."
  | .invalidSubtraction => "At [:] >Operands must be numbers to subtract them."
  | .invalidMultiplication => "At [:] >Operands must be numbers to multiply them."
  | .invalidDivision => "At [:] >Operands must be numbers to divide them."
  | .divisionByZero => "At [:] >You can't divide by zero!"
  | .implicitCast => "At [:] >Pencil doesn't allow implicit casting on equality operators."
  | .expectedNumberOrBoolean => "At [:] >Expected a number or boolean."
  | .expectedNumericVariable => "At [:] >Variable must contain a number."
  | .escapedBreak => "BRK >Illegal break statement"
  | .escapedContinue => "CNT >Illegal continue statement"
  | .output cause => "Failed to write program output: " ++ cause

end Sigil
