import Sigil.Evaluation.Template
import Sigil.Value.Operation

/-!
# Evaluating expressions

Evaluating an expression gives a value or an error.  Either way, names may have
been assigned on the way, so the environment is part of the result.
-/

namespace Sigil

/-- What evaluation gives, and the environment afterwards. -/
inductive Evaluated (α : Type) where
  | value (a : α) (env : Environment)
  | error (e : RuntimeError) (env : Environment)

namespace Evaluated

variable {α β : Type}

/-- Goes on with the value. -/
@[inline] def andThen (evaluated : Evaluated α) (next : α → Environment → Evaluated β) :
    Evaluated β :=
  match evaluated with
  | .value a env => next a env
  | .error e env => .error e env

/-- A result that does not touch the environment. -/
def ofExcept (env : Environment) : Except RuntimeError α → Evaluated α
  | .ok a => .value a env
  | .error e => .error e env

@[simp] theorem andThen_value (a : α) (env : Environment)
    (next : α → Environment → Evaluated β) : (Evaluated.value a env).andThen next = next a env :=
  rfl

@[simp] theorem andThen_error (e : RuntimeError) (env : Environment)
    (next : α → Environment → Evaluated β) :
    (Evaluated.error e env : Evaluated α).andThen next = .error e env := rfl

end Evaluated

namespace Environment

/-- Assigns a name and yields a given value. -/
def assignYielding (env : Environment) (name : String) (stored yielded : Value) :
    Evaluated Value :=
  match env.assign name stored with
  | .ok env => .value yielded env
  | .error e => .error e env

/-- Assigns a name and yields the value it has before or after. -/
def assignTimed (env : Environment) (name : String) (value : Value) : Timing → Evaluated Value
  | .after => env.assignYielding name value value
  | .before =>
    match env.get name with
    | .ok previous => env.assignYielding name value previous
    | .error e => .error e env

/-- Adds `step` to the number a variable holds, and yields the sum. -/
def update (env : Environment) (step : Float) : Expr → Evaluated Value
  | .reference name _ =>
    match env.get name with
    | .ok (.number x) => env.assignYielding name (.number (x + step)) (.number (x + step))
    | .ok _ => .error .expectedNumericVariable env
    | .error e => .error e env
  | _ => .error .expectedNumericVariable env

end Environment

/-- What an operator that updates a variable adds to it. -/
def UnaryOperator.step? : UnaryOperator → Option Float
  | .increment => some 1
  | .decrement => some (-1)
  | _ => none

/-- The left operand decides a logical operation. -/
def LogicalOperator.decidedBy (op : LogicalOperator) (left : Value) : Bool :=
  match op with
  | .or => left.truthy
  | .and => !left.truthy

/-- Evaluates an expression. -/
def Expr.eval : Expr → Environment → Evaluated Value
  | .literal value, env => .value value env
  | .reference name _, env => .ofExcept env (env.get name)
  | .grouping inner, env => inner.eval env
  | .template text, env => .ofExcept env ((interpolate env text).map Value.text)
  | .assign name _ value timing, env =>
    (value.eval env).andThen fun value env ↦ env.assignTimed name value timing
  | .logical left op right _, env =>
    (left.eval env).andThen fun value env ↦
      if op.decidedBy value then .value value env else right.eval env
  | .conditional condition left right, env =>
    (condition.eval env).andThen fun value env ↦
      if value.truthy then left.eval env else right.eval env
  | .binary left op right _, env =>
    (left.eval env).andThen fun leftValue env ↦
      (right.eval env).andThen fun rightValue env ↦ .ofExcept env (op.apply leftValue rightValue)
  | .unary op operand _, env =>
    match op.step? with
    | some step => env.update step operand
    | none => (operand.eval env).andThen fun value env ↦ .ofExcept env (op.apply value)

end Sigil
