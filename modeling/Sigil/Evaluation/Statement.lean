import Sigil.Channel
import Sigil.Evaluation.Expression

/-!
# Running statements

A statement changes the state: the environment and the output channel.  It ends
normally, with a signal to the loop around it, or with an error.  Loops need not
end, so running has a bound on the rounds of each loop; a run that exceeds it is
unfinished and says nothing else.
-/

namespace Sigil

/-- How a statement ends when there is no error. -/
inductive Flow where
  | normal
  | breaking
  | continuing
  deriving DecidableEq, Repr

/-- What statements change. -/
structure State where
  environment : Environment
  output : Channel
  deriving Repr

/-- What running gives, and the state afterwards. -/
inductive Run (α : Type) where
  | done (a : α) (state : State)
  | failed (e : RuntimeError) (state : State)
  | unfinished

namespace Run

variable {α β : Type}

/-- Goes on with the result. -/
@[inline] def andThen (run : Run α) (next : α → State → Run β) : Run β :=
  match run with
  | .done a state => next a state
  | .failed e state => .failed e state
  | .unfinished => .unfinished

/-- Changes the state in which a run ends. -/
def mapState (f : State → State) : Run α → Run α
  | .done a state => .done a (f state)
  | .failed e state => .failed e (f state)
  | .unfinished => .unfinished

@[simp] theorem andThen_done (a : α) (state : State) (next : α → State → Run β) :
    (Run.done a state).andThen next = next a state := rfl

@[simp] theorem andThen_failed (e : RuntimeError) (state : State) (next : α → State → Run β) :
    (Run.failed e state : Run α).andThen next = .failed e state := rfl

@[simp] theorem andThen_unfinished (next : α → State → Run β) :
    (Run.unfinished : Run α).andThen next = .unfinished := rfl

end Run

namespace State

variable {α : Type}

/-- The state in which a script starts. -/
def initial (output : Channel) : State := ⟨.initial, output⟩

/-- Evaluates an expression in a state. -/
def eval (state : State) (expr : Expr) : Run Value :=
  match expr.eval state.environment with
  | .value value env => .done value { state with environment := env }
  | .error e env => .failed e { state with environment := env }

/-- Evaluates an expression that may be absent; its value is null then. -/
def eval? (state : State) : Option Expr → Run Value
  | none => .done .null state
  | some expr => state.eval expr

/-- Writes a line to the output. -/
def print (state : State) (text : String) : Run Flow :=
  match state.output.writeLine text with
  | (output, true) => .done .normal { state with output := output }
  | (output, false) => .failed (.output Channel.refusal) { state with output := output }

/-- Binds a name in the current scope. -/
def define (state : State) (name : String) (mutability : Mutability) (value : Value) : Run Flow :=
  match state.environment.define name mutability value with
  | .ok env => .done .normal { state with environment := env }
  | .error e => .failed e state

/-- Enters a new scope. -/
def enter (state : State) : State := { state with environment := state.environment.enter }

/-- Goes back to a scope. -/
def restore (scope : Nat) (state : State) : State :=
  { state with environment := state.environment.restore scope }

/-- Runs something in a scope of its own, which is left however that ends. -/
def inScope (state : State) (body : State → Run α) : Run α :=
  (body state.enter).mapState (restore state.environment.current)

end State

/-- Repeats rounds until one says that it is the last. -/
def rounds (round : State → Run Bool) : Nat → State → Run Flow
  | 0, _ => .unfinished
  | bound + 1, state =>
    match round state with
    | .done true state => rounds round bound state
    | .done false state => .done .normal state
    | .failed e state => .failed e state
    | .unfinished => .unfinished

/-- One round of a loop: the condition, the body, and what comes after the body.  The round is
the last one if the condition does not hold or the body breaks. -/
def loopRound (condition : Expr) (body : State → Run Flow) (increment : Option Expr)
    (state : State) : Run Bool :=
  (state.eval condition).andThen fun value state ↦
    if value.truthy then
      (body state).andThen fun flow state ↦
        if flow = .breaking then .done false state
        else (state.eval? increment).andThen fun _ state ↦ .done true state
    else .done false state

mutual
/-- Runs a statement with at most `bound` rounds in each loop. -/
def Stmt.run (bound : Nat) : Stmt → State → Run Flow
  | .expression expr, state => (state.eval expr).andThen fun _ state ↦ .done .normal state
  | .console expr, state => (state.eval expr).andThen fun value state ↦ state.print value.display
  | .declaration name _ initializer mutability, state =>
    (state.eval? initializer).andThen fun value state ↦ state.define name mutability value
  | .block statements, state => state.inScope fun state ↦ Stmt.runBlock bound statements state
  | .ifThen condition thenBranch elseBranch, state =>
    (state.eval condition).andThen fun value state ↦
      if value.truthy then Stmt.run? bound thenBranch state else Stmt.run? bound elseBranch state
  | .whileLoop condition body, state =>
    rounds (loopRound condition (fun state ↦ Stmt.run? bound body state) none) bound state
  | .forLoop initializer condition increment body, state =>
    state.inScope fun state ↦
      (Stmt.runAll bound initializer state).andThen fun _ state ↦
        rounds (loopRound condition (fun state ↦ Stmt.run? bound body state) increment) bound state
  | .breakLoop _, state => .done .breaking state
  | .continueLoop _, state => .done .continuing state

/-- Runs a statement that may be absent. -/
def Stmt.run? (bound : Nat) : Option Stmt → State → Run Flow
  | none, state => .done .normal state
  | some statement, state => Stmt.run bound statement state

/-- Runs statements up to the first that does not end normally. -/
def Stmt.runBlock (bound : Nat) : List Stmt → State → Run Flow
  | [], state => .done .normal state
  | statement :: statements, state =>
    (Stmt.run bound statement state).andThen fun flow state ↦
      if flow = .normal then Stmt.runBlock bound statements state else .done flow state

/-- Runs statements one after another, whatever signals they end with. -/
def Stmt.runAll (bound : Nat) : List Stmt → State → Run Unit
  | [], state => .done () state
  | statement :: statements, state =>
    (Stmt.run bound statement state).andThen fun _ state ↦ Stmt.runAll bound statements state
end

/-- The error that a signal becomes when there is no loop around it. -/
def Flow.escape? : Flow → Option RuntimeError
  | .normal => none
  | .breaking => some .escapedBreak
  | .continuing => some .escapedContinue

/-- Runs one statement of a program, where no loop is around it. -/
def Stmt.runOuter (bound : Nat) (statement : Stmt) (state : State) : Run Unit :=
  (statement.run bound state).andThen fun flow state ↦
    match flow.escape? with
    | none => .done () state
    | some e => .failed e state

/-- Runs the statements of a program up to the first error. -/
def runProgram (bound : Nat) : List Stmt → State → Run Unit
  | [], state => .done () state
  | statement :: statements, state =>
    (statement.runOuter bound state).andThen fun _ state ↦ runProgram bound statements state

end Sigil
