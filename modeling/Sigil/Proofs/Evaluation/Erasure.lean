import Sigil.Evaluation.Statement
import Sigil.Proofs.Syntax.Erasure

/-!
# Running does not look at places

Trees that differ only in the places of their nodes are evaluated and run alike.
-/

namespace Sigil

theorem Environment.update_erase (env : Environment) (step : Float) (operand : Expr) :
    env.update step operand.erase = env.update step operand := by
  cases operand <;> rfl

theorem Expr.eval_erase (expr : Expr) (env : Environment) :
    expr.erase.eval env = expr.eval env := by
  induction expr generalizing env with
  | assign name span value timing ih => simp only [erase, eval, ih]
  | logical left op right span ihleft ihright => simp only [erase, eval, ihleft, ihright]
  | conditional condition left right ihcondition ihleft ihright =>
      simp only [erase, eval, ihcondition, ihleft, ihright]
  | binary left op right span ihleft ihright => simp only [erase, eval, ihleft, ihright]
  | unary op operand span ih =>
      simp only [erase, eval, ih, Environment.update_erase]
  | reference name span => rfl
  | literal value => rfl
  | template text => rfl
  | grouping inner ih => exact ih env

theorem State.eval_erase (state : State) (expr : Expr) :
    state.eval expr.erase = state.eval expr := by
  rw [eval, eval, Expr.eval_erase]

theorem State.eval?_erase (state : State) (expr : Option Expr) :
    state.eval? (expr.map Expr.erase) = state.eval? expr := by
  cases expr with
  | none => rfl
  | some expr => exact state.eval_erase expr

theorem loopRound_erase (condition : Expr) (body : State → Run Flow) (increment : Option Expr) :
    loopRound condition.erase body (increment.map Expr.erase) =
      loopRound condition body increment := by
  funext state
  simp only [loopRound, State.eval_erase, State.eval?_erase]

namespace Stmt

mutual
theorem run_erase (bound : Nat) : (statement : Stmt) → (state : State) →
    run bound statement.erase state = run bound statement state
  | .expression expr, state => by
      rw [erase, run, run, State.eval_erase]
  | .console expr, state => by
      rw [erase, run, run, State.eval_erase]
  | .declaration name span initializer mutability, state => by
      rw [erase, run, run, State.eval?_erase]
  | .block statements, state => by
      rw [erase, run, run]
      exact congrArg state.inScope (funext (runBlock_erase bound statements))
  | .ifThen condition thenBranch elseBranch, state => by
      rw [erase, run, run, State.eval_erase]
      simp only [run?_erase bound thenBranch, run?_erase bound elseBranch]
  | .whileLoop condition body, state => by
      rw [erase, run, run]
      simp only [run?_erase bound body]
      rw [← loopRound_erase condition _ none]
      rfl
  | .forLoop initializer condition increment body, state => by
      rw [erase, run, run]
      simp only [runAll_erase bound initializer, run?_erase bound body, loopRound_erase]
  | .breakLoop span, state => by
      rw [erase, run, run]
  | .continueLoop span, state => by
      rw [erase, run, run]

theorem run?_erase (bound : Nat) : (statement : Option Stmt) → (state : State) →
    run? bound (erase? statement) state = run? bound statement state
  | none, state => by
      rw [erase?]
  | some statement, state => by
      rw [erase?, run?, run?, run_erase bound statement state]

theorem runBlock_erase (bound : Nat) : (statements : List Stmt) → (state : State) →
    runBlock bound (eraseAll statements) state = runBlock bound statements state
  | [], state => by
      rw [eraseAll]
  | statement :: statements, state => by
      rw [eraseAll, runBlock, runBlock, run_erase bound statement state]
      simp only [runBlock_erase bound statements]

theorem runAll_erase (bound : Nat) : (statements : List Stmt) → (state : State) →
    runAll bound (eraseAll statements) state = runAll bound statements state
  | [], state => by
      rw [eraseAll]
  | statement :: statements, state => by
      rw [eraseAll, runAll, runAll, run_erase bound statement state]
      simp only [runAll_erase bound statements]
end

end Stmt

theorem runProgram_erase (bound : Nat) (statements : List Stmt) (state : State) :
    runProgram bound (Stmt.eraseAll statements) state = runProgram bound statements state := by
  induction statements generalizing state with
  | nil => rw [Stmt.eraseAll_nil]
  | cons statement statements ih =>
      rw [Stmt.eraseAll_cons, runProgram, runProgram, Stmt.runOuter, Stmt.runOuter, Stmt.run_erase]
      simp only [ih]

/-- Programs that differ only in places run alike. -/
theorem runProgram_congr {statements statements' : List Stmt}
    (h : Stmt.eraseAll statements = Stmt.eraseAll statements') (bound : Nat) (state : State) :
    runProgram bound statements state = runProgram bound statements' state := by
  rw [← runProgram_erase, h, runProgram_erase]

end Sigil
