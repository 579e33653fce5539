import Sigil.Proofs.Environment.Frame
import Sigil.Proofs.Evaluation.Outcome
import Sigil.Proofs.Evaluation.Template

/-!
# Scopes are left however a statement ends

An expression changes the values of variables and nothing else about the scopes.
A statement may also add names to the scope it runs in.  A block and a for loop
have a scope of their own: they end, normally, with a signal or with an error, in
the scope they started in, with the names that were there.
-/

namespace Sigil

variable {env start : Environment} {state after : State}

/-! ### Expressions -/

namespace Environment

theorem keeps_assignYielding (hstart : start.Keeps env) (name : String) (stored yielded : Value) :
    (env.assignYielding name stored yielded).Leaves start.Keeps := by
  unfold assignYielding
  split
  · rename_i after hafter
    exact hstart.trans (keeps_assign hafter)
  · exact hstart

theorem keeps_assignTimed (hstart : start.Keeps env) (name : String) (value : Value)
    (timing : Timing) : (env.assignTimed name value timing).Leaves start.Keeps := by
  cases timing with
  | after => exact keeps_assignYielding hstart name value value
  | before =>
      simp only [assignTimed]
      split
      · rename_i previous _
        exact keeps_assignYielding hstart name value previous
      · exact hstart

theorem keeps_update (hstart : start.Keeps env) (step : Float) (operand : Expr) :
    (env.update step operand).Leaves start.Keeps := by
  unfold update
  split
  · split
    · exact keeps_assignYielding hstart _ _ _
    · exact hstart
    · exact hstart
  · exact hstart

end Environment

/-- Evaluating changes the values of variables only, also if it fails. -/
theorem Expr.keeps_eval (expr : Expr) (env : Environment) (hstart : start.Keeps env) :
    (expr.eval env).Leaves start.Keeps := by
  match expr with
  | .literal value => exact hstart
  | .reference name span =>
      exact Evaluated.ensures_ofExcept (fun _ _ ↦ hstart) (fun _ _ ↦ hstart)
  | .grouping inner => exact inner.keeps_eval env hstart
  | .template text =>
      rw [Expr.eval_template]
      exact hstart
  | .assign name span value timing =>
      apply (value.keeps_eval env hstart).andThen
      intro stored env hstart
      exact Environment.keeps_assignTimed hstart name stored timing
  | .logical left op right span =>
      apply (left.keeps_eval env hstart).andThen
      intro value env hstart
      split
      · exact hstart
      · exact right.keeps_eval env hstart
  | .conditional condition left right =>
      apply (condition.keeps_eval env hstart).andThen
      intro value env hstart
      split
      · exact left.keeps_eval env hstart
      · exact right.keeps_eval env hstart
  | .binary left op right span =>
      apply (left.keeps_eval env hstart).andThen
      intro leftValue env hstart
      apply (right.keeps_eval env hstart).andThen
      intro rightValue env hstart
      exact Evaluated.ensures_ofExcept (fun _ _ ↦ hstart) (fun _ _ ↦ hstart)
  | .unary op operand span =>
      rw [Expr.eval]
      split
      · rename_i step _
        exact Environment.keeps_update hstart step operand
      · apply (operand.keeps_eval env hstart).andThen
        intro value env hstart
        exact Evaluated.ensures_ofExcept (fun _ _ ↦ hstart) (fun _ _ ↦ hstart)

/-! ### Statements -/

/-- The scopes are those of an earlier environment, with names added to the current one at most. -/
def ExtendsScopes (start : Environment) (after : State) : Prop :=
  start.Extends after.environment

theorem State.keeps_eval (state : State) (expr : Expr) :
    (state.eval expr).Leaves fun after ↦ state.environment.Keeps after.environment :=
  ensures_eval (expr.keeps_eval state.environment (.refl _))

theorem State.extends_eval (hstart : ExtendsScopes start state) (expr : Expr) :
    (state.eval expr).Leaves (ExtendsScopes start) :=
  (state.keeps_eval expr).mono fun _ h ↦ hstart.trans h.toExtends

theorem State.extends_eval? (hstart : ExtendsScopes start state) (expr : Option Expr) :
    (state.eval? expr).Leaves (ExtendsScopes start) := by
  cases expr with
  | none => exact hstart
  | some expr => exact extends_eval hstart expr

theorem extends_loop {condition : Expr} {increment : Option Expr} {body : State → Run Flow}
    {bound : Nat}
    (hbody : ∀ state, ExtendsScopes start state → (body state).Leaves (ExtendsScopes start))
    (hstart : ExtendsScopes start state) :
    (rounds (loopRound condition body increment) bound state).Leaves (ExtendsScopes start) := by
  refine (ensures_rounds (fun state hstart ↦ ?_) hstart).mono (fun _ _ h ↦ h.2) (fun _ _ h ↦ h)
  exact ensures_loopRound (fun _ h ↦ State.extends_eval h condition) hbody
    (fun _ h ↦ State.extends_eval? h increment) hstart

/-- What is run in a scope of its own leaves the scopes around it as they are. -/
theorem State.keeps_inScope {α : Type} {body : State → Run α}
    (hinner : state.environment.Innermost)
    (hbody : (body state.enter).Leaves (ExtendsScopes state.enter.environment)) :
    (state.inScope body).Leaves fun after ↦ state.environment.Keeps after.environment :=
  hbody.mapState (fun _ _ h ↦ Environment.keeps_restore hinner h)
    (fun _ _ h ↦ Environment.keeps_restore hinner h)

theorem Stmt.keeps_forLoop {bound : Nat} {initializer : List Stmt} {body : Option Stmt}
    (condition : Expr) (increment : Option Expr) (hinner : state.environment.Innermost)
    (hinitializer : (Stmt.runAll bound initializer state.enter).Leaves
      (ExtendsScopes state.enter.environment))
    (hbody : ∀ inside, ExtendsScopes state.enter.environment inside →
      (Stmt.run? bound body inside).Leaves (ExtendsScopes state.enter.environment)) :
    ((Stmt.forLoop initializer condition increment body).run bound state).Leaves
      fun after ↦ state.environment.Keeps after.environment := by
  rw [Stmt.run]
  refine State.keeps_inScope hinner ?_
  exact hinitializer.andThen fun _ inside hinside ↦ extends_loop hbody hinside

/-- The statements that have a scope of their own. -/
def Stmt.opensScope : Stmt → Bool
  | .block _ => true
  | .forLoop .. => true
  | _ => false

mutual
theorem Stmt.extends_run (bound : Nat) (statement : Stmt) (state : State)
    (start : Environment) (hinner : start.Innermost) (hstart : ExtendsScopes start state) :
    (statement.run bound state).Leaves (ExtendsScopes start) := by
  match statement with
  | .expression expr => exact (State.extends_eval hstart expr).andThen fun _ _ h ↦ h
  | .console expr =>
      apply (State.extends_eval hstart expr).andThen
      intro value state hstart
      refine (state.ensures_print value.display).mono (fun _ after h ↦ ?_) (fun _ after h ↦ ?_)
      · rwa [ExtendsScopes, h.2]
      · rwa [ExtendsScopes, h.2]
  | .declaration name span initializer mutability =>
      apply (State.extends_eval? hstart initializer).andThen
      intro value state hstart
      refine (state.ensures_define name mutability value).mono (fun _ after h ↦ ?_)
        (fun _ after h ↦ ?_)
      · exact hstart.trans (Environment.extends_define h.2)
      · rwa [h.2]
  | .block statements =>
      have hbody := Stmt.extends_runBlock bound statements state.enter _
        (Environment.innermost_enter _) (.refl _)
      have hkeeps := State.keeps_inScope (hstart.innermost hinner) hbody
      exact hkeeps.mono fun _ h ↦ hstart.trans h.toExtends
  | .ifThen condition thenBranch elseBranch =>
      apply (State.extends_eval hstart condition).andThen
      intro value state hstart
      split
      · exact Stmt.extends_run? bound thenBranch state start hinner hstart
      · exact Stmt.extends_run? bound elseBranch state start hinner hstart
  | .whileLoop condition body =>
      exact extends_loop (fun state h ↦ Stmt.extends_run? bound body state start hinner h) hstart
  | .forLoop initializer condition increment body =>
      have hinitializer := Stmt.extends_runAll bound initializer state.enter _
        (Environment.innermost_enter _) (.refl _)
      have hkeeps := Stmt.keeps_forLoop condition increment (hstart.innermost hinner) hinitializer
        fun inside h ↦ Stmt.extends_run? bound body inside _ (Environment.innermost_enter _) h
      exact hkeeps.mono fun _ h ↦ hstart.trans h.toExtends
  | .breakLoop span => exact hstart
  | .continueLoop span => exact hstart

theorem Stmt.extends_run? (bound : Nat) (statement : Option Stmt) (state : State)
    (start : Environment) (hinner : start.Innermost) (hstart : ExtendsScopes start state) :
    (Stmt.run? bound statement state).Leaves (ExtendsScopes start) := by
  match statement with
  | none => exact hstart
  | some statement => exact statement.extends_run bound state start hinner hstart

theorem Stmt.extends_runBlock (bound : Nat) (statements : List Stmt) (state : State)
    (start : Environment) (hinner : start.Innermost) (hstart : ExtendsScopes start state) :
    (Stmt.runBlock bound statements state).Leaves (ExtendsScopes start) := by
  match statements with
  | [] => exact hstart
  | statement :: statements =>
      apply (statement.extends_run bound state start hinner hstart).andThen
      intro flow state hstart
      split
      · exact Stmt.extends_runBlock bound statements state start hinner hstart
      · exact hstart

theorem Stmt.extends_runAll (bound : Nat) (statements : List Stmt) (state : State)
    (start : Environment) (hinner : start.Innermost) (hstart : ExtendsScopes start state) :
    (Stmt.runAll bound statements state).Leaves (ExtendsScopes start) := by
  match statements with
  | [] => exact hstart
  | statement :: statements =>
      apply (statement.extends_run bound state start hinner hstart).andThen
      intro flow state hstart
      exact Stmt.extends_runAll bound statements state start hinner hstart
end

theorem Stmt.keeps_run {bound : Nat} {statement : Stmt} (hscope : statement.opensScope = true)
    (hinner : state.environment.Innermost) :
    (statement.run bound state).Leaves fun after ↦ state.environment.Keeps after.environment := by
  cases statement with
  | block statements =>
      exact State.keeps_inScope hinner (Stmt.extends_runBlock bound statements state.enter _
        (Environment.innermost_enter _) (.refl _))
  | forLoop initializer condition increment body =>
      exact Stmt.keeps_forLoop condition increment hinner
        (Stmt.extends_runAll bound initializer state.enter _ (Environment.innermost_enter _)
          (.refl _))
        fun inside h ↦ Stmt.extends_run? bound body inside _ (Environment.innermost_enter _) h
  | _ => cases hscope

/-! ### Reachable states -/

/-- The states that can come up: one starts with an empty scope, evaluates and runs any trees, and
enters scopes on the way. -/
inductive State.Reachable : State → Prop
  | initial (output : Channel) : Reachable (.initial output)
  | enter {state : State} (h : Reachable state) : Reachable state.enter
  | eval {state after : State} (h : Reachable state) (expr : Expr)
      (hafter : (state.eval expr).state? = some after) : Reachable after
  | run {state after : State} (h : Reachable state) (bound : Nat) (statement : Stmt)
      (hafter : (statement.run bound state).state? = some after) : Reachable after

theorem State.Reachable.innermost (h : state.Reachable) : state.environment.Innermost := by
  induction h with
  | initial output => exact Environment.innermost_initial
  | enter h ih => exact Environment.innermost_enter _
  | @eval state after h expr hafter ih =>
      have hkeeps := Run.leaves_iff_state?.mp (state.keeps_eval expr) after hafter
      exact hkeeps.toExtends.innermost ih
  | @run state after h bound statement hafter ih =>
      have hextends : state.environment.Extends after.environment :=
        Run.leaves_iff_state?.mp (statement.extends_run bound state _ ih (.refl _)) after hafter
      exact hextends.innermost ih

/-- Running a program is running its statements. -/
theorem State.Reachable.runProgram (bound : Nat) (statements : List Stmt) (h : state.Reachable) :
    (Sigil.runProgram bound statements state).Leaves Reachable := by
  induction statements generalizing state with
  | nil => exact h
  | cons statement statements ih =>
      have hrun : (statement.run bound state).Leaves Reachable :=
        Run.leaves_iff_state?.mpr fun after hafter ↦ h.run bound statement hafter
      refine Run.Ensures.andThen (p := fun _ ↦ Reachable) ?_ fun _ after hafter ↦ ih hafter
      apply hrun.andThen
      intro flow after hafter
      split
      · exact hafter
      · exact hafter

/-- However a statement ends, the scopes are those from before, and a block and a for loop have
added no name to them.  However an expression ends, no name has been added. -/
theorem State.Reachable.scopes_restored (h : state.Reachable) :
    (∀ (bound : Nat) (statement : Stmt) (after : State),
      (statement.run bound state).state? = some after →
        state.environment.Extends after.environment ∧
          (statement.opensScope = true → state.environment.Keeps after.environment)) ∧
    (∀ (expr : Expr) (after : State), (state.eval expr).state? = some after →
      state.environment.Keeps after.environment) := by
  refine ⟨fun bound statement after hafter ↦ ⟨?_, fun hscope ↦ ?_⟩, fun expr after hafter ↦ ?_⟩
  · exact Run.leaves_iff_state?.mp
      (statement.extends_run bound state _ h.innermost (.refl _)) after hafter
  · exact Run.leaves_iff_state?.mp (Stmt.keeps_run hscope h.innermost) after hafter
  · exact Run.leaves_iff_state?.mp (state.keeps_eval expr) after hafter

theorem scopes_restored_of_failing_block :
    ∃ after, (Stmt.run 1 (.block [.declaration "a" ⟨0, 0⟩ none .constant,
        .expression (.reference "b" ⟨0, 0⟩)]) (.initial .unlimited)).state? = some after ∧
      Environment.initial.Keeps after.environment := by
  refine ⟨_, rfl, ?_⟩
  have hreachable : (State.initial .unlimited).Reachable := .initial .unlimited
  exact (hreachable.scopes_restored.1 1 (.block [.declaration "a" ⟨0, 0⟩ none .constant,
    .expression (.reference "b" ⟨0, 0⟩)]) _ rfl).2 rfl

end Sigil
