import Sigil.Proofs.Evaluation.Framing
import Sigil.Proofs.Syntax.LoopControl

/-!
# Loop control does not escape

A `break` or a `continue` that a loop encloses is taken by that loop, so a statement
in which all of them are enclosed ends normally or with an error of another kind.
Programs that have been read consist of such statements.
-/

namespace Sigil

/-- The errors of a signal that no loop has taken. -/
def RuntimeError.isEscape : RuntimeError → Bool
  | .escapedBreak => true
  | .escapedContinue => true
  | _ => false

theorem RuntimeError.isEscape_of_isRefusal {e : RuntimeError} (h : e.isRefusal = true) :
    e.isEscape = false := by
  cases e <;> first | rfl | cases h

theorem RuntimeError.isEscape_of_isNameError {e : RuntimeError} (h : e.isNameError = true) :
    e.isEscape = false := by
  cases e <;> first | rfl | cases h

theorem Environment.noEscape_update (env : Environment) (step : Float) (operand : Expr) :
    (env.update step operand).Ensures (fun _ _ ↦ True) (fun e _ ↦ e.isEscape = false) := by
  unfold update
  split
  · split
    · exact (env.nameError_assignYielding _ _ _).mono (fun _ _ h ↦ h)
        (fun _ _ h ↦ RuntimeError.isEscape_of_isNameError h)
    · rfl
    · rename_i e he
      exact RuntimeError.isEscape_of_isNameError (isNameError_of_get he)
  · rfl

/-- No operation has the error of an escape. -/
theorem framing_noEscape :
    Framing (fun _ ↦ True) (fun _ _ ↦ True) (fun e _ _ ↦ e.isEscape = false) where
  refl _ := trivial
  trans _ _ := trivial
  later _ h := h
  reference _ h := RuntimeError.isEscape_of_isNameError (Environment.isNameError_of_get h)
  assign env stored _ :=
    (env.nameError_assignTimed _ stored _).mono (fun _ _ h ↦ h)
      (fun _ _ h ↦ RuntimeError.isEscape_of_isNameError h)
  update env _ _ := env.noEscape_update _ _
  refusal _ h := RuntimeError.isEscape_of_isRefusal h
  define _ _ := trivial
  redefine _ _ := rfl
  output _ := rfl
  scope _ := trivial
  scopeError h := h

/-! ### Statements -/

/-- A run does not end with the error of an escape. -/
abbrev Run.NoEscape {α : Type} (run : Run α) : Prop :=
  run.Ensures (fun _ _ ↦ True) (fun e _ ↦ e.isEscape = false)

theorem State.noEscape_eval (state : State) (expr : Expr) : (state.eval expr).NoEscape := by
  have hframes : Framing.Frames (fun _ _ ↦ True) _ state.environment (state.eval expr) :=
    framing_noEscape.frames_eval expr state (fun _ _ ↦ trivial) trivial
  exact hframes

theorem State.noEscape_eval? (state : State) (expr : Option Expr) :
    (state.eval? expr).NoEscape := by
  cases expr with
  | none => trivial
  | some expr => exact state.noEscape_eval expr

/-- A signal comes out only of a statement in the body of a loop. -/
abbrev Run.Contained (looped : Bool) (run : Run Flow) : Prop :=
  run.Ensures (fun flow _ ↦ looped = false → flow = .normal) (fun e _ ↦ e.isEscape = false)

theorem contained_loop (looped : Bool) (condition : Expr) (increment : Option Expr)
    {body : State → Run Flow} (hbody : ∀ state, (body state).Contained true) (bound : Nat)
    (state : State) :
    (rounds (loopRound condition body increment) bound state).Contained looped := by
  have hround : ∀ state, (loopRound condition body increment state).NoEscape := fun state ↦
    ensures_loopRound (fun state _ ↦ state.noEscape_eval condition)
      (fun state _ ↦ (hbody state).mono (fun _ _ _ ↦ trivial) (fun _ _ h ↦ h))
      (fun state _ ↦ state.noEscape_eval? increment) trivial
  exact (ensures_rounds (fun state _ ↦ hround state) trivial).mono (fun _ _ h _ ↦ h.1)
    (fun _ _ h ↦ h)

mutual
theorem Stmt.contained_run (looped : Bool) (bound : Nat) (statement : Stmt) (state : State)
    (h : statement.isEnclosed looped = true) : (statement.run bound state).Contained looped := by
  match statement with
  | .expression expr => exact (state.noEscape_eval expr).andThen fun _ _ _ _ ↦ rfl
  | .console expr =>
      apply (state.noEscape_eval expr).andThen
      intro value state _
      refine (state.ensures_print value.display).mono (fun _ _ h _ ↦ h.1) (fun e _ h ↦ ?_)
      rw [h.1]
      rfl
  | .declaration name span initializer mutability =>
      apply (state.noEscape_eval? initializer).andThen
      intro value state _
      refine (state.ensures_define name mutability value).mono (fun _ _ h _ ↦ h.1)
        (fun e _ h ↦ ?_)
      rw [h.1]
      rfl
  | .block statements =>
      rw [Stmt.isEnclosed] at h
      exact (Stmt.contained_runBlock looped bound statements state.enter h).mapState
        (fun _ _ h ↦ h) (fun _ _ h ↦ h)
  | .ifThen condition thenBranch elseBranch =>
      rw [Stmt.isEnclosed, Bool.and_eq_true] at h
      apply (state.noEscape_eval condition).andThen
      intro value state _
      split
      · exact Stmt.contained_run? looped bound thenBranch state h.1
      · exact Stmt.contained_run? looped bound elseBranch state h.2
  | .whileLoop condition body =>
      rw [Stmt.isEnclosed] at h
      exact contained_loop looped condition none
        (fun state ↦ Stmt.contained_run? true bound body state h) bound state
  | .forLoop initializer condition increment body =>
      rw [Stmt.isEnclosed, Bool.and_eq_true] at h
      have hloop := contained_loop looped condition increment
        (fun state ↦ Stmt.contained_run? true bound body state h.2) bound
      have hbody := (Stmt.noEscape_runAll looped bound initializer state.enter h.1).andThen
        fun _ inside _ ↦ hloop inside
      exact hbody.mapState (fun _ _ h ↦ h) (fun _ _ h ↦ h)
  | .breakLoop span =>
      rw [Stmt.isEnclosed] at h
      intro hlooped
      cases hlooped.symm.trans h
  | .continueLoop span =>
      rw [Stmt.isEnclosed] at h
      intro hlooped
      cases hlooped.symm.trans h

theorem Stmt.contained_run? (looped : Bool) (bound : Nat) (statement : Option Stmt)
    (state : State) (h : Stmt.isEnclosed? looped statement = true) :
    (Stmt.run? bound statement state).Contained looped := by
  match statement with
  | none => exact fun _ ↦ rfl
  | some statement => exact statement.contained_run looped bound state h

theorem Stmt.contained_runBlock (looped : Bool) (bound : Nat) (statements : List Stmt)
    (state : State) (h : Stmt.areEnclosed looped statements = true) :
    (Stmt.runBlock bound statements state).Contained looped := by
  match statements with
  | [] => exact fun _ ↦ rfl
  | statement :: statements =>
      rw [Stmt.areEnclosed_cons, Bool.and_eq_true] at h
      apply (statement.contained_run looped bound state h.1).andThen
      intro flow state hflow
      split
      · exact Stmt.contained_runBlock looped bound statements state h.2
      · exact hflow

theorem Stmt.noEscape_runAll (looped : Bool) (bound : Nat) (statements : List Stmt)
    (state : State) (h : Stmt.areEnclosed looped statements = true) :
    (Stmt.runAll bound statements state).NoEscape := by
  match statements with
  | [] => trivial
  | statement :: statements =>
      rw [Stmt.areEnclosed_cons, Bool.and_eq_true] at h
      apply (statement.contained_run looped bound state h.1).andThen
      intro flow state _
      exact Stmt.noEscape_runAll looped bound statements state h.2
end

theorem noEscape_runProgram (bound : Nat) (statements : List Stmt) (state : State)
    (h : Stmt.areEnclosed false statements = true) :
    (runProgram bound statements state).NoEscape := by
  induction statements generalizing state with
  | nil => trivial
  | cons statement statements ih =>
      rw [Stmt.areEnclosed_cons, Bool.and_eq_true] at h
      have houter : (statement.runOuter bound state).NoEscape := by
        apply (statement.contained_run false bound state h.1).andThen
        intro flow state hflow
        rw [hflow rfl]
        trivial
      exact houter.andThen fun _ state _ ↦ ih state h.2

/-- Whatever the tokens, each `break` and `continue` that is read is in the body of a loop, reading
does not change how many loops there are around, and no run of what is read ends with the error
that a signal has escaped. -/
theorem parse_enclosed (tokens : List Token) :
    (∀ statement ∈ (parse tokens).statements, statement.isEnclosed false = true) ∧
    (∀ c : Cursor, c.KeepsLoopDepth) ∧
    (∀ (bound : Nat) (state after : State),
      runProgram bound (parse tokens).statements state ≠ .failed .escapedBreak after ∧
      runProgram bound (parse tokens).statements state ≠ .failed .escapedContinue after) := by
  have henclosed := areEnclosed_parse tokens
  refine ⟨Stmt.areEnclosed_iff.mp henclosed, Cursor.keepsLoopDepth, ?_⟩
  intro bound state after
  have hrun := noEscape_runProgram bound _ state henclosed
  constructor
  · intro hbreak
    rw [hbreak] at hrun
    cases hrun
  · intro hcontinue
    rw [hcontinue] at hrun
    cases hrun

end Sigil
