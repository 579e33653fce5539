import Sigil.Evaluation.Statement
import Sigil.Proofs.Environment.Owner

/-!
# What holds however evaluation ends

Evaluating and running end with a result or with an error, in some state.  The
rules here say what holds then, one for each way in which runs are put together.
An unfinished run ends nowhere, and everything is said to hold of it.
-/

namespace Sigil

namespace Evaluated

variable {α β : Type} {p p' : α → Environment → Prop} {q q' : RuntimeError → Environment → Prop}
  {evaluated : Evaluated α}

/-- The value satisfies `p` and the error `q`, each with the environment afterwards. -/
def Ensures (p : α → Environment → Prop) (q : RuntimeError → Environment → Prop) :
    Evaluated α → Prop
  | .value a env => p a env
  | .error e env => q e env

/-- However evaluation ends, the environment afterwards has a property. -/
abbrev Leaves (inv : Environment → Prop) (evaluated : Evaluated α) : Prop :=
  evaluated.Ensures (fun _ ↦ inv) (fun _ ↦ inv)

theorem Ensures.mono (h : evaluated.Ensures p q) (hp : ∀ a env, p a env → p' a env)
    (hq : ∀ e env, q e env → q' e env) : evaluated.Ensures p' q' := by
  cases evaluated with
  | value a env => exact hp a env h
  | error e env => exact hq e env h

theorem Ensures.andThen {r : β → Environment → Prop} {next : α → Environment → Evaluated β}
    (h : evaluated.Ensures p q) (hnext : ∀ a env, p a env → (next a env).Ensures r q) :
    (evaluated.andThen next).Ensures r q := by
  cases evaluated with
  | value a env => exact hnext a env h
  | error e env => exact h

theorem ensures_of_imp {condition : Prop} (h : condition → evaluated.Ensures p q) :
    evaluated.Ensures (fun a env ↦ condition → p a env) (fun e env ↦ condition → q e env) := by
  cases evaluated with
  | value a env => exact h
  | error e env => exact h

theorem ensures_ofExcept {env : Environment} {result : Except RuntimeError α}
    (hp : ∀ a, result = .ok a → p a env) (hq : ∀ e, result = .error e → q e env) :
    (ofExcept env result).Ensures p q := by
  cases result with
  | ok a => exact hp a rfl
  | error e => exact hq e rfl

end Evaluated

namespace Run

variable {α β : Type} {p p' : α → State → Prop} {q q' : RuntimeError → State → Prop}
  {run : Run α}

/-- The result satisfies `p` and the error `q`, each with the state afterwards. -/
def Ensures (p : α → State → Prop) (q : RuntimeError → State → Prop) : Run α → Prop
  | .done a state => p a state
  | .failed e state => q e state
  | .unfinished => True

/-- However a run ends, the state afterwards has a property. -/
abbrev Leaves (inv : State → Prop) (run : Run α) : Prop :=
  run.Ensures (fun _ ↦ inv) (fun _ ↦ inv)

/-- The state in which a run ends, with a result or with an error. -/
def state? : Run α → Option State
  | .done _ state => some state
  | .failed _ state => some state
  | .unfinished => none

theorem Ensures.mono (h : run.Ensures p q) (hp : ∀ a state, p a state → p' a state)
    (hq : ∀ e state, q e state → q' e state) : run.Ensures p' q' := by
  cases run with
  | done a state => exact hp a state h
  | failed e state => exact hq e state h
  | unfinished => trivial

theorem Ensures.andThen {r : β → State → Prop} {next : α → State → Run β}
    (h : run.Ensures p q) (hnext : ∀ a state, p a state → (next a state).Ensures r q) :
    (run.andThen next).Ensures r q := by
  cases run with
  | done a state => exact hnext a state h
  | failed e state => exact h
  | unfinished => trivial

theorem Ensures.mapState {f : State → State} (h : run.Ensures p q)
    (hp : ∀ a state, p a state → p' a (f state)) (hq : ∀ e state, q e state → q' e (f state)) :
    (run.mapState f).Ensures p' q' := by
  cases run with
  | done a state => exact hp a state h
  | failed e state => exact hq e state h
  | unfinished => trivial

theorem Leaves.mono {inv inv' : State → Prop} (h : run.Leaves inv)
    (hinv : ∀ state, inv state → inv' state) : run.Leaves inv' :=
  Ensures.mono h (fun _ ↦ hinv) (fun _ ↦ hinv)

theorem leaves_iff_state? {inv : State → Prop} :
    run.Leaves inv ↔ ∀ state, run.state? = some state → inv state := by
  cases run <;> simp [Leaves, Ensures, state?]

end Run

namespace State

variable {state : State}

theorem ensures_eval {p : Value → Environment → Prop} {q : RuntimeError → Environment → Prop}
    {expr : Expr} (h : (expr.eval state.environment).Ensures p q) :
    (state.eval expr).Ensures (fun value after ↦ p value after.environment)
      (fun e after ↦ q e after.environment) := by
  unfold eval
  cases heval : expr.eval state.environment with
  | value value env =>
      rw [heval] at h
      exact h
  | error e env =>
      rw [heval] at h
      exact h

/-- Printing leaves the environment alone; the only error is that the output refuses. -/
theorem ensures_print (state : State) (text : String) :
    (state.print text).Ensures
      (fun flow after ↦ flow = .normal ∧ after.environment = state.environment)
      (fun e after ↦ e = .output Channel.refusal ∧ after.environment = state.environment) := by
  unfold print
  split
  · exact ⟨rfl, rfl⟩
  · exact ⟨rfl, rfl⟩

/-- Binding a name changes the environment only; the only error is that it has been bound. -/
theorem ensures_define (state : State) (name : String) (mutability : Mutability) (value : Value) :
    (state.define name mutability value).Ensures
      (fun flow after ↦ flow = .normal ∧
        state.environment.define name mutability value = .ok after.environment)
      (fun e after ↦ e = .redeclared name ∧ after = state) := by
  unfold define
  split
  · rename_i env henv
    exact ⟨rfl, henv⟩
  · rename_i e he
    refine ⟨?_, rfl⟩
    rw [Environment.define_eq] at he
    split at he
    · cases he
    · split at he
      · cases he
        rfl
      · cases he

end State

/-! ### Loops -/

section Loops

variable {inv : State → Prop} {q : RuntimeError → State → Prop} {state : State}

/-- Rounds that keep an invariant end with it, and they only end normally. -/
theorem ensures_rounds {round : State → Run Bool} {bound : Nat}
    (hround : ∀ state, inv state → (round state).Ensures (fun _ ↦ inv) q) (hstate : inv state) :
    (rounds round bound state).Ensures (fun flow after ↦ flow = .normal ∧ inv after) q := by
  induction bound generalizing state with
  | zero => trivial
  | succ bound ih =>
      have h := hround state hstate
      rw [rounds]
      split
      · rename_i after hafter
        rw [hafter] at h
        exact ih h
      · rename_i after hafter
        rw [hafter] at h
        exact ⟨rfl, h⟩
      · rename_i e after hafter
        rw [hafter] at h
        exact h
      · trivial

theorem ensures_loopRound {condition : Expr} {body : State → Run Flow} {increment : Option Expr}
    (hcondition : ∀ state, inv state → (state.eval condition).Ensures (fun _ ↦ inv) q)
    (hbody : ∀ state, inv state → (body state).Ensures (fun _ ↦ inv) q)
    (hincrement : ∀ state, inv state → (state.eval? increment).Ensures (fun _ ↦ inv) q)
    (hstate : inv state) :
    (loopRound condition body increment state).Ensures (fun _ ↦ inv) q := by
  apply (hcondition state hstate).andThen
  intro value state hstate
  split
  · apply (hbody state hstate).andThen
    intro flow state hstate
    split
    · exact hstate
    · exact (hincrement state hstate).andThen fun _ state hstate ↦ hstate
  · exact hstate

end Loops

end Sigil
