import Mathlib
import Sigil.Proofs.Evaluation.Bound
import Sigil.Proofs.Evaluation.Footprint
import Sigil.Proofs.Evaluation.Padding

/-!
# For loops as while loops

A for loop runs as a block in which its initializer comes first and then a while loop,
whose body is a block with the body of the for loop and its increment.  That takes
one more scope in each round, which makes no difference as long as the body binds
nothing in it.  A `continue` would skip the increment of the while loop, so the body
must have none for this loop.
-/

namespace Sigil

/-! ### Signals to go on -/

namespace Stmt

mutual
/-- The statement can end with the signal to go on with the loop around it. -/
def continues : Stmt → Bool
  | .block statements => continuesAny statements
  | .ifThen _ thenBranch elseBranch => continues? thenBranch || continues? elseBranch
  | .continueLoop _ => true
  | _ => false

def continues? : Option Stmt → Bool
  | none => false
  | some statement => continues statement

def continuesAny : List Stmt → Bool
  | [] => false
  | statement :: statements => continues statement || continuesAny statements
end

end Stmt

namespace Run

variable {α β : Type} {run : Run α}

/-- A run of a statement does not end with the signal to go on. -/
abbrev NeverContinues (run : Run Flow) : Prop :=
  run.Ensures (fun flow _ ↦ flow ≠ .continuing) (fun _ _ ↦ True)

theorem ensures_true (run : Run α) : run.Ensures (fun _ _ ↦ True) (fun _ _ ↦ True) := by
  cases run <;> trivial

theorem Ensures.andThen_congr {next next' : α → State → Run β} {p : α → State → Prop}
    {q : RuntimeError → State → Prop} (h : run.Ensures p q)
    (hnext : ∀ a state, p a state → next a state = next' a state) :
    run.andThen next = run.andThen next' := by
  cases run with
  | done a state => exact hnext a state h
  | failed e state => rfl
  | unfinished => rfl

end Run

theorem neverContinues_rounds (round : State → Run Bool) (bound : Nat) (state : State) :
    (rounds round bound state).NeverContinues := by
  have hnormal : (rounds round bound state).Ensures (fun flow _ ↦ flow = .normal ∧ True)
      (fun _ _ ↦ True) :=
    ensures_rounds (fun state _ ↦ (round state).ensures_true) trivial
  exact hnormal.mono (fun _ _ h ↦ by simp [h.1]) (fun _ _ h ↦ h)

namespace Stmt

/-- The statements that an initializer consists of. -/
def initializes : Stmt → Bool
  | .expression _ => true
  | .declaration .. => true
  | _ => false

theorem normal_run {statement : Stmt} (h : statement.initializes = true) (bound : Nat)
    (state : State) :
    (statement.run bound state).Ensures (fun flow _ ↦ flow = .normal) (fun _ _ ↦ True) := by
  cases statement with
  | expression expr => exact (state.eval expr).ensures_true.andThen fun _ _ _ ↦ rfl
  | declaration name span initializer mutability =>
      apply (state.eval? initializer).ensures_true.andThen
      intro value state _
      exact (state.ensures_define name mutability value).mono (fun _ _ h ↦ h.1)
        (fun _ _ _ ↦ trivial)
  | _ => cases h

mutual
theorem neverContinues_run (bound : Nat) (statement : Stmt) (state : State)
    (h : statement.continues = false) : (statement.run bound state).NeverContinues := by
  match statement with
  | .expression expr =>
      exact (normal_run rfl bound state).mono (fun _ _ h ↦ by simp [h]) (fun _ _ h ↦ h)
  | .console expr =>
      apply (state.eval expr).ensures_true.andThen
      intro value state _
      exact (state.ensures_print value.display).mono (fun _ _ h ↦ by simp [h.1])
        (fun _ _ _ ↦ trivial)
  | .declaration name span initializer mutability =>
      exact (normal_run rfl bound state).mono (fun _ _ h ↦ by simp [h]) (fun _ _ h ↦ h)
  | .block statements =>
      rw [continues] at h
      exact (neverContinues_runBlock bound statements state.enter h).mapState (fun _ _ h ↦ h)
        (fun _ _ h ↦ h)
  | .ifThen condition thenBranch elseBranch =>
      rw [continues, Bool.or_eq_false_iff] at h
      apply (state.eval condition).ensures_true.andThen
      intro value state _
      split
      · exact neverContinues_run? bound thenBranch state h.1
      · exact neverContinues_run? bound elseBranch state h.2
  | .whileLoop condition body => exact neverContinues_rounds _ bound state
  | .forLoop initializer condition increment body =>
      have hloop := (runAll bound initializer state.enter).ensures_true.andThen
        fun _ inside _ ↦ neverContinues_rounds
          (loopRound condition (fun state ↦ run? bound body state) increment) bound inside
      exact hloop.mapState (fun _ _ h ↦ h) (fun _ _ h ↦ h)
  | .breakLoop span => exact nofun
  | .continueLoop span => cases h

theorem neverContinues_run? (bound : Nat) (statement : Option Stmt) (state : State)
    (h : continues? statement = false) : (run? bound statement state).NeverContinues := by
  match statement with
  | none => exact nofun
  | some statement => exact neverContinues_run bound statement state h

theorem neverContinues_runBlock (bound : Nat) (statements : List Stmt) (state : State)
    (h : continuesAny statements = false) : (runBlock bound statements state).NeverContinues := by
  match statements with
  | [] => exact nofun
  | statement :: statements =>
      rw [continuesAny, Bool.or_eq_false_iff] at h
      apply (neverContinues_run bound statement state h.1).andThen
      intro flow state hflow
      split
      · exact neverContinues_runBlock bound statements state h.2
      · exact hflow
end

/-! ### Blocks in parts -/

/-- An initializer has no signals that a block would stop at. -/
theorem runBlock_append {front : List Stmt} (h : ∀ statement ∈ front, statement.initializes = true)
    (bound : Nat) (back : List Stmt) (state : State) :
    runBlock bound (front ++ back) state =
      (runAll bound front state).andThen fun _ state ↦ runBlock bound back state := by
  induction front generalizing state with
  | nil => simp [runAll]
  | cons statement front ih =>
      rw [List.forall_mem_cons] at h
      rw [List.cons_append, runBlock, runAll, Run.andThen_assoc]
      apply (normal_run h.1 bound state).andThen_congr
      intro flow state hflow
      rw [if_pos hflow, ih h.2]

theorem runBlock_toList_append (bound : Nat) (statement : Option Stmt) (back : List Stmt)
    (state : State) :
    runBlock bound (statement.toList ++ back) state =
      (run? bound statement state).andThen fun flow state ↦
        if flow = .normal then runBlock bound back state else .done flow state := by
  cases statement with
  | none => simp [run?]
  | some statement => simp [runBlock, run?]

theorem runBlock_singleton (bound : Nat) (statement : Stmt) (state : State) :
    runBlock bound [statement] state = statement.run bound state := by
  rw [runBlock]
  cases statement.run bound state with
  | done flow state => cases flow <;> simp [runBlock]
  | failed e state => rfl
  | unfinished => rfl

end Stmt

/-! ### Rounds -/

theorem rounds_congr {inv : State → Prop} {round round' : State → Run Bool} {state : State}
    (hround : ∀ state, inv state → (round state).Leaves inv)
    (heq : ∀ state, inv state → round' state = round state) (bound : Nat) (hstate : inv state) :
    rounds round' bound state = rounds round bound state := by
  induction bound generalizing state with
  | zero => rfl
  | succ bound ih =>
      have hleaves := hround state hstate
      rw [rounds, rounds, heq state hstate]
      cases hrun : round state with
      | done again after =>
          rw [hrun] at hleaves
          cases again with
          | true => exact ih hleaves
          | false => rfl
      | failed e after => rfl
      | unfinished => rfl

namespace State.Reachable

variable {state : State}

theorem leaves_eval (h : state.Reachable) (expr : Expr) : (state.eval expr).Leaves Reachable :=
  Run.leaves_iff_state?.mpr fun _ hafter ↦ h.eval expr hafter

theorem leaves_eval? (h : state.Reachable) (expr : Option Expr) :
    (state.eval? expr).Leaves Reachable := by
  cases expr with
  | none => exact h
  | some expr => exact h.leaves_eval expr

theorem leaves_run (h : state.Reachable) (bound : Nat) (statement : Stmt) :
    (statement.run bound state).Leaves Reachable :=
  Run.leaves_iff_state?.mpr fun _ hafter ↦ h.run bound statement hafter

theorem leaves_run? (h : state.Reachable) (bound : Nat) (statement : Option Stmt) :
    (Stmt.run? bound statement state).Leaves Reachable := by
  cases statement with
  | none => exact h
  | some statement => exact h.leaves_run bound statement

theorem leaves_runAll (h : state.Reachable) (bound : Nat) (statements : List Stmt) :
    (Stmt.runAll bound statements state).Leaves Reachable := by
  induction statements generalizing state with
  | nil => exact h
  | cons statement statements ih =>
      rw [Stmt.runAll]
      apply (h.leaves_run bound statement).andThen
      intro flow after hafter
      exact ih hafter

end State.Reachable

namespace Stmt

/-- The body of the while loop that a for loop stands for. -/
def roundBlock (increment : Option Expr) (body : Option Stmt) : Stmt :=
  .block (body.toList ++ (increment.map Stmt.expression).toList)

/-- What a for loop stands for. -/
def expansion (initializer : List Stmt) (condition : Expr) (increment : Option Expr)
    (body : Option Stmt) : Stmt :=
  .block (initializer ++ [.whileLoop condition (some (roundBlock increment body))])

variable {initializer : List Stmt} {condition : Expr} {increment : Option Expr}
  {body : Option Stmt} {state : State}

theorem run_roundBlock (h : state.Reachable) (hdeclares : declares? body = false) (bound : Nat) :
    (roundBlock increment body).run bound state =
      (run? bound body state).andThen fun flow state ↦
        if flow = .normal then
          (state.eval? increment).andThen fun _ state ↦ .done .normal state
        else .done flow state := by
  have hnone : ∀ statement ∈ body.toList ++ (increment.map Stmt.expression).toList,
      statement.declares = false := by
    intro statement hmem
    rcases List.mem_append.mp hmem with hmem | hmem
    · cases Option.mem_toList.mp hmem
      exact hdeclares
    · obtain ⟨expr, -, rfl⟩ := Option.map_eq_some_iff.mp (Option.mem_toList.mp hmem)
      rfl
  rw [roundBlock, run_block_eq_runBlock bound h.layered hnone, runBlock_toList_append]
  cases increment with
  | none => simp [runBlock, State.eval?]
  | some expr => simp [runBlock_singleton, Stmt.run, State.eval?]

theorem loopRound_expansion (h : state.Reachable) (hdeclares : declares? body = false)
    (hcontinues : continues? body = false) (bound : Nat) :
    loopRound condition (fun state ↦ run? bound (some (roundBlock increment body)) state) none
        state =
      loopRound condition (fun state ↦ run? bound body state) increment state := by
  rw [loopRound, loopRound]
  apply (h.leaves_eval condition).andThen_congr
  intro value after hafter
  split
  · rw [run?, run_roundBlock hafter hdeclares, Run.andThen_assoc]
    apply (neverContinues_run? bound body after hcontinues).andThen_congr
    intro flow after hflow
    -- A `break` skips the increment in both loops, but a `continue` in the while loop only.
    cases flow with
    | normal => simp [Run.andThen_assoc, State.eval?]
    | breaking => simp
    | continuing => exact absurd rfl hflow
  · rfl

/-- A for loop runs as its expansion does. -/
theorem run_expansion (h : state.Reachable)
    (hinitializer : ∀ statement ∈ initializer, statement.initializes = true)
    (hdeclares : declares? body = false) (hcontinues : continues? body = false) (bound : Nat) :
    (expansion initializer condition increment body).run bound state =
      (Stmt.forLoop initializer condition increment body).run bound state := by
  have hround : ∀ inside : State, inside.Reachable →
      (loopRound condition (fun state ↦ run? bound body state) increment inside).Leaves
        State.Reachable := fun inside hinside ↦
    ensures_loopRound (fun _ h ↦ h.leaves_eval condition) (fun _ h ↦ h.leaves_run? bound body)
      (fun _ h ↦ h.leaves_eval? increment) hinside
  rw [expansion, Stmt.run, Stmt.run, State.inScope, State.inScope,
    runBlock_append hinitializer]
  -- Both enter one scope and run the initializer in it; the loops that follow are left.
  congr 1
  apply (h.enter.leaves_runAll bound initializer).andThen_congr
  intro _ inside hinside
  rw [runBlock_singleton, Stmt.run]
  exact rounds_congr hround (fun _ h ↦ loopRound_expansion h hdeclares hcontinues bound) bound
    hinside

/-- Running a statement ends, and with this result. -/
def EndsAs (statement : Stmt) (state : State) (result : Run Flow) : Prop :=
  result ≠ .unfinished ∧ ∃ bound, statement.run bound state = result

end Stmt

/-- A for loop and its expansion end in the same way or not at all: with the same signal or error,
the same text written and the same bindings. -/
theorem State.Reachable.forLoop_endsAs_iff {state : State} {initializer : List Stmt}
    {body : Option Stmt} (h : state.Reachable)
    (hinitializer : ∀ statement ∈ initializer, statement.initializes = true)
    (hdeclares : Stmt.declares? body = false) (hcontinues : Stmt.continues? body = false)
    (condition : Expr) (increment : Option Expr) (result : Run Flow) :
    (Stmt.forLoop initializer condition increment body).EndsAs state result ↔
      (Stmt.expansion initializer condition increment body).EndsAs state result := by
  have hrun : ∀ bound, (Stmt.expansion initializer condition increment body).run bound state =
      (Stmt.forLoop initializer condition increment body).run bound state :=
    Stmt.run_expansion h hinitializer hdeclares hcontinues
  constructor
  · rintro ⟨hne, bound, hresult⟩
    exact ⟨hne, bound, (hrun bound).trans hresult⟩
  · rintro ⟨hne, bound, hresult⟩
    exact ⟨hne, bound, (hrun bound).symm.trans hresult⟩

theorem expansion_endsAs_of_one_round :
    (Stmt.expansion [.declaration "@go" ⟨0, 0⟩ (some (.literal (.boolean true))) .mutable]
        (.reference "@go" ⟨0, 0⟩) (some (.assign "@go" ⟨0, 0⟩ (.literal (.boolean false)) .after))
        (some (.block
          [.declaration "@go" ⟨0, 0⟩ none .constant, .console (.template "@go")]))).EndsAs
      (.initial .unlimited) (.done .normal ⟨.initial, ⟨"null\n", none⟩⟩) := by
  have hreachable : (State.initial .unlimited).Reachable := .initial .unlimited
  refine (hreachable.forLoop_endsAs_iff (by decide) rfl rfl _ _ _).mp ⟨nofun, 2, ?_⟩
  cbv

end Sigil
