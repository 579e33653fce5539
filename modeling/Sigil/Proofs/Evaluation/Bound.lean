import Sigil.Evaluation.Statement

/-!
# The bound only cuts runs off

More rounds never change how a run ends: a run that ends within a bound ends the same
way within every greater one.  So how a program ends can be said without a bound, and a
program in two parts ends as its parts do one after the other, each within a bound of
its own.
-/

namespace Sigil

namespace Run

variable {α β : Type} {run run' : Run α}

/-- The second run is the first one, or the first one was cut off. -/
def Below (run run' : Run α) : Prop := run = .unfinished ∨ run = run'

theorem Below.refl (run : Run α) : run.Below run := .inr rfl

theorem Below.eq_of_ne (h : run.Below run') (hne : run ≠ .unfinished) : run = run' :=
  h.resolve_left hne

theorem Below.andThen {next next' : α → State → Run β} (h : run.Below run')
    (hnext : ∀ a state, (next a state).Below (next' a state)) :
    (run.andThen next).Below (run'.andThen next') := by
  obtain rfl | rfl := h
  · exact .inl rfl
  · cases run with
    | done a state => exact hnext a state
    | failed e state => exact .refl _
    | unfinished => exact .inl rfl

theorem Below.mapState (h : run.Below run') (f : State → State) :
    (run.mapState f).Below (run'.mapState f) := by
  obtain rfl | rfl := h
  · exact .inl rfl
  · exact .refl _

theorem andThen_assoc {γ : Type} (run : Run α) (next : α → State → Run β)
    (later : β → State → Run γ) :
    (run.andThen next).andThen later =
      run.andThen fun a state ↦ (next a state).andThen later := by
  cases run <;> rfl

end Run

theorem below_rounds {round round' : State → Run Bool}
    (h : ∀ state, (round state).Below (round' state)) {bound bound' : Nat} (hle : bound ≤ bound')
    (state : State) : (rounds round bound state).Below (rounds round' bound' state) := by
  -- A round that is cut off cuts the loop off; any other is the same round within both bounds.
  induction bound generalizing bound' state with
  | zero => exact .inl rfl
  | succ bound ih =>
      obtain ⟨bound', rfl⟩ : ∃ n, bound' = n + 1 := ⟨bound' - 1, by omega⟩
      obtain hround | hround := h state
      · left
        rw [rounds, hround]
      · rw [rounds, rounds, ← hround]
        cases round state with
        | done again state =>
            cases again with
            | true => exact ih (Nat.le_of_succ_le_succ hle) state
            | false => exact .refl _
        | failed e state => exact .refl _
        | unfinished => exact .refl _

theorem below_loopRound (condition : Expr) {body body' : State → Run Flow}
    (h : ∀ state, (body state).Below (body' state)) (increment : Option Expr) (state : State) :
    (loopRound condition body increment state).Below
      (loopRound condition body' increment state) := by
  apply (Run.Below.refl (state.eval condition)).andThen
  intro value state
  split
  · exact (h state).andThen fun flow state ↦ .refl _
  · exact .refl _

namespace Stmt

variable {bound bound' : Nat}

mutual
theorem below_run (hle : bound ≤ bound') : (statement : Stmt) → (state : State) →
    (run bound statement state).Below (run bound' statement state)
  | .expression expr, state => by
      rw [run, run]
      exact .refl _
  | .console expr, state => by
      rw [run, run]
      exact .refl _
  | .declaration name span initializer mutability, state => by
      rw [run, run]
      exact .refl _
  | .block statements, state => by
      rw [run, run]
      exact (below_runBlock hle statements state.enter).mapState _
  | .ifThen condition thenBranch elseBranch, state => by
      rw [run, run]
      apply (Run.Below.refl (state.eval condition)).andThen
      intro value state
      split
      · exact below_run? hle thenBranch state
      · exact below_run? hle elseBranch state
  | .whileLoop condition body, state => by
      rw [run, run]
      exact below_rounds (below_loopRound condition (below_run? hle body) none) hle state
  | .forLoop initializer condition increment body, state => by
      rw [run, run]
      refine Run.Below.mapState ?_ _
      apply (below_runAll hle initializer state.enter).andThen
      intro _ state
      exact below_rounds (below_loopRound condition (below_run? hle body) increment) hle state
  | .breakLoop span, state => by
      rw [run, run]
      exact .refl _
  | .continueLoop span, state => by
      rw [run, run]
      exact .refl _

theorem below_run? (hle : bound ≤ bound') : (statement : Option Stmt) → (state : State) →
    (run? bound statement state).Below (run? bound' statement state)
  | none, state => by
      rw [run?, run?]
      exact .refl _
  | some statement, state => by
      rw [run?, run?]
      exact below_run hle statement state

theorem below_runBlock (hle : bound ≤ bound') : (statements : List Stmt) → (state : State) →
    (runBlock bound statements state).Below (runBlock bound' statements state)
  | [], state => by
      rw [runBlock, runBlock]
      exact .refl _
  | statement :: statements, state => by
      rw [runBlock, runBlock]
      apply (below_run hle statement state).andThen
      intro flow state
      split
      · exact below_runBlock hle statements state
      · exact .refl _

theorem below_runAll (hle : bound ≤ bound') : (statements : List Stmt) → (state : State) →
    (runAll bound statements state).Below (runAll bound' statements state)
  | [], state => by
      rw [runAll, runAll]
      exact .refl _
  | statement :: statements, state => by
      rw [runAll, runAll]
      exact (below_run hle statement state).andThen fun _ state ↦ below_runAll hle statements state
end

theorem below_runOuter (hle : bound ≤ bound') (statement : Stmt) (state : State) :
    (runOuter bound statement state).Below (runOuter bound' statement state) :=
  (below_run hle statement state).andThen fun _ _ ↦ .refl _

end Stmt

theorem below_runProgram {bound bound' : Nat} (hle : bound ≤ bound') (statements : List Stmt)
    (state : State) :
    (runProgram bound statements state).Below (runProgram bound' statements state) := by
  induction statements generalizing state with
  | nil => exact .refl _
  | cons statement statements ih =>
      exact (Stmt.below_runOuter hle statement state).andThen fun _ state ↦ ih state

theorem runProgram_append (bound : Nat) (front back : List Stmt) (state : State) :
    runProgram bound (front ++ back) state =
      (runProgram bound front state).andThen fun _ state ↦ runProgram bound back state := by
  induction front generalizing state with
  | nil => rfl
  | cons statement front ih =>
      rw [List.cons_append, runProgram, runProgram, Run.andThen_assoc]
      exact congrArg _ (funext fun _ ↦ funext ih)

/-- Running a program ends, and with this result. -/
def RunsTo (statements : List Stmt) (state : State) (result : Run Unit) : Prop :=
  result ≠ .unfinished ∧ ∃ bound, runProgram bound statements state = result

/-- A program ends in one way at most. -/
theorem RunsTo.unique {statements : List Stmt} {state : State} {result result' : Run Unit}
    (h : RunsTo statements state result) (h' : RunsTo statements state result') :
    result = result' := by
  obtain ⟨hne, bound, rfl⟩ := h
  obtain ⟨hne', bound', rfl⟩ := h'
  obtain hle | hle := Nat.le_total bound bound'
  · exact (below_runProgram hle statements state).eq_of_ne hne
  · exact ((below_runProgram hle statements state).eq_of_ne hne').symm

/-- A program in two parts ends as its first part does, if that fails, and otherwise as its second
part does from where the first one left off. -/
theorem runsTo_append_iff {front back : List Stmt} {state : State} {result : Run Unit} :
    RunsTo (front ++ back) state result ↔
      (∃ e after, result = .failed e after ∧ RunsTo front state result) ∨
        ∃ middle, RunsTo front state (.done () middle) ∧ RunsTo back middle result := by
  constructor
  · rintro ⟨hne, bound, hrun⟩
    rw [runProgram_append] at hrun
    cases hfront : runProgram bound front state with
    | done _ middle =>
        rw [hfront] at hrun
        exact .inr ⟨middle, ⟨nofun, bound, hfront⟩, hne, bound, hrun⟩
    | failed e after =>
        rw [hfront] at hrun
        exact .inl ⟨e, after, hrun.symm, hne, bound, hfront.trans hrun⟩
    | unfinished =>
        rw [hfront] at hrun
        exact absurd hrun.symm hne
  · rintro (⟨e, after, rfl, hne, bound, hfront⟩ | ⟨middle, hdone, hne, bound', hback⟩)
    · exact ⟨hne, bound, by rw [runProgram_append, hfront]; rfl⟩
    · obtain ⟨hdone, bound, hfront⟩ := hdone
      refine ⟨hne, max bound bound', ?_⟩
      -- Each part ends within its own bound, hence within the greater one.
      have hfront' := (below_runProgram (Nat.le_max_left bound bound') front state).eq_of_ne
        (by rw [hfront]; exact hdone)
      have hback' := (below_runProgram (Nat.le_max_right bound bound') back middle).eq_of_ne
        (by rw [hback]; exact hne)
      rw [runProgram_append, ← hfront', hfront, Run.andThen_done, ← hback', hback]

end Sigil
