import Sigil.Proofs.Script.Diagnostics

/-!
# An output that closes

What a run prints does not depend on the output as long as this takes it.  So an output
that closes after some lines has recorded these lines and no more: the write that it
refuses is an error, which ends the run like any other.
-/

namespace Sigil

/-! ### What is printed -/

/-- What is printed after a run that has a result. -/
def Run.thenPrinted {α : Type} (run : Run α) (next : α → State → List String) : List String :=
  match run with
  | .done a state => next a state
  | .failed .. => []
  | .unfinished => []

/-- What the rounds of a loop print. -/
def printedRounds (round : State → Run Bool) (printed : State → List String) :
    Nat → State → List String
  | 0, _ => []
  | bound + 1, state =>
    printed state ++ (round state).thenPrinted fun again state ↦
      if again then printedRounds round printed bound state else []

/-- What one round of a loop prints, given what its body does. -/
def printedRound (condition : Expr) (printed : State → List String) (state : State) :
    List String :=
  (state.eval condition).thenPrinted fun value state ↦ if value.truthy then printed state else []

mutual
/-- The values that a statement prints, one after another, if nothing is refused. -/
def Stmt.printed (bound : Nat) : Stmt → State → List String
  | .expression _, _ => []
  | .console expr, state => (state.eval expr).thenPrinted fun value _ ↦ [value.display]
  | .declaration .., _ => []
  | .block statements, state => Stmt.printedBlock bound statements state.enter
  | .ifThen condition thenBranch elseBranch, state =>
    (state.eval condition).thenPrinted fun value state ↦
      if value.truthy then Stmt.printed? bound thenBranch state
      else Stmt.printed? bound elseBranch state
  | .whileLoop condition body, state =>
    printedRounds (loopRound condition (fun state ↦ Stmt.run? bound body state) none)
      (printedRound condition fun state ↦ Stmt.printed? bound body state) bound state
  | .forLoop initializer condition increment body, state =>
    Stmt.printedAll bound initializer state.enter ++
      (Stmt.runAll bound initializer state.enter).thenPrinted fun _ state ↦
        printedRounds (loopRound condition (fun state ↦ Stmt.run? bound body state) increment)
          (printedRound condition fun state ↦ Stmt.printed? bound body state) bound state
  | .breakLoop _, _ => []
  | .continueLoop _, _ => []

def Stmt.printed? (bound : Nat) : Option Stmt → State → List String
  | none, _ => []
  | some statement, state => Stmt.printed bound statement state

def Stmt.printedBlock (bound : Nat) : List Stmt → State → List String
  | [], _ => []
  | statement :: statements, state =>
    Stmt.printed bound statement state ++
      (Stmt.run bound statement state).thenPrinted fun flow state ↦
        if flow = .normal then Stmt.printedBlock bound statements state else []

def Stmt.printedAll (bound : Nat) : List Stmt → State → List String
  | [], _ => []
  | statement :: statements, state =>
    Stmt.printed bound statement state ++
      (Stmt.run bound statement state).thenPrinted fun _ state ↦
        Stmt.printedAll bound statements state
end

/-- The values that a program prints, one after another, if nothing is refused. -/
def printedProgram (bound : Nat) : List Stmt → State → List String
  | [], _ => []
  | statement :: statements, state =>
    statement.printed bound state ++ (statement.runOuter bound state).thenPrinted fun _ state ↦
      printedProgram bound statements state

/-! ### Channels with room -/

namespace Channel

variable {channel : Channel} {lines later : List String} {text : String}

theorem record_unlines_nil (channel : Channel) : channel.record (unlines []) = channel := by
  simp [record, unlines]

theorem record_unlines_append (channel : Channel) (lines later : List String) :
    channel.record (unlines (lines ++ later)) =
      (channel.record (unlines lines)).record (unlines later) := by
  simp [record, unlines, String.append_assoc]

/-- No text that a channel with a limit is given has a newline in it. -/
def Legible (channel : Channel) (lines : List String) : Prop :=
  channel.limit ≠ none → ∀ line ∈ lines, IsLine line

/-- There is room for the lines. -/
def Takes (channel : Channel) (lines : List String) : Prop :=
  ∀ n ∈ channel.room, lines.length ≤ n

theorem count_unlines (h : ∀ line ∈ lines, IsLine line) :
    (unlines lines).toList.count '\n' = lines.length := by
  induction lines with
  | nil => rfl
  | cons line lines ih =>
      obtain ⟨hline, hlines⟩ := List.forall_mem_cons.mp h
      have hcons : unlines (line :: lines) = line ++ "\n" ++ unlines lines := by
        simp [unlines, String.join_cons]
      have hnewline : "\n".toList.count '\n' = 1 := rfl
      rw [hcons, String.toList_append, String.toList_append, List.count_append, List.count_append,
        List.count_eq_zero.mpr hline, hnewline, ih hlines, List.length_cons, Nat.zero_add,
        Nat.add_comm]

theorem room_record_unlines (h : channel.Legible lines) :
    (channel.record (unlines lines)).room = channel.room.map (· - lines.length) := by
  cases hlimit : channel.limit with
  | none => simp [room, record, hlimit]
  | some n => rw [room_record, count_unlines (h (by simp [hlimit]))]

theorem takes_nil (channel : Channel) : channel.Takes [] := fun n _ ↦ Nat.zero_le n

theorem Takes.append (h : channel.Takes lines) (hlegible : channel.Legible lines)
    (hlater : (channel.record (unlines lines)).Takes later) : channel.Takes (lines ++ later) := by
  intro n hn
  have hfirst := h n hn
  have hrest := hlater (n - lines.length) (by
    rw [room_record_unlines hlegible, Option.mem_def.mp hn]
    rfl)
  rw [List.length_append]
  omega

theorem writeLine_of_full (h : channel.room = some 0) (text : String) :
    channel.writeLine text = (channel, false) := by
  have hfull := channel.isFull_iff.mpr h
  unfold writeLine write
  by_cases hempty : text = ""
  · rw [if_pos hempty]
    simp [hfull]
  · rw [if_neg hempty, hfull]
    rfl

theorem writeLine_of_room (h : channel.room ≠ some 0) (htext : channel.limit ≠ none → IsLine text) :
    channel.writeLine text = (channel.record (text ++ "\n"), true) := by
  have hwrite (channel : Channel) (h : channel.room ≠ some 0) (text : String) :
      channel.write text = (channel.record text, true) := by
    rw [write, if_neg (channel.isFull_iff.not.mpr h)]
    split
    · rename_i hempty
      simp [record, hempty]
    · rfl
  have hroom : (channel.record text).room ≠ some 0 := by
    cases hlimit : channel.limit with
    | none => simp [room, record, hlimit]
    | some n =>
        have hcount : text.toList.count '\n' = 0 :=
          List.count_eq_zero.mpr (htext (by simp [hlimit]))
        rw [room_record, hcount]
        simpa using h
  rw [writeLine, hwrite channel h]
  refine (hwrite _ hroom "\n").trans ?_
  simp [record, String.append_assoc]

end Channel

/-! ### Two runs that print the same -/

namespace Run

variable {α β : Type} {left right : Channel} {lines : List String} {run run' : Run α}

/-- The first run has printed the lines on the channel `left`.  The second one has done the same on
the channel `right`, or it has ended at the first line that is refused there. -/
inductive Truncated (left right : Channel) (lines : List String) : Run α → Run α → Prop
  | done (a : α) (env : Environment) (htakes : right.Takes lines) :
      Truncated left right lines (.done a ⟨env, left.record (unlines lines)⟩)
        (.done a ⟨env, right.record (unlines lines)⟩)
  | failed (e : RuntimeError) (env : Environment) (htakes : right.Takes lines) :
      Truncated left right lines (.failed e ⟨env, left.record (unlines lines)⟩)
        (.failed e ⟨env, right.record (unlines lines)⟩)
  | closed {run : Run α} {n : Nat} {after : State} (hroom : right.room = some n)
      (hn : n < lines.length) (houtput : after.output = right.record (unlines (lines.take n))) :
      Truncated left right lines run (.failed (.output Channel.refusal) after)
  | unfinished {run' : Run α} : Truncated left right lines .unfinished run'

/-- Printing the lines, the runs differ only in where the second one is refused. -/
def Truncates (left right : Channel) (lines : List String) (run run' : Run α) : Prop :=
  left.limit = none → right.Legible lines → Truncated left right lines run run'

theorem truncates_done (left right : Channel) (a : α) (env : Environment) :
    Truncates left right [] (.done a ⟨env, left⟩) (.done a ⟨env, right⟩) := by
  intro _ _
  have h : Truncated left right [] _ _ := .done a env right.takes_nil
  rwa [Channel.record_unlines_nil, Channel.record_unlines_nil] at h

theorem truncates_failed (left right : Channel) (e : RuntimeError) (env : Environment) :
    Truncates left right [] (.failed e ⟨env, left⟩ : Run α) (.failed e ⟨env, right⟩) := by
  intro _ _
  have h : Truncated left right [] (.failed e _ : Run α) _ := .failed e env right.takes_nil
  rwa [Channel.record_unlines_nil, Channel.record_unlines_nil] at h

/-- What is printed later goes where the first lines have left room. -/
theorem Truncates.andThen {next next' : α → State → Run β} {printed : α → State → List String}
    (h : Truncates left right lines run run')
    (hnext : ∀ a env, Truncates (left.record (unlines lines)) (right.record (unlines lines))
      (printed a ⟨env, left.record (unlines lines)⟩)
      (next a ⟨env, left.record (unlines lines)⟩) (next' a ⟨env, right.record (unlines lines)⟩)) :
    Truncates left right (lines ++ run.thenPrinted printed) (run.andThen next)
      (run'.andThen next') := by
  intro hlimit hlegible
  have hlines : right.Legible lines := fun hright line hline ↦
    hlegible hright line (List.mem_append_left _ hline)
  cases h hlimit hlines with
  | done a env htakes =>
      have hlater := hnext a env hlimit fun hright line hline ↦
        hlegible hright line (List.mem_append_right _ hline)
      rw [andThen_done, andThen_done]
      dsimp only [thenPrinted]
      generalize printed a ⟨env, left.record (unlines lines)⟩ = later at hlater ⊢
      generalize next a ⟨env, left.record (unlines lines)⟩ = run at hlater ⊢
      generalize next' a ⟨env, right.record (unlines lines)⟩ = run' at hlater ⊢
      cases hlater with
      | done b env' hlater =>
          rw [← Channel.record_unlines_append, ← Channel.record_unlines_append]
          exact .done b env' (htakes.append hlines hlater)
      | failed e env' hlater =>
          rw [← Channel.record_unlines_append, ← Channel.record_unlines_append]
          exact .failed e env' (htakes.append hlines hlater)
      | @closed _ k after hroom hk houtput =>
          rw [Channel.room_record_unlines hlines, Option.map_eq_some_iff] at hroom
          obtain ⟨n, hn, rfl⟩ := hroom
          have hle := htakes n hn
          refine .closed hn (by rw [List.length_append]; omega) ?_
          rw [houtput, ← Channel.record_unlines_append, List.take_append,
            List.take_of_length_le hle]
      | unfinished => exact .unfinished
  | failed e env htakes =>
      dsimp only [thenPrinted]
      rw [List.append_nil]
      exact .failed e env htakes
  | closed hroom hn houtput =>
      -- The second run has ended, and whatever the first one prints later has no room.
      refine .closed hroom (by rw [List.length_append]; omega) ?_
      rw [houtput, List.take_append_of_le_length (Nat.le_of_lt hn)]
  | unfinished => exact .unfinished

theorem thenPrinted_nil (run : Run α) : (run.thenPrinted fun _ _ ↦ []) = [] := by
  cases run <;> rfl

theorem Truncates.andThen_silent {next next' : α → State → Run β}
    (h : Truncates left right lines run run')
    (hnext : ∀ a env (left right : Channel),
      Truncates left right [] (next a ⟨env, left⟩) (next' a ⟨env, right⟩)) :
    Truncates left right lines (run.andThen next) (run'.andThen next') := by
  have hthen : Truncates left right (lines ++ run.thenPrinted fun _ _ ↦ []) (run.andThen next)
      (run'.andThen next') :=
    h.andThen fun a env ↦ hnext a env _ _
  rwa [thenPrinted_nil, List.append_nil] at hthen

theorem Truncates.mapState {f : State → State} {g : Environment → Environment}
    (h : Truncates left right lines run run')
    (hf : ∀ state, f state = ⟨g state.environment, state.output⟩) :
    Truncates left right lines (run.mapState f) (run'.mapState f) := by
  intro hlimit hlegible
  cases h hlimit hlegible with
  | done a env htakes =>
      rw [Run.mapState, Run.mapState, hf, hf]
      exact .done a _ htakes
  | failed e env htakes =>
      rw [Run.mapState, Run.mapState, hf, hf]
      exact .failed e _ htakes
  | closed hroom hn houtput =>
      refine .closed hroom hn ?_
      rw [hf]
      exact houtput
  | unfinished => exact .unfinished

end Run

theorem rounds_succ (round : State → Run Bool) (bound : Nat) (state : State) :
    rounds round (bound + 1) state = (round state).andThen fun again state ↦
      if again then rounds round bound state else .done .normal state := by
  rw [rounds]
  cases round state with
  | done again after => cases again <;> rfl
  | failed e after => rfl
  | unfinished => rfl

open Run

section Steps

variable (env : Environment) (left right : Channel)

/-- Nothing is printed while an expression is evaluated. -/
theorem truncates_eval_andThen {β : Type} (expr : Expr) {next next' : Value → State → Run β}
    {printed : Value → State → List String}
    (hnext : ∀ value env, Truncates left right (printed value ⟨env, left⟩)
      (next value ⟨env, left⟩) (next' value ⟨env, right⟩)) :
    Truncates left right ((State.eval ⟨env, left⟩ expr).thenPrinted printed)
      ((State.eval ⟨env, left⟩ expr).andThen next)
      ((State.eval ⟨env, right⟩ expr).andThen next') := by
  unfold State.eval
  dsimp only
  cases expr.eval env with
  | value value after => exact hnext value after
  | error e after => exact truncates_failed left right e after

theorem truncates_eval (expr : Expr) :
    Truncates left right [] (State.eval ⟨env, left⟩ expr) (State.eval ⟨env, right⟩ expr) := by
  unfold State.eval
  dsimp only
  cases expr.eval env with
  | value value after => exact truncates_done left right value after
  | error e after => exact truncates_failed left right e after

theorem truncates_eval? (expr : Option Expr) :
    Truncates left right [] (State.eval? ⟨env, left⟩ expr) (State.eval? ⟨env, right⟩ expr) := by
  cases expr with
  | none => exact truncates_done left right _ env
  | some expr => exact truncates_eval env left right expr

theorem truncates_define (name : String) (mutability : Mutability) (value : Value) :
    Truncates left right [] (State.define ⟨env, left⟩ name mutability value)
      (State.define ⟨env, right⟩ name mutability value) := by
  unfold State.define
  dsimp only
  cases env.define name mutability value with
  | ok after => exact truncates_done left right _ after
  | error e => exact truncates_failed left right e env

theorem truncates_print (text : String) :
    Truncates left right [text] (State.print ⟨env, left⟩ text)
      (State.print ⟨env, right⟩ text) := by
  intro hlimit hlegible
  have hunlines : unlines [text] = text ++ "\n" := by simp [unlines, String.join_cons]
  have hleft : left.writeLine text = (left.record (unlines [text]), true) := by
    rw [hunlines]
    exact Channel.writeLine_of_room (by simp [Channel.room, hlimit]) (absurd hlimit)
  unfold State.print
  rw [hleft]
  dsimp only
  by_cases hroom : right.room = some 0
  · rw [Channel.writeLine_of_full hroom]
    refine .closed hroom Nat.one_pos ?_
    rw [List.take_zero, Channel.record_unlines_nil]
  · have htext : right.limit ≠ none → IsLine text := fun h ↦
      hlegible h text (List.mem_singleton_self text)
    rw [Channel.writeLine_of_room hroom htext, ← hunlines]
    refine .done _ env fun n hn ↦ ?_
    rw [Option.mem_def] at hn
    rw [hn] at hroom
    exact Nat.one_le_iff_ne_zero.mpr fun h ↦ hroom (congrArg some h)

end Steps

theorem truncates_inScope {α : Type} {env : Environment} {left right : Channel}
    {lines : List String} {body body' : State → Run α}
    (h : Truncates left right lines (body ⟨env.enter, left⟩) (body' ⟨env.enter, right⟩)) :
    Truncates left right lines (State.inScope ⟨env, left⟩ body)
      (State.inScope ⟨env, right⟩ body') :=
  h.mapState (g := fun inner ↦ inner.restore env.current) fun _ ↦ rfl

/-! ### Loops -/

section Loops

variable {printed : State → List String}

theorem truncates_rounds {round : State → Run Bool}
    (hround : ∀ env left right, Truncates left right (printed ⟨env, left⟩) (round ⟨env, left⟩)
      (round ⟨env, right⟩)) (bound : Nat) (env : Environment) (left right : Channel) :
    Truncates left right (printedRounds round printed bound ⟨env, left⟩)
      (rounds round bound ⟨env, left⟩) (rounds round bound ⟨env, right⟩) := by
  induction bound generalizing env left right with
  | zero => exact fun _ _ ↦ .unfinished
  | succ bound ih =>
      rw [rounds_succ, rounds_succ, printedRounds]
      refine (hround env left right).andThen fun again env ↦ ?_
      cases again with
      | true => exact ih env _ _
      | false => exact truncates_done _ _ _ env

theorem truncates_loopRound (condition : Expr) {body : State → Run Flow} (increment : Option Expr)
    (hbody : ∀ env left right, Truncates left right (printed ⟨env, left⟩) (body ⟨env, left⟩)
      (body ⟨env, right⟩)) (env : Environment) (left right : Channel) :
    Truncates left right (printedRound condition printed ⟨env, left⟩)
      (loopRound condition body increment ⟨env, left⟩)
      (loopRound condition body increment ⟨env, right⟩) := by
  refine truncates_eval_andThen env left right condition fun value env ↦ ?_
  split
  · apply (hbody env left right).andThen_silent
    intro flow env left right
    split
    · exact truncates_done left right _ env
    · exact (truncates_eval? env left right increment).andThen_silent fun _ env left right ↦
        truncates_done left right _ env
  · exact truncates_done left right _ env

end Loops

/-! ### Statements -/

mutual
theorem truncates_run (bound : Nat) (statement : Stmt) (env : Environment) (left right : Channel) :
    Truncates left right (statement.printed bound ⟨env, left⟩) (statement.run bound ⟨env, left⟩)
      (statement.run bound ⟨env, right⟩) := by
  match statement with
  | .expression expr =>
      rw [Stmt.printed, Stmt.run, Stmt.run]
      exact (truncates_eval env left right expr).andThen_silent fun _ env left right ↦
        truncates_done left right _ env
  | .console expr =>
      rw [Stmt.printed, Stmt.run, Stmt.run]
      exact truncates_eval_andThen env left right expr fun value env ↦
        truncates_print env left right value.display
  | .declaration name span initializer mutability =>
      rw [Stmt.printed, Stmt.run, Stmt.run]
      exact (truncates_eval? env left right initializer).andThen_silent fun value env left right ↦
        truncates_define env left right name mutability value
  | .block statements =>
      rw [Stmt.printed, Stmt.run, Stmt.run]
      exact truncates_inScope (truncates_runBlock bound statements env.enter left right)
  | .ifThen condition thenBranch elseBranch =>
      rw [Stmt.printed, Stmt.run, Stmt.run]
      refine truncates_eval_andThen env left right condition fun value env ↦ ?_
      split
      · exact truncates_run? bound thenBranch env left right
      · exact truncates_run? bound elseBranch env left right
  | .whileLoop condition body =>
      rw [Stmt.printed, Stmt.run, Stmt.run]
      exact truncates_rounds (truncates_loopRound condition none fun env left right ↦
        truncates_run? bound body env left right) bound env left right
  | .forLoop initializer condition increment body =>
      rw [Stmt.printed, Stmt.run, Stmt.run]
      refine truncates_inScope ?_
      apply (truncates_runAll bound initializer env.enter left right).andThen
      intro _ env
      exact truncates_rounds (truncates_loopRound condition increment fun env left right ↦
        truncates_run? bound body env left right) bound env _ _
  | .breakLoop span =>
      rw [Stmt.printed, Stmt.run, Stmt.run]
      exact truncates_done left right _ env
  | .continueLoop span =>
      rw [Stmt.printed, Stmt.run, Stmt.run]
      exact truncates_done left right _ env

theorem truncates_run? (bound : Nat) (statement : Option Stmt) (env : Environment)
    (left right : Channel) :
    Truncates left right (Stmt.printed? bound statement ⟨env, left⟩)
      (Stmt.run? bound statement ⟨env, left⟩) (Stmt.run? bound statement ⟨env, right⟩) := by
  match statement with
  | none =>
      rw [Stmt.printed?, Stmt.run?, Stmt.run?]
      exact truncates_done left right _ env
  | some statement =>
      rw [Stmt.printed?, Stmt.run?, Stmt.run?]
      exact truncates_run bound statement env left right

theorem truncates_runBlock (bound : Nat) (statements : List Stmt) (env : Environment)
    (left right : Channel) :
    Truncates left right (Stmt.printedBlock bound statements ⟨env, left⟩)
      (Stmt.runBlock bound statements ⟨env, left⟩)
      (Stmt.runBlock bound statements ⟨env, right⟩) := by
  match statements with
  | [] =>
      rw [Stmt.printedBlock, Stmt.runBlock, Stmt.runBlock]
      exact truncates_done left right _ env
  | statement :: statements =>
      rw [Stmt.printedBlock, Stmt.runBlock, Stmt.runBlock]
      refine (truncates_run bound statement env left right).andThen fun flow env ↦ ?_
      split
      · exact truncates_runBlock bound statements env _ _
      · exact truncates_done _ _ _ env

theorem truncates_runAll (bound : Nat) (statements : List Stmt) (env : Environment)
    (left right : Channel) :
    Truncates left right (Stmt.printedAll bound statements ⟨env, left⟩)
      (Stmt.runAll bound statements ⟨env, left⟩) (Stmt.runAll bound statements ⟨env, right⟩) := by
  match statements with
  | [] =>
      rw [Stmt.printedAll, Stmt.runAll, Stmt.runAll]
      exact truncates_done left right _ env
  | statement :: statements =>
      rw [Stmt.printedAll, Stmt.runAll, Stmt.runAll]
      exact (truncates_run bound statement env left right).andThen fun _ env ↦
        truncates_runAll bound statements env _ _
end

theorem truncates_runProgram (bound : Nat) (statements : List Stmt) (env : Environment)
    (left right : Channel) :
    Truncates left right (printedProgram bound statements ⟨env, left⟩)
      (runProgram bound statements ⟨env, left⟩) (runProgram bound statements ⟨env, right⟩) := by
  induction statements generalizing env left right with
  | nil =>
      rw [printedProgram, runProgram, runProgram]
      exact truncates_done left right _ env
  | cons statement statements ih =>
      rw [printedProgram, runProgram, runProgram]
      refine Truncates.andThen ?_ fun _ env ↦ ih env _ _
      apply (truncates_run bound statement env left right).andThen_silent
      intro flow env left right
      split
      · exact truncates_done left right _ env
      · exact truncates_failed left right _ env

/-! ### Scopes and output -/

theorem extends_runProgram (bound : Nat) (statements : List Stmt) {start : Environment}
    (hinner : start.Innermost) {state : State} (hstart : ExtendsScopes start state) :
    (runProgram bound statements state).Leaves (ExtendsScopes start) := by
  induction statements generalizing state with
  | nil => exact hstart
  | cons statement statements ih =>
      have houter : (statement.runOuter bound state).Leaves (ExtendsScopes start) := by
        apply (statement.extends_run bound state start hinner hstart).andThen
        intro flow state hstart
        split
        · exact hstart
        · exact hstart
      exact houter.andThen fun _ _ hstart ↦ ih hstart

theorem State.output_eval (state : State) (expr : Expr) :
    (state.eval expr).Leaves fun after ↦ after.output = state.output := by
  unfold eval
  cases expr.eval state.environment with
  | value value env => rfl
  | error e env => rfl

section Channels

variable {α : Type} {lines : List String} {run run' : Run α} {n : Nat}

theorem Channel.record_limited (limit : Option Nat) (text : String) :
    (Channel.limited limit).record text = ⟨text, limit⟩ := by
  simp [record, limited]

/-- Where nothing is refused, exactly the lines are recorded. -/
theorem Run.Truncated.output_of_unlimited (h : Truncated .unlimited .unlimited lines run run) :
    run.Leaves fun after ↦ after.output = ⟨unlines lines, none⟩ := by
  cases h with
  | done a env htakes => exact Channel.record_limited none _
  | failed e env htakes => exact Channel.record_limited none _
  | closed hroom hn houtput => cases hroom
  | unfinished => trivial

theorem Run.Truncated.eq_of_le (h : Truncated .unlimited (.limited (some n)) lines run run')
    (hends : run ≠ .unfinished) (hle : lines.length ≤ n) :
    run' = run.mapState fun after ↦ ⟨after.environment, ⟨after.output.text, some n⟩⟩ := by
  cases h with
  | done a env htakes => rfl
  | failed e env htakes => rfl
  | @closed _ k after hroom hk houtput =>
      obtain rfl := Option.some.inj hroom
      exact absurd hle (Nat.not_le_of_lt hk)
  | unfinished => exact absurd rfl hends

theorem Run.Truncated.eq_of_lt (h : Truncated .unlimited (.limited (some n)) lines run run')
    (hends : run ≠ .unfinished) (hlt : n < lines.length) :
    ∃ after, run' = .failed (.output Channel.refusal) after ∧
      after.output = ⟨unlines (lines.take n), some n⟩ := by
  cases h with
  | done a env htakes => exact absurd (htakes n rfl) (Nat.not_le_of_lt hlt)
  | failed e env htakes => exact absurd (htakes n rfl) (Nat.not_le_of_lt hlt)
  | @closed _ k after hroom hk houtput =>
      obtain rfl := Option.some.inj hroom
      rw [Channel.record_limited] at houtput
      exact ⟨after, rfl, houtput⟩
  | unfinished => exact absurd rfl hends

end Channels

/-- The state with another output. -/
def State.withOutput (state : State) (output : Channel) : State := { state with output := output }

/-- A channel that closes after `n` lines makes no difference to a program that prints no more.  One
that prints more has its first `n` lines recorded and ends with the refusal, in the scope in which
it started.  An expression writes nothing. -/
theorem State.Reachable.closing_truncates {state : State} {bound : Nat} {statements : List Stmt}
    {lines : List String} (h : state.Reachable)
    (hends : Sigil.runProgram bound statements (state.withOutput .unlimited) ≠ .unfinished)
    (hprinted : printedProgram bound statements (state.withOutput .unlimited) = lines)
    (hlines : ∀ line ∈ lines, IsLine line) :
    (Sigil.runProgram bound statements (state.withOutput .unlimited)).Leaves
      (fun after ↦ after.output = ⟨unlines lines, none⟩) ∧
    (∀ n, lines.length ≤ n →
      Sigil.runProgram bound statements (state.withOutput (.limited (some n))) =
        (Sigil.runProgram bound statements (state.withOutput .unlimited)).mapState fun after ↦
          after.withOutput ⟨after.output.text, some n⟩) ∧
    (∀ n, n < lines.length → ∃ after,
      Sigil.runProgram bound statements (state.withOutput (.limited (some n))) =
        .failed (.output "closed") after ∧
      after.output = ⟨unlines (lines.take n), some n⟩ ∧
      after.environment.current = state.environment.current ∧
      after.environment.scopes.length = state.environment.scopes.length) ∧
    ∀ expr after, (state.eval expr).state? = some after → after.output = state.output := by
  subst hprinted
  have htruncated (n : Nat) := truncates_runProgram bound statements state.environment .unlimited
    (.limited (some n)) rfl fun _ ↦ hlines
  refine ⟨?_, fun n hle ↦ (htruncated n).eq_of_le hends hle, fun n hlt ↦ ?_, fun expr after hafter ↦
    Run.leaves_iff_state?.mp (state.output_eval expr) after hafter⟩
  · have hself := truncates_runProgram bound statements state.environment .unlimited .unlimited rfl
      (absurd rfl)
    exact hself.output_of_unlimited
  · obtain ⟨after, hrun, houtput⟩ := (htruncated n).eq_of_lt hends hlt
    have hextends : (Sigil.runProgram bound statements
        (state.withOutput (.limited (some n)))).Leaves (ExtendsScopes state.environment) :=
      extends_runProgram bound statements h.innermost (.refl _)
    rw [State.withOutput, hrun] at hextends
    exact ⟨after, hrun, houtput, hextends.current, hextends.length⟩

theorem closing_truncates_inside_block :
    ∃ after, runProgram 1 [.console (.literal (.text "a")),
        .block [.console (.literal (.text "b")), .console (.literal (.text "c"))]]
          (.initial (.limited (some 2))) = .failed (.output "closed") after ∧
      after.output = ⟨"a\nb\n", some 2⟩ ∧ after.environment.current = 0 := by
  have hreachable : (State.initial .unlimited).Reachable := .initial .unlimited
  have hprinted : printedProgram 1 [.console (.literal (.text "a")),
      .block [.console (.literal (.text "b")), .console (.literal (.text "c"))]]
        ((State.initial .unlimited).withOutput .unlimited) = ["a", "b", "c"] := rfl
  have hends : (runProgram 1 [.console (.literal (.text "a")),
      .block [.console (.literal (.text "b")), .console (.literal (.text "c"))]]
        ((State.initial .unlimited).withOutput .unlimited)).state?.isSome = true := rfl
  obtain ⟨after, hrun, houtput, hcurrent, -⟩ := (hreachable.closing_truncates
    (fun hrun ↦ by rw [hrun] at hends; cases hends) hprinted (by decide)).2.2.1 2 (by decide)
  exact ⟨after, hrun, houtput, hcurrent⟩

end Sigil
