import Sigil.Proofs.Evaluation.Scoping
import Sigil.Proofs.Evaluation.Template

/-!
# Two runs side by side

Two environments that answer alike for the names of a tree, and go on doing so whatever
the tree does to them, make no difference to its runs: the runs give the same results
and the same errors, and they write the same text.  A relation of this kind may hold
only while nothing is bound in the current scope; it is then closed to bindings until
a scope is entered.
-/

namespace Sigil

mutual
/-- The statement binds names in the scope in which it runs. -/
def Stmt.declares : Stmt → Bool
  | .declaration .. => true
  | .ifThen _ thenBranch elseBranch => Stmt.declares? thenBranch || Stmt.declares? elseBranch
  | .whileLoop _ body => Stmt.declares? body
  | _ => false

def Stmt.declares? : Option Stmt → Bool
  | none => false
  | some statement => Stmt.declares statement
end

/-! ### Results of two runs -/

/-- Both operations succeed, with related environments, or both fail, with the same error. -/
inductive Environment.Matched (related : Environment → Environment → Prop) :
    Except RuntimeError Environment → Except RuntimeError Environment → Prop
  | ok {env env' : Environment} (h : related env env') : Matched related (.ok env) (.ok env')
  | error (e : RuntimeError) : Matched related (.error e) (.error e)

namespace Evaluated

variable {α β : Type} {related : Environment → Environment → Prop}
  {evaluated evaluated' : Evaluated α}

/-- Both evaluations end in the same way, in related environments. -/
inductive Matched (related : Environment → Environment → Prop) : Evaluated α → Evaluated α → Prop
  | value (a : α) {env env' : Environment} (h : related env env') :
      Matched related (.value a env) (.value a env')
  | error (e : RuntimeError) {env env' : Environment} (h : related env env') :
      Matched related (.error e env) (.error e env')

theorem Matched.andThen {next next' : α → Environment → Evaluated β}
    (h : evaluated.Matched related evaluated')
    (hnext : ∀ a env env', related env env' → (next a env).Matched related (next' a env')) :
    (evaluated.andThen next).Matched related (evaluated'.andThen next') := by
  cases h with
  | value a h => exact hnext a _ _ h
  | error e h => exact .error e h

theorem matched_ofExcept {env env' : Environment} (h : related env env')
    (result : Except RuntimeError α) :
    (ofExcept env result).Matched related (ofExcept env' result) := by
  cases result with
  | ok a => exact .value a h
  | error e => exact .error e h

end Evaluated

namespace Run

variable {α β : Type} {related related' : State → State → Prop} {run run' : Run α}

/-- Both runs end in the same way, in related states, or neither ends. -/
inductive Matched (related : State → State → Prop) : Run α → Run α → Prop
  | done (a : α) {state state' : State} (h : related state state') :
      Matched related (.done a state) (.done a state')
  | failed (e : RuntimeError) {state state' : State} (h : related state state') :
      Matched related (.failed e state) (.failed e state')
  | unfinished : Matched related .unfinished .unfinished

theorem Matched.mono (h : run.Matched related run')
    (hrelated : ∀ state state', related state state' → related' state state') :
    run.Matched related' run' := by
  cases h with
  | done a h => exact .done a (hrelated _ _ h)
  | failed e h => exact .failed e (hrelated _ _ h)
  | unfinished => exact .unfinished

theorem Matched.andThen {next next' : α → State → Run β} (h : run.Matched related run')
    (hnext : ∀ a state state', related state state' →
      (next a state).Matched related (next' a state')) :
    (run.andThen next).Matched related (run'.andThen next') := by
  cases h with
  | done a h => exact hnext a _ _ h
  | failed e h => exact .failed e h
  | unfinished => exact .unfinished

theorem Matched.mapState {f f' : State → State} (h : run.Matched related run')
    (hmap : ∀ state state', related state state' → related' (f state) (f' state')) :
    (run.mapState f).Matched related' (run'.mapState f') := by
  cases h with
  | done a h => exact .done a (hmap _ _ h)
  | failed e h => exact .failed e (hmap _ _ h)
  | unfinished => exact .unfinished

/-- What each run leaves by itself may be added. -/
theorem Matched.and_leaves {inv inv' : State → Prop} (h : run.Matched related run')
    (hinv : run.Leaves inv) (hinv' : run'.Leaves inv') :
    run.Matched (fun state state' ↦ inv state ∧ inv' state' ∧ related state state') run' := by
  cases h with
  | done a h => exact .done a ⟨hinv, hinv', h⟩
  | failed e h => exact .failed e ⟨hinv, hinv', h⟩
  | unfinished => exact .unfinished

end Run

theorem matched_rounds {related : State → State → Prop} {round round' : State → Run Bool}
    (hround : ∀ state state', related state state' →
      (round state).Matched related (round' state')) (bound : Nat) {state state' : State}
    (h : related state state') :
    (rounds round bound state).Matched related (rounds round' bound state') := by
  induction bound generalizing state state' with
  | zero => exact .unfinished
  | succ bound ih =>
      have hmatched := hround state state' h
      rw [rounds, rounds]
      generalize round state = run at hmatched ⊢
      generalize round' state' = run' at hmatched ⊢
      cases hmatched with
      | done again h =>
          cases again with
          | true => exact ih h
          | false => exact .done _ h
      | failed e h => exact .failed e h
      | unfinished => exact .unfinished

/-! ### Two channels -/

namespace Channel

variable {left right channel channel' : Channel}

/-- The number of lines that a channel still takes, if it has a limit. -/
def room (channel : Channel) : Option Nat :=
  channel.limit.map (· - channel.text.toList.count '\n')

/-- The channel after a text has been recorded. -/
def record (channel : Channel) (text : String) : Channel :=
  { channel with text := channel.text ++ text }

/-- The same text has been recorded by the two channels since they were `left` and `right`. -/
def Alike (left right channel channel' : Channel) : Prop :=
  ∃ text, channel = left.record text ∧ channel' = right.record text

theorem alike_self (left right : Channel) : Alike left right left right :=
  ⟨"", by simp [record], by simp [record]⟩

theorem isFull_iff (channel : Channel) : channel.isFull = true ↔ channel.room = some 0 := by
  cases hlimit : channel.limit <;> simp [isFull, room, hlimit, Nat.sub_eq_zero_iff_le]

theorem room_record (channel : Channel) (text : String) :
    (channel.record text).room = channel.room.map (· - text.toList.count '\n') := by
  simp [room, record, List.count_append, Function.comp_def, Nat.sub_sub]

theorem Alike.isFull_eq (hroom : left.room = right.room) (h : Alike left right channel channel') :
    channel.isFull = channel'.isFull := by
  obtain ⟨text, rfl, rfl⟩ := h
  rw [Bool.eq_iff_iff, isFull_iff, isFull_iff, room_record, room_record, hroom]

/-- Channels with the same room take the same texts. -/
theorem Alike.write (hroom : left.room = right.room) (h : Alike left right channel channel')
    (text : String) :
    (channel.write text).2 = (channel'.write text).2 ∧
      Alike left right (channel.write text).1 (channel'.write text).1 := by
  unfold Channel.write
  rw [h.isFull_eq hroom]
  split
  · exact ⟨rfl, h⟩
  · split
    · exact ⟨rfl, h⟩
    · obtain ⟨before, rfl, rfl⟩ := h
      exact ⟨rfl, before ++ text, by simp [record, String.append_assoc],
        by simp [record, String.append_assoc]⟩

theorem Alike.writeLine (hroom : left.room = right.room) (h : Alike left right channel channel')
    (text : String) :
    (channel.writeLine text).2 = (channel'.writeLine text).2 ∧
      Alike left right (channel.writeLine text).1 (channel'.writeLine text).1 := by
  obtain ⟨hflag, halike⟩ := h.write hroom text
  unfold Channel.writeLine
  generalize channel.write text = result at hflag halike ⊢
  generalize channel'.write text = result' at hflag halike ⊢
  obtain ⟨written, accepted⟩ := result
  obtain ⟨written', accepted'⟩ := result'
  cases hflag
  cases accepted with
  | true => exact halike.write hroom "\n"
  | false => exact ⟨rfl, halike⟩

end Channel

/-! ### Simulations -/

/-- Environments that are related answer alike for the given names, and stay related.  The flag says
that names may be bound in the current scope. -/
structure Simulation (names : Set String) (related : Bool → Environment → Environment → Prop) :
    Prop where
  get : ∀ {opened env env' name}, related opened env env' → name ∈ names →
    env.get name = env'.get name
  assign : ∀ {opened env env' name} (value : Value), related opened env env' → name ∈ names →
    Environment.Matched (related opened) (env.assign name value) (env'.assign name value)
  define : ∀ {env env' name} (mutability : Mutability) (value : Value), related true env env' →
    name ∈ names →
    Environment.Matched (related true) (env.define name mutability value)
      (env'.define name mutability value)
  enter : ∀ {opened env env'}, related opened env env' → related true env.enter env'.enter
  restore : ∀ {opened env env' inner inner'}, related opened env env' → env.enter.Extends inner →
    env'.enter.Extends inner' → related true inner inner' →
    related opened (inner.restore env.current) (inner'.restore env'.current)

namespace Simulation

variable {names : Set String} {related : Bool → Environment → Environment → Prop}
  {opened : Bool} {env env' : Environment} {name : String}

theorem matched_assignYielding (sim : Simulation names related) (h : related opened env env')
    (hname : name ∈ names) (stored yielded : Value) :
    (env.assignYielding name stored yielded).Matched (related opened)
      (env'.assignYielding name stored yielded) := by
  have hmatched := sim.assign stored h hname
  unfold Environment.assignYielding
  generalize env.assign name stored = result at hmatched ⊢
  generalize env'.assign name stored = result' at hmatched ⊢
  cases hmatched with
  | ok h' => exact .value yielded h'
  | error e => exact .error e h

theorem matched_assignTimed (sim : Simulation names related) (h : related opened env env')
    (hname : name ∈ names) (stored : Value) (timing : Timing) :
    (env.assignTimed name stored timing).Matched (related opened)
      (env'.assignTimed name stored timing) := by
  cases timing with
  | after => exact sim.matched_assignYielding h hname stored stored
  | before =>
      rw [Environment.assignTimed, Environment.assignTimed, ← sim.get h hname]
      split
      · exact sim.matched_assignYielding h hname stored _
      · exact .error _ h

theorem matched_update (sim : Simulation names related) (h : related opened env env')
    (step : Float) {operand : Expr} (hnames : ∀ node ∈ operand.nodes, node.names ⊆ names) :
    (env.update step operand).Matched (related opened) (env'.update step operand) := by
  cases operand with
  | reference name span =>
      have hname : name ∈ names := hnames _ (Expr.mem_nodes _) rfl
      rw [Environment.update, Environment.update, ← sim.get h hname]
      split
      · exact sim.matched_assignYielding h hname _ _
      · exact .error _ h
      · exact .error _ h
  | _ => exact .error _ h

/-! ### Expressions -/

theorem matched_eval (sim : Simulation names related) (expr : Expr)
    (hnames : ∀ node ∈ expr.nodes, node.names ⊆ names) (h : related opened env env') :
    (expr.eval env).Matched (related opened) (expr.eval env') := by
  have hself := hnames _ expr.mem_nodes
  induction expr generalizing env env' with
  | literal value => exact .value value h
  | reference name span =>
      rw [Expr.eval, Expr.eval, sim.get h (hself rfl)]
      exact Evaluated.matched_ofExcept h _
  | template text =>
      rw [Expr.eval_template, Expr.eval_template,
        expansion_congr fun name hname ↦ sim.get h (hself hname)]
      exact .value _ h
  | grouping inner ih =>
      rw [Expr.nodes, List.forall_mem_cons] at hnames
      exact ih hnames.2 h (hnames.2 _ inner.mem_nodes)
  | assign name span value timing ih =>
      rw [Expr.nodes, List.forall_mem_cons] at hnames
      apply (ih hnames.2 h (hnames.2 _ value.mem_nodes)).andThen
      intro stored env env' h
      exact sim.matched_assignTimed h (hself rfl) stored timing
  | logical left op right span ihleft ihright =>
      rw [Expr.nodes, List.forall_mem_cons, List.forall_mem_append] at hnames
      obtain ⟨-, hleft, hright⟩ := hnames
      apply (ihleft hleft h (hleft _ left.mem_nodes)).andThen
      intro value env env' h
      split
      · exact .value value h
      · exact ihright hright h (hright _ right.mem_nodes)
  | conditional condition left right ihcondition ihleft ihright =>
      rw [Expr.nodes, List.forall_mem_cons, List.forall_mem_append,
        List.forall_mem_append] at hnames
      obtain ⟨-, hcondition, hleft, hright⟩ := hnames
      apply (ihcondition hcondition h (hcondition _ condition.mem_nodes)).andThen
      intro value env env' h
      split
      · exact ihleft hleft h (hleft _ left.mem_nodes)
      · exact ihright hright h (hright _ right.mem_nodes)
  | binary left op right span ihleft ihright =>
      rw [Expr.nodes, List.forall_mem_cons, List.forall_mem_append] at hnames
      obtain ⟨-, hleft, hright⟩ := hnames
      apply (ihleft hleft h (hleft _ left.mem_nodes)).andThen
      intro leftValue env env' h
      apply (ihright hright h (hright _ right.mem_nodes)).andThen
      intro rightValue env env' h
      exact Evaluated.matched_ofExcept h _
  | unary op operand span ih =>
      rw [Expr.nodes, List.forall_mem_cons] at hnames
      rw [Expr.eval, Expr.eval]
      split
      · exact sim.matched_update h _ hnames.2
      · apply (ih hnames.2 h (hnames.2 _ operand.mem_nodes)).andThen
        intro value env env' h
        exact Evaluated.matched_ofExcept h _

/-! ### Statements -/

/-- The environments of the states are related, and the same text has been recorded by their outputs
since these were `left` and `right`. -/
structure Relates (related : Bool → Environment → Environment → Prop) (left right : Channel)
    (opened : Bool) (state state' : State) : Prop where
  environment : related opened state.environment state'.environment
  output : Channel.Alike left right state.output state'.output

variable {left right : Channel} {state state' : State}

theorem matched_stateEval (sim : Simulation names related) (expr : Expr)
    (hnames : ∀ node ∈ expr.nodes, node.names ⊆ names)
    (h : Relates related left right opened state state') :
    (state.eval expr).Matched (Relates related left right opened) (state'.eval expr) := by
  have hmatched := sim.matched_eval expr hnames h.environment
  unfold State.eval
  generalize expr.eval state.environment = evaluated at hmatched ⊢
  generalize expr.eval state'.environment = evaluated' at hmatched ⊢
  cases hmatched with
  | value a henv => exact .done a ⟨henv, h.output⟩
  | error e henv => exact .failed e ⟨henv, h.output⟩

theorem matched_stateEval? (sim : Simulation names related) (expr : Option Expr)
    (hnames : ∀ node ∈ Expr.nodes? expr, node.names ⊆ names)
    (h : Relates related left right opened state state') :
    (state.eval? expr).Matched (Relates related left right opened) (state'.eval? expr) := by
  cases expr with
  | none => exact .done _ h
  | some expr => exact sim.matched_stateEval expr hnames h

theorem matched_print (hroom : left.room = right.room) (text : String)
    (h : Relates related left right opened state state') :
    (state.print text).Matched (Relates related left right opened) (state'.print text) := by
  obtain ⟨hflag, halike⟩ := h.output.writeLine hroom text
  unfold State.print
  generalize state.output.writeLine text = result at hflag halike ⊢
  generalize state'.output.writeLine text = result' at hflag halike ⊢
  obtain ⟨written, accepted⟩ := result
  obtain ⟨written', accepted'⟩ := result'
  cases hflag
  cases accepted with
  | true => exact .done _ ⟨h.environment, halike⟩
  | false => exact .failed _ ⟨h.environment, halike⟩

theorem matched_define (sim : Simulation names related) (hname : name ∈ names)
    (mutability : Mutability) (value : Value) (h : Relates related left right true state state') :
    (state.define name mutability value).Matched (Relates related left right true)
      (state'.define name mutability value) := by
  have hmatched := sim.define mutability value h.environment hname
  unfold State.define
  generalize state.environment.define name mutability value = result at hmatched ⊢
  generalize state'.environment.define name mutability value = result' at hmatched ⊢
  cases hmatched with
  | ok henv => exact .done _ ⟨henv, h.output⟩
  | error e => exact .failed e h

theorem matched_loop (sim : Simulation names related) {condition : Expr} {increment : Option Expr}
    {body body' : State → Run Flow} (hcondition : ∀ node ∈ condition.nodes, node.names ⊆ names)
    (hincrement : ∀ node ∈ Expr.nodes? increment, node.names ⊆ names)
    (hbody : ∀ state state', Relates related left right opened state state' →
      (body state).Matched (Relates related left right opened) (body' state'))
    (bound : Nat) (h : Relates related left right opened state state') :
    (rounds (loopRound condition body increment) bound state).Matched
      (Relates related left right opened)
      (rounds (loopRound condition body' increment) bound state') := by
  refine matched_rounds (fun state state' h ↦ ?_) bound h
  apply (sim.matched_stateEval condition hcondition h).andThen
  intro value state state' h
  split
  · apply (hbody state state' h).andThen
    intro flow state state' h
    split
    · exact .done _ h
    · apply (sim.matched_stateEval? increment hincrement h).andThen
      intro _ state state' h
      exact .done _ h
  · exact .done _ h

/-- Scopes that are entered and left on both sides keep the environments around them related. -/
theorem matched_inScope (sim : Simulation names related) {α : Type} {body body' : State → Run α}
    (h : Relates related left right opened state state')
    (hextends : (body state.enter).Leaves (ExtendsScopes state.enter.environment))
    (hextends' : (body' state'.enter).Leaves (ExtendsScopes state'.enter.environment))
    (hbody : (body state.enter).Matched (Relates related left right true) (body' state'.enter)) :
    (state.inScope body).Matched (Relates related left right opened) (state'.inScope body') := by
  refine (hbody.and_leaves hextends hextends').mapState fun inner inner' hinner ↦ ?_
  obtain ⟨hinner, hinner', hrelates⟩ := hinner
  exact ⟨sim.restore h.environment hinner hinner' hrelates.environment, hrelates.output⟩

/-- What a for loop does in its scope only adds names to that. -/
theorem extends_forLoop (bound : Nat) (initializer : List Stmt) (condition : Expr)
    (increment : Option Expr) (body : Option Stmt) (state : State) :
    ((Stmt.runAll bound initializer state.enter).andThen fun _ inside ↦
      rounds (loopRound condition (fun state ↦ Stmt.run? bound body state) increment) bound
        inside).Leaves (ExtendsScopes state.enter.environment) := by
  have hinner := Environment.innermost_enter state.environment
  apply (Stmt.extends_runAll bound initializer state.enter _ hinner (.refl _)).andThen
  intro _ inside hinside
  exact extends_loop (fun inside h ↦ Stmt.extends_run? bound body inside _ hinner h) hinside

theorem Relates.enter (sim : Simulation names related)
    (h : Relates related left right opened state state') :
    Relates related left right true state.enter state'.enter :=
  ⟨sim.enter h.environment, h.output⟩

mutual
theorem matched_run (sim : Simulation names related) (hroom : left.room = right.room) (bound : Nat)
    (statement : Stmt) (opened : Bool) (state state' : State)
    (hnames : ∀ node ∈ statement.nodes, node.names ⊆ names)
    (hopened : statement.declares = true → opened = true)
    (h : Relates related left right opened state state') :
    (statement.run bound state).Matched (Relates related left right opened)
      (statement.run bound state') := by
  have hself := hnames _ statement.mem_nodes
  match statement with
  | .expression expr =>
      rw [Stmt.nodes, List.forall_mem_cons] at hnames
      apply (sim.matched_stateEval expr hnames.2 h).andThen
      intro _ state state' h
      exact .done _ h
  | .console expr =>
      rw [Stmt.nodes, List.forall_mem_cons] at hnames
      apply (sim.matched_stateEval expr hnames.2 h).andThen
      intro value state state' h
      exact matched_print hroom value.display h
  | .declaration name span initializer mutability =>
      rw [Stmt.nodes, List.forall_mem_cons] at hnames
      obtain rfl := hopened (by rw [Stmt.declares])
      apply (sim.matched_stateEval? initializer hnames.2 h).andThen
      intro value state state' h
      exact sim.matched_define (hself rfl) mutability value h
  | .block statements =>
      rw [Stmt.nodes, List.forall_mem_cons] at hnames
      rw [Stmt.run, Stmt.run]
      -- The new scope is open to bindings, whatever holds of the one around it.
      exact sim.matched_inScope h
        (Stmt.extends_runBlock bound statements _ _ (Environment.innermost_enter _) (.refl _))
        (Stmt.extends_runBlock bound statements _ _ (Environment.innermost_enter _) (.refl _))
        (matched_runBlock sim hroom bound statements true _ _ hnames.2 (fun _ _ _ ↦ rfl)
          (h.enter sim))
  | .ifThen condition thenBranch elseBranch =>
      rw [Stmt.nodes, List.forall_mem_cons, List.forall_mem_append,
        List.forall_mem_append] at hnames
      obtain ⟨-, hcondition, hthen, helse⟩ := hnames
      rw [Stmt.declares, Bool.or_eq_true] at hopened
      apply (sim.matched_stateEval condition hcondition h).andThen
      intro value state state' h
      split
      · exact matched_run? sim hroom bound thenBranch opened _ _ hthen (fun h ↦ hopened (.inl h)) h
      · exact matched_run? sim hroom bound elseBranch opened _ _ helse (fun h ↦ hopened (.inr h)) h
  | .whileLoop condition body =>
      rw [Stmt.nodes, List.forall_mem_cons, List.forall_mem_append] at hnames
      rw [Stmt.declares] at hopened
      exact sim.matched_loop hnames.2.1 (List.forall_mem_nil _)
        (fun _ _ h ↦ matched_run? sim hroom bound body opened _ _ hnames.2.2 hopened h) bound h
  | .forLoop initializer condition increment body =>
      rw [Stmt.nodes, List.forall_mem_cons, List.forall_mem_append, List.forall_mem_append,
        List.forall_mem_append] at hnames
      obtain ⟨-, hinitializer, hcondition, hincrement, hbody⟩ := hnames
      rw [Stmt.run, Stmt.run]
      refine sim.matched_inScope h (extends_forLoop ..) (extends_forLoop ..) ?_
      apply (matched_runAll sim hroom bound initializer _ _ hinitializer (h.enter sim)).andThen
      intro _ inside inside' h
      exact sim.matched_loop hcondition hincrement
        (fun _ _ h ↦ matched_run? sim hroom bound body true _ _ hbody (fun _ ↦ rfl) h) bound h
  | .breakLoop span => exact .done _ h
  | .continueLoop span => exact .done _ h

theorem matched_run? (sim : Simulation names related) (hroom : left.room = right.room) (bound : Nat)
    (statement : Option Stmt) (opened : Bool) (state state' : State)
    (hnames : ∀ node ∈ Stmt.nodes? statement, node.names ⊆ names)
    (hopened : Stmt.declares? statement = true → opened = true)
    (h : Relates related left right opened state state') :
    (Stmt.run? bound statement state).Matched (Relates related left right opened)
      (Stmt.run? bound statement state') := by
  match statement with
  | none => exact .done _ h
  | some statement => exact matched_run sim hroom bound statement opened _ _ hnames hopened h

theorem matched_runBlock (sim : Simulation names related) (hroom : left.room = right.room)
    (bound : Nat) (statements : List Stmt) (opened : Bool) (state state' : State)
    (hnames : ∀ node ∈ Stmt.nodesAll statements, node.names ⊆ names)
    (hopened : ∀ statement ∈ statements, statement.declares = true → opened = true)
    (h : Relates related left right opened state state') :
    (Stmt.runBlock bound statements state).Matched (Relates related left right opened)
      (Stmt.runBlock bound statements state') := by
  match statements with
  | [] => exact .done _ h
  | statement :: statements =>
      rw [Stmt.nodesAll_cons, List.forall_mem_append] at hnames
      rw [List.forall_mem_cons] at hopened
      apply (matched_run sim hroom bound statement opened _ _ hnames.1 hopened.1 h).andThen
      intro flow state state' h
      split
      · exact matched_runBlock sim hroom bound statements opened _ _ hnames.2 hopened.2 h
      · exact .done _ h

theorem matched_runAll (sim : Simulation names related) (hroom : left.room = right.room)
    (bound : Nat) (statements : List Stmt) (state state' : State)
    (hnames : ∀ node ∈ Stmt.nodesAll statements, node.names ⊆ names)
    (h : Relates related left right true state state') :
    (Stmt.runAll bound statements state).Matched (Relates related left right true)
      (Stmt.runAll bound statements state') := by
  match statements with
  | [] => exact .done _ h
  | statement :: statements =>
      rw [Stmt.nodesAll_cons, List.forall_mem_append] at hnames
      apply (matched_run sim hroom bound statement true _ _ hnames.1 (fun _ ↦ rfl) h).andThen
      intro flow state state' h
      exact matched_runAll sim hroom bound statements _ _ hnames.2 h
end

theorem matched_runProgram (sim : Simulation names related) (hroom : left.room = right.room)
    (bound : Nat) (statements : List Stmt)
    (hnames : ∀ node ∈ Stmt.nodesAll statements, node.names ⊆ names)
    (h : Relates related left right true state state') :
    (runProgram bound statements state).Matched (Relates related left right true)
      (runProgram bound statements state') := by
  induction statements generalizing state state' with
  | nil => exact .done _ h
  | cons statement statements ih =>
      rw [Stmt.nodesAll_cons, List.forall_mem_append] at hnames
      rw [runProgram, runProgram, Stmt.runOuter, Stmt.runOuter]
      have hrun := matched_run sim hroom bound statement true _ _ hnames.1 (fun _ ↦ rfl) h
      refine (hrun.andThen fun flow state state' h ↦ ?_).andThen fun _ _ _ h ↦ ih hnames.2 h
      cases flow with
      | normal => exact .done _ h
      | breaking => exact .failed _ h
      | continuing => exact .failed _ h

end Simulation

end Sigil
