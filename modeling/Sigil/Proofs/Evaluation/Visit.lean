import Sigil.Proofs.Evaluation.Outcome
import Sigil.Proofs.Tree.Nodes

/-!
# What a run visits

Evaluating and running go from a node to the nodes right inside it, and visit each in the
state that has come up by then: the right operand is evaluated where the left one has
left off, a statement of a block is run where those before it have.  These steps lead
from a program to everything that is evaluated in a run of it, with the environment it
is evaluated in.
-/

namespace Sigil

/-- The rounds of a loop that lead from one state to another have all asked for the next one. -/
inductive AfterRounds (round : State → Run Bool) : State → State → Prop
  | start {state : State} : AfterRounds round state state
  | next {state between after : State} (hround : round state = .done true between)
      (hrounds : AfterRounds round between after) : AfterRounds round state after

/-- What one round of a loop visits. -/
inductive RoundVisits (bound : Nat) (condition : Expr) (body : Option Stmt)
    (increment : Option Expr) (state : State) : Node → State → Prop
  | condition : RoundVisits bound condition body increment state (.expr condition) state
  | body {statement : Stmt} {value : Value} {inside : State} (hbody : body = some statement)
      (hcondition : state.eval condition = .done value inside) (hvalue : value.truthy = true) :
      RoundVisits bound condition body increment state (.stmt statement) inside
  | increment {expr : Expr} {value : Value} {flow : Flow} {inside after : State}
      (hincrement : increment = some expr) (hcondition : state.eval condition = .done value inside)
      (hvalue : value.truthy = true) (hbody : Stmt.run? bound body inside = .done flow after)
      (hflow : flow ≠ .breaking) :
      RoundVisits bound condition body increment state (.expr expr) after

/-- From a node in a state, a run goes on to a node right inside it, in the state that has come up
by then. -/
inductive Descends (bound : Nat) : Node → State → Node → State → Prop
  | assigned {name : String} {span : Span} {value : Expr} {timing : Timing} {state : State} :
      Descends bound (.expr (.assign name span value timing)) state (.expr value) state
  | logicalLeft {left right : Expr} {op : LogicalOperator} {span : Span} {state : State} :
      Descends bound (.expr (.logical left op right span)) state (.expr left) state
  | logicalRight {left right : Expr} {op : LogicalOperator} {span : Span} {state inside : State}
      {value : Value} (hleft : state.eval left = .done value inside)
      (hop : op.decidedBy value = false) :
      Descends bound (.expr (.logical left op right span)) state (.expr right) inside
  | test {condition left right : Expr} {state : State} :
      Descends bound (.expr (.conditional condition left right)) state (.expr condition) state
  | consequent {condition left right : Expr} {state inside : State} {value : Value}
      (hcondition : state.eval condition = .done value inside) (hvalue : value.truthy = true) :
      Descends bound (.expr (.conditional condition left right)) state (.expr left) inside
  | alternative {condition left right : Expr} {state inside : State} {value : Value}
      (hcondition : state.eval condition = .done value inside) (hvalue : value.truthy = false) :
      Descends bound (.expr (.conditional condition left right)) state (.expr right) inside
  | binaryLeft {left right : Expr} {op : BinaryOperator} {span : Span} {state : State} :
      Descends bound (.expr (.binary left op right span)) state (.expr left) state
  | binaryRight {left right : Expr} {op : BinaryOperator} {span : Span} {state inside : State}
      {value : Value} (hleft : state.eval left = .done value inside) :
      Descends bound (.expr (.binary left op right span)) state (.expr right) inside
  | operand {op : UnaryOperator} {operand : Expr} {span : Span} {state : State}
      (hop : op.step? = none) :
      Descends bound (.expr (.unary op operand span)) state (.expr operand) state
  | grouped {inner : Expr} {state : State} :
      Descends bound (.expr (.grouping inner)) state (.expr inner) state
  | expression {expr : Expr} {state : State} :
      Descends bound (.stmt (.expression expr)) state (.expr expr) state
  | console {expr : Expr} {state : State} :
      Descends bound (.stmt (.console expr)) state (.expr expr) state
  | initializer {name : String} {span : Span} {expr : Expr} {mutability : Mutability}
      {state : State} :
      Descends bound (.stmt (.declaration name span (some expr) mutability)) state (.expr expr)
        state
  | block {front back : List Stmt} {statement : Stmt} {state inside : State}
      (hfront : Stmt.runBlock bound front state.enter = .done .normal inside) :
      Descends bound (.stmt (.block (front ++ statement :: back))) state (.stmt statement) inside
  | condition {condition : Expr} {thenBranch elseBranch : Option Stmt} {state : State} :
      Descends bound (.stmt (.ifThen condition thenBranch elseBranch)) state (.expr condition)
        state
  | thenBranch {condition : Expr} {statement : Stmt} {elseBranch : Option Stmt}
      {state inside : State} {value : Value}
      (hcondition : state.eval condition = .done value inside) (hvalue : value.truthy = true) :
      Descends bound (.stmt (.ifThen condition (some statement) elseBranch)) state
        (.stmt statement) inside
  | elseBranch {condition : Expr} {thenBranch : Option Stmt} {statement : Stmt}
      {state inside : State} {value : Value}
      (hcondition : state.eval condition = .done value inside) (hvalue : value.truthy = false) :
      Descends bound (.stmt (.ifThen condition thenBranch (some statement))) state
        (.stmt statement) inside
  | whileLoop {condition : Expr} {body : Option Stmt} {state before inside : State} {node : Node}
      (hrounds : AfterRounds (loopRound condition (Stmt.run? bound body) none) state before)
      (hround : RoundVisits bound condition body none before node inside) :
      Descends bound (.stmt (.whileLoop condition body)) state node inside
  | forInitializer {front back : List Stmt} {statement : Stmt} {condition : Expr}
      {increment : Option Expr} {body : Option Stmt} {state inside : State}
      (hfront : Stmt.runAll bound front state.enter = .done () inside) :
      Descends bound (.stmt (.forLoop (front ++ statement :: back) condition increment body)) state
        (.stmt statement) inside
  | forLoop {initializer : List Stmt} {condition : Expr} {increment : Option Expr}
      {body : Option Stmt} {state start before inside : State} {node : Node}
      (hinitializer : Stmt.runAll bound initializer state.enter = .done () start)
      (hrounds : AfterRounds (loopRound condition (Stmt.run? bound body) increment) start before)
      (hround : RoundVisits bound condition body increment before node inside) :
      Descends bound (.stmt (.forLoop initializer condition increment body)) state node inside

/-- A run that starts with a node visits another one, in a state. -/
inductive Visits (bound : Nat) : Node → State → Node → State → Prop
  | here {node : Node} {state : State} : Visits bound node state node state
  | descend {node inner goal : Node} {state inside moment : State}
      (hdescends : Descends bound node state inner inside)
      (hvisits : Visits bound inner inside goal moment) : Visits bound node state goal moment

/-- A run of a program visits a node in a state. -/
def ProgramVisits (bound : Nat) (statements : List Stmt) (state : State) (goal : Node)
    (moment : State) : Prop :=
  ∃ front statement back before, statements = front ++ statement :: back ∧
    runProgram bound front state = .done () before ∧
    Visits bound (.stmt statement) before goal moment

/-! ### Nodes that are visited -/

section Nodes

variable {bound : Nat} {node inner goal : Node} {state inside moment : State}

/-- A node and everything inside it. -/
def Node.nodes : Node → List Node
  | .expr e => e.nodes
  | .stmt s => s.nodes

theorem Node.mem_nodes (node : Node) : node ∈ node.nodes := by
  cases node with
  | expr e => exact e.mem_nodes
  | stmt s => exact s.mem_nodes

theorem RoundVisits.nodes_subset {condition : Expr} {body : Option Stmt} {increment : Option Expr}
    (h : RoundVisits bound condition body increment state inner inside) :
    inner.nodes ⊆ condition.nodes ++ (Expr.nodes? increment ++ Stmt.nodes? body) := by
  intro node hnode
  rw [List.mem_append, List.mem_append]
  cases h with
  | condition => exact .inl hnode
  | body hbody =>
      subst hbody
      exact .inr (.inr hnode)
  | increment hincrement =>
      subst hincrement
      exact .inr (.inl hnode)

theorem Descends.nodes_subset (h : Descends bound node state inner inside) :
    inner.nodes ⊆ node.nodes := by
  intro found hfound
  cases h with
  | whileLoop hrounds hround =>
      have hmem := hround.nodes_subset hfound
      simp only [Node.nodes, Stmt.nodes]
      rw [Expr.nodes?, List.nil_append] at hmem
      exact .tail _ hmem
  | forLoop hinitializer hrounds hround =>
      have hmem := hround.nodes_subset hfound
      simp only [Node.nodes, Stmt.nodes]
      exact .tail _ (List.mem_append_right _ hmem)
  | _ => simp_all [Node.nodes, Expr.nodes, Stmt.nodes, Expr.nodes?, Stmt.nodes?]

theorem Visits.nodes_subset (h : Visits bound node state goal moment) :
    goal.nodes ⊆ node.nodes := by
  induction h with
  | here => exact List.Subset.refl _
  | descend hdescends _ ih => exact List.Subset.trans ih hdescends.nodes_subset

theorem ProgramVisits.mem_nodesAll {statements : List Stmt}
    (h : ProgramVisits bound statements state goal moment) : goal ∈ Stmt.nodesAll statements := by
  obtain ⟨front, statement, back, before, rfl, -, hvisits⟩ := h
  have hmem := hvisits.nodes_subset goal.mem_nodes
  rw [Stmt.nodesAll_append, Stmt.nodesAll_cons, List.mem_append, List.mem_append]
  exact .inr (.inl hmem)

end Nodes

/-! ### Where runs fail -/

section Failures

variable {α β : Type} {e : RuntimeError} {state after : State} {bound : Nat}

theorem Evaluated.andThen_eq_error_iff {evaluated : Evaluated α}
    {next : α → Environment → Evaluated β} {env : Environment} :
    evaluated.andThen next = .error e env ↔
      evaluated = .error e env ∨ ∃ a between, evaluated = .value a between ∧
        next a between = .error e env := by
  cases evaluated <;> simp [and_assoc]

theorem Evaluated.ofExcept_eq_error_iff {result : Except RuntimeError α} {env env' : Environment} :
    ofExcept env result = .error e env' ↔ result = .error e ∧ env' = env := by
  cases result <;> simp [ofExcept, eq_comm]

theorem Run.andThen_eq_failed_iff {run : Run α} {next : α → State → Run β} :
    run.andThen next = .failed e after ↔
      run = .failed e after ∨ ∃ a between, run = .done a between ∧
        next a between = .failed e after := by
  cases run <;> simp [and_assoc]

theorem Run.mapState_eq_failed_iff {run : Run α} {f : State → State} :
    run.mapState f = .failed e after ↔ ∃ inside, run = .failed e inside ∧ f inside = after := by
  cases run <;> simp [mapState, and_assoc]

theorem State.eval_eq_failed_iff {expr : Expr} :
    state.eval expr = .failed e after ↔
      ∃ env, expr.eval state.environment = .error e env ∧
        after = { state with environment := env } := by
  rw [eval]
  cases expr.eval state.environment <;> simp [eq_comm, and_assoc]

theorem State.eval_of_eq_value {expr : Expr} {value : Value} {env : Environment}
    (h : expr.eval state.environment = .value value env) :
    state.eval expr = .done value { state with environment := env } := by
  rw [eval, h]

/-- A loop that fails does so in a round before which all have asked for the next one. -/
theorem exists_round_of_failed {round : State → Run Bool}
    (h : rounds round bound state = .failed e after) :
    ∃ before, AfterRounds round state before ∧ round before = .failed e after := by
  induction bound generalizing state with
  | zero => cases h
  | succ bound ih =>
      rw [rounds] at h
      cases hround : round state with
      | done again between =>
          rw [hround] at h
          cases again with
          | false => cases h
          | true =>
              obtain ⟨before, hrounds, hfailed⟩ := ih h
              exact ⟨before, .next hround hrounds, hfailed⟩
      | failed e' after' =>
          rw [hround] at h
          cases h
          exact ⟨state, .start, hround⟩
      | unfinished =>
          rw [hround] at h
          cases h

/-- A program that fails does so in a statement before which all have ended, or as a signal
escapes. -/
theorem exists_statement_of_failed {statements : List Stmt}
    (h : runProgram bound statements state = .failed e after) :
    ∃ front statement back before, statements = front ++ statement :: back ∧
      runProgram bound front state = .done () before ∧
      statement.runOuter bound before = .failed e after := by
  induction statements generalizing state with
  | nil => cases h
  | cons statement statements ih =>
      rw [runProgram] at h
      rcases Run.andThen_eq_failed_iff.mp h with hfailed | ⟨_, between, hdone, hrest⟩
      · exact ⟨[], statement, statements, state, rfl, rfl, hfailed⟩
      · obtain ⟨front, other, back, before, rfl, hfront, hfailed⟩ := ih hrest
        refine ⟨statement :: front, other, back, before, rfl, ?_, hfailed⟩
        rw [runProgram, hdone, Run.andThen_done, hfront]

end Failures

end Sigil
