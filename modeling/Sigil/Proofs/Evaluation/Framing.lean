import Sigil.Proofs.Evaluation.Outcome
import Sigil.Proofs.Evaluation.Template
import Sigil.Proofs.Value.Refusal

/-!
# From single operations to whole runs

Evaluating and running change an environment by a few operations: a name is assigned,
a variable is updated, a name is bound, a scope is entered and left.  A relation
between the environment before and the one after that each of these respects holds
between the beginning and the end of every run, and a relation that each of their
errors respects holds of the error with which a run fails.  What the operations are
used on is known from the nodes of the tree, of which a property may be assumed.
-/

namespace Sigil

/-- The relation `rel` holds between the environments before and after each operation that nodes
with the property `p` lead to, and `bad` between them where the operation fails. -/
structure Framing (p : Node → Prop) (rel : Environment → Environment → Prop)
    (bad : RuntimeError → Environment → Environment → Prop) : Prop where
  refl : ∀ env, rel env env
  trans : ∀ {env env' env''}, rel env env' → rel env' env'' → rel env env''
  later : ∀ {e env env' env''}, rel env env' → bad e env' env'' → bad e env env''
  reference : ∀ {name span e env}, p (.expr (.reference name span)) → env.get name = .error e →
    bad e env env
  assign : ∀ {name span value timing} (env : Environment) (stored : Value),
    p (.expr (.assign name span value timing)) →
    (env.assignTimed name stored timing).Ensures (fun _ ↦ rel env) (fun e ↦ bad e env)
  update : ∀ {op operand span step} (env : Environment),
    (∀ node ∈ (Expr.unary op operand span).nodes, p node) → op.step? = some step →
    (env.update step operand).Ensures (fun _ ↦ rel env) (fun e ↦ bad e env)
  refusal : ∀ {e} (env : Environment), e.isRefusal = true → bad e env env
  define : ∀ {name span initializer mutability value env env'},
    p (.stmt (.declaration name span initializer mutability)) →
    env.define name mutability value = .ok env' → rel env env'
  redefine : ∀ {name span initializer mutability} (env : Environment),
    p (.stmt (.declaration name span initializer mutability)) → bad (.redeclared name) env env
  output : ∀ env, bad (.output Channel.refusal) env env
  scope : ∀ {env env'}, rel env.enter env' → rel env (env'.restore env.current)
  scopeError : ∀ {e env env'}, bad e env.enter env' → bad e env (env'.restore env.current)

namespace Framing

variable {p : Node → Prop} {rel : Environment → Environment → Prop}
  {bad : RuntimeError → Environment → Environment → Prop} {start : Environment} {state : State}

/-! ### Expressions -/

theorem ensures_eval (framing : Framing p rel bad) (expr : Expr) (env : Environment)
    (h : ∀ node ∈ expr.nodes, p node) (hstart : rel start env) :
    (expr.eval env).Ensures (fun _ ↦ rel start) (fun e ↦ bad e start) := by
  have hself := h _ expr.mem_nodes
  match expr with
  | .literal value => exact hstart
  | .template text =>
      rw [Expr.eval_template]
      exact hstart
  | .reference name span =>
      exact Evaluated.ensures_ofExcept (fun _ _ ↦ hstart)
        (fun _ he ↦ framing.later hstart (framing.reference hself he))
  | .grouping inner =>
      rw [Expr.nodes, List.forall_mem_cons] at h
      exact framing.ensures_eval inner env h.2 hstart
  | .assign name span value timing =>
      rw [Expr.nodes, List.forall_mem_cons] at h
      apply (framing.ensures_eval value env h.2 hstart).andThen
      intro stored env hstart
      exact (framing.assign env stored hself).mono (fun _ _ ↦ framing.trans hstart)
        (fun _ _ ↦ framing.later hstart)
  | .logical left op right span =>
      rw [Expr.nodes, List.forall_mem_cons, List.forall_mem_append] at h
      apply (framing.ensures_eval left env h.2.1 hstart).andThen
      intro value env hstart
      split
      · exact hstart
      · exact framing.ensures_eval right env h.2.2 hstart
  | .conditional condition left right =>
      rw [Expr.nodes, List.forall_mem_cons, List.forall_mem_append, List.forall_mem_append] at h
      apply (framing.ensures_eval condition env h.2.1 hstart).andThen
      intro value env hstart
      split
      · exact framing.ensures_eval left env h.2.2.1 hstart
      · exact framing.ensures_eval right env h.2.2.2 hstart
  | .binary left op right span =>
      rw [Expr.nodes, List.forall_mem_cons, List.forall_mem_append] at h
      apply (framing.ensures_eval left env h.2.1 hstart).andThen
      intro leftValue env hstart
      apply (framing.ensures_eval right env h.2.2 hstart).andThen
      intro rightValue env hstart
      refine Evaluated.ensures_ofExcept (fun _ _ ↦ hstart) (fun _ he ↦ ?_)
      exact framing.later hstart (framing.refusal env (BinaryOperator.isRefusal_of_apply he))
  | .unary op operand span =>
      rw [Expr.eval]
      split
      · rename_i step hstep
        exact (framing.update env h hstep).mono (fun _ _ ↦ framing.trans hstart)
          (fun _ _ ↦ framing.later hstart)
      · rename_i hstep
        rw [Expr.nodes, List.forall_mem_cons] at h
        apply (framing.ensures_eval operand env h.2 hstart).andThen
        intro value env hstart
        refine Evaluated.ensures_ofExcept (fun _ _ ↦ hstart) (fun e he ↦ ?_)
        -- An operator with a step would be an update, which has been dealt with.
        rcases UnaryOperator.isRefusal_of_apply he with hrefusal | ⟨hsome, -⟩
        · exact framing.later hstart (framing.refusal env hrefusal)
        · rw [hstep] at hsome
          cases hsome

/-! ### Statements -/

/-- However a run ends, the environment before it and the one after it are related. -/
abbrev Frames (rel : Environment → Environment → Prop)
    (bad : RuntimeError → Environment → Environment → Prop) (start : Environment) {α : Type}
    (run : Run α) : Prop :=
  run.Ensures (fun _ after ↦ rel start after.environment)
    (fun e after ↦ bad e start after.environment)

theorem frames_eval (framing : Framing p rel bad) (expr : Expr) (state : State)
    (h : ∀ node ∈ expr.nodes, p node) (hstart : rel start state.environment) :
    Frames rel bad start (state.eval expr) :=
  State.ensures_eval (framing.ensures_eval expr state.environment h hstart)

theorem frames_eval? (framing : Framing p rel bad) (expr : Option Expr) (state : State)
    (h : ∀ node ∈ Expr.nodes? expr, p node) (hstart : rel start state.environment) :
    Frames rel bad start (state.eval? expr) := by
  cases expr with
  | none => exact hstart
  | some expr => exact framing.frames_eval expr state h hstart

theorem frames_loop (framing : Framing p rel bad) {condition : Expr} {increment : Option Expr}
    {body : State → Run Flow} (hcondition : ∀ node ∈ condition.nodes, p node)
    (hincrement : ∀ node ∈ Expr.nodes? increment, p node)
    (hbody : ∀ state : State, rel start state.environment → Frames rel bad start (body state))
    (bound : Nat) (hstart : rel start state.environment) :
    Frames rel bad start (rounds (loopRound condition body increment) bound state) := by
  have hround : ∀ state : State, rel start state.environment →
      Frames rel bad start (loopRound condition body increment state) := by
    intro state hstart
    exact ensures_loopRound (fun state h ↦ framing.frames_eval condition state hcondition h) hbody
      (fun state h ↦ framing.frames_eval? increment state hincrement h) hstart
  exact (ensures_rounds hround hstart).mono (fun _ _ h ↦ h.2) (fun _ _ h ↦ h)

/-- What is run in a scope of its own is related to the environment around it. -/
theorem frames_inScope (framing : Framing p rel bad) {α : Type} {body : State → Run α}
    (hstart : rel start state.environment)
    (hbody : Frames rel bad state.enter.environment (body state.enter)) :
    Frames rel bad start (state.inScope body) :=
  hbody.mapState (fun _ _ h ↦ framing.trans hstart (framing.scope h))
    (fun _ _ h ↦ framing.later hstart (framing.scopeError h))

mutual
theorem frames_run (framing : Framing p rel bad) (bound : Nat) (statement : Stmt) (state : State)
    (start : Environment) (h : ∀ node ∈ statement.nodes, p node)
    (hstart : rel start state.environment) :
    Frames rel bad start (statement.run bound state) := by
  have hself := h _ statement.mem_nodes
  match statement with
  | .expression expr =>
      rw [Stmt.nodes, List.forall_mem_cons] at h
      exact (framing.frames_eval expr state h.2 hstart).andThen fun _ _ h ↦ h
  | .console expr =>
      rw [Stmt.nodes, List.forall_mem_cons] at h
      apply (framing.frames_eval expr state h.2 hstart).andThen
      intro value state hstart
      refine (state.ensures_print value.display).mono (fun _ after h ↦ ?_) (fun e after h ↦ ?_)
      · rwa [h.2]
      · rw [h.1, h.2]
        exact framing.later hstart (framing.output _)
  | .declaration name span initializer mutability =>
      rw [Stmt.nodes, List.forall_mem_cons] at h
      apply (framing.frames_eval? initializer state h.2 hstart).andThen
      intro value state hstart
      refine (state.ensures_define name mutability value).mono (fun _ after h ↦ ?_)
        (fun e after h ↦ ?_)
      · exact framing.trans hstart (framing.define hself h.2)
      · rw [h.1, h.2]
        exact framing.later hstart (framing.redefine _ hself)
  | .block statements =>
      rw [Stmt.nodes, List.forall_mem_cons] at h
      exact framing.frames_inScope hstart
        (framing.frames_runBlock bound statements state.enter _ h.2 (framing.refl _))
  | .ifThen condition thenBranch elseBranch =>
      rw [Stmt.nodes, List.forall_mem_cons, List.forall_mem_append, List.forall_mem_append] at h
      apply (framing.frames_eval condition state h.2.1 hstart).andThen
      intro value state hstart
      split
      · exact framing.frames_run? bound thenBranch state start h.2.2.1 hstart
      · exact framing.frames_run? bound elseBranch state start h.2.2.2 hstart
  | .whileLoop condition body =>
      rw [Stmt.nodes, List.forall_mem_cons, List.forall_mem_append] at h
      exact framing.frames_loop h.2.1 (List.forall_mem_nil _)
        (fun state hstart ↦ framing.frames_run? bound body state start h.2.2 hstart) bound hstart
  | .forLoop initializer condition increment body =>
      rw [Stmt.nodes, List.forall_mem_cons, List.forall_mem_append, List.forall_mem_append,
        List.forall_mem_append] at h
      obtain ⟨-, hinitializer, hcondition, hincrement, hbody⟩ := h
      rw [Stmt.run]
      refine framing.frames_inScope hstart ?_
      apply (framing.frames_runAll bound initializer state.enter _ hinitializer
        (framing.refl _)).andThen
      intro _ inside hinside
      exact framing.frames_loop hcondition hincrement
        (fun inside hinside ↦ framing.frames_run? bound body inside _ hbody hinside) bound hinside
  | .breakLoop span => exact hstart
  | .continueLoop span => exact hstart

theorem frames_run? (framing : Framing p rel bad) (bound : Nat) (statement : Option Stmt)
    (state : State) (start : Environment) (h : ∀ node ∈ Stmt.nodes? statement, p node)
    (hstart : rel start state.environment) :
    Frames rel bad start (Stmt.run? bound statement state) := by
  match statement with
  | none => exact hstart
  | some statement => exact framing.frames_run bound statement state start h hstart

theorem frames_runBlock (framing : Framing p rel bad) (bound : Nat) (statements : List Stmt)
    (state : State) (start : Environment) (h : ∀ node ∈ Stmt.nodesAll statements, p node)
    (hstart : rel start state.environment) :
    Frames rel bad start (Stmt.runBlock bound statements state) := by
  match statements with
  | [] => exact hstart
  | statement :: statements =>
      rw [Stmt.nodesAll_cons, List.forall_mem_append] at h
      apply (framing.frames_run bound statement state start h.1 hstart).andThen
      intro flow state hstart
      split
      · exact framing.frames_runBlock bound statements state start h.2 hstart
      · exact hstart

theorem frames_runAll (framing : Framing p rel bad) (bound : Nat) (statements : List Stmt)
    (state : State) (start : Environment) (h : ∀ node ∈ Stmt.nodesAll statements, p node)
    (hstart : rel start state.environment) :
    Frames rel bad start (Stmt.runAll bound statements state) := by
  match statements with
  | [] => exact hstart
  | statement :: statements =>
      rw [Stmt.nodesAll_cons, List.forall_mem_append] at h
      apply (framing.frames_run bound statement state start h.1 hstart).andThen
      intro flow state hstart
      exact framing.frames_runAll bound statements state start h.2 hstart
end

/-- A program may also fail because a signal has escaped. -/
theorem frames_runProgram (framing : Framing p rel bad)
    (hbreak : ∀ env, bad .escapedBreak env env) (hcontinue : ∀ env, bad .escapedContinue env env)
    (bound : Nat) (statements : List Stmt) (state : State)
    (h : ∀ node ∈ Stmt.nodesAll statements, p node) (hstart : rel start state.environment) :
    Frames rel bad start (runProgram bound statements state) := by
  induction statements generalizing state with
  | nil => exact hstart
  | cons statement statements ih =>
      rw [Stmt.nodesAll_cons, List.forall_mem_append] at h
      have houter : Frames rel bad start (statement.runOuter bound state) := by
        apply (framing.frames_run bound statement state start h.1 hstart).andThen
        intro flow state hstart
        cases flow with
        | normal => exact hstart
        | breaking => exact framing.later hstart (hbreak _)
        | continuing => exact framing.later hstart (hcontinue _)
      exact houter.andThen fun _ state hstart ↦ ih state h.2 hstart

end Framing

end Sigil
