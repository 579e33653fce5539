import Sigil.Proofs.Evaluation.Template
import Sigil.Proofs.Evaluation.Visit
import Sigil.Proofs.Syntax.WellFormed
import Sigil.Proofs.Value.Refusal

/-!
# Updates of what is no number

In a tree that has been read, the operand of a prefix update is a variable.  So the
error that a numeric variable was expected has one reason: a run has come to an update
of a variable that is bound, right then, to a value that is no number.  The branch for
other operands is never taken.
-/

namespace Sigil

theorem RuntimeError.ne_of_isNameError {e : RuntimeError} (h : e.isNameError = true) :
    e ≠ .expectedNumericVariable := by
  rintro rfl
  cases h

namespace Environment

variable {env : Environment} {name : String}

/-- The name is bound to a value that is no number. -/
def HoldsNoNumber (env : Environment) (name : String) : Prop :=
  ∃ value, env.get name = .ok value ∧ ∀ x, value ≠ .number x

/-- An update of a variable fails for want of a number exactly if the variable holds another
value. -/
theorem update_eq_error_iff {step : Float} {span : Span} {after : Environment} :
    env.update step (.reference name span) = .error .expectedNumericVariable after ↔
      after = env ∧ env.HoldsNoNumber name := by
  rw [update]
  cases hget : env.get name with
  | error e =>
      have hne : e ≠ .expectedNumericVariable :=
        RuntimeError.ne_of_isNameError (isNameError_of_get hget)
      simp [HoldsNoNumber, hget, hne]
  | ok value =>
      cases value with
      | number x =>
          have hyield := env.nameError_assignYielding name (.number (x + step))
            (.number (x + step))
          simp only [HoldsNoNumber, hget]
          constructor
          · intro h
            rw [h] at hyield
            cases hyield
          · rintro ⟨-, value, hvalue, hne⟩
            cases hvalue
            exact absurd rfl (hne x)
      | _ => simp [HoldsNoNumber, hget, eq_comm]

end Environment

theorem UnaryOperator.updates_iff_step? (op : UnaryOperator) :
    op.updates = true ↔ ∃ step, op.step? = some step := by
  cases op <;> simp [updates, step?]

theorem Expr.exists_reference_of_isReference {expr : Expr} (h : expr.isReference = true) :
    ∃ name span, expr = .reference name span := by
  cases expr with
  | reference name span => exact ⟨name, span, rfl⟩
  | _ => cases h

/-! ### Where the error comes from -/

/-- The first of two states has the output of the second, and scopes of it: some may have been
left. -/
structure State.LeftFrom (after moment : State) : Prop where
  output : after.output = moment.output
  scopes : after.environment.scopes <+: moment.environment.scopes

theorem State.LeftFrom.restore {after moment : State} (h : after.LeftFrom moment) (scope : Nat) :
    (after.restore scope).LeftFrom moment :=
  ⟨h.output, (List.take_prefix _ _).trans h.scopes⟩

/-- A run that starts with a node comes to an update of a variable that holds no number right then,
and ends as that leaves it. -/
def Refuses (bound : Nat) (node : Node) (state after : State) : Prop :=
  ∃ op name place span moment,
    Visits bound node state (.expr (.unary op (.reference name place) span)) moment ∧
      op.updates = true ∧ moment.environment.HoldsNoNumber name ∧ after.LeftFrom moment

section Refusals

variable {bound : Nat} {tokens : List Token} {node inner : Node} {state inside after : State}

theorem Refuses.of_descends (hdescends : Descends bound node state inner inside)
    (h : Refuses bound inner inside after) : Refuses bound node state after := by
  obtain ⟨op, name, place, span, moment, hvisits, hrefused⟩ := h
  exact ⟨op, name, place, span, moment, .descend hdescends hvisits, hrefused⟩

theorem Refuses.restore (h : Refuses bound node state after) (scope : Nat) :
    Refuses bound node state (after.restore scope) := by
  obtain ⟨op, name, place, span, moment, hvisits, hop, hholds, hleft⟩ := h
  exact ⟨op, name, place, span, moment, hvisits, hop, hholds, hleft.restore scope⟩

theorem Descends.wellFormed (h : Descends bound node state inner inside)
    (hnodes : ∀ found ∈ node.nodes, found.WellFormed tokens) :
    ∀ found ∈ inner.nodes, found.WellFormed tokens :=
  fun found hfound ↦ hnodes found (h.nodes_subset hfound)

/-- The update itself fails.  The node is well formed, so its operand is a variable. -/
theorem refuses_update {op : UnaryOperator} {operand : Expr} {span : Span} {step : Float}
    {env : Environment} (hstep : op.step? = some step)
    (hnodes : ∀ found ∈ (Expr.unary op operand span).nodes, found.WellFormed tokens)
    (h : state.environment.update step operand = .error .expectedNumericVariable env) :
    Refuses bound (.expr (.unary op operand span)) state { state with environment := env } := by
  have hop : op.updates = true := op.updates_iff_step?.mpr ⟨step, hstep⟩
  obtain ⟨name, place, rfl⟩ :=
    Expr.exists_reference_of_isReference (hnodes _ (Expr.mem_nodes _) hop)
  obtain ⟨rfl, hholds⟩ := Environment.update_eq_error_iff.mp h
  exact ⟨op, name, place, span, state, .here, hop, hholds, rfl, List.prefix_rfl⟩

theorem ne_of_isRefusal {e : RuntimeError} (h : e.isRefusal = true) :
    e ≠ .expectedNumericVariable := by
  rintro rfl
  cases h

theorem Environment.assignTimed_ne_error {env after : Environment} {name : String}
    {stored : Value} {timing : Timing} :
    env.assignTimed name stored timing ≠ .error .expectedNumericVariable after := by
  intro h
  have hname := env.nameError_assignTimed name stored timing
  rw [h] at hname
  exact RuntimeError.ne_of_isNameError hname rfl

/-- An expression whose evaluation fails so comes to such an update. -/
theorem Expr.refuses_of_eval (bound : Nat) (expr : Expr) (state : State) (env : Environment)
    (hnodes : ∀ found ∈ expr.nodes, found.WellFormed tokens)
    (h : expr.eval state.environment = .error .expectedNumericVariable env) :
    Refuses bound (.expr expr) state { state with environment := env } := by
  -- Going down to a node inside, in the state that an earlier value has left.
  have descend {inner : Expr} {between : Environment}
      (hdescends : Descends bound (.expr expr) state (.expr inner)
        { state with environment := between })
      (hinner : (∀ found ∈ inner.nodes, found.WellFormed tokens) →
        Refuses bound (.expr inner) { state with environment := between }
          { state with environment := env }) :
      Refuses bound (.expr expr) state { state with environment := env } :=
    (hinner (hdescends.wellFormed hnodes)).of_descends hdescends
  match expr with
  | .literal value => cases h
  | .template text =>
      rw [Expr.eval_template] at h
      cases h
  | .reference name span =>
      have hget := (Evaluated.ofExcept_eq_error_iff.mp h).1
      exact absurd rfl (RuntimeError.ne_of_isNameError (Environment.isNameError_of_get hget))
  | .grouping inner =>
      exact descend .grouped fun hnodes ↦ inner.refuses_of_eval bound state env hnodes h
  | .assign name span value timing =>
      rcases Evaluated.andThen_eq_error_iff.mp h with hvalue | ⟨stored, between, hvalue, hassign⟩
      · exact descend .assigned fun hnodes ↦ value.refuses_of_eval bound state env hnodes hvalue
      · exact absurd hassign Environment.assignTimed_ne_error
  | .logical left op right span =>
      rcases Evaluated.andThen_eq_error_iff.mp h with hleft | ⟨value, between, hleft, h⟩
      · exact descend .logicalLeft fun hnodes ↦ left.refuses_of_eval bound state env hnodes hleft
      · split at h
        · cases h
        · rename_i hop
          exact descend (.logicalRight (State.eval_of_eq_value hleft) (by simpa using hop))
            fun hnodes ↦ right.refuses_of_eval bound ⟨between, state.output⟩ env hnodes h
  | .conditional condition left right =>
      rcases Evaluated.andThen_eq_error_iff.mp h with hcondition | ⟨value, between, hcondition, h⟩
      · exact descend .test fun hnodes ↦ condition.refuses_of_eval bound state env hnodes hcondition
      · split at h
        · rename_i hvalue
          exact descend (.consequent (State.eval_of_eq_value hcondition) hvalue)
            fun hnodes ↦ left.refuses_of_eval bound ⟨between, state.output⟩ env hnodes h
        · rename_i hvalue
          exact descend (.alternative (State.eval_of_eq_value hcondition) (by simpa using hvalue))
            fun hnodes ↦ right.refuses_of_eval bound ⟨between, state.output⟩ env hnodes h
  | .binary left op right span =>
      rcases Evaluated.andThen_eq_error_iff.mp h with hleft | ⟨leftValue, between, hleft, h⟩
      · exact descend .binaryLeft fun hnodes ↦ left.refuses_of_eval bound state env hnodes hleft
      · rcases Evaluated.andThen_eq_error_iff.mp h with hright | ⟨rightValue, last, hright, h⟩
        · exact descend (.binaryRight (State.eval_of_eq_value hleft))
            fun hnodes ↦ right.refuses_of_eval bound ⟨between, state.output⟩ env hnodes hright
        · have happly := (Evaluated.ofExcept_eq_error_iff.mp h).1
          exact absurd rfl (ne_of_isRefusal (BinaryOperator.isRefusal_of_apply happly))
  | .unary op operand span =>
      rw [Expr.eval] at h
      split at h
      · rename_i step hstep
        exact refuses_update hstep hnodes h
      · rename_i hstep
        rcases Evaluated.andThen_eq_error_iff.mp h with hoperand | ⟨value, between, hoperand, h⟩
        · exact descend (.operand hstep)
            fun hnodes ↦ operand.refuses_of_eval bound state env hnodes hoperand
        · have happly := (Evaluated.ofExcept_eq_error_iff.mp h).1
          rcases UnaryOperator.isRefusal_of_apply happly with hrefusal | ⟨hsome, -⟩
          · exact absurd rfl (ne_of_isRefusal hrefusal)
          · rw [hstep] at hsome
            cases hsome

theorem State.refuses_of_eval {expr : Expr} (bound : Nat)
    (hnodes : ∀ found ∈ expr.nodes, found.WellFormed tokens)
    (h : state.eval expr = .failed .expectedNumericVariable after) :
    Refuses bound (.expr expr) state after := by
  obtain ⟨env, heval, rfl⟩ := State.eval_eq_failed_iff.mp h
  exact expr.refuses_of_eval bound state env hnodes heval

/-- A round that fails so comes to such an update in one of its parts. -/
theorem exists_refuses_of_loopRound {condition : Expr} {body : Option Stmt}
    {increment : Option Expr}
    (hcondition : ∀ found ∈ condition.nodes, found.WellFormed tokens)
    (hincrement : ∀ found ∈ Expr.nodes? increment, found.WellFormed tokens)
    (hbody : ∀ inside after, Stmt.run? bound body inside = .failed .expectedNumericVariable after →
      ∃ statement, body = some statement ∧ Refuses bound (.stmt statement) inside after)
    (h : loopRound condition (Stmt.run? bound body) increment state =
      .failed .expectedNumericVariable after) :
    ∃ node inside, RoundVisits bound condition body increment state node inside ∧
      Refuses bound node inside after := by
  rcases Run.andThen_eq_failed_iff.mp h with hfailed | ⟨value, inside, hdone, h⟩
  · exact ⟨_, state, .condition, State.refuses_of_eval bound hcondition hfailed⟩
  · split at h
    · rename_i hvalue
      rcases Run.andThen_eq_failed_iff.mp h with hfailed | ⟨flow, last, hround, h⟩
      · obtain ⟨statement, hsome, hrefuses⟩ := hbody inside after hfailed
        exact ⟨_, inside, .body hsome hdone hvalue, hrefuses⟩
      · split at h
        · cases h
        · rename_i hflow
          rcases Run.andThen_eq_failed_iff.mp h with hfailed | ⟨_, _, _, h⟩
          · cases increment with
            | none => cases hfailed
            | some expr =>
                exact ⟨_, last, .increment rfl hdone hvalue hround hflow,
                  State.refuses_of_eval bound hincrement hfailed⟩
          · cases h
    · cases h

mutual
/-- A statement whose run fails so comes to such an update. -/
theorem Stmt.refuses_of_run (bound : Nat) (statement : Stmt) (state after : State)
    (hnodes : ∀ found ∈ statement.nodes, found.WellFormed tokens)
    (h : statement.run bound state = .failed .expectedNumericVariable after) :
    Refuses bound (.stmt statement) state after := by
  have descend {expr : Expr} {inside : State}
      (hdescends : Descends bound (.stmt statement) state (.expr expr) inside)
      (hfailed : inside.eval expr = .failed .expectedNumericVariable after) :
      Refuses bound (.stmt statement) state after :=
    (State.refuses_of_eval bound (hdescends.wellFormed hnodes) hfailed).of_descends hdescends
  match statement with
  | .expression expr =>
      rcases Run.andThen_eq_failed_iff.mp h with hfailed | ⟨_, _, _, h⟩
      · exact descend .expression hfailed
      · cases h
  | .console expr =>
      rcases Run.andThen_eq_failed_iff.mp h with hfailed | ⟨value, inside, _, h⟩
      · exact descend .console hfailed
      · have hprint := inside.ensures_print value.display
        rw [h] at hprint
        cases hprint.1
  | .declaration name span initializer mutability =>
      rcases Run.andThen_eq_failed_iff.mp h with hfailed | ⟨value, inside, _, h⟩
      · cases initializer with
        | none => cases hfailed
        | some expr => exact descend .initializer hfailed
      · have hdefine := inside.ensures_define name mutability value
        rw [h] at hdefine
        cases hdefine.1
  | .block statements =>
      obtain ⟨inside, hfailed, rfl⟩ := Run.mapState_eq_failed_iff.mp h
      rw [Stmt.nodes, List.forall_mem_cons] at hnodes
      obtain ⟨front, statement, back, before, rfl, hfront, hrefuses⟩ :=
        Stmt.refuses_of_runBlock bound statements state.enter inside hnodes.2 hfailed
      exact (hrefuses.of_descends (.block hfront)).restore _
  | .ifThen condition thenBranch elseBranch =>
      rw [Stmt.nodes, List.forall_mem_cons, List.forall_mem_append, List.forall_mem_append]
        at hnodes
      rcases Run.andThen_eq_failed_iff.mp h with hfailed | ⟨value, inside, hdone, h⟩
      · exact descend .condition hfailed
      · split at h
        · rename_i hvalue
          obtain ⟨branch, rfl, hrefuses⟩ :=
            Stmt.refuses_of_run? bound thenBranch inside after hnodes.2.2.1 h
          exact hrefuses.of_descends (.thenBranch hdone hvalue)
        · rename_i hvalue
          obtain ⟨branch, rfl, hrefuses⟩ :=
            Stmt.refuses_of_run? bound elseBranch inside after hnodes.2.2.2 h
          exact hrefuses.of_descends (.elseBranch hdone (by simpa using hvalue))
  | .whileLoop condition body =>
      rw [Stmt.nodes, List.forall_mem_cons, List.forall_mem_append] at hnodes
      obtain ⟨before, hrounds, hfailed⟩ := exists_round_of_failed h
      obtain ⟨node, inside, hround, hrefuses⟩ := exists_refuses_of_loopRound hnodes.2.1
        (List.forall_mem_nil _)
        (fun inside after h ↦ Stmt.refuses_of_run? bound body inside after hnodes.2.2 h) hfailed
      exact hrefuses.of_descends (.whileLoop hrounds hround)
  | .forLoop initializer condition increment body =>
      rw [Stmt.nodes, List.forall_mem_cons, List.forall_mem_append, List.forall_mem_append,
        List.forall_mem_append] at hnodes
      obtain ⟨-, hinitializer, hcondition, hincrement, hbody⟩ := hnodes
      obtain ⟨inside, hfailed, rfl⟩ := Run.mapState_eq_failed_iff.mp h
      refine Refuses.restore ?_ _
      rcases Run.andThen_eq_failed_iff.mp hfailed with hfailed | ⟨_, start, hdone, hfailed⟩
      · obtain ⟨front, statement, back, before, rfl, hfront, hrefuses⟩ :=
          Stmt.refuses_of_runAll bound initializer state.enter inside hinitializer hfailed
        exact hrefuses.of_descends (.forInitializer hfront)
      · obtain ⟨before, hrounds, hfailed⟩ := exists_round_of_failed hfailed
        obtain ⟨node, last, hround, hrefuses⟩ := exists_refuses_of_loopRound hcondition hincrement
          (fun inside after h ↦ Stmt.refuses_of_run? bound body inside after hbody h) hfailed
        exact hrefuses.of_descends (.forLoop hdone hrounds hround)
  | .breakLoop span => cases h
  | .continueLoop span => cases h

theorem Stmt.refuses_of_run? (bound : Nat) (statement : Option Stmt) (state after : State)
    (hnodes : ∀ found ∈ Stmt.nodes? statement, found.WellFormed tokens)
    (h : Stmt.run? bound statement state = .failed .expectedNumericVariable after) :
    ∃ branch, statement = some branch ∧ Refuses bound (.stmt branch) state after := by
  match statement with
  | none => cases h
  | some statement => exact ⟨statement, rfl, statement.refuses_of_run bound state after hnodes h⟩

theorem Stmt.refuses_of_runBlock (bound : Nat) (statements : List Stmt) (state after : State)
    (hnodes : ∀ found ∈ Stmt.nodesAll statements, found.WellFormed tokens)
    (h : Stmt.runBlock bound statements state = .failed .expectedNumericVariable after) :
    ∃ front statement back inside, statements = front ++ statement :: back ∧
      Stmt.runBlock bound front state = .done .normal inside ∧
      Refuses bound (.stmt statement) inside after := by
  match statements with
  | [] => cases h
  | statement :: statements =>
      rw [Stmt.nodesAll_cons, List.forall_mem_append] at hnodes
      rcases Run.andThen_eq_failed_iff.mp h with hfailed | ⟨flow, between, hdone, h⟩
      · exact ⟨[], statement, statements, state, rfl, rfl,
          statement.refuses_of_run bound state after hnodes.1 hfailed⟩
      · split at h
        · rename_i hflow
          subst hflow
          obtain ⟨front, other, back, inside, rfl, hfront, hrefuses⟩ :=
            Stmt.refuses_of_runBlock bound statements between after hnodes.2 h
          refine ⟨statement :: front, other, back, inside, rfl, ?_, hrefuses⟩
          rw [Stmt.runBlock, hdone, Run.andThen_done, if_pos rfl, hfront]
        · cases h

theorem Stmt.refuses_of_runAll (bound : Nat) (statements : List Stmt) (state after : State)
    (hnodes : ∀ found ∈ Stmt.nodesAll statements, found.WellFormed tokens)
    (h : Stmt.runAll bound statements state = .failed .expectedNumericVariable after) :
    ∃ front statement back inside, statements = front ++ statement :: back ∧
      Stmt.runAll bound front state = .done () inside ∧
      Refuses bound (.stmt statement) inside after := by
  match statements with
  | [] => cases h
  | statement :: statements =>
      rw [Stmt.nodesAll_cons, List.forall_mem_append] at hnodes
      rcases Run.andThen_eq_failed_iff.mp h with hfailed | ⟨flow, between, hdone, h⟩
      · exact ⟨[], statement, statements, state, rfl, rfl,
          statement.refuses_of_run bound state after hnodes.1 hfailed⟩
      · obtain ⟨front, other, back, inside, rfl, hfront, hrefuses⟩ :=
          Stmt.refuses_of_runAll bound statements between after hnodes.2 h
        refine ⟨statement :: front, other, back, inside, rfl, ?_, hrefuses⟩
        rw [Stmt.runAll, hdone, Run.andThen_done, hfront]
end

end Refusals

/-- Whatever the tokens, the trees that are read are well formed.  A prefix update among them fails
for want of a number exactly if its variable is bound to another value, and a run of what is read
fails with that error only as it comes to such an update, in the state where it is evaluated. -/
theorem parse_updates_variables (tokens : List Token) :
    (∀ node ∈ Stmt.nodesAll (parse tokens).statements, node.WellFormed tokens) ∧
    (∀ op operand span,
      .expr (.unary op operand span) ∈ Stmt.nodesAll (parse tokens).statements →
      op.updates = true → ∀ env after,
        ((Expr.unary op operand span).eval env = .error .expectedNumericVariable after ↔
          after = env ∧ ∃ name place, operand = .reference name place ∧ env.HoldsNoNumber name)) ∧
    (∀ bound state after,
      runProgram bound (parse tokens).statements state = .failed .expectedNumericVariable after →
        ∃ op name place span moment,
          .expr (.unary op (.reference name place) span) ∈
            Stmt.nodesAll (parse tokens).statements ∧
          ProgramVisits bound (parse tokens).statements state
            (.expr (.unary op (.reference name place) span)) moment ∧
          op.updates = true ∧ moment.environment.HoldsNoNumber name ∧ after.LeftFrom moment) := by
  have hwellFormed := wellFormed_parse tokens
  refine ⟨hwellFormed, ?_, ?_⟩
  · intro op operand span hmem hop env after
    obtain ⟨name, place, rfl⟩ := Expr.exists_reference_of_isReference (hwellFormed _ hmem hop)
    obtain ⟨step, hstep⟩ := op.updates_iff_step?.mp hop
    simp only [Expr.eval, hstep, Environment.update_eq_error_iff, Expr.reference.injEq]
    constructor
    · rintro ⟨rfl, hholds⟩
      exact ⟨rfl, name, place, ⟨rfl, rfl⟩, hholds⟩
    · rintro ⟨rfl, _, _, ⟨rfl, rfl⟩, hholds⟩
      exact ⟨rfl, hholds⟩
  · intro bound state after hrun
    obtain ⟨front, statement, back, before, hstatements, hfront, houter⟩ :=
      exists_statement_of_failed hrun
    have hfailed : statement.run bound before = .failed .expectedNumericVariable after := by
      rcases Run.andThen_eq_failed_iff.mp houter with hfailed | ⟨flow, _, _, hescape⟩
      · exact hfailed
      · cases flow <;> cases hescape
    have hnodes : ∀ node ∈ statement.nodes, node.WellFormed tokens := fun node hnode ↦
      hwellFormed node (Stmt.mem_nodesAll (by simp [hstatements]) hnode)
    obtain ⟨op, name, place, span, moment, hvisits, hop, hholds, hleft⟩ :=
      statement.refuses_of_run bound before after hnodes hfailed
    have hprogram : ProgramVisits bound (parse tokens).statements state _ moment :=
      ⟨front, statement, back, before, hstatements, hfront, hvisits⟩
    exact ⟨op, name, place, span, moment, hprogram.mem_nodesAll, hprogram, hop, hholds, hleft⟩

end Sigil
