import Sigil.Proofs.Syntax.Recovery
import Sigil.Proofs.Text.Position
import Sigil.Proofs.Tree.Nodes

/-!
# The trees that reading gives

Trees of some forms are never read: an update of something that is no variable, a
constant without a value, a declaration as the body of a loop.  The names in a tree
are those of identifiers among the tokens.  This holds of everything that is read,
also of what is kept beside an error.  The errors take one line each.
-/

namespace Sigil

/-- A name is the text of an identifier among the tokens. -/
def IsName (tokens : List Token) (name : String) : Prop :=
  ∃ token ∈ tokens, token.kind = .identifier ∧ token.text = name

def Stmt.isDeclaration : Stmt → Bool
  | .declaration .. => true
  | _ => false

/-- Nothing, bindings of variables or one expression. -/
def IsForInitializer (statements : List Stmt) : Prop :=
  statements = [] ∨
    (statements ≠ [] ∧ ∀ statement ∈ statements, ∃ name span initializer,
      statement = .declaration name span initializer .mutable) ∨
    ∃ expr, statements = [.expression expr]

/-- The node has a form that is read from the tokens. -/
def Node.WellFormed (tokens : List Token) : Node → Prop
  | .expr (.unary op operand _) => op.updates = true → operand.isReference = true
  | .expr (.assign name span value .before) => IsName tokens name ∧
    ∃ op operator, (op = .add ∨ op = .sub) ∧
      value = .binary (.reference name span) op (.literal (.number 1)) operator
  | .expr (.assign name _ _ .after) => IsName tokens name
  | .expr (.reference name _) => IsName tokens name
  | .stmt (.declaration name _ initializer mutability) => IsName tokens name ∧
    (mutability = .constant → initializer.isSome = true)
  | .stmt (.ifThen _ thenBranch elseBranch) =>
    (∀ branch ∈ thenBranch, branch.isDeclaration = false) ∧
      ∀ branch ∈ elseBranch, branch.isDeclaration = false
  | .stmt (.whileLoop _ body) => ∀ statement ∈ body, statement.isDeclaration = false
  | .stmt (.forLoop initializer _ _ body) => IsForInitializer initializer ∧
    ∀ statement ∈ body, statement.isDeclaration = false
  | _ => True

variable {tokens : List Token}

/-- All nodes of a list are well formed. -/
abbrev AllWellFormed (tokens : List Token) (nodes : List Node) : Prop :=
  ∀ node ∈ nodes, node.WellFormed tokens

theorem allWellFormed_singleton {node : Node} :
    AllWellFormed tokens [node] ↔ node.WellFormed tokens :=
  List.forall_mem_singleton

theorem allWellFormed_cons {node : Node} {nodes : List Node} :
    AllWellFormed tokens (node :: nodes) ↔ node.WellFormed tokens ∧ AllWellFormed tokens nodes :=
  List.forall_mem_cons

theorem allWellFormed_append {nodes nodes' : List Node} :
    AllWellFormed tokens (nodes ++ nodes') ↔
      AllWellFormed tokens nodes ∧ AllWellFormed tokens nodes' :=
  List.forall_mem_append

/-! ### Expressions -/

namespace Expr

variable {expr left right : Expr}

theorem isName_of_wellFormed {name : String} {span : Span}
    (h : AllWellFormed tokens (Expr.reference name span).nodes) : IsName tokens name :=
  h _ (mem_nodes _)

theorem wellFormed_binary (op : BinaryOperator) (span : Span)
    (hleft : AllWellFormed tokens left.nodes) (hright : AllWellFormed tokens right.nodes) :
    AllWellFormed tokens (Expr.binary left op right span).nodes := by
  rw [nodes, allWellFormed_cons, allWellFormed_append]
  exact ⟨trivial, hleft, hright⟩

theorem wellFormed_join (connective : Connective) (span : Span)
    (hleft : AllWellFormed tokens left.nodes) (hright : AllWellFormed tokens right.nodes) :
    AllWellFormed tokens (connective.join left right span).nodes := by
  cases connective with
  | logical op =>
      rw [Connective.join, nodes, allWellFormed_cons, allWellFormed_append]
      exact ⟨trivial, hleft, hright⟩
  | binary op => exact wellFormed_binary op span hleft hright

theorem wellFormed_assign {name : String} {span : Span} {value : Expr} (form : AssignForm)
    (operator : Span) (htarget : AllWellFormed tokens (Expr.reference name span).nodes)
    (hvalue : AllWellFormed tokens value.nodes) :
    AllWellFormed tokens
      (Expr.assign name span (form.stored name span value operator) .after).nodes := by
  rw [nodes, allWellFormed_cons]
  refine ⟨isName_of_wellFormed htarget, ?_⟩
  cases form with
  | plain => exact hvalue
  | compound op => exact wellFormed_binary op operator htarget hvalue

theorem wellFormed_updated {name : String} {span : Span} {op : BinaryOperator} (operator : Span)
    (hop : op = .add ∨ op = .sub) (h : AllWellFormed tokens (Expr.reference name span).nodes) :
    AllWellFormed tokens (Expr.updated name span op operator).nodes := by
  rw [updated, nodes, allWellFormed_cons]
  refine ⟨⟨isName_of_wellFormed h, op, operator, hop, rfl⟩, ?_⟩
  refine wellFormed_binary op operator h ?_
  rw [nodes, allWellFormed_singleton]
  trivial

theorem wellFormed_conditional {condition : Expr}
    (hcondition : AllWellFormed tokens condition.nodes) (hleft : AllWellFormed tokens left.nodes)
    (hright : AllWellFormed tokens right.nodes) :
    AllWellFormed tokens (Expr.conditional condition left right).nodes := by
  rw [nodes, allWellFormed_cons, allWellFormed_append, allWellFormed_append]
  exact ⟨trivial, hcondition, hleft, hright⟩

theorem wellFormed_unary {op : UnaryOperator} (span : Span)
    (hop : op.updates = true → expr.isReference = true) (h : AllWellFormed tokens expr.nodes) :
    AllWellFormed tokens (Expr.unary op expr span).nodes := by
  rw [nodes, allWellFormed_cons]
  exact ⟨hop, h⟩

theorem wellFormed_grouping (h : AllWellFormed tokens expr.nodes) :
    AllWellFormed tokens (Expr.grouping expr).nodes := by
  rw [nodes, allWellFormed_cons]
  exact ⟨trivial, h⟩

theorem wellFormed_primary {token : Token} (htoken : token ∈ tokens)
    (h : token.primary? = .ok expr) : AllWellFormed tokens expr.nodes := by
  unfold Token.primary? at h
  split at h
  case h_7 hkind =>
    cases h
    rw [nodes, allWellFormed_singleton]
    exact ⟨token, htoken, hkind, rfl⟩
  all_goals
    cases h
  all_goals
    rw [nodes, allWellFormed_singleton]
    trivial

end Expr

/-! ### Readings -/

theorem SyntaxFault.isLine_message {fault : SyntaxFault}
    (h : ∀ message, fault ≠ .expected message) : IsLine fault.message := by
  cases fault with
  | expected message => exact absurd rfl (h message)
  | _ => decide +kernel

/-- The tokens that are left are among the given ones, and the recorded errors take one line
each. -/
structure Cursor.Over (tokens : List Token) (c : Cursor) : Prop where
  rest : ∀ token ∈ c.rest, token ∈ tokens
  errors : ∀ error ∈ c.errors, IsLine error.fault.message

namespace Reading

variable {α β : Type} {p : α → Prop} {p' : β → Prop} {reading : Reading α}

/-- A value that has been read has a property, an error takes one line, and either way the cursor is
over the given tokens. -/
def Yields (tokens : List Token) (p : α → Prop) : Reading α → Prop
  | .read a r => p a ∧ r.Over tokens
  | .failed error r => IsLine error.fault.message ∧ r.Over tokens

theorem Yields.andThen {next : α → Cursor → Reading β} (h : reading.Yields tokens p)
    (hnext : ∀ a r, reading = .read a r → p a → r.Over tokens → (next a r).Yields tokens p') :
    (reading.andThen next).Yields tokens p' := by
  cases reading with
  | read a r => exact hnext a r rfl h.1 h.2
  | failed error r => exact h

theorem Yields.map {f : α → β} (h : reading.Yields tokens p) (hf : ∀ a, p a → p' (f a)) :
    (reading.map f).Yields tokens p' := by
  cases reading with
  | read a r => exact ⟨hf a h.1, h.2⟩
  | failed error r => exact h

theorem Yields.mono {p' : α → Prop} (h : reading.Yields tokens p) (hp : ∀ a, p a → p' a) :
    reading.Yields tokens p' := by
  cases reading with
  | read a r => exact ⟨hp a h.1, h.2⟩
  | failed error r => exact h

theorem Yields.leaveLoop (h : reading.Yields tokens p) :
    (reading.mapCursor Cursor.leaveLoop).Yields tokens p := by
  cases reading <;> exact ⟨h.1, h.2.rest, h.2.errors⟩

end Reading

namespace Cursor

variable {c : Cursor}

theorem Over.advance (h : c.Over tokens) : c.advance.Over tokens := by
  constructor
  · intro token htoken
    rw [rest_advance] at htoken
    exact h.rest token (List.mem_of_mem_tail htoken)
  · rw [errors_advance]
    exact h.errors

theorem Over.synchronize (h : c.Over tokens) : c.synchronize.Over tokens where
  rest _ htoken := h.rest _ ((leads_synchronize c).rest.mem htoken)
  errors := h.advance.errors

theorem Over.record {error : SyntaxError} (h : c.Over tokens)
    (herror : IsLine error.fault.message) : (c.record error).Over tokens := by
  refine ⟨h.rest, fun other hother ↦ ?_⟩
  rcases List.mem_append.mp hother with hother | hother
  · exact h.errors other hother
  · rwa [List.mem_singleton.mp hother]

theorem fault_errorAtPrevious (c : Cursor) (fault : SyntaxFault) :
    (c.errorAtPrevious fault).fault = fault := by
  unfold errorAtPrevious
  split <;> rfl

theorem fault_errorAtCurrent (c : Cursor) (fault : SyntaxFault) :
    (c.errorAtCurrent fault).fault = fault := by
  unfold errorAtCurrent
  split
  · rfl
  · exact fault_errorAtPrevious c fault

theorem yields_expect (h : c.Over tokens) (kind : TokenKind) {message : String}
    (hmessage : IsLine message) :
    (c.expect kind message).Yields tokens fun token ↦ token ∈ tokens ∧ token.kind = kind := by
  unfold expect
  split
  · rename_i token r haccept
    obtain ⟨⟨others, hrest⟩, hkind, rfl⟩ := acceptOne?_eq_some_iff.mp haccept
    exact ⟨⟨h.rest token (by simp [hrest]), hkind⟩, h.advance⟩
  · refine ⟨?_, h⟩
    rw [fault_errorAtPrevious]
    exact hmessage

theorem over_of_accept? {α : Type} {select : TokenKind → Option α} {a : α} {token : Token}
    {r : Cursor} (h : c.Over tokens) (haccept : c.accept? select = some (a, token, r)) :
    r.Over tokens := by
  obtain ⟨-, -, rfl⟩ := accept?_eq_some_iff.mp haccept
  exact h.advance

theorem over_of_acceptOne? {kind : TokenKind} {token : Token} {r : Cursor} (h : c.Over tokens)
    (haccept : c.acceptOne? kind = some (token, r)) : r.Over tokens := by
  obtain ⟨-, -, rfl⟩ := acceptOne?_eq_some_iff.mp haccept
  exact h.advance

theorem isLine_of_primary? {token : Token} {fault : SyntaxFault}
    (h : token.primary? = .error fault) : IsLine fault.message := by
  unfold Token.primary? at h
  split at h <;> cases h <;> exact SyntaxFault.isLine_message nofun

theorem suffixOperator?_eq_some {kind : TokenKind} {op : BinaryOperator}
    (h : kind.suffixOperator? = some op) : op = .add ∨ op = .sub := by
  unfold TokenKind.suffixOperator? at h
  split at h <;> cases h <;> simp

mutual
theorem yields_readLevel (level : Level) (c : Cursor) (h : c.Over tokens) :
    (c.readLevel level).Yields tokens fun expr ↦ AllWellFormed tokens expr.nodes := by
  match level with
  | .assignment =>
      rw [readLevel_assignment]
      apply (yields_readLevel (.chain .disjunction) c h).andThen
      intro target r hr htarget hover
      have hsize := size_readLevel hr
      split
      · exact ⟨htarget, hover⟩
      · rename_i form operator s ha
        have hs := size_of_accept? ha
        apply (yields_readLevel .assignment s (over_of_accept? hover ha)).andThen
        intro value u hu hvalue hover
        split
        · exact ⟨Expr.wellFormed_assign form _ htarget hvalue, hover⟩
        · exact ⟨SyntaxFault.isLine_message nofun, hover⟩
  | .chain chainLevel =>
      rw [readLevel_chain]
      apply (yields_readLevel chainLevel.operand c h).andThen
      intro left r hr hleft hover
      have hsize := size_readLevel hr
      exact yields_readChain chainLevel left r hleft hover
  | .conditional =>
      rw [readLevel_conditional]
      apply (yields_readLevel (.chain .equality) c h).andThen
      intro condition r hr hcondition hover
      have hsize := size_readLevel hr
      split
      · exact ⟨hcondition, hover⟩
      · rename_i mark s ha
        have hs := size_of_acceptOne? ha
        apply (yields_readLevel .conditional s (over_of_acceptOne? hover ha)).andThen
        intro left u hu hleft hover
        have hu := size_readLevel hu
        apply (yields_expect hover .colon (by decide)).andThen
        intro colon v hv _ hover
        have hv := size_expect hv
        exact (yields_readLevel .conditional v hover).map fun right hright ↦
          Expr.wellFormed_conditional hcondition hleft hright
  | .unary =>
      rw [readLevel_unary]
      split
      · exact yields_readLevel .suffixed c h
      · rename_i op operator r ha
        have hr := size_of_accept? ha
        apply (yields_readLevel .unary r (over_of_accept? h ha)).andThen
        intro operand s hs hoperand hover
        split
        · exact ⟨SyntaxFault.isLine_message nofun, hover⟩
        · rename_i hop
          exact ⟨Expr.wellFormed_unary _ (by simpa using hop) hoperand, hover⟩
  | .suffixed =>
      rw [readLevel_suffixed]
      apply (yields_readLevel .primary c h).andThen
      intro operand r hr hoperand hover
      split
      · exact ⟨hoperand, hover⟩
      · rename_i op operator s ha
        have hop := suffixOperator?_eq_some (accept?_eq_some_iff.mp ha).2.1
        have hover := over_of_accept? hover ha
        split
        · exact ⟨Expr.wellFormed_updated _ hop hoperand, hover⟩
        · exact ⟨SyntaxFault.isLine_message nofun, hover⟩
  | .primary =>
      rw [readLevel_primary]
      split
      · refine ⟨?_, h⟩
        rw [fault_errorAtCurrent]
        exact SyntaxFault.isLine_message nofun
      · rename_i token others hc
        have hadvance := size_advance_of_rest hc
        split
        · apply (yields_readLevel .assignment c.advance h.advance).andThen
          intro inner r hr hinner hover
          exact (yields_expect hover .rightParen (by decide)).map fun _ _ ↦
            Expr.wellFormed_grouping hinner
        · split
          · rename_i expr hprimary
            exact ⟨Expr.wellFormed_primary (h.rest token (by simp [hc])) hprimary, h.advance⟩
          · rename_i fault hprimary
            exact ⟨isLine_of_primary? hprimary, h⟩
termination_by (c.size, level.rank)
decreasing_by
  all_goals first
    | exact Prod.Lex.left _ _ (by omega)
    | exact Prod.Lex.right _ (ChainLevel.rank_operand _)
    | exact Prod.Lex.right _ (by decide)

theorem yields_readChain (level : ChainLevel) (left : Expr) (c : Cursor)
    (hleft : AllWellFormed tokens left.nodes) (h : c.Over tokens) :
    (c.readChain level left).Yields tokens fun expr ↦ AllWellFormed tokens expr.nodes := by
  rw [readChain_eq]
  split
  · exact ⟨hleft, h⟩
  · rename_i connective operator r ha
    have hr := size_of_accept? ha
    apply (yields_readLevel level.operand r (over_of_accept? h ha)).andThen
    intro right s hs hright hover
    have hs := size_readLevel hs
    exact yields_readChain level _ s (Expr.wellFormed_join connective _ hleft hright) hover
termination_by (c.size, 0)
decreasing_by
  all_goals exact Prod.Lex.left _ _ (by omega)
end

/-! ### Parts of statements -/

theorem yields_readExpression (h : c.Over tokens) :
    c.readExpression.Yields tokens fun expr ↦ AllWellFormed tokens expr.nodes :=
  yields_readLevel .assignment c h

theorem yields_readExpressionStatement (h : c.Over tokens) :
    c.readExpressionStatement.Yields tokens fun expr ↦ AllWellFormed tokens expr.nodes := by
  rw [readExpressionStatement_eq]
  apply (yields_readExpression h).andThen
  intro expr r _ hexpr hover
  exact (yields_expect hover .semicolon (by decide)).map fun _ _ ↦ hexpr

theorem wellFormed_declaration {token : Token} (htoken : token ∈ tokens ∧ token.kind = .identifier)
    {initializer : Option Expr} {mutability : Mutability}
    (hconstant : mutability = .constant → initializer.isSome = true)
    (h : AllWellFormed tokens (Expr.nodes? initializer)) :
    AllWellFormed tokens
      (Stmt.declaration token.text token.span initializer mutability).nodes := by
  rw [Stmt.nodes, allWellFormed_cons]
  exact ⟨⟨⟨token, htoken.1, htoken.2, rfl⟩, hconstant⟩, h⟩

/-- A well-formed statement that binds a name. -/
def IsBinding (tokens : List Token) (mutability : Mutability) (statement : Stmt) : Prop :=
  AllWellFormed tokens statement.nodes ∧
    ∃ name span initializer, statement = .declaration name span initializer mutability

theorem yields_readBinding (mutability : Mutability) (h : c.Over tokens) :
    (c.readBinding mutability).Yields tokens (IsBinding tokens mutability) := by
  cases mutability with
  | constant =>
      rw [readBinding_constant]
      apply (yields_expect h .identifier (by decide)).andThen
      intro name r _ hname hover
      apply (yields_expect hover .equal (by decide)).andThen
      intro sign s _ _ hover
      exact (yields_readExpression hover).map fun value hvalue ↦
        ⟨wellFormed_declaration hname (fun _ ↦ rfl) hvalue, _, _, _, rfl⟩
  | mutable =>
      rw [readBinding_mutable]
      apply (yields_expect h .identifier (by decide)).andThen
      intro name r _ hname hover
      have hmutable : Mutability.mutable ≠ .constant := by decide
      split
      · exact ⟨⟨wellFormed_declaration hname (absurd · hmutable) (List.forall_mem_nil _), _, _, _,
          rfl⟩, hover⟩
      · rename_i sign s hsign
        exact (yields_readExpression (over_of_acceptOne? hover hsign)).map fun value hvalue ↦
          ⟨wellFormed_declaration hname (absurd · hmutable) hvalue, _, _, _, rfl⟩

theorem yields_readBindings (mutability : Mutability) (c : Cursor) (h : c.Over tokens) :
    (c.readBindings mutability).Yields tokens fun statements ↦
      statements ≠ [] ∧ ∀ statement ∈ statements, IsBinding tokens mutability statement := by
  rw [readBindings_eq]
  apply (yields_readBinding mutability h).andThen
  intro first r hr hfirst hover
  have hsize := size_readBinding hr
  split
  · exact (yields_expect hover .semicolon (by decide)).map fun _ _ ↦
      ⟨List.cons_ne_nil _ _, by simpa using hfirst⟩
  · rename_i comma s hcomma
    have hs := size_of_acceptOne? hcomma
    exact (yields_readBindings mutability s (over_of_acceptOne? hover hcomma)).map
      fun others hothers ↦ ⟨List.cons_ne_nil _ _, List.forall_mem_cons.mpr ⟨hfirst, hothers.2⟩⟩
termination_by c.size

theorem wellFormed_nodesAll {statements : List Stmt}
    (h : ∀ statement ∈ statements, AllWellFormed tokens statement.nodes) :
    AllWellFormed tokens (Stmt.nodesAll statements) := by
  induction statements with
  | nil => simp [AllWellFormed]
  | cons statement statements ih =>
      rw [List.forall_mem_cons] at h
      rw [Stmt.nodesAll_cons, allWellFormed_append]
      exact ⟨h.1, ih h.2⟩

theorem yields_readForInitializer (h : c.Over tokens) :
    c.readForInitializer.Yields tokens fun statements ↦
      IsForInitializer statements ∧ AllWellFormed tokens (Stmt.nodesAll statements) := by
  rw [readForInitializer_eq]
  split
  · rename_i semicolon r hsemicolon
    exact ⟨⟨.inl rfl, by simp [AllWellFormed]⟩, over_of_acceptOne? h hsemicolon⟩
  · split
    · rename_i keyword r hkeyword
      exact (yields_readBindings .mutable r (over_of_acceptOne? h hkeyword)).mono
        fun statements hstatements ↦
          ⟨.inr (.inl ⟨hstatements.1, fun _ hmem ↦ (hstatements.2 _ hmem).2⟩),
            wellFormed_nodesAll fun _ hmem ↦ (hstatements.2 _ hmem).1⟩
    · refine (yields_readExpressionStatement h).map fun expr hexpr ↦
        ⟨.inr (.inr ⟨expr, rfl⟩), ?_⟩
      rw [Stmt.nodesAll_cons, Stmt.nodesAll_nil, List.append_nil, Stmt.nodes, allWellFormed_cons]
      exact ⟨trivial, hexpr⟩

theorem yields_readForCondition (h : c.Over tokens) :
    c.readForCondition.Yields tokens fun expr ↦ AllWellFormed tokens expr.nodes := by
  rw [readForCondition_eq]
  split
  · refine (yields_expect h .semicolon (by decide)).map fun _ _ ↦ ?_
    rw [Expr.nodes, allWellFormed_singleton]
    trivial
  · apply (yields_readExpression h).andThen
    intro condition r _ hcondition hover
    exact (yields_expect hover .semicolon (by decide)).map fun _ _ ↦ hcondition

theorem yields_readForIncrement (h : c.Over tokens) :
    c.readForIncrement.Yields tokens fun expr ↦ AllWellFormed tokens (Expr.nodes? expr) := by
  rw [readForIncrement_eq]
  split
  · exact (yields_expect h .rightParen (by decide)).map fun _ _ ↦ List.forall_mem_nil _
  · apply (yields_readExpression h).andThen
    intro increment r _ hincrement hover
    exact (yields_expect hover .rightParen (by decide)).map fun _ _ ↦ hincrement

theorem yields_readForClauses (h : c.Over tokens) :
    c.readForClauses.Yields tokens fun clauses ↦
      (IsForInitializer clauses.initializer ∧
        AllWellFormed tokens (Stmt.nodesAll clauses.initializer)) ∧
      AllWellFormed tokens clauses.condition.nodes ∧
        AllWellFormed tokens (Expr.nodes? clauses.increment) := by
  rw [readForClauses_eq]
  apply (yields_expect h .leftParen (by decide)).andThen
  intro opening r _ _ hover
  apply (yields_readForInitializer hover).andThen
  intro initializer s _ hinitializer hover
  apply (yields_readForCondition hover).andThen
  intro condition u _ hcondition hover
  exact (yields_readForIncrement hover).map fun increment hincrement ↦
    ⟨hinitializer, hcondition, hincrement⟩

theorem yields_readCondition {opening closing : String} (hopening : IsLine opening)
    (hclosing : IsLine closing) (h : c.Over tokens) :
    (c.readCondition opening closing).Yields tokens fun expr ↦
      AllWellFormed tokens expr.nodes := by
  rw [readCondition_eq]
  apply (yields_expect h .leftParen hopening).andThen
  intro _ r _ _ hover
  apply (yields_readExpression hover).andThen
  intro condition s _ hcondition hover
  exact (yields_expect hover .rightParen hclosing).map fun _ _ ↦ hcondition

/-! ### Statements -/

/-- What is read as a statement is well formed and no declaration. -/
structure IsStatement (tokens : List Token) (statement : Option Stmt) : Prop where
  nodes : AllWellFormed tokens (Stmt.nodes? statement)
  noDeclaration : ∀ inner ∈ statement, inner.isDeclaration = false

theorem IsStatement.of_nodes {statement : Stmt} (h : AllWellFormed tokens statement.nodes)
    (hdeclaration : statement.isDeclaration = false) : IsStatement tokens (some statement) where
  nodes := h
  noDeclaration inner hinner := by
    cases hinner
    exact hdeclaration

theorem yields_expressionStatement (h : c.Over tokens) (f : Expr → Stmt)
    (hf : ∀ expr, (f expr).nodes = .stmt (f expr) :: expr.nodes)
    (hself : ∀ expr, (Node.stmt (f expr)).WellFormed tokens)
    (hdeclaration : ∀ expr, (f expr).isDeclaration = false) :
    (c.readExpressionStatement.map fun expr ↦ some (f expr)).Yields tokens
      (IsStatement tokens) := by
  refine (yields_readExpressionStatement h).map fun expr hexpr ↦ .of_nodes ?_ (hdeclaration expr)
  rw [hf, allWellFormed_cons]
  exact ⟨hself expr, hexpr⟩

theorem yields_readLoopControl {keyword : Token} {fault : SyntaxFault} {message : String}
    {control : Stmt} (h : c.Over tokens) (hfault : IsLine fault.message) (hmessage : IsLine message)
    (hcontrol : IsStatement tokens (some control)) :
    (c.readLoopControl keyword fault message control).Yields tokens (IsStatement tokens) := by
  rw [readLoopControl_eq]
  split
  · exact ⟨hfault, h⟩
  · exact (yields_expect h .semicolon hmessage).map fun _ _ ↦ hcontrol

mutual
theorem yields_readStatement (c : Cursor) (h : c.Over tokens) :
    c.readStatement.Yields tokens (IsStatement tokens) := by
  rw [readStatement_eq]
  split
  · exact yields_expressionStatement h _ (fun _ ↦ by rw [Stmt.nodes]) (fun _ ↦ trivial)
      (fun _ ↦ rfl)
  · rename_i keyword others hc
    have hsize := size_advance_of_rest hc
    -- The first token is `;`, `{`, `console`, `if`, `while`, `for`, `break`, `continue` or another.
    split
    · exact ⟨⟨List.forall_mem_nil _, nofun⟩, h.advance⟩
    · have hitems := wellFormed_readItems c.advance h.advance
      refine (yields_expect hitems.2 .rightBrace (by decide)).map fun _ _ ↦ .of_nodes ?_ rfl
      rw [Stmt.nodes, allWellFormed_cons]
      exact ⟨trivial, hitems.1⟩
    · exact yields_expressionStatement h.advance _ (fun _ ↦ by rw [Stmt.nodes]) (fun _ ↦ trivial)
        (fun _ ↦ rfl)
    · apply (yields_readCondition (by decide) (by decide) h.advance).andThen
      intro condition s hs hcondition hover
      have hs := size_readCondition hs
      apply (yields_readStatement s hover).andThen
      intro thenBranch u hu hthen hover
      have hu := size_readStatement hu
      split
      · refine ⟨.of_nodes ?_ rfl, hover⟩
        rw [Stmt.nodes, allWellFormed_cons, allWellFormed_append, allWellFormed_append]
        exact ⟨⟨hthen.noDeclaration, nofun⟩, hcondition, hthen.nodes, List.forall_mem_nil _⟩
      · rename_i otherwise v hv
        have hsizev := size_of_acceptOne? hv
        refine (yields_readStatement v (over_of_acceptOne? hover hv)).map fun elseBranch helse ↦
          .of_nodes ?_ rfl
        rw [Stmt.nodes, allWellFormed_cons, allWellFormed_append, allWellFormed_append]
        exact ⟨⟨hthen.noDeclaration, helse.noDeclaration⟩, hcondition, hthen.nodes, helse.nodes⟩
    · apply (yields_readCondition (by decide) (by decide) h.advance).andThen
      intro condition s hs hcondition hover
      have hs := size_readCondition hs
      refine (yields_readLoopBody s hover).map fun body hbody ↦ .of_nodes ?_ rfl
      rw [Stmt.nodes, allWellFormed_cons, allWellFormed_append]
      exact ⟨hbody.noDeclaration, hcondition, hbody.nodes⟩
    · apply (yields_readForClauses h.advance).andThen
      intro clauses s hs hclauses hover
      have hs := size_readForClauses hs
      obtain ⟨hinitializer, hcondition, hincrement⟩ := hclauses
      refine (yields_readLoopBody s hover).map fun body hbody ↦ .of_nodes ?_ rfl
      rw [Stmt.nodes, allWellFormed_cons, allWellFormed_append, allWellFormed_append,
        allWellFormed_append]
      exact ⟨⟨hinitializer.1, hbody.noDeclaration⟩, hinitializer.2, hcondition, hincrement,
        hbody.nodes⟩
    · refine yields_readLoopControl h.advance (SyntaxFault.isLine_message nofun) (by decide)
        (.of_nodes ?_ rfl)
      rw [Stmt.nodes, allWellFormed_singleton]
      trivial
    · refine yields_readLoopControl h.advance (SyntaxFault.isLine_message nofun) (by decide)
        (.of_nodes ?_ rfl)
      rw [Stmt.nodes, allWellFormed_singleton]
      trivial
    · exact yields_expressionStatement h _ (fun _ ↦ by rw [Stmt.nodes]) (fun _ ↦ trivial)
        (fun _ ↦ rfl)
termination_by (c.size, 0)
decreasing_by
  all_goals exact Prod.Lex.left _ _ (by omega)

theorem yields_readLoopBody (c : Cursor) (h : c.Over tokens) :
    c.readLoopBody.Yields tokens (IsStatement tokens) := by
  rw [readLoopBody_eq]
  exact (yields_readStatement c.enterLoop ⟨h.rest, h.errors⟩).leaveLoop
termination_by (c.size, 1)
decreasing_by
  exact Prod.Lex.right _ (by decide)

theorem yields_readItem (c : Cursor) (h : c.Over tokens) :
    c.readItem.Yields tokens fun statements ↦
      AllWellFormed tokens (Stmt.nodesAll statements) := by
  unfold readItem
  split
  · rename_i keyword r hkeyword
    exact (yields_readBindings .mutable r (over_of_acceptOne? h hkeyword)).mono
      fun statements hstatements ↦ wellFormed_nodesAll fun _ hmem ↦ (hstatements.2 _ hmem).1
  · split
    · rename_i keyword r hkeyword
      exact (yields_readBindings .constant r (over_of_acceptOne? h hkeyword)).mono
        fun statements hstatements ↦ wellFormed_nodesAll fun _ hmem ↦ (hstatements.2 _ hmem).1
    · exact (yields_readStatement c h).map fun statement hstatement ↦ by
        rw [Stmt.nodesAll_toList]
        exact hstatement.nodes
termination_by (c.size, 1)
decreasing_by
  exact Prod.Lex.right _ (by decide)

/-- Where an error is recorded, nothing is kept of what was read. -/
theorem wellFormed_readDeclaration (c : Cursor) (h : c.Over tokens) :
    AllWellFormed tokens (Stmt.nodesAll c.readDeclaration.1) ∧ c.readDeclaration.2.Over tokens := by
  have hitem := yields_readItem c h
  rw [readDeclaration_eq]
  cases hread : c.readItem with
  | read statements r =>
      rw [hread] at hitem
      exact hitem
  | failed error r =>
      rw [hread] at hitem
      exact ⟨by simp [recover, AllWellFormed], (hitem.2.record hitem.1).synchronize⟩
termination_by (c.size, 2)
decreasing_by
  exact Prod.Lex.right _ (by decide)

theorem wellFormed_readItems (c : Cursor) (h : c.Over tokens) :
    AllWellFormed tokens (Stmt.nodesAll c.readItems.1) ∧ c.readItems.2.Over tokens := by
  rw [readItems_eq]
  split
  · exact ⟨by simp [AllWellFormed], h⟩
  · rename_i hc
    have hpos : 0 < c.size := size_pos_of_not_atEnd (by simp_all)
    have hsize := size_readDeclaration c
    have hfirst := wellFormed_readDeclaration c h
    have hothers := wellFormed_readItems c.readDeclaration.2 hfirst.2
    rw [Stmt.nodesAll_append, allWellFormed_append]
    exact ⟨⟨hfirst.1, hothers.1⟩, hothers.2⟩
termination_by (c.size, 3)
decreasing_by
  · exact Prod.Lex.right _ (by decide)
  · exact Prod.Lex.left _ _ (by omega)
end

theorem wellFormed_readProgram (c : Cursor) (h : c.Over tokens) :
    AllWellFormed tokens (Stmt.nodesAll c.readProgram.1) ∧ c.readProgram.2.Over tokens := by
  fun_induction readProgram c with
  | case1 c hc => exact ⟨by simp [AllWellFormed], h⟩
  | case2 c hc first others ih =>
      have hfirst := wellFormed_readDeclaration c h
      have hothers := ih hfirst.2
      rw [Stmt.nodesAll_append, allWellFormed_append]
      exact ⟨⟨hfirst.1, hothers.1⟩, hothers.2⟩

end Cursor

theorem over_ofTokens (tokens : List Token) : (Cursor.ofTokens tokens).Over tokens :=
  ⟨fun _ h ↦ h, nofun⟩

theorem wellFormed_parse (tokens : List Token) :
    AllWellFormed tokens (Stmt.nodesAll (parse tokens).statements) :=
  (Cursor.wellFormed_readProgram _ (over_ofTokens tokens)).1

theorem isLine_of_mem_errors {error : SyntaxError} (h : error ∈ (parse tokens).errors) :
    IsLine error.fault.message :=
  (Cursor.wellFormed_readProgram _ (over_ofTokens tokens)).2.errors error h

end Sigil
