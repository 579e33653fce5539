import Sigil.Proofs.Syntax.Recovery

/-!
# Reading does not look at places

Erasing the places of all tokens before they are read, or of everything that has been
read from them, gives the same trees and the same faults.  Each step of a reading
commutes with erasure, so every reading does.
-/

namespace Sigil

/-! ### Erasing -/

/-- The place of everything whose place is erased. -/
def Span.erased : Span := ⟨0, 0⟩

def Token.erase (token : Token) : Token := { token with span := .erased }

def SyntaxError.erase (error : SyntaxError) : SyntaxError := { error with offset := 0 }

def Expr.erase : Expr → Expr
  | .assign name _ value timing => .assign name .erased value.erase timing
  | .logical left op right _ => .logical left.erase op right.erase .erased
  | .conditional condition left right => .conditional condition.erase left.erase right.erase
  | .binary left op right _ => .binary left.erase op right.erase .erased
  | .unary op operand _ => .unary op operand.erase .erased
  | .reference name _ => .reference name .erased
  | .literal value => .literal value
  | .template text => .template text
  | .grouping inner => .grouping inner.erase

mutual
def Stmt.erase : Stmt → Stmt
  | .expression expr => .expression expr.erase
  | .console expr => .console expr.erase
  | .declaration name _ initializer mutability =>
    .declaration name .erased (initializer.map Expr.erase) mutability
  | .block statements => .block (Stmt.eraseAll statements)
  | .ifThen condition thenBranch elseBranch =>
    .ifThen condition.erase (Stmt.erase? thenBranch) (Stmt.erase? elseBranch)
  | .whileLoop condition body => .whileLoop condition.erase (Stmt.erase? body)
  | .forLoop initializer condition increment body =>
    .forLoop (Stmt.eraseAll initializer) condition.erase (increment.map Expr.erase)
      (Stmt.erase? body)
  | .breakLoop _ => .breakLoop .erased
  | .continueLoop _ => .continueLoop .erased

def Stmt.erase? : Option Stmt → Option Stmt
  | none => none
  | some statement => some (Stmt.erase statement)

def Stmt.eraseAll : List Stmt → List Stmt
  | [] => []
  | statement :: statements => Stmt.erase statement :: Stmt.eraseAll statements
end

def Cursor.erase (c : Cursor) : Cursor where
  previous := c.previous.map Token.erase
  rest := c.rest.map Token.erase
  loopDepth := c.loopDepth
  errors := c.errors.map SyntaxError.erase

/-- Erases a reading whose values are erased by `f`. -/
def Reading.erase {α : Type} (f : α → α) : Reading α → Reading α
  | .read a rest => .read (f a) rest.erase
  | .failed error rest => .failed error.erase rest.erase

@[simp] theorem Token.kind_erase (token : Token) : token.erase.kind = token.kind := rfl

@[simp] theorem Token.text_erase (token : Token) : token.erase.text = token.text := rfl

@[simp] theorem Token.span_erase (token : Token) : token.erase.span = .erased := rfl

namespace Stmt

@[simp] theorem eraseAll_nil : eraseAll [] = [] := by
  rw [eraseAll]

@[simp] theorem eraseAll_cons (statement : Stmt) (statements : List Stmt) :
    eraseAll (statement :: statements) = erase statement :: eraseAll statements := by
  rw [eraseAll]

@[simp] theorem eraseAll_append (first others : List Stmt) :
    eraseAll (first ++ others) = eraseAll first ++ eraseAll others := by
  induction first with
  | nil => simp
  | cons statement first ih => simp [ih]

theorem eraseAll_toList (statement : Option Stmt) :
    eraseAll statement.toList = (erase? statement).toList := by
  cases statement <;> simp [erase?]

end Stmt

namespace Reading

variable {α β : Type} {f : α → α} {g : β → β}

theorem andThen_erase {reading reading' : Reading α} {next next' : α → Cursor → Reading β}
    (h : reading' = reading.erase f)
    (hnext : ∀ a r, reading = .read a r → next' (f a) r.erase = (next a r).erase g) :
    reading'.andThen next' = (reading.andThen next).erase g := by
  subst h
  cases reading with
  | read a r => exact hnext a r rfl
  | failed error r => rfl

theorem map_erase {reading reading' : Reading α} {k k' : α → β} (h : reading' = reading.erase f)
    (hk : ∀ a, k' (f a) = g (k a)) : reading'.map k' = (reading.map k).erase g := by
  subst h
  cases reading with
  | read a r => exact congrArg (Reading.read · r.erase) (hk a)
  | failed error r => rfl

end Reading

namespace Cursor

variable {α : Type}

/-! ### Single tokens -/

@[simp] theorem rest_erase (c : Cursor) : c.erase.rest = c.rest.map Token.erase := rfl

@[simp] theorem loopDepth_erase (c : Cursor) : c.erase.loopDepth = c.loopDepth := rfl

@[simp] theorem atEnd_erase (c : Cursor) : c.erase.atEnd = c.atEnd := by
  simp [atEnd]

theorem advance_erase (c : Cursor) : c.erase.advance = c.advance.erase := by
  cases h : c.rest <;> simp [advance, h, erase]

theorem peek?_erase (c : Cursor) : c.erase.peek? = c.peek?.map Token.erase := by
  simp [peek?]

theorem check_erase (kind : TokenKind) (c : Cursor) : c.erase.check kind = c.check kind := by
  rw [check, check, peek?_erase, Option.any_map]
  rfl

theorem accept?_erase (select : TokenKind → Option α) (c : Cursor) :
    c.erase.accept? select =
      (c.accept? select).map fun (a, token, r) ↦ (a, token.erase, r.erase) := by
  cases h : c.rest with
  | nil => simp [accept?, h]
  | cons token tokens =>
      rw [accept?_of_rest select h,
        accept?_of_rest select (show c.erase.rest = token.erase :: _ by rw [rest_erase, h]; rfl),
        Option.map_map, advance_erase]
      rfl

theorem acceptOne?_erase (kind : TokenKind) (c : Cursor) :
    c.erase.acceptOne? kind = (c.acceptOne? kind).map fun (token, r) ↦ (token.erase, r.erase) := by
  rw [acceptOne?, acceptOne?, acceptAny?, acceptAny?, accept?_erase, Option.map_map,
    Option.map_map]
  rfl

theorem errorAtPrevious_erase (c : Cursor) (fault : SyntaxFault) :
    c.erase.errorAtPrevious fault = (c.errorAtPrevious fault).erase := by
  have hplace : c.erase.previous.or c.erase.peek? = (c.previous.or c.peek?).map Token.erase := by
    rw [peek?_erase, Option.map_or]
    rfl
  rw [errorAtPrevious, errorAtPrevious, hplace]
  cases c.previous.or c.peek? <;> rfl

theorem errorAtCurrent_erase (c : Cursor) (fault : SyntaxFault) :
    c.erase.errorAtCurrent fault = (c.errorAtCurrent fault).erase := by
  rw [errorAtCurrent, errorAtCurrent, peek?_erase]
  cases c.peek? with
  | none => exact errorAtPrevious_erase c fault
  | some token => rfl

theorem expect_erase (kind : TokenKind) (message : String) (c : Cursor) :
    c.erase.expect kind message = (c.expect kind message).erase Token.erase := by
  rw [expect, expect, acceptOne?_erase]
  cases c.acceptOne? kind with
  | none => simp only [Option.map_none, errorAtPrevious_erase, Reading.erase]
  | some next => rfl

theorem seekStatement_erase (previous : Option Token) (tokens : List Token) :
    seekStatement (previous.map Token.erase) (tokens.map Token.erase) =
      ((seekStatement previous tokens).1.map Token.erase,
        (seekStatement previous tokens).2.map Token.erase) := by
  induction tokens generalizing previous with
  | nil => rfl
  | cons token tokens ih =>
      have hplace : (previous.map Token.erase).any (·.kind == .semicolon) =
          previous.any (·.kind == .semicolon) := by
        cases previous <;> rfl
      rw [List.map_cons, seekStatement, seekStatement, hplace, Token.kind_erase]
      split
      · rfl
      · exact ih (some token)

theorem synchronize_erase (c : Cursor) : c.erase.synchronize = c.synchronize.erase := by
  have hseek := seekStatement_erase c.advance.previous c.advance.rest
  rw [synchronize, synchronize, advance_erase]
  simp only [erase] at hseek ⊢
  rw [hseek]

theorem record_erase (error : SyntaxError) (c : Cursor) :
    c.erase.record error.erase = (c.record error).erase := by
  simp [record, erase]

end Cursor

/-! ### Expressions -/

theorem Token.primary?_erase (token : Token) :
    token.erase.primary? = token.primary?.map Expr.erase := by
  rw [primary?, primary?, Token.kind_erase]
  cases token.kind <;> rfl

theorem Expr.isReference_erase (expr : Expr) : expr.erase.isReference = expr.isReference := by
  cases expr <;> rfl

theorem AssignForm.stored_erase (form : AssignForm) (name : String) (target : Span) (value : Expr)
    (operator : Span) :
    (form.stored name target value operator).erase =
      form.stored name .erased value.erase .erased := by
  cases form <;> rfl

theorem Connective.join_erase (connective : Connective) (left right : Expr) (span : Span) :
    (connective.join left right span).erase =
      connective.join left.erase right.erase .erased := by
  cases connective <;> rfl

namespace Cursor

mutual
theorem readLevel_erase (level : Level) (c : Cursor) :
    c.erase.readLevel level = (c.readLevel level).erase Expr.erase := by
  match level with
  | .assignment =>
      rw [readLevel_assignment, readLevel_assignment]
      apply Reading.andThen_erase (readLevel_erase (.chain .disjunction) c)
      intro target r hr
      have hsize := size_readLevel hr
      rw [accept?_erase]
      cases ha : r.accept? TokenKind.assignForm? with
      | none => rfl
      | some next =>
          obtain ⟨form, operator, s⟩ := next
          have hs := size_of_accept? ha
          apply Reading.andThen_erase (readLevel_erase .assignment s)
          intro value u _
          cases target with
          | reference name span =>
              simp only [Expr.erase, Reading.erase, AssignForm.stored_erase]
              rfl
          | _ => rfl
  | .chain chainLevel =>
      rw [readLevel_chain, readLevel_chain]
      apply Reading.andThen_erase (readLevel_erase chainLevel.operand c)
      intro left r hr
      have hsize := size_readLevel hr
      exact readChain_erase chainLevel left r
  | .conditional =>
      rw [readLevel_conditional, readLevel_conditional]
      apply Reading.andThen_erase (readLevel_erase (.chain .equality) c)
      intro condition r hr
      have hsize := size_readLevel hr
      rw [acceptOne?_erase]
      cases ha : r.acceptOne? .questionMark with
      | none => rfl
      | some next =>
          obtain ⟨mark, s⟩ := next
          have hs := size_of_acceptOne? ha
          apply Reading.andThen_erase (readLevel_erase .conditional s)
          intro left u hu
          have hu := size_readLevel hu
          apply Reading.andThen_erase (expect_erase _ _ u)
          intro colon v hv
          have hv := size_expect hv
          exact Reading.map_erase (readLevel_erase .conditional v) fun right ↦ rfl
  | .unary =>
      rw [readLevel_unary, readLevel_unary, accept?_erase]
      cases ha : c.accept? TokenKind.unaryOperator? with
      | none => exact readLevel_erase .suffixed c
      | some next =>
          obtain ⟨op, operator, r⟩ := next
          have hr := size_of_accept? ha
          apply Reading.andThen_erase (readLevel_erase .unary r)
          intro operand s _
          rw [Expr.isReference_erase]
          split <;> rfl
  | .suffixed =>
      rw [readLevel_suffixed, readLevel_suffixed]
      apply Reading.andThen_erase (readLevel_erase .primary c)
      intro operand r _
      rw [accept?_erase]
      cases ha : r.accept? TokenKind.suffixOperator? with
      | none => rfl
      | some next => cases operand <;> rfl
  | .primary =>
      rw [readLevel_primary, readLevel_primary, rest_erase]
      cases hc : c.rest with
      | nil => simp only [List.map_nil, errorAtCurrent_erase, Reading.erase]
      | cons token tokens =>
          have hadvance := size_advance_of_rest hc
          simp only [List.map_cons]
          by_cases hkind : token.kind = .leftParen
          · rw [if_pos hkind, if_pos (show token.erase.kind = .leftParen from hkind), advance_erase]
            apply Reading.andThen_erase (readLevel_erase .assignment c.advance)
            intro inner r _
            exact Reading.map_erase (expect_erase _ _ r) fun _ ↦ rfl
          · rw [if_neg hkind, if_neg (show token.erase.kind ≠ .leftParen from hkind),
              Token.primary?_erase, advance_erase]
            cases token.primary? <;> rfl
termination_by (c.size, level.rank)
decreasing_by
  all_goals first
    | exact Prod.Lex.left _ _ (by omega)
    | exact Prod.Lex.right _ (ChainLevel.rank_operand _)
    | exact Prod.Lex.right _ (by decide)

theorem readChain_erase (level : ChainLevel) (left : Expr) (c : Cursor) :
    c.erase.readChain level left.erase = (c.readChain level left).erase Expr.erase := by
  rw [readChain_eq, readChain_eq, accept?_erase]
  cases ha : c.accept? level.connective? with
  | none => rfl
  | some next =>
      obtain ⟨connective, operator, r⟩ := next
      have hr := size_of_accept? ha
      apply Reading.andThen_erase (readLevel_erase level.operand r)
      intro right s hs
      have hs := size_readLevel hs
      have hchain := readChain_erase level (connective.join left right operator.span) s
      rwa [Connective.join_erase] at hchain
termination_by (c.size, 0)
decreasing_by
  all_goals exact Prod.Lex.left _ _ (by omega)
end

theorem readExpression_erase (c : Cursor) :
    c.erase.readExpression = c.readExpression.erase Expr.erase :=
  readLevel_erase .assignment c

/-! ### Statements -/

theorem readExpressionStatement_erase (c : Cursor) :
    c.erase.readExpressionStatement = c.readExpressionStatement.erase Expr.erase := by
  rw [readExpressionStatement_eq, readExpressionStatement_eq]
  apply Reading.andThen_erase (readExpression_erase c)
  intro expr r _
  exact Reading.map_erase (expect_erase _ _ r) fun _ ↦ rfl

theorem readBinding_erase (mutability : Mutability) (c : Cursor) :
    c.erase.readBinding mutability = (c.readBinding mutability).erase Stmt.erase := by
  cases mutability with
  | constant =>
      rw [readBinding_constant, readBinding_constant]
      apply Reading.andThen_erase (expect_erase _ _ c)
      intro name r _
      apply Reading.andThen_erase (expect_erase _ _ r)
      intro sign s _
      exact Reading.map_erase (readExpression_erase s) fun value ↦ by simp [Stmt.erase]
  | mutable =>
      rw [readBinding_mutable, readBinding_mutable]
      apply Reading.andThen_erase (expect_erase _ _ c)
      intro name r _
      rw [acceptOne?_erase]
      cases r.acceptOne? .equal with
      | none => simp [Stmt.erase, Reading.erase]
      | some next =>
          exact Reading.map_erase (readExpression_erase next.2) fun value ↦ by simp [Stmt.erase]

theorem readBindings_erase (mutability : Mutability) (c : Cursor) :
    c.erase.readBindings mutability = (c.readBindings mutability).erase Stmt.eraseAll := by
  rw [readBindings_eq, readBindings_eq]
  apply Reading.andThen_erase (readBinding_erase mutability c)
  intro first r hr
  have hsize := size_readBinding hr
  rw [acceptOne?_erase]
  cases hcomma : r.acceptOne? .comma with
  | none => exact Reading.map_erase (expect_erase _ _ r) fun _ ↦ by simp
  | some next =>
      obtain ⟨comma, s⟩ := next
      have hs := size_of_acceptOne? hcomma
      exact Reading.map_erase (readBindings_erase mutability s) fun others ↦ by simp
termination_by c.size

theorem readForInitializer_erase (c : Cursor) :
    c.erase.readForInitializer = c.readForInitializer.erase Stmt.eraseAll := by
  rw [readForInitializer_eq, readForInitializer_eq, acceptOne?_erase]
  cases c.acceptOne? .semicolon with
  | some next => simp [Reading.erase]
  | none =>
      simp only [Option.map_none, acceptOne?_erase]
      cases c.acceptOne? .kwLet with
      | some next => exact readBindings_erase .mutable next.2
      | none =>
          exact Reading.map_erase (readExpressionStatement_erase c) fun expr ↦ by
            simp [Stmt.erase]

theorem readForCondition_erase (c : Cursor) :
    c.erase.readForCondition = c.readForCondition.erase Expr.erase := by
  rw [readForCondition_eq, readForCondition_eq, check_erase]
  split
  · exact Reading.map_erase (expect_erase _ _ c) fun _ ↦ rfl
  · apply Reading.andThen_erase (readExpression_erase c)
    intro condition r _
    exact Reading.map_erase (expect_erase _ _ r) fun _ ↦ rfl

theorem readForIncrement_erase (c : Cursor) :
    c.erase.readForIncrement = c.readForIncrement.erase (Option.map Expr.erase) := by
  rw [readForIncrement_eq, readForIncrement_eq, check_erase]
  split
  · exact Reading.map_erase (expect_erase _ _ c) fun _ ↦ rfl
  · apply Reading.andThen_erase (readExpression_erase c)
    intro increment r _
    exact Reading.map_erase (expect_erase _ _ r) fun _ ↦ rfl

end Cursor

def Parse.ForClauses.erase (clauses : Parse.ForClauses) : Parse.ForClauses :=
  ⟨Stmt.eraseAll clauses.initializer, clauses.condition.erase, clauses.increment.map Expr.erase⟩

namespace Cursor

theorem readForClauses_erase (c : Cursor) :
    c.erase.readForClauses = c.readForClauses.erase Parse.ForClauses.erase := by
  rw [readForClauses_eq, readForClauses_eq]
  apply Reading.andThen_erase (expect_erase _ _ c)
  intro opening r _
  apply Reading.andThen_erase (readForInitializer_erase r)
  intro initializer s _
  apply Reading.andThen_erase (readForCondition_erase s)
  intro condition u _
  exact Reading.map_erase (readForIncrement_erase u) fun increment ↦ rfl

theorem readCondition_erase (opening closing : String) (c : Cursor) :
    c.erase.readCondition opening closing =
      (c.readCondition opening closing).erase Expr.erase := by
  rw [readCondition_eq, readCondition_eq]
  apply Reading.andThen_erase (expect_erase _ _ c)
  intro _ r _
  apply Reading.andThen_erase (readExpression_erase r)
  intro condition s _
  exact Reading.map_erase (expect_erase _ _ s) fun _ ↦ rfl

theorem readLoopControl_erase (keyword : Token) (fault : SyntaxFault) (message : String)
    (statement : Stmt) (c : Cursor) :
    c.erase.readLoopControl keyword.erase fault message statement.erase =
      (c.readLoopControl keyword fault message statement).erase Stmt.erase? := by
  rw [readLoopControl_eq, readLoopControl_eq, loopDepth_erase]
  split
  · rfl
  · exact Reading.map_erase (expect_erase _ _ c) fun _ ↦ by rw [Stmt.erase?]

mutual
theorem readStatement_erase (c : Cursor) :
    c.erase.readStatement = c.readStatement.erase Stmt.erase? := by
  rw [readStatement_eq, readStatement_eq, rest_erase]
  cases hc : c.rest with
  | nil =>
      exact Reading.map_erase (readExpressionStatement_erase c) fun expr ↦ by
        rw [Stmt.erase?, Stmt.erase]
  | cons keyword tokens =>
      have hsize := size_advance_of_rest hc
      simp only [List.map_cons, Token.kind_erase, Token.span_erase, advance_erase]
      -- The cases are `;`, `{`, `console`, `if`, `while`, `for`, `break`, `continue`, and others.
      split
      · rw [Reading.erase, Stmt.erase?]
      · rw [readItems_erase]
        exact Reading.map_erase (expect_erase _ _ _) fun _ ↦ by rw [Stmt.erase?, Stmt.erase]
      · exact Reading.map_erase (readExpressionStatement_erase _) fun expr ↦ by
          rw [Stmt.erase?, Stmt.erase]
      · apply Reading.andThen_erase (readCondition_erase _ _ c.advance)
        intro condition s hs
        have hsizes := size_readCondition hs
        apply Reading.andThen_erase (readStatement_erase s)
        intro thenBranch u hu
        have hsizeu := size_readStatement hu
        rw [acceptOne?_erase]
        cases hv : u.acceptOne? .kwElse with
        | none => simp [Reading.erase, Stmt.erase?, Stmt.erase]
        | some next =>
            obtain ⟨otherwise, v⟩ := next
            have hsizev := size_of_acceptOne? hv
            exact Reading.map_erase (readStatement_erase v) fun elseBranch ↦ by
              rw [Stmt.erase?, Stmt.erase]
      · apply Reading.andThen_erase (readCondition_erase _ _ c.advance)
        intro condition s hs
        have hsizes := size_readCondition hs
        exact Reading.map_erase (readLoopBody_erase s) fun body ↦ by rw [Stmt.erase?, Stmt.erase]
      · apply Reading.andThen_erase (readForClauses_erase c.advance)
        intro clauses s hs
        have hsizes := size_readForClauses hs
        exact Reading.map_erase (readLoopBody_erase s) fun body ↦ by
          rw [Stmt.erase?, Stmt.erase]
          rfl
      · have hcontrol := readLoopControl_erase keyword .illegalBreak "Expected ';' after break."
          (.breakLoop keyword.span) c.advance
        rwa [Stmt.erase] at hcontrol
      · have hcontrol := readLoopControl_erase keyword .illegalContinue
          "Expected ';' after continue." (.continueLoop keyword.span) c.advance
        rwa [Stmt.erase] at hcontrol
      · exact Reading.map_erase (readExpressionStatement_erase c) fun expr ↦ by
          rw [Stmt.erase?, Stmt.erase]
termination_by (c.size, 0)
decreasing_by
  all_goals exact Prod.Lex.left _ _ (by omega)

theorem readLoopBody_erase (c : Cursor) :
    c.erase.readLoopBody = c.readLoopBody.erase Stmt.erase? := by
  have hbody := readStatement_erase c.enterLoop
  rw [readLoopBody_eq, readLoopBody_eq, show c.erase.enterLoop = c.enterLoop.erase from rfl, hbody]
  cases c.enterLoop.readStatement <;> rfl
termination_by (c.size, 1)
decreasing_by
  exact Prod.Lex.right _ (by decide)

theorem readDeclaration_erase (c : Cursor) :
    c.erase.readDeclaration =
      (Stmt.eraseAll c.readDeclaration.1, c.readDeclaration.2.erase) := by
  have hitem : c.erase.readItem = c.readItem.erase Stmt.eraseAll := by
    rw [readItem, readItem, acceptOne?_erase]
    cases c.acceptOne? .kwLet with
    | some next => exact readBindings_erase .mutable next.2
    | none =>
        simp only [Option.map_none, acceptOne?_erase]
        cases c.acceptOne? .kwConst with
        | some next => exact readBindings_erase .constant next.2
        | none =>
            exact Reading.map_erase (readStatement_erase c) fun statement ↦
              (Stmt.eraseAll_toList statement).symm
  rw [readDeclaration_eq, readDeclaration_eq, hitem]
  cases c.readItem with
  | read statements r => rfl
  | failed error r =>
      simp only [Reading.erase, recover, record_erase, synchronize_erase, Stmt.eraseAll_nil]
termination_by (c.size, 1)
decreasing_by
  exact Prod.Lex.right _ (by decide)

theorem readItems_erase (c : Cursor) :
    c.erase.readItems = (Stmt.eraseAll c.readItems.1, c.readItems.2.erase) := by
  rw [readItems_eq c, readItems_eq c.erase, check_erase, atEnd_erase]
  split
  · rw [Stmt.eraseAll_nil]
  · rename_i hc
    have hpos : 0 < c.size := size_pos_of_not_atEnd (by simp_all)
    have hsize := size_readDeclaration c
    have hothers := readItems_erase c.readDeclaration.2
    rw [readDeclaration_erase c, hothers, Stmt.eraseAll_append]
termination_by (c.size, 2)
decreasing_by
  · exact Prod.Lex.left _ _ (by omega)
  · exact Prod.Lex.right _ (by decide)
end

theorem readProgram_erase (c : Cursor) :
    c.erase.readProgram = (Stmt.eraseAll c.readProgram.1, c.readProgram.2.erase) := by
  fun_induction readProgram c with
  | case1 c hc => rw [readProgram, atEnd_erase, if_pos hc, Stmt.eraseAll_nil]
  | case2 c hc first others ih =>
      rw [readProgram, atEnd_erase, if_neg hc, readDeclaration_erase, Stmt.eraseAll_append]
      dsimp only
      rw [ih]

end Cursor

def Parsed.erase (parsed : Parsed) : Parsed :=
  ⟨Stmt.eraseAll parsed.statements, parsed.errors.map SyntaxError.erase⟩

/-- The places of tokens decide nothing but places. -/
theorem parse_erase (tokens : List Token) :
    parse (tokens.map Token.erase) = (parse tokens).erase := by
  have hprogram := Cursor.readProgram_erase (.ofTokens tokens)
  exact congrArg (fun program ↦ Parsed.mk program.1 program.2.errors) hprogram

end Sigil
