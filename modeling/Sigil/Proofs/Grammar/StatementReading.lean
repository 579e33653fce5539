import Sigil.Proofs.Grammar.Statement
import Sigil.Proofs.Syntax.Recovery

/-!
# Phrases of statements are read

The tokens of a phrase are read, without an error, as the statements that the
phrase stands for, if what follows them is not an `else` that would be theirs.
-/

namespace Sigil

namespace Grammar

variable {c : Cursor} {token : Token} {r : List Token} {looped pending : Bool}
  {mutability : Mutability}

/-! ### First tokens -/

/-- The kinds of tokens that an expression starts with. -/
def starters : List TokenKind :=
  [.kwNull, .kwTrue, .kwFalse, .number, .string, .interpolatedString, .identifier, .leftParen,
    .plus, .minus, .bang, .kwTypeof, .plusPlus, .minusMinus]

theorem mem_starters_of_unaryOperator? {kind : TokenKind} {op : UnaryOperator}
    (h : kind.unaryOperator? = some op) : kind ∈ starters := by
  cases kind <;> cases h <;> decide

theorem Phrase.exists_first {level : Level} (phrase : Phrase level) :
    ∃ first others, phrase.tokens = first :: others ∧ first.kind ∈ starters := by
  match phrase with
  | .assign target sign value => exact ⟨_, _, rfl, by simp [target.property, starters]⟩
  | .unassigned inner => exact inner.exists_first
  | .chain first links =>
      obtain ⟨token, others, htokens, hkind⟩ := first.exists_first
      exact ⟨token, others ++ links.tokens, by rw [tokens, htokens, List.cons_append], hkind⟩
  | .choice condition mark left colon right =>
      obtain ⟨token, others, htokens, hkind⟩ := condition.exists_first
      exact ⟨token, _, by rw [tokens, htokens, List.cons_append], hkind⟩
  | .unconditional inner => exact inner.exists_first
  | .signed sign operand =>
      exact ⟨_, _, rfl, mem_starters_of_unaryOperator? (unaryOperator?_of_signs sign)⟩
  | .updating sign target =>
      exact ⟨_, _, rfl, mem_starters_of_unaryOperator? (unaryOperator?_of_updates sign)⟩
  | .unsigned inner => exact inner.exists_first
  | .suffixed target sign => exact ⟨_, _, rfl, by simp [target.property, starters]⟩
  | .unsuffixed inner => exact inner.exists_first
  | .atom token expr h => exact ⟨_, _, rfl, by cases h <;> simp [starters, *]⟩
  | .group opening inner closing => exact ⟨_, _, rfl, by simp [opening.property, starters]⟩

theorem StatementPhrase.exists_first (phrase : StatementPhrase looped pending) :
    ∃ first others, phrase.tokens = first :: others ∧
      first.kind ∉ [TokenKind.kwLet, .kwConst, .kwElse, .rightBrace] := by
  cases phrase with
  | empty semicolon => exact ⟨_, _, rfl, by simp [semicolon.property]⟩
  | expression value semicolon =>
      obtain ⟨first, others, htokens, hkind⟩ := value.exists_first
      refine ⟨first, others ++ [semicolon.val], by rw [tokens, htokens, List.cons_append], ?_⟩
      intro hmem
      simp only [starters, List.mem_cons, List.not_mem_nil, or_false] at hmem hkind
      rcases hmem with h | h | h | h <;> simp [h] at hkind
  | _ keyword => exact ⟨_, _, rfl, by simp [keyword.property]⟩

theorem DeclarationPhrase.exists_first (phrase : DeclarationPhrase looped) :
    ∃ first others, phrase.tokens = first :: others ∧
      first.kind ∉ [TokenKind.kwElse, .rightBrace] := by
  cases phrase with
  | letList keyword bindings => exact ⟨_, _, rfl, by simp [keyword.property]⟩
  | constList keyword bindings => exact ⟨_, _, rfl, by simp [keyword.property]⟩
  | statement statement =>
      obtain ⟨first, others, htokens, hkind⟩ := statement.exists_first
      exact ⟨first, others, htokens, fun hmem ↦ hkind (by simp_all)⟩

/-! ### Parts without statements -/

theorem Phrase.readExpression_eq {kind : TokenKind} (phrase : Phrase .assignment)
    (closing : Terminal kind) (hkind : kind ∈ [TokenKind.semicolon, .comma, .colon, .rightParen])
    (hc : c.rest = phrase.tokens ++ closing.val :: r) :
    c.readExpression = .read phrase.expr (c.skip phrase.tokens.length) :=
  phrase.readLevel_eq c _ hc (ends_closing closing hkind)

theorem Phrase.readExpressionStatement_eq (phrase : Phrase .assignment)
    (semicolon : Terminal .semicolon) (hc : c.rest = phrase.tokens ++ semicolon.val :: r) :
    c.readExpressionStatement =
      .read phrase.expr (c.skip (phrase.tokens ++ [semicolon.val]).length) := by
  have hrest := Cursor.rest_skip_of_append hc
  rw [Cursor.readExpressionStatement_eq, phrase.readExpression_eq semicolon (by simp) hc,
    Reading.andThen_read, Cursor.expect_of_kind hrest semicolon.property, Reading.map_read,
    Cursor.advance_skip, List.length_append]
  rfl

theorem BindingPhrase.readBinding_eq {kind : TokenKind} (phrase : BindingPhrase mutability)
    (closing : Terminal kind) (hkind : kind ∈ [TokenKind.semicolon, .comma])
    (hc : c.rest = phrase.tokens ++ closing.val :: r) :
    c.readBinding mutability = .read phrase.stmt (c.skip phrase.tokens.length) := by
  have hkind' : kind ∈ [TokenKind.semicolon, .comma, .colon, .rightParen] :=
    List.mem_append_left [TokenKind.colon, .rightParen] hkind
  cases phrase with
  | bare name =>
      have hrest := Cursor.rest_advance_of_cons hc
      have hnone : c.advance.acceptOne? .equal = none := by
        rw [Cursor.acceptOne?_eq_none_iff, hrest]
        rintro token ⟨⟩ hequal
        rw [← closing.property, hequal] at hkind
        simp at hkind
      rw [Cursor.readBinding_mutable, Cursor.expect_of_kind hc name.property, Reading.andThen_read,
        hnone]
      rfl
  | initialized name sign value =>
      have hrest := Cursor.rest_advance_of_cons hc
      have hvalue := Cursor.rest_advance_of_cons hrest
      cases mutability with
      | mutable =>
          rw [Cursor.readBinding_mutable, Cursor.expect_of_kind hc name.property,
            Reading.andThen_read, Cursor.acceptOne?_of_kind hrest sign.property]
          simp only [value.readExpression_eq closing hkind' hvalue, Reading.map_read]
          rfl
      | constant =>
          rw [Cursor.readBinding_constant, Cursor.expect_of_kind hc name.property,
            Reading.andThen_read, Cursor.expect_of_kind hrest sign.property,
            Reading.andThen_read, value.readExpression_eq closing hkind' hvalue, Reading.map_read]
          rfl

theorem BindingsPhrase.readBindings_eq (phrase : BindingsPhrase mutability) (c : Cursor)
    (hc : c.rest = phrase.tokens ++ r) :
    c.readBindings mutability = .read phrase.stmts (c.skip phrase.tokens.length) := by
  induction phrase generalizing c with
  | last binding semicolon =>
      rw [tokens, List.append_assoc] at hc
      have hrest := Cursor.rest_skip_of_append hc
      have hnone : (c.skip binding.tokens.length).acceptOne? .comma = none := by
        rw [Cursor.acceptOne?_eq_none_iff, hrest]
        rintro token ⟨⟩
        simp [semicolon.property]
      rw [Cursor.readBindings_eq, binding.readBinding_eq semicolon (by simp) hc,
        Reading.andThen_read, hnone]
      simp only [Cursor.expect_of_kind hrest semicolon.property, Reading.map_read, tokens, stmts,
        List.length_append, Cursor.advance_skip]
      rfl
  | more binding comma others ih =>
      rw [tokens, List.append_assoc] at hc
      have hrest := Cursor.rest_skip_of_append hc
      have hothers := Cursor.rest_advance_of_cons hrest
      rw [Cursor.readBindings_eq, binding.readBinding_eq comma (by simp) hc,
        Reading.andThen_read, Cursor.acceptOne?_of_kind hrest comma.property]
      simp only [ih _ hothers, Reading.map_read]
      simp only [tokens, stmts, List.length_append, List.length_cons, Cursor.advance_skip,
        Cursor.skip_skip]
      congr 2
      omega

theorem ConditionPhrase.readCondition_eq (phrase : ConditionPhrase) (opening closing : String)
    (hc : c.rest = phrase.tokens ++ r) :
    c.readCondition opening closing =
      .read phrase.condition.expr (c.skip phrase.tokens.length) := by
  rw [tokens, List.cons_append, List.append_assoc] at hc
  have hrest := Cursor.rest_advance_of_cons hc
  have hclosing := Cursor.rest_skip_of_append hrest
  rw [Cursor.readCondition_eq, Cursor.expect_of_kind hc phrase.opening.property,
    Reading.andThen_read, phrase.condition.readExpression_eq phrase.closing (by simp) hrest,
    Reading.andThen_read, Cursor.expect_of_kind hclosing phrase.closing.property, Reading.map_read,
    Cursor.advance_skip, tokens, List.length_cons, List.length_append]
  rfl

theorem InitializerPhrase.readForInitializer_eq (phrase : InitializerPhrase)
    (hc : c.rest = phrase.tokens ++ r) :
    c.readForInitializer = .read phrase.stmts (c.skip phrase.tokens.length) := by
  cases phrase with
  | none semicolon =>
      rw [Cursor.readForInitializer_eq, Cursor.acceptOne?_of_kind hc semicolon.property]
      rfl
  | letList keyword bindings =>
      have hnone : c.acceptOne? .semicolon = .none := by
        rw [Cursor.acceptOne?_eq_none_iff, hc]
        rintro token ⟨⟩
        simp [keyword.property]
      have hrest := Cursor.rest_advance_of_cons hc
      rw [Cursor.readForInitializer_eq, hnone]
      simp only [Cursor.acceptOne?_of_kind hc keyword.property,
        bindings.readBindings_eq _ hrest]
      rfl
  | expression value semicolon =>
      rw [tokens, List.append_assoc] at hc
      obtain ⟨first, others, htokens, hkind⟩ := value.exists_first
      have hfirst : c.rest = first :: (others ++ semicolon.val :: r) := by
        rw [hc, htokens]
        rfl
      have hsemicolon : c.acceptOne? .semicolon = .none := by
        rw [Cursor.acceptOne?_eq_none_iff, hfirst]
        rintro token ⟨⟩ h
        simp [h, starters] at hkind
      have hlet : c.acceptOne? .kwLet = .none := by
        rw [Cursor.acceptOne?_eq_none_iff, hfirst]
        rintro token ⟨⟩ h
        simp [h, starters] at hkind
      rw [Cursor.readForInitializer_eq, hsemicolon]
      simp only [hlet, value.readExpressionStatement_eq semicolon hc, Reading.map_read]
      rfl

theorem check_eq_false_of_starters {kind : TokenKind} (phrase : Phrase .assignment)
    (hc : c.rest = phrase.tokens ++ r) (hkind : kind ∉ starters) : c.check kind = false := by
  obtain ⟨first, others, htokens, hfirst⟩ := phrase.exists_first
  rw [htokens, List.cons_append] at hc
  rw [Bool.eq_false_iff, ne_eq, Cursor.check_eq_true_iff]
  rintro ⟨token, tokens, hrest, rfl⟩
  cases hc.symm.trans hrest
  exact hkind hfirst

theorem readForCondition_eq (condition : Option (Phrase .assignment))
    (semicolon : Terminal .semicolon)
    (hc : c.rest = optionalTokens condition ++ semicolon.val :: r) :
    c.readForCondition = .read (conditionExpr condition)
      (c.skip (optionalTokens condition ++ [semicolon.val]).length) := by
  cases condition with
  | none =>
      have hcheck : c.check .semicolon = true :=
        Cursor.check_eq_true_iff.mpr ⟨_, _, hc, semicolon.property⟩
      rw [Cursor.readForCondition_eq, if_pos hcheck, Cursor.expect_of_kind hc semicolon.property]
      rfl
  | some condition =>
      have hcheck : c.check .semicolon = false :=
        check_eq_false_of_starters condition hc (by decide)
      have hrest := Cursor.rest_skip_of_append hc
      rw [Cursor.readForCondition_eq, hcheck, if_neg (by simp)]
      simp only [optionalTokens] at hc hrest
      rw [condition.readExpression_eq semicolon (by simp) hc, Reading.andThen_read,
        Cursor.expect_of_kind hrest semicolon.property, Reading.map_read, Cursor.advance_skip,
        List.length_append]
      rfl

theorem readForIncrement_eq (increment : Option (Phrase .assignment))
    (closing : Terminal .rightParen) (hc : c.rest = optionalTokens increment ++ closing.val :: r) :
    c.readForIncrement = .read (increment.map Phrase.expr)
      (c.skip (optionalTokens increment ++ [closing.val]).length) := by
  cases increment with
  | none =>
      have hcheck : c.check .rightParen = true :=
        Cursor.check_eq_true_iff.mpr ⟨_, _, hc, closing.property⟩
      rw [Cursor.readForIncrement_eq, if_pos hcheck, Cursor.expect_of_kind hc closing.property]
      rfl
  | some increment =>
      have hcheck : c.check .rightParen = false :=
        check_eq_false_of_starters increment hc (by decide)
      have hrest := Cursor.rest_skip_of_append hc
      rw [Cursor.readForIncrement_eq, hcheck, if_neg (by simp)]
      simp only [optionalTokens] at hc hrest
      rw [increment.readExpression_eq closing (by simp) hc, Reading.andThen_read,
        Cursor.expect_of_kind hrest closing.property, Reading.map_read, Cursor.advance_skip,
        List.length_append]
      rfl

theorem ClausesPhrase.readForClauses_eq (phrase : ClausesPhrase)
    (hc : c.rest = phrase.tokens ++ r) :
    c.readForClauses = .read ⟨phrase.initializer.stmts, conditionExpr phrase.condition,
      phrase.increment.map Phrase.expr⟩ (c.skip phrase.tokens.length) := by
  simp only [tokens, List.cons_append, List.append_assoc, List.nil_append] at hc
  have hinitializer := Cursor.rest_advance_of_cons hc
  have hcondition := Cursor.rest_skip_of_append hinitializer
  have hincrement : ((c.advance.skip phrase.initializer.tokens.length).skip
      (optionalTokens phrase.condition ++ [phrase.semicolon.val]).length).rest =
        optionalTokens phrase.increment ++ phrase.closing.val :: r :=
    Cursor.rest_skip_of_append (by simpa using hcondition)
  rw [Cursor.readForClauses_eq, Cursor.expect_of_kind hc phrase.opening.property,
    Reading.andThen_read, phrase.initializer.readForInitializer_eq hinitializer,
    Reading.andThen_read, readForCondition_eq phrase.condition phrase.semicolon hcondition,
    Reading.andThen_read, readForIncrement_eq phrase.increment phrase.closing hincrement,
    Reading.map_read]
  simp only [tokens, Cursor.skip_skip, List.length_append, List.length_cons, List.length_nil,
    ← Cursor.skip_succ]
  congr 2
  omega

/-! ### Statements -/

/-- What follows is not an `else`. -/
def NoElse (r : List Token) : Prop := ∀ token ∈ r.head?, token.kind ≠ .kwElse

/-- Declarations in a row end here: at a closing brace or the end. -/
def EndsItems (r : List Token) : Prop := ∀ token ∈ r.head?, token.kind = .rightBrace

theorem endsItems_iff : (c.check .rightBrace || c.atEnd) = true ↔ EndsItems c.rest := by
  cases h : c.rest <;> simp [Cursor.check, Cursor.peek?, Cursor.atEnd, EndsItems, h]

theorem EndsItems.noElse (h : EndsItems r) : NoElse r := by
  intro token htoken
  rw [h token htoken]
  simp

theorem ItemsPhrase.noElse (phrase : ItemsPhrase looped) (hr : NoElse r) :
    NoElse (phrase.tokens ++ r) := by
  intro token htoken
  cases phrase with
  | none => exact hr token htoken
  | item first others =>
      obtain ⟨start, tokens, htokens, hkind⟩ := first.exists_first
      rw [ItemsPhrase.tokens, htokens] at htoken
      cases htoken
      intro h
      simp [h] at hkind

theorem ItemsPhrase.noElse_tokens (phrase : ItemsPhrase looped) : NoElse phrase.tokens := by
  have h := phrase.noElse (r := []) nofun
  rwa [List.append_nil] at h

theorem readStatement_of_starters {others : List Token} (hc : c.rest = token :: others)
    (hkind : token.kind ∈ starters) :
    c.readStatement = c.readExpressionStatement.map fun expr ↦ some (.expression expr) := by
  rw [Cursor.readStatement_eq, hc]
  simp only [starters, List.mem_cons, List.not_mem_nil, or_false] at hkind
  rcases hkind with h | h | h | h | h | h | h | h | h | h | h | h | h | h <;> simp only [h]

theorem readLoopBody_of_readStatement {statement : Option Stmt} {n : Nat}
    (h : c.enterLoop.readStatement = .read statement (c.enterLoop.skip n)) :
    c.readLoopBody = .read statement (c.skip n) := by
  rw [Cursor.readLoopBody_eq, h, Cursor.skip_enterLoop]
  rfl

theorem readLoopControl_of_loopDepth {keyword : Token} {fault : SyntaxFault} {message : String}
    {statement : Stmt} (semicolon : Terminal .semicolon) (hc : c.rest = semicolon.val :: r)
    (hloop : 0 < c.loopDepth) :
    c.readLoopControl keyword fault message statement = .read (some statement) c.advance := by
  rw [Cursor.readLoopControl_eq, if_neg (Nat.ne_of_gt hloop),
    Cursor.expect_of_kind hc semicolon.property, Reading.map_read]

mutual
theorem StatementPhrase.readStatement_eq {looped pending : Bool}
    (phrase : StatementPhrase looped pending) (c : Cursor) (r : List Token)
    (hc : c.rest = phrase.tokens ++ r) (hloop : looped = true → 0 < c.loopDepth)
    (helse : pending = true → NoElse r) :
    c.readStatement = .read phrase.stmt? (c.skip phrase.tokens.length) := by
  match phrase with
  | .empty semicolon =>
      rw [Cursor.readStatement_eq, hc]
      simp only [StatementPhrase.tokens, List.singleton_append, semicolon.property]
      rfl
  | .block opening items closing =>
      rw [StatementPhrase.tokens, List.cons_append, List.append_assoc] at hc
      have hrest := Cursor.rest_advance_of_cons hc
      have hclosing := Cursor.rest_skip_of_append hrest
      have hitems := items.readItems_eq c.advance _ hrest (by simpa using hloop)
        (by rintro token ⟨⟩; exact closing.property)
      rw [Cursor.readStatement_eq, hc]
      simp only [opening.property, hitems, Cursor.expect_of_kind hclosing closing.property,
        Reading.map_read]
      simp only [Cursor.advance_skip, StatementPhrase.tokens, List.length_cons, List.length_append]
      rfl
  | .console keyword value semicolon =>
      rw [StatementPhrase.tokens, List.cons_append, List.append_assoc] at hc
      have hrest := Cursor.rest_advance_of_cons hc
      rw [Cursor.readStatement_eq, hc]
      simp only [keyword.property, value.readExpressionStatement_eq semicolon hrest,
        Reading.map_read]
      rfl
  | .ifThen keyword condition branch =>
      rw [StatementPhrase.tokens, List.cons_append, List.append_assoc] at hc
      have hrest := Cursor.rest_advance_of_cons hc
      have hbranch := Cursor.rest_skip_of_append hrest
      have hend := Cursor.rest_skip_of_append hbranch
      have hnone := Cursor.acceptOne?_eq_none_iff.mpr (hend.symm ▸ helse rfl)
      have hread := branch.readStatement_eq _ r hbranch (by simpa using hloop)
        (fun _ ↦ helse rfl)
      rw [Cursor.readStatement_eq, hc]
      simp only [keyword.property, condition.readCondition_eq _ _ hrest, Reading.andThen_read,
        hread, hnone]
      simp only [Cursor.skip_skip, StatementPhrase.tokens, List.length_cons, List.length_append]
      rfl
  | .ifElse keyword condition branch otherwise other =>
      simp only [StatementPhrase.tokens, List.cons_append, List.append_assoc] at hc
      have hrest := Cursor.rest_advance_of_cons hc
      have hbranch := Cursor.rest_skip_of_append hrest
      have hotherwise := Cursor.rest_skip_of_append hbranch
      have hother := Cursor.rest_advance_of_cons hotherwise
      have hread := branch.readStatement_eq _ _ hbranch (by simpa using hloop) (by simp)
      have hread' := other.readStatement_eq _ r hother (by simpa using hloop) helse
      rw [Cursor.readStatement_eq, hc]
      simp only [keyword.property, condition.readCondition_eq _ _ hrest, Reading.andThen_read,
        hread, Cursor.acceptOne?_of_kind hotherwise otherwise.property, hread', Reading.map_read]
      simp only [Cursor.advance_skip, Cursor.skip_skip, StatementPhrase.tokens, List.length_cons,
        List.length_append, ← Cursor.skip_succ]
      congr 2
      omega
  | .whileLoop keyword condition body =>
      rw [StatementPhrase.tokens, List.cons_append, List.append_assoc] at hc
      have hrest := Cursor.rest_advance_of_cons hc
      have hbody := Cursor.rest_skip_of_append hrest
      have hread := readLoopBody_of_readStatement
        (body.readStatement_eq (c.advance.skip _).enterLoop r hbody (fun _ ↦ Nat.succ_pos _) helse)
      rw [Cursor.readStatement_eq, hc]
      simp only [keyword.property, condition.readCondition_eq _ _ hrest, Reading.andThen_read,
        hread, Reading.map_read]
      simp only [Cursor.skip_skip, StatementPhrase.tokens, List.length_cons, List.length_append]
      rfl
  | .forLoop keyword clauses body =>
      rw [StatementPhrase.tokens, List.cons_append, List.append_assoc] at hc
      have hrest := Cursor.rest_advance_of_cons hc
      have hbody := Cursor.rest_skip_of_append hrest
      have hread := readLoopBody_of_readStatement
        (body.readStatement_eq (c.advance.skip _).enterLoop r hbody (fun _ ↦ Nat.succ_pos _) helse)
      rw [Cursor.readStatement_eq, hc]
      simp only [keyword.property, clauses.readForClauses_eq hrest, Reading.andThen_read,
        hread, Reading.map_read]
      simp only [Cursor.skip_skip, StatementPhrase.tokens, List.length_cons, List.length_append]
      rfl
  | .breakLoop keyword semicolon =>
      have hrest := Cursor.rest_advance_of_cons hc
      rw [Cursor.readStatement_eq, hc]
      simp only [StatementPhrase.tokens, List.cons_append, keyword.property,
        readLoopControl_of_loopDepth semicolon hrest (by simpa using hloop)]
      rfl
  | .continueLoop keyword semicolon =>
      have hrest := Cursor.rest_advance_of_cons hc
      rw [Cursor.readStatement_eq, hc]
      simp only [StatementPhrase.tokens, List.cons_append, keyword.property,
        readLoopControl_of_loopDepth semicolon hrest (by simpa using hloop)]
      rfl
  | .expression value semicolon =>
      rw [StatementPhrase.tokens, List.append_assoc] at hc
      obtain ⟨first, others, htokens, hkind⟩ := value.exists_first
      have hfirst : c.rest = first :: (others ++ semicolon.val :: r) := by
        rw [hc, htokens]
        rfl
      rw [readStatement_of_starters hfirst hkind, value.readExpressionStatement_eq semicolon hc]
      rfl

theorem DeclarationPhrase.readItem_eq {looped : Bool} (phrase : DeclarationPhrase looped)
    (c : Cursor) (r : List Token) (hc : c.rest = phrase.tokens ++ r)
    (hloop : looped = true → 0 < c.loopDepth) (helse : NoElse r) :
    c.readItem = .read phrase.stmts (c.skip phrase.tokens.length) := by
  match phrase with
  | .letList keyword bindings =>
      have hrest := Cursor.rest_advance_of_cons hc
      simp only [Cursor.readItem, Cursor.acceptOne?_of_kind hc keyword.property,
        bindings.readBindings_eq _ hrest]
      rfl
  | .constList keyword bindings =>
      have hrest := Cursor.rest_advance_of_cons hc
      have hnone : c.acceptOne? .kwLet = none := by
        rw [Cursor.acceptOne?_eq_none_iff, hc]
        rintro token ⟨⟩
        simp [keyword.property]
      simp only [Cursor.readItem, hnone, Cursor.acceptOne?_of_kind hc keyword.property,
        bindings.readBindings_eq _ hrest]
      rfl
  | .statement statement =>
      obtain ⟨first, others, htokens, hkind⟩ := statement.exists_first
      have hread := statement.readStatement_eq c r hc hloop (fun _ ↦ helse)
      rw [DeclarationPhrase.tokens, htokens] at hc
      have hlet : c.acceptOne? .kwLet = none := by
        rw [Cursor.acceptOne?_eq_none_iff, hc]
        rintro token ⟨⟩ h
        simp [h] at hkind
      have hconst : c.acceptOne? .kwConst = none := by
        rw [Cursor.acceptOne?_eq_none_iff, hc]
        rintro token ⟨⟩ h
        simp [h] at hkind
      simp only [Cursor.readItem, hlet, hconst, hread, Reading.map_read]
      rfl

theorem ItemsPhrase.readItems_eq {looped : Bool} (phrase : ItemsPhrase looped)
    (c : Cursor) (r : List Token) (hc : c.rest = phrase.tokens ++ r)
    (hloop : looped = true → 0 < c.loopDepth) (hr : EndsItems r) :
    c.readItems = (phrase.stmts, c.skip phrase.tokens.length) := by
  match phrase with
  | .none =>
      have hrest : c.rest = r := hc
      have hends := endsItems_iff.mpr (hrest.symm ▸ hr)
      rw [Cursor.readItems_eq, if_pos hends]
      rfl
  | .item first others =>
      rw [ItemsPhrase.tokens, List.append_assoc] at hc
      have hread := first.readItem_eq c _ hc hloop (others.noElse hr.noElse)
      have hends : ¬ EndsItems c.rest := by
        obtain ⟨token, tokens, htokens, hkind⟩ := first.exists_first
        intro hends
        rw [hc, htokens] at hends
        have hbrace := hends token rfl
        simp [hbrace] at hkind
      have hrest := Cursor.rest_skip_of_append hc
      have hothers := others.readItems_eq _ r hrest (by simpa using hloop) hr
      rw [Cursor.readItems_eq, if_neg (mt endsItems_iff.mp hends), Cursor.readDeclaration_eq,
        hread]
      simp only [Cursor.recover, hothers, Cursor.skip_skip, ItemsPhrase.tokens,
        List.length_append]
      rfl
end

/-- A program is read without an error, and then what follows it. -/
theorem ItemsPhrase.readProgram_append (phrase : ItemsPhrase looped) (c : Cursor) (r : List Token)
    (hc : c.rest = phrase.tokens ++ r) (hloop : looped = true → 0 < c.loopDepth)
    (helse : NoElse r) :
    c.readProgram = (phrase.stmts ++ (c.skip phrase.tokens.length).readProgram.1,
      (c.skip phrase.tokens.length).readProgram.2) := by
  match phrase with
  | .none => rfl
  | .item first others =>
      rw [ItemsPhrase.tokens, List.append_assoc] at hc
      have hread := first.readItem_eq c _ hc hloop (others.noElse helse)
      have hend : c.atEnd = false := by
        obtain ⟨token, tokens, htokens, hkind⟩ := first.exists_first
        rw [Cursor.atEnd, hc, htokens]
        rfl
      have hrest := Cursor.rest_skip_of_append hc
      have hothers := others.readProgram_append _ r hrest (by simpa using hloop) helse
      rw [Cursor.readProgram, hend, if_neg (by simp), Cursor.readDeclaration_eq, hread]
      simp only [Cursor.recover, hothers, Cursor.skip_skip, ItemsPhrase.tokens,
        List.length_append, ItemsPhrase.stmts, List.append_assoc]

/-- A program is read to its end without an error. -/
theorem ItemsPhrase.readProgram_eq (phrase : ItemsPhrase looped) (c : Cursor)
    (hc : c.rest = phrase.tokens) (hloop : looped = true → 0 < c.loopDepth) :
    c.readProgram = (phrase.stmts, c.skip phrase.tokens.length) := by
  rw [← List.append_nil phrase.tokens] at hc
  have hend : (c.skip phrase.tokens.length).atEnd = true := by
    rw [Cursor.atEnd, Cursor.rest_skip_of_append hc]
    rfl
  rw [phrase.readProgram_append c [] hc hloop (by simp [NoElse]), Cursor.readProgram, if_pos hend,
    List.append_nil]

end Grammar

end Sigil
