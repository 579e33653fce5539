import Sigil.Proofs.Grammar.StatementReading

/-!
# Statements that are read have derivations

Where reading statements records no error, the tokens it has passed are those of a
phrase for the statements it gives.  A phrase that an `else` could still belong to
is not followed by one.
-/

namespace Sigil

namespace Grammar

variable {c d s : Cursor} {mutability : Mutability}

/-! ### Parts without statements -/

/-- The cursor has moved over the tokens of an expression by the grammar. -/
theorem exists_phrase_of_readExpression {expr : Expr} (h : c.readExpression = .read expr s) :
    ∃ phrase : Phrase .assignment, phrase.expr = expr ∧ c.Passes phrase.tokens s := by
  obtain ⟨phrase, hexpr, hpasses, -⟩ := readsPhrase_of_readLevel _ c s expr h
  exact ⟨phrase, hexpr, hpasses⟩

theorem exists_phrase_of_readExpressionStatement {expr : Expr}
    (h : c.readExpressionStatement = .read expr s) :
    ∃ (phrase : Phrase .assignment) (semicolon : Terminal .semicolon),
      phrase.expr = expr ∧ c.Passes (phrase.tokens ++ [semicolon.val]) s := by
  rw [Cursor.readExpressionStatement_eq] at h
  obtain ⟨value, d, hd, h⟩ := Reading.andThen_eq_read_iff.mp h
  obtain ⟨phrase, rfl, hpasses⟩ := exists_phrase_of_readExpression hd
  obtain ⟨semicolon, hsemicolon, rfl⟩ := Reading.map_eq_read_iff.mp h
  obtain ⟨hrest, hkind, rfl⟩ := Cursor.expect_eq_read_iff.mp hsemicolon
  exact ⟨phrase, ⟨semicolon, hkind⟩, rfl, hpasses.trans (.advance hrest)⟩

theorem exists_phrase_of_readBinding {statement : Stmt}
    (h : c.readBinding mutability = .read statement s) :
    ∃ phrase : BindingPhrase mutability,
      phrase.stmt = statement ∧ c.Passes phrase.tokens s := by
  cases mutability with
  | constant =>
      rw [Cursor.readBinding_constant] at h
      obtain ⟨name, d, hname, h⟩ := Reading.andThen_eq_read_iff.mp h
      obtain ⟨hrest, hkind, rfl⟩ := Cursor.expect_eq_read_iff.mp hname
      obtain ⟨sign, d, hsign, h⟩ := Reading.andThen_eq_read_iff.mp h
      obtain ⟨hsignRest, hsignKind, rfl⟩ := Cursor.expect_eq_read_iff.mp hsign
      obtain ⟨value, hvalue, rfl⟩ := Reading.map_eq_read_iff.mp h
      obtain ⟨phrase, rfl, hpasses⟩ := exists_phrase_of_readExpression hvalue
      exact ⟨.initialized ⟨name, hkind⟩ ⟨sign, hsignKind⟩ phrase, rfl,
        .cons hrest (.cons hsignRest hpasses)⟩
  | mutable =>
      rw [Cursor.readBinding_mutable] at h
      obtain ⟨name, d, hname, h⟩ := Reading.andThen_eq_read_iff.mp h
      obtain ⟨hrest, hkind, rfl⟩ := Cursor.expect_eq_read_iff.mp hname
      split at h
      · cases h
        exact ⟨.bare ⟨name, hkind⟩, rfl, .advance hrest⟩
      · rename_i sign d hsign
        obtain ⟨hsignRest, hsignKind, rfl⟩ := Cursor.acceptOne?_eq_some_iff.mp hsign
        obtain ⟨value, hvalue, rfl⟩ := Reading.map_eq_read_iff.mp h
        obtain ⟨phrase, rfl, hpasses⟩ := exists_phrase_of_readExpression hvalue
        exact ⟨.initialized ⟨name, hkind⟩ ⟨sign, hsignKind⟩ phrase, rfl,
          .cons hrest (.cons hsignRest hpasses)⟩

theorem exists_phrase_of_readBindings (c s : Cursor) (statements : List Stmt)
    (h : c.readBindings mutability = .read statements s) :
    ∃ phrase : BindingsPhrase mutability,
      phrase.stmts = statements ∧ c.Passes phrase.tokens s := by
  rw [Cursor.readBindings_eq] at h
  obtain ⟨first, d, hd, h⟩ := Reading.andThen_eq_read_iff.mp h
  have hsize := Cursor.size_readBinding hd
  obtain ⟨binding, rfl, hpasses⟩ := exists_phrase_of_readBinding hd
  split at h
  · obtain ⟨semicolon, hsemicolon, rfl⟩ := Reading.map_eq_read_iff.mp h
    obtain ⟨hrest, hkind, rfl⟩ := Cursor.expect_eq_read_iff.mp hsemicolon
    exact ⟨.last binding ⟨semicolon, hkind⟩, rfl, hpasses.trans (.advance hrest)⟩
  · rename_i comma e hcomma
    have hsize' := Cursor.size_of_acceptOne? hcomma
    obtain ⟨hrest, hkind, rfl⟩ := Cursor.acceptOne?_eq_some_iff.mp hcomma
    obtain ⟨others, hothers, rfl⟩ := Reading.map_eq_read_iff.mp h
    obtain ⟨phrase, rfl, hothersPasses⟩ := exists_phrase_of_readBindings _ s others hothers
    exact ⟨.more binding ⟨comma, hkind⟩ phrase, rfl, hpasses.trans (.cons hrest hothersPasses)⟩
termination_by c.size

theorem exists_phrase_of_readCondition {opening closing : String} {condition : Expr}
    (h : c.readCondition opening closing = .read condition s) :
    ∃ phrase : ConditionPhrase, phrase.condition.expr = condition ∧ c.Passes phrase.tokens s := by
  rw [Cursor.readCondition_eq] at h
  obtain ⟨left, d, hleft, h⟩ := Reading.andThen_eq_read_iff.mp h
  obtain ⟨hrest, hkind, rfl⟩ := Cursor.expect_eq_read_iff.mp hleft
  obtain ⟨expr, d, hd, h⟩ := Reading.andThen_eq_read_iff.mp h
  obtain ⟨phrase, rfl, hpasses⟩ := exists_phrase_of_readExpression hd
  obtain ⟨right, hright, rfl⟩ := Reading.map_eq_read_iff.mp h
  obtain ⟨hrightRest, hrightKind, rfl⟩ := Cursor.expect_eq_read_iff.mp hright
  exact ⟨⟨⟨left, hkind⟩, phrase, ⟨right, hrightKind⟩⟩, rfl,
    .cons hrest (hpasses.trans (.advance hrightRest))⟩

theorem exists_phrase_of_readForInitializer {statements : List Stmt}
    (h : c.readForInitializer = .read statements s) :
    ∃ phrase : InitializerPhrase, phrase.stmts = statements ∧ c.Passes phrase.tokens s := by
  rw [Cursor.readForInitializer_eq] at h
  split at h
  · rename_i semicolon d hsemicolon
    cases h
    obtain ⟨hrest, hkind, rfl⟩ := Cursor.acceptOne?_eq_some_iff.mp hsemicolon
    exact ⟨.none ⟨semicolon, hkind⟩, rfl, .advance hrest⟩
  · split at h
    · rename_i keyword d hkeyword
      obtain ⟨hrest, hkind, rfl⟩ := Cursor.acceptOne?_eq_some_iff.mp hkeyword
      obtain ⟨bindings, rfl, hpasses⟩ := exists_phrase_of_readBindings _ s statements h
      exact ⟨.letList ⟨keyword, hkind⟩ bindings, rfl, .cons hrest hpasses⟩
    · obtain ⟨expr, hexpr, rfl⟩ := Reading.map_eq_read_iff.mp h
      obtain ⟨phrase, semicolon, rfl, hpasses⟩ := exists_phrase_of_readExpressionStatement hexpr
      exact ⟨.expression phrase semicolon, rfl, hpasses⟩

theorem exists_phrase_of_readForCondition {condition : Expr}
    (h : c.readForCondition = .read condition s) :
    ∃ (phrase : Option (Phrase .assignment)) (semicolon : Terminal .semicolon),
      conditionExpr phrase = condition ∧
        c.Passes (optionalTokens phrase ++ [semicolon.val]) s := by
  rw [Cursor.readForCondition_eq] at h
  split at h
  · obtain ⟨semicolon, hsemicolon, rfl⟩ := Reading.map_eq_read_iff.mp h
    obtain ⟨hrest, hkind, rfl⟩ := Cursor.expect_eq_read_iff.mp hsemicolon
    exact ⟨none, ⟨semicolon, hkind⟩, rfl, .advance hrest⟩
  · obtain ⟨expr, d, hd, h⟩ := Reading.andThen_eq_read_iff.mp h
    obtain ⟨phrase, rfl, hpasses⟩ := exists_phrase_of_readExpression hd
    obtain ⟨semicolon, hsemicolon, rfl⟩ := Reading.map_eq_read_iff.mp h
    obtain ⟨hrest, hkind, rfl⟩ := Cursor.expect_eq_read_iff.mp hsemicolon
    exact ⟨some phrase, ⟨semicolon, hkind⟩, rfl, hpasses.trans (.advance hrest)⟩

theorem exists_phrase_of_readForIncrement {increment : Option Expr}
    (h : c.readForIncrement = .read increment s) :
    ∃ (phrase : Option (Phrase .assignment)) (closing : Terminal .rightParen),
      phrase.map Phrase.expr = increment ∧
        c.Passes (optionalTokens phrase ++ [closing.val]) s := by
  rw [Cursor.readForIncrement_eq] at h
  split at h
  · obtain ⟨closing, hclosing, rfl⟩ := Reading.map_eq_read_iff.mp h
    obtain ⟨hrest, hkind, rfl⟩ := Cursor.expect_eq_read_iff.mp hclosing
    exact ⟨none, ⟨closing, hkind⟩, rfl, .advance hrest⟩
  · obtain ⟨expr, d, hd, h⟩ := Reading.andThen_eq_read_iff.mp h
    obtain ⟨phrase, rfl, hpasses⟩ := exists_phrase_of_readExpression hd
    obtain ⟨closing, hclosing, rfl⟩ := Reading.map_eq_read_iff.mp h
    obtain ⟨hrest, hkind, rfl⟩ := Cursor.expect_eq_read_iff.mp hclosing
    exact ⟨some phrase, ⟨closing, hkind⟩, rfl, hpasses.trans (.advance hrest)⟩

theorem exists_phrase_of_readForClauses {clauses : Parse.ForClauses}
    (h : c.readForClauses = .read clauses s) :
    ∃ phrase : ClausesPhrase, phrase.initializer.stmts = clauses.initializer ∧
      conditionExpr phrase.condition = clauses.condition ∧
      phrase.increment.map Phrase.expr = clauses.increment ∧ c.Passes phrase.tokens s := by
  rw [Cursor.readForClauses_eq] at h
  obtain ⟨opening, d, hopening, h⟩ := Reading.andThen_eq_read_iff.mp h
  obtain ⟨hrest, hkind, rfl⟩ := Cursor.expect_eq_read_iff.mp hopening
  obtain ⟨statements, d, hd, h⟩ := Reading.andThen_eq_read_iff.mp h
  obtain ⟨initializer, rfl, hinitializer⟩ := exists_phrase_of_readForInitializer hd
  obtain ⟨expr, e, he, h⟩ := Reading.andThen_eq_read_iff.mp h
  obtain ⟨condition, semicolon, rfl, hcondition⟩ := exists_phrase_of_readForCondition he
  obtain ⟨expr, hs, rfl⟩ := Reading.map_eq_read_iff.mp h
  obtain ⟨increment, closing, rfl, hincrement⟩ := exists_phrase_of_readForIncrement hs
  refine ⟨⟨⟨opening, hkind⟩, initializer, condition, semicolon, increment, closing⟩, rfl, rfl, rfl,
    ?_⟩
  have hpasses := Cursor.Passes.cons hrest (hinitializer.trans (hcondition.trans hincrement))
  simpa [ClausesPhrase.tokens] using hpasses

/-! ### Statements -/

/-- The cursor has moved over the tokens of a phrase for the statement, and no `else` follows that
would belong to it. -/
def ReadsStatement (looped : Bool) (c : Cursor) (statement : Option Stmt) (s : Cursor) : Prop :=
  ∃ (pending : Bool) (phrase : StatementPhrase looped pending),
    phrase.stmt? = statement ∧ c.Passes phrase.tokens s ∧ (pending = true → NoElse s.rest)

theorem readsStatement_of_readExpressionStatement {looped : Bool} {statement : Option Stmt}
    (h : c.readExpressionStatement.map (fun expr ↦ some (Stmt.expression expr)) =
      .read statement s) : ReadsStatement looped c statement s := by
  obtain ⟨expr, hexpr, rfl⟩ := Reading.map_eq_read_iff.mp h
  obtain ⟨value, semicolon, rfl, hpasses⟩ := exists_phrase_of_readExpressionStatement hexpr
  exact ⟨false, .expression value semicolon, rfl, hpasses, nofun⟩

theorem exists_semicolon_of_readLoopControl {keyword : Token} {fault : SyntaxFault}
    {message : String} {control : Stmt} {statement : Option Stmt}
    (h : c.readLoopControl keyword fault message control = .read statement s) :
    c.loopDepth ≠ 0 ∧ statement = some control ∧
      ∃ semicolon : Terminal .semicolon, c.Passes [semicolon.val] s := by
  rw [Cursor.readLoopControl_eq] at h
  split at h
  · cases h
  · rename_i hloop
    obtain ⟨semicolon, hsemicolon, rfl⟩ := Reading.map_eq_read_iff.mp h
    obtain ⟨hrest, hkind, rfl⟩ := Cursor.expect_eq_read_iff.mp hsemicolon
    exact ⟨hloop, rfl, ⟨semicolon, hkind⟩, .advance hrest⟩

section Branches

variable {looped : Bool} {keyword : Token} {condition : ConditionPhrase}
  {thenBranch elseBranch : Option Stmt}

theorem ReadsStatement.ifThen (hrest : ∃ tokens, c.rest = keyword :: tokens)
    (hkind : keyword.kind = .kwIf) (hcondition : c.advance.Passes condition.tokens d)
    (hbranch : ReadsStatement looped d thenBranch s) (hnoElse : NoElse s.rest) :
    ReadsStatement looped c (some (.ifThen condition.condition.expr thenBranch none)) s := by
  obtain ⟨pending, branch, rfl, hpasses, -⟩ := hbranch
  exact ⟨true, .ifThen ⟨keyword, hkind⟩ condition branch, rfl,
    .cons hrest (hcondition.trans hpasses), fun _ ↦ hnoElse⟩

theorem ReadsStatement.ifElse {e : Cursor} {otherwise : Token}
    (hrest : ∃ tokens, c.rest = keyword :: tokens) (hkind : keyword.kind = .kwIf)
    (hcondition : c.advance.Passes condition.tokens d)
    (hbranch : ReadsStatement looped d thenBranch e)
    (helse : ∃ tokens, e.rest = otherwise :: tokens) (helseKind : otherwise.kind = .kwElse)
    (hother : ReadsStatement looped e.advance elseBranch s) :
    ReadsStatement looped c (some (.ifThen condition.condition.expr thenBranch elseBranch)) s := by
  obtain ⟨pending, branch, rfl, hpasses, hpending⟩ := hbranch
  obtain ⟨pending', other, rfl, hotherPasses, hpending'⟩ := hother
  cases pending with
  | true =>
      -- The branch would have taken this `else`.
      obtain ⟨others, helse⟩ := helse
      exact (hpending rfl otherwise (by rw [helse]; rfl) helseKind).elim
  | false =>
      refine ⟨pending', .ifElse ⟨keyword, hkind⟩ condition branch ⟨otherwise, helseKind⟩ other,
        rfl, ?_, hpending'⟩
      exact .cons hrest (hcondition.trans (hpasses.trans (.cons helse hotherPasses)))

end Branches

mutual
theorem readsStatement_of_readStatement (looped : Bool) (c s : Cursor) (statement : Option Stmt)
    (hloop : c.loopDepth ≠ 0 → looped = true) (h : c.readStatement = .read statement s)
    (herrors : s.errors = c.errors) : ReadsStatement looped c statement s := by
  rw [Cursor.readStatement_eq] at h
  split at h
  · exact readsStatement_of_readExpressionStatement h
  · rename_i keyword tokens hc
    have hsize := Cursor.size_advance_of_rest hc
    have hrest : ∃ tokens, c.rest = keyword :: tokens := ⟨tokens, hc⟩
    have hloop' : c.advance.loopDepth ≠ 0 → looped = true := by simpa using hloop
    have herrors' : s.errors = c.advance.errors := by simpa using herrors
    -- The first token is `;`, `{`, `console`, `if`, `while`, `for`, `break`, `continue` or another.
    split at h
    · rename_i hkind
      cases h
      exact ⟨false, .empty ⟨keyword, hkind⟩, rfl, .advance hrest, nofun⟩
    · rename_i hkind
      obtain ⟨closing, hclosing, rfl⟩ := Reading.map_eq_read_iff.mp h
      obtain ⟨hclosingRest, hclosingKind, rfl⟩ := Cursor.expect_eq_read_iff.mp hclosing
      obtain ⟨items, hstmts, hpasses⟩ := exists_phrase_of_readItems looped c.advance hloop'
        (by simpa using herrors')
      refine ⟨false, .block ⟨keyword, hkind⟩ items ⟨closing, hclosingKind⟩, ?_, ?_, nofun⟩
      · rw [StatementPhrase.stmt?, hstmts]
      · exact .cons hrest (hpasses.trans (.advance hclosingRest))
    · rename_i hkind
      obtain ⟨expr, hexpr, rfl⟩ := Reading.map_eq_read_iff.mp h
      obtain ⟨value, semicolon, rfl, hpasses⟩ := exists_phrase_of_readExpressionStatement hexpr
      exact ⟨false, .console ⟨keyword, hkind⟩ value semicolon, rfl, .cons hrest hpasses, nofun⟩
    · rename_i hkind
      obtain ⟨expr, d, hd, h⟩ := Reading.andThen_eq_read_iff.mp h
      have hsized := Cursor.size_readCondition hd
      obtain ⟨condition, rfl, hcondition⟩ := exists_phrase_of_readCondition hd
      obtain ⟨thenBranch, e, he, h⟩ := Reading.andThen_eq_read_iff.mp h
      have hsizee := Cursor.size_readStatement he
      have hleads := (Cursor.leads_readStatement d).of_read he
      have hloopd : d.loopDepth ≠ 0 → looped = true := by rwa [hcondition.loopDepth]
      have herrorsd : s.errors = d.errors := by rwa [hcondition.errors]
      split at h
      · rename_i hnone
        cases h
        exact .ifThen hrest hkind hcondition
          (readsStatement_of_readStatement looped d s thenBranch hloopd he herrorsd)
          (Cursor.acceptOne?_eq_none_iff.mp hnone)
      · rename_i otherwise f hotherwise
        have hsizef := Cursor.size_of_acceptOne? hotherwise
        obtain ⟨helse, helseKind, rfl⟩ := Cursor.acceptOne?_eq_some_iff.mp hotherwise
        obtain ⟨elseBranch, hs, rfl⟩ := Reading.map_eq_read_iff.mp h
        have hleads' := (Cursor.Leads.advance e).trans
          ((Cursor.leads_readStatement e.advance).of_read hs)
        -- No error is recorded up to the end, so none is recorded in the first branch.
        have herrorse := hleads.errors_eq hleads' herrorsd
        have hbranch :=
          readsStatement_of_readStatement looped d e thenBranch hloopd he herrorse
        have hother := readsStatement_of_readStatement looped e.advance s elseBranch
          (by rwa [Cursor.loopDepth_advance, hleads.loopDepth]) hs
          (by rw [Cursor.errors_advance, herrorse, herrorsd])
        exact .ifElse hrest hkind hcondition hbranch helse helseKind hother
    · rename_i hkind
      obtain ⟨expr, d, hd, h⟩ := Reading.andThen_eq_read_iff.mp h
      have hsized := Cursor.size_readCondition hd
      obtain ⟨condition, rfl, hcondition⟩ := exists_phrase_of_readCondition hd
      obtain ⟨body, hbody, rfl⟩ := Reading.map_eq_read_iff.mp h
      obtain ⟨pending, phrase, rfl, hpasses, hpending⟩ :=
        readsStatement_of_readLoopBody d s body hbody (by rwa [hcondition.errors])
      exact ⟨pending, .whileLoop ⟨keyword, hkind⟩ condition phrase, rfl,
        .cons hrest (hcondition.trans hpasses), hpending⟩
    · rename_i hkind
      obtain ⟨clauses, d, hd, h⟩ := Reading.andThen_eq_read_iff.mp h
      have hsized := Cursor.size_readForClauses hd
      obtain ⟨head, hinitializer, hcondition, hincrement, hhead⟩ :=
        exists_phrase_of_readForClauses hd
      obtain ⟨body, hbody, rfl⟩ := Reading.map_eq_read_iff.mp h
      obtain ⟨pending, phrase, rfl, hpasses, hpending⟩ :=
        readsStatement_of_readLoopBody d s body hbody (by rwa [hhead.errors])
      refine ⟨pending, .forLoop ⟨keyword, hkind⟩ head phrase, ?_, .cons hrest (hhead.trans hpasses),
        hpending⟩
      rw [StatementPhrase.stmt?, hinitializer, hcondition, hincrement]
    · rename_i hkind
      obtain ⟨hdepth, rfl, semicolon, hpasses⟩ := exists_semicolon_of_readLoopControl h
      obtain rfl := hloop' hdepth
      exact ⟨false, .breakLoop ⟨keyword, hkind⟩ semicolon, rfl, .cons hrest hpasses, nofun⟩
    · rename_i hkind
      obtain ⟨hdepth, rfl, semicolon, hpasses⟩ := exists_semicolon_of_readLoopControl h
      obtain rfl := hloop' hdepth
      exact ⟨false, .continueLoop ⟨keyword, hkind⟩ semicolon, rfl, .cons hrest hpasses, nofun⟩
    · exact readsStatement_of_readExpressionStatement h
termination_by (c.size, 0)
decreasing_by
  all_goals exact Prod.Lex.left _ _ (by omega)

theorem readsStatement_of_readLoopBody (c s : Cursor) (statement : Option Stmt)
    (h : c.readLoopBody = .read statement s) (herrors : s.errors = c.errors) :
    ReadsStatement true c statement s := by
  rw [Cursor.readLoopBody_eq] at h
  cases hread : c.enterLoop.readStatement with
  | read value d =>
      rw [hread] at h
      cases h
      obtain ⟨pending, phrase, hstmt, hpasses, hpending⟩ :=
        readsStatement_of_readStatement true c.enterLoop d statement (fun _ ↦ rfl) hread herrors
      exact ⟨pending, phrase, hstmt, hpasses.leaveLoop, hpending⟩
  | failed error d =>
      rw [hread] at h
      cases h
termination_by (c.size, 1)
decreasing_by
  exact Prod.Lex.right _ (by decide)

theorem exists_phrase_of_readItem (looped : Bool) (c s : Cursor) (statements : List Stmt)
    (hloop : c.loopDepth ≠ 0 → looped = true) (h : c.readItem = .read statements s)
    (herrors : s.errors = c.errors) :
    ∃ phrase : DeclarationPhrase looped, phrase.stmts = statements ∧ c.Passes phrase.tokens s := by
  unfold Cursor.readItem at h
  split at h
  · rename_i keyword d hkeyword
    obtain ⟨hrest, hkind, rfl⟩ := Cursor.acceptOne?_eq_some_iff.mp hkeyword
    obtain ⟨bindings, rfl, hpasses⟩ := exists_phrase_of_readBindings _ s statements h
    exact ⟨.letList ⟨keyword, hkind⟩ bindings, rfl, .cons hrest hpasses⟩
  · split at h
    · rename_i keyword d hkeyword
      obtain ⟨hrest, hkind, rfl⟩ := Cursor.acceptOne?_eq_some_iff.mp hkeyword
      obtain ⟨bindings, rfl, hpasses⟩ := exists_phrase_of_readBindings _ s statements h
      exact ⟨.constList ⟨keyword, hkind⟩ bindings, rfl, .cons hrest hpasses⟩
    · obtain ⟨statement, hstatement, rfl⟩ := Reading.map_eq_read_iff.mp h
      obtain ⟨pending, phrase, rfl, hpasses, -⟩ :=
        readsStatement_of_readStatement looped c s statement hloop hstatement herrors
      exact ⟨.statement phrase, rfl, hpasses⟩
termination_by (c.size, 1)
decreasing_by
  exact Prod.Lex.right _ (by decide)

theorem exists_phrase_of_readDeclaration (looped : Bool) (c : Cursor)
    (hloop : c.loopDepth ≠ 0 → looped = true) (herrors : c.readDeclaration.2.errors = c.errors) :
    ∃ phrase : DeclarationPhrase looped,
      phrase.stmts = c.readDeclaration.1 ∧ c.Passes phrase.tokens c.readDeclaration.2 := by
  rw [Cursor.readDeclaration_eq] at herrors ⊢
  obtain ⟨statements, s, hread⟩ :=
    Cursor.exists_read_of_recover (Cursor.leads_readItem c) herrors
  rw [hread] at herrors ⊢
  exact exists_phrase_of_readItem looped c s statements hloop hread herrors
termination_by (c.size, 2)
decreasing_by
  exact Prod.Lex.right _ (by decide)

theorem exists_phrase_of_readItems (looped : Bool) (c : Cursor)
    (hloop : c.loopDepth ≠ 0 → looped = true) (herrors : c.readItems.2.errors = c.errors) :
    ∃ phrase : ItemsPhrase looped,
      phrase.stmts = c.readItems.1 ∧ c.Passes phrase.tokens c.readItems.2 := by
  rw [Cursor.readItems_eq] at herrors ⊢
  split at herrors
  · rename_i hends
    rw [if_pos hends]
    exact ⟨.none, rfl, .refl c⟩
  · rename_i hends
    rw [if_neg hends]
    have hpos : 0 < c.size := Cursor.size_pos_of_not_atEnd (by simp_all)
    have hsize := Cursor.size_readDeclaration c
    have hleads := Cursor.leads_readDeclaration c
    have herrors' := hleads.errors_eq (Cursor.leads_readItems _) herrors
    obtain ⟨first, hfirst, hpasses⟩ := exists_phrase_of_readDeclaration looped c hloop herrors'
    obtain ⟨others, hothers, hothersPasses⟩ :=
      exists_phrase_of_readItems looped c.readDeclaration.2 (by rwa [hleads.loopDepth])
        (herrors.trans herrors'.symm)
    exact ⟨.item first others, by rw [ItemsPhrase.stmts, hfirst, hothers],
      hpasses.trans hothersPasses⟩
termination_by (c.size, 3)
decreasing_by
  · exact Prod.Lex.right _ (by decide)
  · exact Prod.Lex.left _ _ (by omega)
end

/-- A program read without an error has a derivation. -/
theorem exists_phrase_of_readProgram (c : Cursor) (hloop : c.loopDepth = 0)
    (herrors : c.readProgram.2.errors = c.errors) :
    ∃ phrase : ItemsPhrase false, phrase.stmts = c.readProgram.1 ∧ c.rest = phrase.tokens := by
  fun_induction Cursor.readProgram c with
  | case1 c hend => exact ⟨.none, rfl, List.isEmpty_iff.mp hend⟩
  | case2 c hend first others ih =>
      have hleads := Cursor.leads_readDeclaration c
      have herrors' := hleads.errors_eq (Cursor.leads_readProgram _) herrors
      obtain ⟨item, hitem, hpasses, -⟩ :=
        exists_phrase_of_readDeclaration false c (fun h ↦ (h hloop).elim) herrors'
      obtain ⟨items, hitems, hrest⟩ :=
        ih (hleads.loopDepth.trans hloop) (herrors.trans herrors'.symm)
      refine ⟨.item item items, ?_, ?_⟩
      · rw [ItemsPhrase.stmts, hitem, hitems]
      · rw [ItemsPhrase.tokens, hpasses, hrest]

end Grammar

end Sigil
