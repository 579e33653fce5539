import Sigil.Proofs.Syntax.Recovery

/-!
# What reading does not look at

The errors recorded before a reading starts do not matter to it.  Neither does what
follows a semicolon that it leaves unread, nor the token before the cursor: a reading
that reports an error at the last token read has read one itself.
-/

namespace Sigil

namespace Reading

variable {α β : Type} {f : Cursor → Cursor} {reading reading' : Reading α}

theorem andThen_mapCursor {next next' : α → Cursor → Reading β}
    (h : reading' = reading.mapCursor f)
    (hnext : ∀ a r, reading = .read a r → next' a (f r) = (next a r).mapCursor f) :
    reading'.andThen next' = (reading.andThen next).mapCursor f := by
  subst h
  cases reading with
  | read a r => exact hnext a r rfl
  | failed error r => rfl

theorem map_mapCursor (h : reading' = reading.mapCursor f) (k : α → β) :
    reading'.map k = (reading.map k).mapCursor f := by
  subst h
  cases reading <;> rfl

end Reading

namespace Cursor

variable {α β : Type} {c d : Cursor} {earlier : List SyntaxError} {later : List Token}

/-- The same cursor with more tokens at the end and with errors that were recorded earlier. -/
def amid (earlier : List SyntaxError) (later : List Token) (c : Cursor) : Cursor :=
  { c with rest := c.rest ++ later, errors := earlier ++ c.errors }

/-- Nothing is added at the end, or a semicolon stands before it. -/
def Guarded (later : List Token) (c : Cursor) : Prop :=
  later = [] ∨ ∃ token ∈ c.rest, token.kind = .semicolon

theorem guarded_nil (c : Cursor) : c.Guarded [] := .inl rfl

theorem Guarded.crosses (h : c.Guarded later) (hcross : c.Crosses d) : d.Guarded later := by
  rcases h with rfl | ⟨token, hmem, hkind⟩
  · exact guarded_nil d
  · obtain ⟨u, ⟨hrest, -⟩, hkinds⟩ := hcross
    rw [hrest, List.mem_append] at hmem
    rcases hmem with hmem | hmem
    · exact absurd hkind (hkinds token hmem)
    · exact .inr ⟨token, hmem, hkind⟩

/-! ### Single tokens -/

theorem peek?_amid (h : c.Guarded later) : (c.amid earlier later).peek? = c.peek? := by
  rcases h with rfl | ⟨token, hmem, -⟩
  · simp [peek?, amid]
  · have hsome : c.rest.head?.isSome := List.isSome_head?.mpr (List.ne_nil_of_mem hmem)
    rw [peek?, peek?, amid, List.head?_append, Option.or_of_isSome hsome]

theorem advance_amid (h : c.Guarded later) :
    (c.amid earlier later).advance = c.advance.amid earlier later := by
  cases hc : c.rest with
  | nil =>
      rcases h with rfl | ⟨token, hmem, -⟩
      · simp [advance, amid, hc]
      · simp [hc] at hmem
  | cons token tokens => simp [advance, amid, hc]

theorem accept?_amid (h : c.Guarded later) (select : TokenKind → Option α) :
    (c.amid earlier later).accept? select =
      (c.accept? select).map fun (a, token, r) ↦ (a, token, r.amid earlier later) := by
  have hpeek : (c.amid earlier later).peek? = c.peek? := peek?_amid h
  cases hc : c.rest with
  | nil =>
      rw [peek?, peek?, hc, List.head?_nil, List.head?_eq_none_iff] at hpeek
      simp [accept?, hc, hpeek]
  | cons token tokens =>
      have hrest : (c.amid earlier later).rest = token :: (tokens ++ later) := by
        simp [amid, hc]
      rw [accept?_of_rest select hc, accept?_of_rest select hrest, advance_amid h,
        Option.map_map]
      rfl

theorem acceptOne?_amid (h : c.Guarded later) (kind : TokenKind) :
    (c.amid earlier later).acceptOne? kind =
      (c.acceptOne? kind).map fun (token, r) ↦ (token, r.amid earlier later) := by
  rw [acceptOne?, acceptOne?, acceptAny?, acceptAny?, accept?_amid h, Option.map_map,
    Option.map_map]
  rfl

theorem check_amid (h : c.Guarded later) (kind : TokenKind) :
    (c.amid earlier later).check kind = c.check kind := by
  rw [check, check, peek?_amid h]

theorem atEnd_amid (c : Cursor) : (c.amid earlier []).atEnd = c.atEnd := by
  simp [atEnd, amid]

theorem errorAtPrevious_amid (h : c.Guarded later) (fault : SyntaxFault) :
    (c.amid earlier later).errorAtPrevious fault = c.errorAtPrevious fault := by
  rw [errorAtPrevious, errorAtPrevious, peek?_amid h]
  rfl

theorem errorAtCurrent_amid (h : c.Guarded later) (fault : SyntaxFault) :
    (c.amid earlier later).errorAtCurrent fault = c.errorAtCurrent fault := by
  rw [errorAtCurrent, errorAtCurrent, peek?_amid h, errorAtPrevious_amid h]

theorem expect_amid (h : c.Guarded later) (kind : TokenKind) (message : String) :
    (c.amid earlier later).expect kind message =
      (c.expect kind message).mapCursor (amid earlier later) := by
  rw [expect, expect, acceptOne?_amid h, errorAtPrevious_amid h]
  cases c.acceptOne? kind <;> rfl

/-! ### Expressions -/

mutual
theorem readLevel_amid (level : Level) (c : Cursor) (h : c.Guarded later) :
    (c.amid earlier later).readLevel level =
      (c.readLevel level).mapCursor (amid earlier later) := by
  match level with
  | .assignment =>
      rw [readLevel_assignment, readLevel_assignment]
      apply Reading.andThen_mapCursor (readLevel_amid (.chain .disjunction) c h)
      intro target r hr
      have hsize := size_readLevel hr
      have hguard := h.crosses ((crosses_readLevel _ c).of_read hr)
      rw [accept?_amid hguard]
      cases ha : r.accept? TokenKind.assignForm? with
      | none => rfl
      | some next =>
          obtain ⟨form, operator, s⟩ := next
          have hs := size_of_accept? ha
          have hguards := hguard.crosses (crosses_accept? rfl ha)
          apply Reading.andThen_mapCursor (readLevel_amid .assignment s hguards)
          intro value u _
          cases target <;> rfl
  | .chain chainLevel =>
      rw [readLevel_chain, readLevel_chain]
      apply Reading.andThen_mapCursor (readLevel_amid chainLevel.operand c h)
      intro left r hr
      have hsize := size_readLevel hr
      exact readChain_amid chainLevel left r (h.crosses ((crosses_readLevel _ c).of_read hr))
  | .conditional =>
      rw [readLevel_conditional, readLevel_conditional]
      apply Reading.andThen_mapCursor (readLevel_amid (.chain .equality) c h)
      intro condition r hr
      have hsize := size_readLevel hr
      have hguard := h.crosses ((crosses_readLevel _ c).of_read hr)
      rw [acceptOne?_amid hguard]
      cases ha : r.acceptOne? .questionMark with
      | none => rfl
      | some next =>
          obtain ⟨mark, s⟩ := next
          have hs := size_of_acceptOne? ha
          have hguards := hguard.crosses (crosses_acceptOne? (by decide) ha)
          apply Reading.andThen_mapCursor (readLevel_amid .conditional s hguards)
          intro left u hu
          have hsizeu := size_readLevel hu
          have hguardu := hguards.crosses ((crosses_readLevel _ s).of_read hu)
          apply Reading.andThen_mapCursor (expect_amid hguardu _ _)
          intro colon v hv
          have hsizev := size_expect hv
          have hguardv := hguardu.crosses ((crosses_expect (by decide) _ u).of_read hv)
          exact Reading.map_mapCursor (readLevel_amid .conditional v hguardv) _
  | .unary =>
      rw [readLevel_unary, readLevel_unary, accept?_amid h]
      cases ha : c.accept? TokenKind.unaryOperator? with
      | none => exact readLevel_amid .suffixed c h
      | some next =>
          obtain ⟨op, operator, r⟩ := next
          have hr := size_of_accept? ha
          have hguard := h.crosses (crosses_accept? rfl ha)
          apply Reading.andThen_mapCursor (readLevel_amid .unary r hguard)
          intro operand s _
          split <;> rfl
  | .suffixed =>
      rw [readLevel_suffixed, readLevel_suffixed]
      apply Reading.andThen_mapCursor (readLevel_amid .primary c h)
      intro operand r hr
      rw [accept?_amid (h.crosses ((crosses_readLevel _ c).of_read hr))]
      cases ha : r.accept? TokenKind.suffixOperator? with
      | none => rfl
      | some next => cases operand <;> rfl
  | .primary =>
      rw [readLevel_primary, readLevel_primary, advance_amid h, errorAtCurrent_amid h]
      cases hc : c.rest with
      | nil =>
          rcases h with rfl | ⟨token, hmem, -⟩
          · simp [Reading.mapCursor, amid, hc]
          · simp [hc] at hmem
      | cons token tokens =>
          have hadvance := size_advance_of_rest hc
          simp only [amid, hc, List.cons_append]
          by_cases hkind : token.kind = .leftParen
          · rw [if_pos hkind, if_pos hkind]
            have hguard := h.crosses (Crosses.advance hc (by simp [hkind]))
            apply Reading.andThen_mapCursor (readLevel_amid .assignment c.advance hguard)
            intro inner r hr
            have hguardr := hguard.crosses ((crosses_readLevel _ _).of_read hr)
            exact Reading.map_mapCursor (expect_amid hguardr _ _) _
          · rw [if_neg hkind, if_neg hkind]
            cases token.primary? <;> simp [Reading.mapCursor, hc, amid]
termination_by (c.size, level.rank)
decreasing_by
  all_goals first
    | exact Prod.Lex.left _ _ (by omega)
    | exact Prod.Lex.right _ (ChainLevel.rank_operand _)
    | exact Prod.Lex.right _ (by decide)

theorem readChain_amid (level : ChainLevel) (left : Expr) (c : Cursor) (h : c.Guarded later) :
    (c.amid earlier later).readChain level left =
      (c.readChain level left).mapCursor (amid earlier later) := by
  rw [readChain_eq, readChain_eq, accept?_amid h]
  cases ha : c.accept? level.connective? with
  | none => rfl
  | some next =>
      obtain ⟨connective, operator, r⟩ := next
      have hr := size_of_accept? ha
      have hguard := h.crosses (crosses_accept? (connective?_semicolon level) ha)
      apply Reading.andThen_mapCursor (readLevel_amid level.operand r hguard)
      intro right s hs
      have hsize := size_readLevel hs
      exact readChain_amid level _ s (hguard.crosses ((crosses_readLevel _ r).of_read hs))
termination_by (c.size, 0)
decreasing_by
  all_goals exact Prod.Lex.left _ _ (by omega)
end

theorem crosses_readExpression (c : Cursor) : c.Crosses c.readExpression.cursor :=
  crosses_readLevel .assignment c

theorem readExpression_amid (h : c.Guarded later) :
    (c.amid earlier later).readExpression =
      c.readExpression.mapCursor (amid earlier later) :=
  readLevel_amid .assignment c h

/-! ### Parts without statements -/

theorem readExpressionStatement_amid (h : c.Guarded later) :
    (c.amid earlier later).readExpressionStatement =
      c.readExpressionStatement.mapCursor (amid earlier later) := by
  rw [readExpressionStatement_eq, readExpressionStatement_eq]
  apply Reading.andThen_mapCursor (readExpression_amid h)
  intro expr r hr
  have hguard := h.crosses ((crosses_readExpression c).of_read hr)
  exact Reading.map_mapCursor (expect_amid hguard _ _) _

theorem crosses_readBinding (mutability : Mutability) (c : Cursor) :
    c.Crosses (c.readBinding mutability).cursor := by
  cases mutability with
  | constant =>
      rw [readBinding_constant]
      apply (crosses_expect (by decide) _ c).andThen
      intro name r _
      apply (crosses_expect (by decide) _ r).andThen
      intro sign s _
      simpa using crosses_readExpression s
  | mutable =>
      rw [readBinding_mutable]
      apply (crosses_expect (by decide) _ c).andThen
      intro name r _
      split
      · exact .refl r
      · rename_i sign s hsign
        refine (crosses_acceptOne? (by decide) hsign).trans ?_
        simpa using crosses_readExpression s

theorem readBinding_amid (h : c.Guarded later) (mutability : Mutability) :
    (c.amid earlier later).readBinding mutability =
      (c.readBinding mutability).mapCursor (amid earlier later) := by
  cases mutability with
  | constant =>
      rw [readBinding_constant, readBinding_constant]
      apply Reading.andThen_mapCursor (expect_amid h _ _)
      intro name r hr
      have hguard := h.crosses ((crosses_expect (by decide) _ c).of_read hr)
      apply Reading.andThen_mapCursor (expect_amid hguard _ _)
      intro sign s hs
      have hguards := hguard.crosses ((crosses_expect (by decide) _ r).of_read hs)
      exact Reading.map_mapCursor (readExpression_amid hguards) _
  | mutable =>
      rw [readBinding_mutable, readBinding_mutable]
      apply Reading.andThen_mapCursor (expect_amid h _ _)
      intro name r hr
      have hguard := h.crosses ((crosses_expect (by decide) _ c).of_read hr)
      rw [acceptOne?_amid hguard]
      cases hsign : r.acceptOne? .equal with
      | none => rfl
      | some next =>
          have hguards := hguard.crosses (crosses_acceptOne? (by decide) hsign)
          exact Reading.map_mapCursor (readExpression_amid hguards) _

theorem readBindings_amid (mutability : Mutability) (c : Cursor) (h : c.Guarded later) :
    (c.amid earlier later).readBindings mutability =
      (c.readBindings mutability).mapCursor (amid earlier later) := by
  rw [readBindings_eq, readBindings_eq]
  apply Reading.andThen_mapCursor (readBinding_amid h mutability)
  intro first r hr
  have hsize := size_readBinding hr
  have hguard := h.crosses ((crosses_readBinding mutability c).of_read hr)
  rw [acceptOne?_amid hguard]
  cases hcomma : r.acceptOne? .comma with
  | none => exact Reading.map_mapCursor (expect_amid hguard _ _) _
  | some next =>
      obtain ⟨comma, s⟩ := next
      have hs := size_of_acceptOne? hcomma
      have hguards := hguard.crosses (crosses_acceptOne? (by decide) hcomma)
      exact Reading.map_mapCursor (readBindings_amid mutability s hguards) _
termination_by c.size

theorem crosses_readCondition (opening closing : String) (c : Cursor) :
    c.Crosses (c.readCondition opening closing).cursor := by
  rw [readCondition_eq]
  apply (crosses_expect (by decide) _ c).andThen
  intro _ r _
  apply (crosses_readExpression r).andThen
  intro condition s _
  simpa using crosses_expect (by decide) _ s

theorem readCondition_amid (h : c.Guarded later) (opening closing : String) :
    (c.amid earlier later).readCondition opening closing =
      (c.readCondition opening closing).mapCursor (amid earlier later) := by
  rw [readCondition_eq, readCondition_eq]
  apply Reading.andThen_mapCursor (expect_amid h _ _)
  intro _ r hr
  have hguard := h.crosses ((crosses_expect (by decide) _ c).of_read hr)
  apply Reading.andThen_mapCursor (readExpression_amid hguard)
  intro condition s hs
  have hguards := hguard.crosses ((crosses_readExpression r).of_read hs)
  exact Reading.map_mapCursor (expect_amid hguards _ _) _

theorem readLoopControl_amid (h : c.Guarded later) (keyword : Token) (fault : SyntaxFault)
    (message : String) (statement : Stmt) :
    (c.amid earlier later).readLoopControl keyword fault message statement =
      (c.readLoopControl keyword fault message statement).mapCursor (amid earlier later) := by
  rw [readLoopControl_eq, readLoopControl_eq,
    show (c.amid earlier later).loopDepth = c.loopDepth from rfl]
  split
  · rfl
  · exact Reading.map_mapCursor (expect_amid h _ _) _

theorem readForInitializer_amid (c : Cursor) :
    (c.amid earlier []).readForInitializer = c.readForInitializer.mapCursor (amid earlier []) := by
  rw [readForInitializer_eq, readForInitializer_eq, acceptOne?_amid c.guarded_nil,
    acceptOne?_amid c.guarded_nil]
  cases c.acceptOne? .semicolon with
  | some next => rfl
  | none =>
      cases c.acceptOne? .kwLet with
      | some next => exact readBindings_amid .mutable next.2 next.2.guarded_nil
      | none => exact Reading.map_mapCursor (readExpressionStatement_amid c.guarded_nil) _

theorem readForCondition_amid (c : Cursor) :
    (c.amid earlier []).readForCondition = c.readForCondition.mapCursor (amid earlier []) := by
  rw [readForCondition_eq, readForCondition_eq, check_amid c.guarded_nil]
  split
  · exact Reading.map_mapCursor (expect_amid c.guarded_nil _ _) _
  · apply Reading.andThen_mapCursor (readExpression_amid c.guarded_nil)
    intro condition r _
    exact Reading.map_mapCursor (expect_amid r.guarded_nil _ _) _

theorem readForIncrement_amid (c : Cursor) :
    (c.amid earlier []).readForIncrement = c.readForIncrement.mapCursor (amid earlier []) := by
  rw [readForIncrement_eq, readForIncrement_eq, check_amid c.guarded_nil]
  split
  · exact Reading.map_mapCursor (expect_amid c.guarded_nil _ _) _
  · apply Reading.andThen_mapCursor (readExpression_amid c.guarded_nil)
    intro increment r _
    exact Reading.map_mapCursor (expect_amid r.guarded_nil _ _) _

theorem readForClauses_amid (c : Cursor) :
    (c.amid earlier []).readForClauses = c.readForClauses.mapCursor (amid earlier []) := by
  rw [readForClauses_eq, readForClauses_eq]
  apply Reading.andThen_mapCursor (expect_amid c.guarded_nil _ _)
  intro opening r _
  apply Reading.andThen_mapCursor (readForInitializer_amid r)
  intro initializer s _
  apply Reading.andThen_mapCursor (readForCondition_amid s)
  intro condition u _
  exact Reading.map_mapCursor (readForIncrement_amid u) _

/-! ### Errors recorded earlier -/

theorem record_amid (error : SyntaxError) (c : Cursor) :
    (c.amid earlier later).record error = (c.record error).amid earlier later := by
  simp [record, amid]

theorem synchronize_amid (c : Cursor) :
    (c.amid earlier []).synchronize = c.synchronize.amid earlier [] := by
  rw [synchronize, synchronize, advance_amid c.guarded_nil]
  simp [amid]

theorem recover_mapCursor (reading : Reading (List Stmt)) :
    recover (reading.mapCursor (amid earlier [])) =
      ((recover reading).1, (recover reading).2.amid earlier []) := by
  cases reading with
  | read statements r => rfl
  | failed error r => simp only [Reading.mapCursor, recover, record_amid, synchronize_amid]

mutual
theorem readStatement_amid (c : Cursor) :
    (c.amid earlier []).readStatement = c.readStatement.mapCursor (amid earlier []) := by
  have hrest : (c.amid earlier []).rest = c.rest := List.append_nil _
  rw [readStatement_eq, readStatement_eq, hrest, advance_amid c.guarded_nil]
  cases hc : c.rest with
  | nil => exact Reading.map_mapCursor (readExpressionStatement_amid c.guarded_nil) _
  | cons keyword tokens =>
      have hsize := size_advance_of_rest hc
      -- The cases are `;`, `{`, `console`, `if`, `while`, `for`, `break`, `continue`, and others.
      dsimp only
      split
      · rfl
      · rw [readItems_amid c.advance]
        exact Reading.map_mapCursor (expect_amid (guarded_nil _) _ _) _
      · exact Reading.map_mapCursor (readExpressionStatement_amid (guarded_nil _)) _
      · apply Reading.andThen_mapCursor (readCondition_amid (guarded_nil _) _ _)
        intro condition s hs
        have hsizes := size_readCondition hs
        apply Reading.andThen_mapCursor (readStatement_amid s)
        intro thenBranch u hu
        have hsizeu := size_readStatement hu
        rw [acceptOne?_amid u.guarded_nil]
        cases hv : u.acceptOne? .kwElse with
        | none => rfl
        | some next =>
            obtain ⟨otherwise, v⟩ := next
            have hsizev := size_of_acceptOne? hv
            exact Reading.map_mapCursor (readStatement_amid v) _
      · apply Reading.andThen_mapCursor (readCondition_amid (guarded_nil _) _ _)
        intro condition s hs
        have hsizes := size_readCondition hs
        exact Reading.map_mapCursor (readLoopBody_amid s) _
      · apply Reading.andThen_mapCursor (readForClauses_amid c.advance)
        intro clauses s hs
        have hsizes := size_readForClauses hs
        exact Reading.map_mapCursor (readLoopBody_amid s) _
      · exact readLoopControl_amid (guarded_nil _) _ _ _ _
      · exact readLoopControl_amid (guarded_nil _) _ _ _ _
      · exact Reading.map_mapCursor (readExpressionStatement_amid c.guarded_nil) _
termination_by (c.size, 0)
decreasing_by
  all_goals exact Prod.Lex.left _ _ (by omega)

theorem readLoopBody_amid (c : Cursor) :
    (c.amid earlier []).readLoopBody = c.readLoopBody.mapCursor (amid earlier []) := by
  have hbody := readStatement_amid c.enterLoop
  rw [readLoopBody_eq, readLoopBody_eq,
    show (c.amid earlier []).enterLoop = c.enterLoop.amid earlier [] from rfl, hbody]
  cases c.enterLoop.readStatement <;> rfl
termination_by (c.size, 1)
decreasing_by
  exact Prod.Lex.right _ (by decide)

theorem readDeclaration_amid (c : Cursor) :
    (c.amid earlier []).readDeclaration =
      (c.readDeclaration.1, c.readDeclaration.2.amid earlier []) := by
  have hitem : (c.amid earlier []).readItem = c.readItem.mapCursor (amid earlier []) := by
    rw [readItem, readItem, acceptOne?_amid c.guarded_nil, acceptOne?_amid c.guarded_nil]
    cases c.acceptOne? .kwLet with
    | some next => exact readBindings_amid .mutable next.2 next.2.guarded_nil
    | none =>
        cases c.acceptOne? .kwConst with
        | some next => exact readBindings_amid .constant next.2 next.2.guarded_nil
        | none => exact Reading.map_mapCursor (readStatement_amid c) _
  rw [readDeclaration_eq, readDeclaration_eq, hitem, recover_mapCursor]
termination_by (c.size, 1)
decreasing_by
  exact Prod.Lex.right _ (by decide)

theorem readItems_amid (c : Cursor) :
    (c.amid earlier []).readItems = (c.readItems.1, c.readItems.2.amid earlier []) := by
  rw [readItems_eq c, readItems_eq (c.amid earlier []), check_amid c.guarded_nil, atEnd_amid]
  split
  · rfl
  · rename_i hc
    have hpos : 0 < c.size := size_pos_of_not_atEnd (by simp_all)
    have hsize := size_readDeclaration c
    have hothers := readItems_amid c.readDeclaration.2
    rw [readDeclaration_amid c, hothers]
termination_by (c.size, 2)
decreasing_by
  · exact Prod.Lex.left _ _ (by omega)
  · exact Prod.Lex.right _ (by decide)
end

/-- Errors that were recorded earlier stay in front, and nothing else changes. -/
theorem readProgram_amid (c : Cursor) :
    (c.amid earlier []).readProgram = (c.readProgram.1, c.readProgram.2.amid earlier []) := by
  fun_induction readProgram c with
  | case1 c hc => rw [readProgram, atEnd_amid, if_pos hc]
  | case2 c hc first others ih =>
      rw [readProgram, atEnd_amid, if_neg hc, readDeclaration_amid]
      dsimp only
      rw [ih]

/-! ### The token before the cursor -/

/-- The same cursor behind another token. -/
def behind (token : Option Token) (c : Cursor) : Cursor := { c with previous := token }

variable {token : Option Token}

theorem advance_behind (h : c.rest ≠ []) : (c.behind token).advance = c.advance := by
  obtain ⟨first, tokens, hc⟩ := List.exists_cons_of_ne_nil h
  simp [advance, behind, hc]

theorem accept?_behind (select : TokenKind → Option α) (c : Cursor) :
    (c.behind token).accept? select = c.accept? select := by
  cases hc : c.rest with
  | nil => simp [accept?, behind, hc]
  | cons first tokens =>
      rw [accept?_of_rest select hc, accept?_of_rest (c := c.behind token) select hc,
        advance_behind (by simp [hc])]

theorem acceptOne?_behind (kind : TokenKind) (c : Cursor) :
    (c.behind token).acceptOne? kind = c.acceptOne? kind := by
  rw [acceptOne?, acceptOne?, acceptAny?, acceptAny?, accept?_behind]

/-- The readings are the same, or both have failed alike before they read a token. -/
def Meets (token : Option Token) (c : Cursor) (reading reading' : Reading α) : Prop :=
  reading' = reading ∨
    ∃ error, reading = .failed error c ∧ reading' = .failed error (c.behind token)

theorem Meets.andThen {reading reading' : Reading α} (h : c.Meets token reading reading')
    (next : α → Cursor → Reading β) :
    c.Meets token (reading.andThen next) (reading'.andThen next) := by
  rcases h with rfl | ⟨error, rfl, rfl⟩
  · exact .inl rfl
  · exact .inr ⟨error, rfl, rfl⟩

theorem Meets.map {reading reading' : Reading α} (h : c.Meets token reading reading')
    (f : α → β) : c.Meets token (reading.map f) (reading'.map f) := by
  rcases h with rfl | ⟨error, rfl, rfl⟩
  · exact .inl rfl
  · exact .inr ⟨error, rfl, rfl⟩

theorem meets_readLevel (level : Level) (h : c.rest ≠ []) :
    c.Meets token (c.readLevel level) ((c.behind token).readLevel level) := by
  match level with
  | .assignment =>
      rw [readLevel_assignment, readLevel_assignment]
      exact (meets_readLevel (.chain .disjunction) h).andThen _
  | .chain chainLevel =>
      rw [readLevel_chain, readLevel_chain]
      exact (meets_readLevel chainLevel.operand h).andThen _
  | .conditional =>
      rw [readLevel_conditional, readLevel_conditional]
      exact (meets_readLevel (.chain .equality) h).andThen _
  | .unary =>
      rw [readLevel_unary, readLevel_unary, accept?_behind]
      split
      · exact meets_readLevel .suffixed h
      · exact .inl rfl
  | .suffixed =>
      rw [readLevel_suffixed, readLevel_suffixed]
      exact (meets_readLevel .primary h).andThen _
  | .primary =>
      obtain ⟨first, tokens, hc⟩ := List.exists_cons_of_ne_nil h
      rw [readLevel_primary, readLevel_primary, advance_behind h,
        show (c.behind token).rest = c.rest from rfl, hc]
      dsimp only
      split
      · exact .inl rfl
      · split
        · exact .inl rfl
        · exact .inr ⟨_, rfl, rfl⟩
termination_by level.rank
decreasing_by
  all_goals first
    | exact ChainLevel.rank_operand _
    | decide

theorem meets_readExpressionStatement (h : c.rest ≠ []) :
    c.Meets token c.readExpressionStatement (c.behind token).readExpressionStatement := by
  rw [readExpressionStatement_eq, readExpressionStatement_eq]
  exact (meets_readLevel .assignment h).andThen _

theorem meets_readStatement (h : c.rest ≠ []) :
    c.Meets token c.readStatement (c.behind token).readStatement := by
  rw [readStatement_eq, readStatement_eq, advance_behind h,
    show (c.behind token).rest = c.rest from rfl]
  split
  · exact absurd ‹_› h
  · -- After a keyword the cursors are the same; an expression starts at the cursor itself.
    split
    case h_9 => exact (meets_readExpressionStatement h).map _
    all_goals exact .inl rfl

theorem meets_readItem (h : c.rest ≠ []) : c.Meets token c.readItem (c.behind token).readItem := by
  rw [readItem, readItem, acceptOne?_behind, acceptOne?_behind]
  split
  · exact .inl rfl
  · split
    · exact .inl rfl
    · exact (meets_readStatement h).map _

theorem readDeclaration_behind (h : c.rest ≠ []) :
    (c.behind token).readDeclaration = c.readDeclaration := by
  rw [readDeclaration_eq, readDeclaration_eq]
  have hmeets : c.Meets token c.readItem (c.behind token).readItem := meets_readItem h
  rcases hmeets with hsame | ⟨error, hread, hread'⟩
  · rw [hsame]
  · have hadvance : ((c.behind token).record error).advance = (c.record error).advance :=
      advance_behind (c := c.record error) h
    rw [hread, hread', recover, recover, synchronize, synchronize, hadvance]

theorem readProgram_behind (token : Option Token) (c : Cursor) :
    (c.behind token).readProgram.1 = c.readProgram.1 ∧
      (c.behind token).readProgram.2.errors = c.readProgram.2.errors := by
  rw [readProgram, readProgram, show (c.behind token).atEnd = c.atEnd from rfl]
  split
  · exact ⟨rfl, rfl⟩
  · rename_i hend
    rw [readDeclaration_behind (by simpa [atEnd] using hend)]
    exact ⟨rfl, rfl⟩

end Cursor

end Sigil
