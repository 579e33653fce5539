import Sigil.Proofs.Syntax.Movement

/-!
# What reading statements does to a cursor

Whatever is read, and however the reading ends, the cursor has only moved
forwards, it is in as many loops as before, and errors have only been added.
-/

namespace Sigil

namespace Cursor

variable {α β : Type} {c d e s : Cursor}

/-- The second cursor is further on, in as many loops, with all the errors of the first one. -/
structure Leads (c d : Cursor) : Prop where
  rest : d.rest <:+ c.rest
  loopDepth : d.loopDepth = c.loopDepth
  errors : c.errors <+: d.errors

theorem Leads.refl (c : Cursor) : c.Leads c := ⟨List.suffix_rfl, rfl, List.prefix_rfl⟩

theorem Leads.trans (h : c.Leads d) (h' : d.Leads e) : c.Leads e where
  rest := h'.rest.trans h.rest
  loopDepth := h'.loopDepth.trans h.loopDepth
  errors := h.errors.trans h'.errors

theorem Moves.leads (h : c.Moves d) : c.Leads d := by
  obtain ⟨n, rfl⟩ := h
  refine ⟨?_, loopDepth_skip c n, ?_⟩
  · rw [rest_skip]
    exact List.drop_suffix n c.rest
  · exact ⟨[], by rw [List.append_nil, errors_skip]⟩

theorem Leads.advance (c : Cursor) : c.Leads c.advance := (Moves.advance c).leads

theorem Leads.of_read {reading : Reading α} {a : α} (h : c.Leads reading.cursor)
    (hread : reading = .read a d) : c.Leads d := by
  rwa [hread] at h

/-- If no error was recorded on the whole way, none was recorded on its first part. -/
theorem Leads.errors_eq (h : c.Leads d) (h' : d.Leads e) (herrors : e.errors = c.errors) :
    d.errors = c.errors := by
  have hprefix := h'.errors
  rw [herrors] at hprefix
  exact hprefix.eq_of_length_le h.errors.length_le

theorem Leads.andThen {reading : Reading α} {next : α → Cursor → Reading β}
    (h : c.Leads reading.cursor)
    (hnext : ∀ a r, reading = .read a r → r.Leads (next a r).cursor) :
    c.Leads (reading.andThen next).cursor := by
  cases reading with
  | read a r => exact h.trans (hnext a r rfl)
  | failed error r => exact h

theorem Leads.leaveLoop (h : c.enterLoop.Leads d) : c.Leads d.leaveLoop where
  rest := h.rest
  loopDepth := Nat.sub_eq_of_eq_add h.loopDepth
  errors := h.errors

theorem seekStatement_suffix (previous : Option Token) (tokens : List Token) :
    (seekStatement previous tokens).2 <:+ tokens := by
  fun_induction seekStatement previous tokens with
  | case1 => exact List.suffix_rfl
  | case2 => exact List.suffix_rfl
  | case3 previous token tokens _ ih => exact ih.trans (List.suffix_cons token tokens)

theorem leads_synchronize (c : Cursor) : c.Leads c.synchronize where
  rest := (seekStatement_suffix _ _).trans (Leads.advance c).rest
  loopDepth := (Leads.advance c).loopDepth
  errors := (Leads.advance c).errors

theorem leads_record (error : SyntaxError) (c : Cursor) : c.Leads (c.record error) :=
  ⟨List.suffix_rfl, rfl, List.prefix_append _ _⟩

theorem leads_recover {reading : Reading (List Stmt)} (h : c.Leads reading.cursor) :
    c.Leads (recover reading).2 := by
  cases reading with
  | read statements r => exact h
  | failed error r => exact h.trans ((leads_record error r).trans (leads_synchronize _))

/-- Where no error was recorded, there was none. -/
theorem exists_read_of_recover {reading : Reading (List Stmt)} (h : c.Leads reading.cursor)
    (herrors : (recover reading).2.errors = c.errors) :
    ∃ statements r, reading = .read statements r := by
  cases reading with
  | read statements r => exact ⟨statements, r, rfl⟩
  | failed error r =>
      have hrecord := (h.trans (leads_record error r)).errors_eq (leads_synchronize _) herrors
      have hlength := h.errors.length_le
      rw [← hrecord, record, List.length_append, List.length_singleton] at hlength
      exact (Nat.not_succ_le_self _ hlength).elim

/-! ### Parts without statements -/

theorem leads_expect (kind : TokenKind) (message : String) (c : Cursor) :
    c.Leads (c.expect kind message).cursor :=
  (moves_expect kind message c).leads

theorem leads_readExpression (c : Cursor) : c.Leads c.readExpression.cursor :=
  (moves_readLevel .assignment c).leads

theorem leads_readExpressionStatement (c : Cursor) : c.Leads c.readExpressionStatement.cursor := by
  rw [readExpressionStatement_eq]
  apply (leads_readExpression c).andThen
  intro expr r _
  simpa using leads_expect _ _ r

theorem leads_readBinding (mutability : Mutability) (c : Cursor) :
    c.Leads (c.readBinding mutability).cursor := by
  cases mutability with
  | constant =>
      rw [readBinding_constant]
      apply (leads_expect _ _ c).andThen
      intro name r _
      apply (leads_expect _ _ r).andThen
      intro sign s _
      simpa using leads_readExpression s
  | mutable =>
      rw [readBinding_mutable]
      apply (leads_expect _ _ c).andThen
      intro name r _
      split
      · exact .refl r
      · rename_i sign s hsign
        obtain ⟨-, -, rfl⟩ := acceptOne?_eq_some_iff.mp hsign
        refine (Leads.advance r).trans ?_
        simpa using leads_readExpression r.advance

theorem size_readBinding {mutability : Mutability} {statement : Stmt}
    (h : c.readBinding mutability = .read statement s) : s.size < c.size :=
  size_of_val h

theorem leads_readBindings (mutability : Mutability) (c : Cursor) :
    c.Leads (c.readBindings mutability).cursor := by
  rw [readBindings_eq]
  apply (leads_readBinding mutability c).andThen
  intro first r hr
  have hsize := size_readBinding hr
  split
  · simpa using leads_expect _ _ r
  · rename_i comma s hcomma
    have hs := size_of_acceptOne? hcomma
    obtain ⟨-, -, rfl⟩ := acceptOne?_eq_some_iff.mp hcomma
    refine (Leads.advance r).trans ?_
    simpa using leads_readBindings mutability r.advance
termination_by c.size

theorem leads_readForInitializer (c : Cursor) : c.Leads c.readForInitializer.cursor := by
  rw [readForInitializer_eq]
  split
  · rename_i semicolon r hsemicolon
    obtain ⟨-, -, rfl⟩ := acceptOne?_eq_some_iff.mp hsemicolon
    exact .advance c
  · split
    · rename_i keyword r hkeyword
      obtain ⟨-, -, rfl⟩ := acceptOne?_eq_some_iff.mp hkeyword
      exact (Leads.advance c).trans (leads_readBindings .mutable c.advance)
    · simpa using leads_readExpressionStatement c

theorem leads_readForCondition (c : Cursor) : c.Leads c.readForCondition.cursor := by
  rw [readForCondition_eq]
  split
  · simpa using leads_expect _ _ c
  · apply (leads_readExpression c).andThen
    intro condition r _
    simpa using leads_expect _ _ r

theorem leads_readForIncrement (c : Cursor) : c.Leads c.readForIncrement.cursor := by
  rw [readForIncrement_eq]
  split
  · simpa using leads_expect _ _ c
  · apply (leads_readExpression c).andThen
    intro increment r _
    simpa using leads_expect _ _ r

theorem leads_readForClauses (c : Cursor) : c.Leads c.readForClauses.cursor := by
  rw [readForClauses_eq]
  apply (leads_expect _ _ c).andThen
  intro opening r _
  apply (leads_readForInitializer r).andThen
  intro initializer s _
  apply (leads_readForCondition s).andThen
  intro condition u _
  simpa using leads_readForIncrement u

theorem leads_readCondition (opening closing : String) (c : Cursor) :
    c.Leads (c.readCondition opening closing).cursor := by
  rw [readCondition_eq]
  apply (leads_expect _ _ c).andThen
  intro _ r _
  apply (leads_readExpression r).andThen
  intro condition s _
  simpa using leads_expect _ _ s

theorem leads_readLoopControl (keyword : Token) (fault : SyntaxFault) (message : String)
    (statement : Stmt) (c : Cursor) :
    c.Leads (c.readLoopControl keyword fault message statement).cursor := by
  rw [readLoopControl_eq]
  split
  · exact .refl c
  · simpa using leads_expect _ _ c

/-! ### Statements -/

theorem size_readCondition {opening closing : String} {condition : Expr}
    (h : c.readCondition opening closing = .read condition s) : s.size < c.size :=
  size_of_val h

theorem size_readForClauses {clauses : Parse.ForClauses}
    (h : c.readForClauses = .read clauses s) : s.size < c.size :=
  size_of_val h

theorem size_readStatement {statement : Option Stmt} (h : c.readStatement = .read statement s) :
    s.size < c.size :=
  size_of_val h

mutual
theorem leads_readStatement (c : Cursor) : c.Leads c.readStatement.cursor := by
  rw [readStatement_eq]
  split
  · simpa using leads_readExpressionStatement c
  · rename_i keyword tokens hc
    have hsize := size_advance_of_rest hc
    -- The first token is `;`, `{`, `console`, `if`, `while`, `for`, `break`, `continue` or another.
    split
    · exact .advance c
    · refine (Leads.advance c).trans ((leads_readItems c.advance).trans ?_)
      simpa using leads_expect _ _ c.advance.readItems.2
    · refine (Leads.advance c).trans ?_
      simpa using leads_readExpressionStatement c.advance
    · refine (Leads.advance c).trans ?_
      apply (leads_readCondition _ _ c.advance).andThen
      intro condition s hs
      have hs := size_readCondition hs
      apply (leads_readStatement s).andThen
      intro thenBranch u hu
      have hu := size_readStatement hu
      split
      · exact .refl u
      · rename_i otherwise v hv
        have hv' := size_of_acceptOne? hv
        obtain ⟨-, -, rfl⟩ := acceptOne?_eq_some_iff.mp hv
        refine (Leads.advance u).trans ?_
        simpa using leads_readStatement u.advance
    · refine (Leads.advance c).trans ?_
      apply (leads_readCondition _ _ c.advance).andThen
      intro condition s hs
      have hs := size_readCondition hs
      simpa using leads_readLoopBody s
    · refine (Leads.advance c).trans ?_
      apply (leads_readForClauses c.advance).andThen
      intro clauses s hs
      have hs := size_readForClauses hs
      simpa using leads_readLoopBody s
    · exact (Leads.advance c).trans (leads_readLoopControl _ _ _ _ c.advance)
    · exact (Leads.advance c).trans (leads_readLoopControl _ _ _ _ c.advance)
    · simpa using leads_readExpressionStatement c
termination_by (c.size, 0)
decreasing_by
  all_goals exact Prod.Lex.left _ _ (by omega)

theorem leads_readLoopBody (c : Cursor) : c.Leads c.readLoopBody.cursor := by
  rw [readLoopBody_eq, Reading.cursor_mapCursor]
  exact (leads_readStatement c.enterLoop).leaveLoop
termination_by (c.size, 1)
decreasing_by
  exact Prod.Lex.right _ (by decide)

theorem leads_readItem (c : Cursor) : c.Leads c.readItem.cursor := by
  unfold readItem
  split
  · rename_i keyword r hkeyword
    obtain ⟨-, -, rfl⟩ := acceptOne?_eq_some_iff.mp hkeyword
    exact (Leads.advance c).trans (leads_readBindings .mutable c.advance)
  · split
    · rename_i keyword r hkeyword
      obtain ⟨-, -, rfl⟩ := acceptOne?_eq_some_iff.mp hkeyword
      exact (Leads.advance c).trans (leads_readBindings .constant c.advance)
    · simpa using leads_readStatement c
termination_by (c.size, 1)
decreasing_by
  exact Prod.Lex.right _ (by decide)

theorem leads_readDeclaration (c : Cursor) : c.Leads c.readDeclaration.2 := by
  rw [readDeclaration_eq]
  exact leads_recover (leads_readItem c)
termination_by (c.size, 2)
decreasing_by
  exact Prod.Lex.right _ (by decide)

theorem leads_readItems (c : Cursor) : c.Leads c.readItems.2 := by
  rw [readItems_eq]
  split
  · exact .refl c
  · rename_i hc
    have hpos : 0 < c.size := size_pos_of_not_atEnd (by simp_all)
    have hsize := size_readDeclaration c
    exact (leads_readDeclaration c).trans (leads_readItems c.readDeclaration.2)
termination_by (c.size, 3)
decreasing_by
  · exact Prod.Lex.right _ (by decide)
  · exact Prod.Lex.left _ _ (by omega)
end

theorem leads_readProgram (c : Cursor) : c.Leads c.readProgram.2 := by
  fun_induction readProgram c with
  | case1 c hc => exact .refl c
  | case2 c hc first others ih => exact (leads_readDeclaration c).trans ih

end Cursor

end Sigil
