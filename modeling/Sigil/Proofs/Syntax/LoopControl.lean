import Sigil.Proofs.Syntax.Recovery

/-!
# Loop control is only read inside loops

The number of loops around a cursor is the same before and after everything that
is read, also where that fails and where reading goes on after an error.  So what
is read outside of all loops has each `break` and `continue` in the body of a loop.
-/

namespace Sigil

mutual
/-- Each `break` and `continue` in a statement is in the body of a loop; `looped` says whether the
statement itself is. -/
def Stmt.isEnclosed (looped : Bool) : Stmt → Bool
  | .expression _ => true
  | .console _ => true
  | .declaration .. => true
  | .block statements => Stmt.areEnclosed looped statements
  | .ifThen _ thenBranch elseBranch =>
    Stmt.isEnclosed? looped thenBranch && Stmt.isEnclosed? looped elseBranch
  | .whileLoop _ body => Stmt.isEnclosed? true body
  | .forLoop initializer _ _ body =>
    Stmt.areEnclosed looped initializer && Stmt.isEnclosed? true body
  | .breakLoop _ => looped
  | .continueLoop _ => looped

def Stmt.isEnclosed? (looped : Bool) : Option Stmt → Bool
  | none => true
  | some statement => Stmt.isEnclosed looped statement

def Stmt.areEnclosed (looped : Bool) : List Stmt → Bool
  | [] => true
  | statement :: statements =>
    Stmt.isEnclosed looped statement && Stmt.areEnclosed looped statements
end

namespace Stmt

variable {looped : Bool}

@[simp] theorem areEnclosed_nil : areEnclosed looped [] = true := by
  rw [areEnclosed]

@[simp] theorem areEnclosed_cons (statement : Stmt) (statements : List Stmt) :
    areEnclosed looped (statement :: statements) =
      (isEnclosed looped statement && areEnclosed looped statements) := by
  rw [areEnclosed]

@[simp] theorem areEnclosed_append (first others : List Stmt) :
    areEnclosed looped (first ++ others) =
      (areEnclosed looped first && areEnclosed looped others) := by
  induction first with
  | nil => simp
  | cons statement first ih => simp [ih, Bool.and_assoc]

theorem areEnclosed_toList (statement : Option Stmt) :
    areEnclosed looped statement.toList = isEnclosed? looped statement := by
  cases statement <;> simp [isEnclosed?]

theorem areEnclosed_iff {statements : List Stmt} :
    areEnclosed looped statements = true ↔
      ∀ statement ∈ statements, isEnclosed looped statement = true := by
  induction statements with
  | nil => simp
  | cons statement statements ih => simp [ih]

end Stmt

namespace Reading

variable {α β : Type} {p : α → Prop} {p' : β → Prop} {reading : Reading α}

/-- A value that has been read has a property. -/
def Gives (p : α → Prop) : Reading α → Prop
  | .read a _ => p a
  | .failed .. => True

theorem Gives.andThen {next : α → Cursor → Reading β} (h : reading.Gives p)
    (hnext : ∀ a r, reading = .read a r → p a → (next a r).Gives p') :
    (reading.andThen next).Gives p' := by
  cases reading with
  | read a r => exact hnext a r rfl h
  | failed error r => trivial

theorem Gives.map {f : α → β} (h : reading.Gives p) (hf : ∀ a, p a → p' (f a)) :
    (reading.map f).Gives p' := by
  cases reading with
  | read a r => exact hf a h
  | failed error r => trivial

theorem Gives.mapCursor {f : Cursor → Cursor} (h : reading.Gives p) :
    (reading.mapCursor f).Gives p := by
  cases reading <;> exact h

theorem gives_true (reading : Reading α) : reading.Gives fun _ ↦ True := by
  cases reading <;> trivial

end Reading

namespace Cursor

/-- However each of the readings that start at a cursor ends, there are as many loops around. -/
structure KeepsLoopDepth (c : Cursor) : Prop where
  expect : ∀ kind message, (c.expect kind message).cursor.loopDepth = c.loopDepth
  level : ∀ level, (c.readLevel level).cursor.loopDepth = c.loopDepth
  chain : ∀ level left, (c.readChain level left).cursor.loopDepth = c.loopDepth
  expressionStatement : c.readExpressionStatement.cursor.loopDepth = c.loopDepth
  binding : ∀ mutability, (c.readBinding mutability).cursor.loopDepth = c.loopDepth
  bindings : ∀ mutability, (c.readBindings mutability).cursor.loopDepth = c.loopDepth
  forInitializer : c.readForInitializer.cursor.loopDepth = c.loopDepth
  forCondition : c.readForCondition.cursor.loopDepth = c.loopDepth
  forIncrement : c.readForIncrement.cursor.loopDepth = c.loopDepth
  forClauses : c.readForClauses.cursor.loopDepth = c.loopDepth
  condition : ∀ opening closing, (c.readCondition opening closing).cursor.loopDepth = c.loopDepth
  loopControl : ∀ keyword fault message statement,
    (c.readLoopControl keyword fault message statement).cursor.loopDepth = c.loopDepth
  statement : c.readStatement.cursor.loopDepth = c.loopDepth
  loopBody : c.readLoopBody.cursor.loopDepth = c.loopDepth
  declaration : c.readDeclaration.2.loopDepth = c.loopDepth
  items : c.readItems.2.loopDepth = c.loopDepth
  program : c.readProgram.2.loopDepth = c.loopDepth

theorem keepsLoopDepth (c : Cursor) : c.KeepsLoopDepth where
  expect kind message := (leads_expect kind message c).loopDepth
  level level := (moves_readLevel level c).leads.loopDepth
  chain level left := (moves_readChain level left c).leads.loopDepth
  expressionStatement := (leads_readExpressionStatement c).loopDepth
  binding mutability := (leads_readBinding mutability c).loopDepth
  bindings mutability := (leads_readBindings mutability c).loopDepth
  forInitializer := (leads_readForInitializer c).loopDepth
  forCondition := (leads_readForCondition c).loopDepth
  forIncrement := (leads_readForIncrement c).loopDepth
  forClauses := (leads_readForClauses c).loopDepth
  condition opening closing := (leads_readCondition opening closing c).loopDepth
  loopControl keyword fault message statement :=
    (leads_readLoopControl keyword fault message statement c).loopDepth
  statement := (leads_readStatement c).loopDepth
  loopBody := (leads_readLoopBody c).loopDepth
  declaration := (leads_readDeclaration c).loopDepth
  items := (leads_readItems c).loopDepth
  program := (leads_readProgram c).loopDepth

/-! ### Parts without loops -/

theorem gives_readBinding (mutability : Mutability) (looped : Bool) (c : Cursor) :
    (c.readBinding mutability).Gives fun statement ↦ statement.isEnclosed looped := by
  cases mutability with
  | constant =>
      rw [readBinding_constant]
      apply (Reading.gives_true _).andThen
      intro name r _ _
      apply (Reading.gives_true _).andThen
      intro sign s _ _
      exact (Reading.gives_true _).map fun value _ ↦ by rw [Stmt.isEnclosed]
  | mutable =>
      rw [readBinding_mutable]
      apply (Reading.gives_true _).andThen
      intro name r _ _
      split
      · simp [Reading.Gives, Stmt.isEnclosed]
      · exact (Reading.gives_true _).map fun value _ ↦ by rw [Stmt.isEnclosed]

theorem gives_readBindings (mutability : Mutability) (looped : Bool) (c : Cursor) :
    (c.readBindings mutability).Gives fun statements ↦ Stmt.areEnclosed looped statements := by
  rw [readBindings_eq]
  apply (gives_readBinding mutability looped c).andThen
  intro first r hr hfirst
  have hsize := size_readBinding hr
  split
  · exact (Reading.gives_true _).map fun _ _ ↦ by simp [hfirst]
  · rename_i comma s hcomma
    have hs := size_of_acceptOne? hcomma
    exact (gives_readBindings mutability looped s).map fun others hothers ↦ by
      simp [hfirst, hothers]
termination_by c.size

theorem gives_readForClauses (looped : Bool) (c : Cursor) :
    c.readForClauses.Gives fun clauses ↦ Stmt.areEnclosed looped clauses.initializer := by
  rw [readForClauses_eq]
  apply (Reading.gives_true _).andThen
  intro opening r _ _
  have hinitializer : r.readForInitializer.Gives fun statements ↦
      Stmt.areEnclosed looped statements := by
    rw [readForInitializer_eq]
    split
    · simp [Reading.Gives]
    · split
      · exact gives_readBindings .mutable looped _
      · exact (Reading.gives_true _).map fun expr _ ↦ by simp [Stmt.isEnclosed]
  apply hinitializer.andThen
  intro initializer s _ hinitializer
  apply (Reading.gives_true _).andThen
  intro condition u _ _
  exact (Reading.gives_true _).map fun increment _ ↦ hinitializer

/-! ### Statements -/

theorem gives_readExpressionStatement (looped : Bool) (c : Cursor) (f : Expr → Stmt)
    (hf : ∀ expr, (f expr).isEnclosed looped) :
    (c.readExpressionStatement.map fun expr ↦ some (f expr)).Gives fun statement ↦
      Stmt.isEnclosed? looped statement :=
  (Reading.gives_true _).map fun expr _ ↦ by rw [Stmt.isEnclosed?, hf]

theorem gives_readLoopControl {looped : Bool} {c : Cursor} {keyword : Token} {fault : SyntaxFault}
    {message : String} {control : Stmt} (hloop : c.loopDepth ≠ 0 → looped = true)
    (hcontrol : control.isEnclosed looped = looped) :
    (c.readLoopControl keyword fault message control).Gives fun statement ↦
      Stmt.isEnclosed? looped statement := by
  rw [readLoopControl_eq]
  split
  · trivial
  · rename_i hdepth
    exact (Reading.gives_true _).map fun _ _ ↦ by rw [Stmt.isEnclosed?, hcontrol, hloop hdepth]

mutual
theorem gives_readStatement (looped : Bool) (c : Cursor)
    (hloop : c.loopDepth ≠ 0 → looped = true) :
    c.readStatement.Gives fun statement ↦ Stmt.isEnclosed? looped statement := by
  rw [readStatement_eq]
  split
  · exact gives_readExpressionStatement looped c _ fun expr ↦ by rw [Stmt.isEnclosed]
  · rename_i keyword tokens hc
    have hsize := size_advance_of_rest hc
    have hloop' : c.advance.loopDepth ≠ 0 → looped = true := by simpa using hloop
    -- The first token is `;`, `{`, `console`, `if`, `while`, `for`, `break`, `continue` or another.
    split
    · simp [Reading.Gives, Stmt.isEnclosed?]
    · have hitems := areEnclosed_readItems looped c.advance hloop'
      exact (Reading.gives_true _).map fun _ _ ↦ by
        rw [Stmt.isEnclosed?, Stmt.isEnclosed, hitems]
    · exact gives_readExpressionStatement looped _ _ fun expr ↦ by rw [Stmt.isEnclosed]
    · apply (Reading.gives_true _).andThen
      intro condition s hs _
      have hleads := (leads_readCondition _ _ c.advance).of_read hs
      have hsizes := size_readCondition hs
      have hloops : s.loopDepth ≠ 0 → looped = true := by rwa [hleads.loopDepth]
      apply (gives_readStatement looped s hloops).andThen
      intro thenBranch u hu hthen
      have hleads' := (leads_readStatement s).of_read hu
      have hsizeu := size_readStatement hu
      split
      · simp [Reading.Gives, Stmt.isEnclosed?, Stmt.isEnclosed, hthen]
      · rename_i otherwise v hv
        have hsizev := size_of_acceptOne? hv
        obtain ⟨-, -, rfl⟩ := acceptOne?_eq_some_iff.mp hv
        have hloopu : u.advance.loopDepth ≠ 0 → looped = true := by
          rwa [loopDepth_advance, hleads'.loopDepth]
        exact (gives_readStatement looped u.advance hloopu).map fun elseBranch helse ↦ by
          rw [Stmt.isEnclosed?, Stmt.isEnclosed, hthen, helse, Bool.and_self]
    · apply (Reading.gives_true _).andThen
      intro condition s hs _
      have hsizes := size_readCondition hs
      exact (gives_readLoopBody s).map fun body hbody ↦ by
        rw [Stmt.isEnclosed?, Stmt.isEnclosed, hbody]
    · apply (gives_readForClauses looped c.advance).andThen
      intro clauses s hs hinitializer
      have hsizes := size_readForClauses hs
      exact (gives_readLoopBody s).map fun body hbody ↦ by
        rw [Stmt.isEnclosed?, Stmt.isEnclosed, hinitializer, hbody, Bool.and_self]
    · exact gives_readLoopControl hloop' (by rw [Stmt.isEnclosed])
    · exact gives_readLoopControl hloop' (by rw [Stmt.isEnclosed])
    · exact gives_readExpressionStatement looped c _ fun expr ↦ by rw [Stmt.isEnclosed]
termination_by (c.size, 0)
decreasing_by
  all_goals exact Prod.Lex.left _ _ (by omega)

theorem gives_readLoopBody (c : Cursor) :
    c.readLoopBody.Gives fun statement ↦ Stmt.isEnclosed? true statement := by
  rw [readLoopBody_eq]
  exact (gives_readStatement true c.enterLoop fun _ ↦ rfl).mapCursor
termination_by (c.size, 1)
decreasing_by
  exact Prod.Lex.right _ (by decide)

theorem areEnclosed_readDeclaration (looped : Bool) (c : Cursor)
    (hloop : c.loopDepth ≠ 0 → looped = true) :
    Stmt.areEnclosed looped c.readDeclaration.1 = true := by
  have hitem : c.readItem.Gives fun statements ↦ Stmt.areEnclosed looped statements := by
    unfold readItem
    split
    · exact gives_readBindings .mutable looped _
    · split
      · exact gives_readBindings .constant looped _
      · exact (gives_readStatement looped c hloop).map fun statement hstatement ↦ by
          rwa [Stmt.areEnclosed_toList]
  rw [readDeclaration_eq]
  cases hread : c.readItem with
  | read statements r =>
      rw [hread] at hitem
      exact hitem
  | failed error r => exact Stmt.areEnclosed_nil
termination_by (c.size, 1)
decreasing_by
  exact Prod.Lex.right _ (by decide)

theorem areEnclosed_readItems (looped : Bool) (c : Cursor)
    (hloop : c.loopDepth ≠ 0 → looped = true) :
    Stmt.areEnclosed looped c.readItems.1 = true := by
  rw [readItems_eq]
  split
  · exact Stmt.areEnclosed_nil
  · rename_i hc
    have hpos : 0 < c.size := size_pos_of_not_atEnd (by simp_all)
    have hsize := size_readDeclaration c
    have hothers := areEnclosed_readItems looped c.readDeclaration.2
      (by rwa [(leads_readDeclaration c).loopDepth])
    rw [Stmt.areEnclosed_append, areEnclosed_readDeclaration looped c hloop, hothers,
      Bool.and_self]
termination_by (c.size, 2)
decreasing_by
  · exact Prod.Lex.left _ _ (by omega)
  · exact Prod.Lex.right _ (by decide)
end

theorem areEnclosed_readProgram (c : Cursor) (hloop : c.loopDepth = 0) :
    Stmt.areEnclosed false c.readProgram.1 = true := by
  fun_induction readProgram c with
  | case1 c hc => exact Stmt.areEnclosed_nil
  | case2 c hc first others ih =>
      have hothers := ih ((leads_readDeclaration c).loopDepth.trans hloop)
      rw [Stmt.areEnclosed_append, hothers,
        areEnclosed_readDeclaration false c (fun h ↦ (h hloop).elim), Bool.and_self]

end Cursor

theorem areEnclosed_parse (tokens : List Token) :
    Stmt.areEnclosed false (parse tokens).statements = true :=
  Cursor.areEnclosed_readProgram _ rfl

end Sigil
