import Sigil.Syntax.Expression

/-!
# Reading statements

A program is a list of declarations, and a declaration is a list of bindings or
a statement.  An error inside a declaration is recorded, and reading goes on
where the next statement may start.
-/

namespace Sigil

namespace Parse

/-- Reads an expression. -/
def expression (c : Cursor) : Parse Expr c.size := Parse.level .assignment c

/-- Reads an expression and the semicolon after it. -/
def expressionStatement (c : Cursor) : Parse Expr c.size :=
  (expression c).andThen fun expr r hr ↦
    ((expect .semicolon "Expect ';' after expression." r).widen (Cursor.size_le_of_lt hr)).map
      fun _ ↦ expr

/-- Reads one binding: a name and its value.  A constant must have a value. -/
def binding (mutability : Mutability) (c : Cursor) : Parse Stmt c.size :=
  match mutability with
  | .constant =>
    (expect .identifier "Expect constant name." c).andThen fun name r hr ↦
      ((expect .equal "Missing initializer in const declaration." r).widen
        (Cursor.size_le_of_lt hr)).andThen fun _ s hs ↦
          ((expression s).widen (Cursor.size_le_of_lt hs)).map fun value ↦
            .declaration name.text name.span (some value) .constant
  | .mutable =>
    (expect .identifier "Expect variable name." c).andThen fun name r hr ↦
      match ha : r.acceptOne? .equal with
      | none => read (.declaration name.text name.span none .mutable) r hr
      | some (_, s) =>
        have hs := Nat.lt_trans (Cursor.size_of_acceptOne? ha) hr
        ((expression s).widen (Cursor.size_le_of_lt hs)).map fun value ↦
          .declaration name.text name.span (some value) .mutable

/-- Reads bindings with commas between them, and the semicolon after them. -/
def bindings (mutability : Mutability) (c : Cursor) : Parse (List Stmt) c.size :=
  (binding mutability c).andThen fun first r hr ↦
    match ha : r.acceptOne? .comma with
    | none =>
      ((expect .semicolon "Expect ';' after variable declaration." r).widen (Nat.le_of_lt hr)).map
        fun _ ↦ [first]
    | some (_, s) =>
      have hs := Nat.lt_trans (Cursor.size_of_acceptOne? ha) hr
      ((bindings mutability s).widen (Nat.le_of_lt hs)).map (first :: ·)
termination_by c.size

/-- Reads what a loop does before its first round: nothing, bindings or an expression. -/
def forInitializer (c : Cursor) : Parse (List Stmt) c.size :=
  match ha : c.acceptOne? .semicolon with
  | some (_, r) => read [] r (Cursor.size_of_acceptOne? ha)
  | none =>
    match hb : c.acceptOne? .kwLet with
    | some (_, r) =>
      (bindings .mutable r).widen (Nat.le_of_lt (Cursor.size_of_acceptOne? hb))
    | none => (expressionStatement c).map fun expr ↦ [.expression expr]

/-- Reads the condition of a loop, true if there is none, and the semicolon after it. -/
def forCondition (c : Cursor) : Parse Expr c.size :=
  if c.check .semicolon then
    (expect .semicolon "Expect ';' after loop condition." c).map fun _ ↦ .literal (.boolean true)
  else
    (expression c).andThen fun condition r hr ↦
      ((expect .semicolon "Expect ';' after loop condition." r).widen (Nat.le_of_lt hr)).map
        fun _ ↦ condition

/-- Reads what a loop does after each round, if anything, and the parenthesis after it. -/
def forIncrement (c : Cursor) : Parse (Option Expr) c.size :=
  if c.check .rightParen then
    (expect .rightParen "Expect ')' after for clauses." c).map fun _ ↦ none
  else
    (expression c).andThen fun increment r hr ↦
      ((expect .rightParen "Expect ')' after for clauses." r).widen (Nat.le_of_lt hr)).map
        fun _ ↦ some increment

/-- The three clauses in the head of a for loop. -/
structure ForClauses where
  initializer : List Stmt
  condition : Expr
  increment : Option Expr

/-- Reads the head of a for loop, from its opening parenthesis to its closing one. -/
def forClauses (c : Cursor) : Parse ForClauses c.size :=
  (expect .leftParen "Expect '(' after 'for'." c).andThen fun _ r hr ↦
    ((forInitializer r).widen (Nat.le_of_lt hr)).andThen fun initializer s hs ↦
      ((forCondition s).widen (Nat.le_of_lt hs)).andThen fun condition u hu ↦
        ((forIncrement u).widen (Nat.le_of_lt hu)).map fun increment ↦
          ⟨initializer, condition, increment⟩

/-- Reads a condition in parentheses; the messages name what is missing. -/
def condition (opening closing : String) (c : Cursor) : Parse Expr c.size :=
  (expect .leftParen opening c).andThen fun _ r hr ↦
    ((expression r).widen (Nat.le_of_lt hr)).andThen fun condition s hs ↦
      ((expect .rightParen closing s).widen (Nat.le_of_lt hs)).map fun _ ↦ condition

/-- Reads the semicolon after a keyword that may only stand in a loop. -/
def loopControl (keyword : Token) (fault : SyntaxFault) (message : String) (statement : Stmt)
    (c : Cursor) : Parse (Option Stmt) c.size :=
  if c.loopDepth = 0 then failed (Cursor.errorAt keyword fault) c c.size_le_self
  else (expect .semicolon message c).map fun _ ↦ some statement

mutual
/-- Reads a statement; an empty one is absent. -/
def statement (c : Cursor) : Parse (Option Stmt) c.size :=
  match hc : c.rest with
  | [] => (expressionStatement c).map fun expr ↦ some (.expression expr)
  | keyword :: _ =>
    have hr : c.advance.size < c.size := Cursor.size_advance_of_rest hc
    match keyword.kind with
    | .semicolon => read none c.advance hr
    | .leftBrace =>
      match items c.advance with
      | ⟨(statements, s), hs⟩ =>
        ((expect .rightBrace "Expect '\x7d' after block." s).widen
          (Nat.le_trans hs (Nat.le_of_lt hr))).map fun _ ↦ some (.block statements)
    | .kwConsole =>
      ((expressionStatement c.advance).widen (Nat.le_of_lt hr)).map fun expr ↦ some (.console expr)
    | .kwIf =>
      ((condition "Expect '(' after 'if'." "Expect ')' after if condition." c.advance).widen
        (Nat.le_of_lt hr)).andThen fun condition s hs ↦
          ((statement s).widen (Nat.le_of_lt hs)).andThen fun thenBranch u hu ↦
            match ha : u.acceptOne? .kwElse with
            | none => read (some (.ifThen condition thenBranch none)) u hu
            | some (_, v) =>
              have hv := Nat.lt_trans (Cursor.size_of_acceptOne? ha) hu
              ((statement v).widen (Nat.le_of_lt hv)).map fun elseBranch ↦
                some (.ifThen condition thenBranch elseBranch)
    | .kwWhile =>
      ((condition "Expect '(' after 'while'." "Expect ')' after while condition."
        c.advance).widen (Nat.le_of_lt hr)).andThen fun condition s hs ↦
          ((loopBody s).widen (Nat.le_of_lt hs)).map fun body ↦ some (.whileLoop condition body)
    | .kwFor =>
      ((forClauses c.advance).widen (Nat.le_of_lt hr)).andThen fun clauses s hs ↦
        ((loopBody s).widen (Nat.le_of_lt hs)).map fun body ↦
          some (.forLoop clauses.initializer clauses.condition clauses.increment body)
    | .kwBreak =>
      (loopControl keyword .illegalBreak "Expected ';' after break." (.breakLoop keyword.span)
        c.advance).widen (Nat.le_of_lt hr)
    | .kwContinue =>
      (loopControl keyword .illegalContinue "Expected ';' after continue."
        (.continueLoop keyword.span) c.advance).widen (Nat.le_of_lt hr)
    | _ => (expressionStatement c).map fun expr ↦ some (.expression expr)
termination_by (c.size, 0)
decreasing_by
  all_goals exact Prod.Lex.left _ _ (by omega)

/-- Reads a statement inside one more loop. -/
def loopBody (c : Cursor) : Parse (Option Stmt) c.size :=
  ⟨(statement c.enterLoop).val.mapCursor Cursor.leaveLoop,
    (statement c.enterLoop).property.mapCursor Cursor.size_leaveLoop⟩
termination_by (c.size, 1)
decreasing_by
  all_goals exact Prod.Lex.right _ (by decide)

/-- Reads a declaration.  An error in it is recorded, and what it left unread is skipped up to
where a statement may start. -/
def declaration (c : Cursor) : { p : List Stmt × Cursor // p.2.size ≤ c.size - 1 } :=
  let parsed : Parse (List Stmt) c.size :=
    match ha : c.acceptOne? .kwLet with
    | some (_, r) => (bindings .mutable r).widen (Nat.le_of_lt (Cursor.size_of_acceptOne? ha))
    | none =>
      match hb : c.acceptOne? .kwConst with
      | some (_, r) => (bindings .constant r).widen (Nat.le_of_lt (Cursor.size_of_acceptOne? hb))
      | none => (statement c).map Option.toList
  match parsed with
  | ⟨.read statements r, hr⟩ => ⟨(statements, r), Nat.le_sub_one_of_lt hr⟩
  | ⟨.failed error r, hr⟩ =>
    ⟨([], (r.record error).synchronize),
      Nat.le_trans (Cursor.size_synchronize _) (Nat.sub_le_sub_right hr 1)⟩
termination_by (c.size, 1)
decreasing_by
  all_goals exact Prod.Lex.right _ (by decide)

/-- Reads declarations up to a closing brace or the end. -/
def items (c : Cursor) : { p : List Stmt × Cursor // p.2.size ≤ c.size } :=
  if hc : c.check .rightBrace || c.atEnd then ⟨([], c), Nat.le_refl _⟩
  else
    have hpos : 0 < c.size := Cursor.size_pos_of_not_atEnd (by simp_all)
    match declaration c with
    | ⟨(first, r), hr⟩ =>
      match items r with
      | ⟨(others, s), hs⟩ =>
        ⟨(first ++ others, s), Nat.le_trans hs (Nat.le_trans hr (Nat.sub_le ..))⟩
termination_by (c.size, 2)
decreasing_by
  · exact Prod.Lex.right _ (by decide)
  · exact Prod.Lex.left _ _ (by simp only at hr; omega)
end

end Parse

namespace Cursor

/-- Reads a statement; an empty one is absent. -/
def readStatement (c : Cursor) : Reading (Option Stmt) := (Parse.statement c).val

/-- Reads a declaration, recording the error in it if there is one. -/
def readDeclaration (c : Cursor) : List Stmt × Cursor := (Parse.declaration c).val

/-- Reads declarations up to a closing brace or the end. -/
def readItems (c : Cursor) : List Stmt × Cursor := (Parse.items c).val

/-! ### The other readings, without their bounds -/

def readExpressionStatement (c : Cursor) : Reading Expr := (Parse.expressionStatement c).val

def readBinding (mutability : Mutability) (c : Cursor) : Reading Stmt :=
  (Parse.binding mutability c).val

def readBindings (mutability : Mutability) (c : Cursor) : Reading (List Stmt) :=
  (Parse.bindings mutability c).val

def readForInitializer (c : Cursor) : Reading (List Stmt) := (Parse.forInitializer c).val

def readForCondition (c : Cursor) : Reading Expr := (Parse.forCondition c).val

def readForIncrement (c : Cursor) : Reading (Option Expr) := (Parse.forIncrement c).val

def readForClauses (c : Cursor) : Reading Parse.ForClauses := (Parse.forClauses c).val

def readCondition (opening closing : String) (c : Cursor) : Reading Expr :=
  (Parse.condition opening closing c).val

def readLoopControl (keyword : Token) (fault : SyntaxFault) (message : String) (statement : Stmt)
    (c : Cursor) : Reading (Option Stmt) :=
  (Parse.loopControl keyword fault message statement c).val

def readLoopBody (c : Cursor) : Reading (Option Stmt) := (Parse.loopBody c).val

/-- Reads bindings or a statement, as a declaration does before it looks for an error. -/
def readItem (c : Cursor) : Reading (List Stmt) :=
  match c.acceptOne? .kwLet with
  | some (_, r) => r.readBindings .mutable
  | none =>
    match c.acceptOne? .kwConst with
    | some (_, r) => r.readBindings .constant
    | none => c.readStatement.map Option.toList

/-- What a declaration makes of a reading: an error is recorded and what it left is skipped. -/
def recover : Reading (List Stmt) → List Stmt × Cursor
  | .read statements r => (statements, r)
  | .failed error r => ([], (r.record error).synchronize)

/-! ### Each part in terms of the others -/

theorem readExpressionStatement_eq (c : Cursor) :
    c.readExpressionStatement = c.readExpression.andThen fun expr r ↦
      (r.expect .semicolon "Expect ';' after expression.").map fun _ ↦ expr :=
  Parse.val_andThen fun _ _ _ ↦ rfl

theorem readBinding_constant (c : Cursor) :
    c.readBinding .constant = (c.expect .identifier "Expect constant name.").andThen fun name r ↦
      (r.expect .equal "Missing initializer in const declaration.").andThen fun _ s ↦
        s.readExpression.map fun value ↦
          .declaration name.text name.span (some value) .constant :=
  Parse.val_andThen fun _ _ _ ↦ Parse.val_andThen fun _ _ _ ↦ rfl

theorem readBinding_mutable (c : Cursor) :
    c.readBinding .mutable = (c.expect .identifier "Expect variable name.").andThen fun name r ↦
      match r.acceptOne? .equal with
      | none => .read (.declaration name.text name.span none .mutable) r
      | some (_, s) => s.readExpression.map fun value ↦
        .declaration name.text name.span (some value) .mutable := by
  refine Parse.val_andThen fun name r hr ↦ ?_
  split
  · simp_all
  · rename_i heq
    simp only [heq]
    rfl

theorem readBindings_eq (mutability : Mutability) (c : Cursor) :
    c.readBindings mutability = (c.readBinding mutability).andThen fun first r ↦
      match r.acceptOne? .comma with
      | none => (r.expect .semicolon "Expect ';' after variable declaration.").map fun _ ↦ [first]
      | some (_, s) => (s.readBindings mutability).map (first :: ·) := by
  rw [readBindings, Parse.bindings]
  refine Parse.val_andThen fun first r hr ↦ ?_
  split
  · simp_all
  · rename_i heq
    simp only [heq]
    rfl

theorem readForInitializer_eq (c : Cursor) :
    c.readForInitializer = match c.acceptOne? .semicolon with
      | some (_, r) => .read [] r
      | none =>
        match c.acceptOne? .kwLet with
        | some (_, r) => r.readBindings .mutable
        | none => c.readExpressionStatement.map fun expr ↦ [.expression expr] := by
  rw [readForInitializer, Parse.forInitializer]
  split
  · simp_all
  · rename_i hnone
    simp only [hnone]
    split
    · simp_all [readBindings]
    · simp_all [readExpressionStatement]

theorem readForCondition_eq (c : Cursor) :
    c.readForCondition = if c.check .semicolon then
        (c.expect .semicolon "Expect ';' after loop condition.").map
          fun _ ↦ .literal (.boolean true)
      else c.readExpression.andThen fun condition r ↦
        (r.expect .semicolon "Expect ';' after loop condition.").map fun _ ↦ condition := by
  rw [readForCondition, Parse.forCondition]
  split
  · rfl
  · exact Parse.val_andThen fun _ _ _ ↦ rfl

theorem readForIncrement_eq (c : Cursor) :
    c.readForIncrement = if c.check .rightParen then
        (c.expect .rightParen "Expect ')' after for clauses.").map fun _ ↦ none
      else c.readExpression.andThen fun increment r ↦
        (r.expect .rightParen "Expect ')' after for clauses.").map fun _ ↦ some increment := by
  rw [readForIncrement, Parse.forIncrement]
  split
  · rfl
  · exact Parse.val_andThen fun _ _ _ ↦ rfl

theorem readForClauses_eq (c : Cursor) :
    c.readForClauses = (c.expect .leftParen "Expect '(' after 'for'.").andThen fun _ r ↦
      r.readForInitializer.andThen fun initializer s ↦
        s.readForCondition.andThen fun condition u ↦
          u.readForIncrement.map fun increment ↦ ⟨initializer, condition, increment⟩ :=
  Parse.val_andThen fun _ _ _ ↦ Parse.val_andThen fun _ _ _ ↦ Parse.val_andThen fun _ _ _ ↦ rfl

theorem readCondition_eq (opening closing : String) (c : Cursor) :
    c.readCondition opening closing = (c.expect .leftParen opening).andThen fun _ r ↦
      r.readExpression.andThen fun condition s ↦
        (s.expect .rightParen closing).map fun _ ↦ condition :=
  Parse.val_andThen fun _ _ _ ↦ Parse.val_andThen fun _ _ _ ↦ rfl

theorem readLoopControl_eq (keyword : Token) (fault : SyntaxFault) (message : String)
    (statement : Stmt) (c : Cursor) :
    c.readLoopControl keyword fault message statement =
      if c.loopDepth = 0 then .failed (errorAt keyword fault) c
      else (c.expect .semicolon message).map fun _ ↦ some statement := by
  rw [readLoopControl, Parse.loopControl]
  split <;> rfl

theorem readLoopBody_eq (c : Cursor) :
    c.readLoopBody = c.enterLoop.readStatement.mapCursor leaveLoop := by
  rw [readLoopBody, Parse.loopBody]
  rfl

theorem readStatement_eq (c : Cursor) :
    c.readStatement = match c.rest with
      | [] => c.readExpressionStatement.map fun expr ↦ some (.expression expr)
      | keyword :: _ =>
        match keyword.kind with
        | .semicolon => .read none c.advance
        | .leftBrace =>
          (c.advance.readItems.2.expect .rightBrace "Expect '\x7d' after block.").map
            fun _ ↦ some (.block c.advance.readItems.1)
        | .kwConsole => c.advance.readExpressionStatement.map fun expr ↦ some (.console expr)
        | .kwIf =>
          (c.advance.readCondition "Expect '(' after 'if'."
            "Expect ')' after if condition.").andThen fun condition s ↦
              s.readStatement.andThen fun thenBranch u ↦
                match u.acceptOne? .kwElse with
                | none => .read (some (.ifThen condition thenBranch none)) u
                | some (_, v) => v.readStatement.map fun elseBranch ↦
                  some (.ifThen condition thenBranch elseBranch)
        | .kwWhile =>
          (c.advance.readCondition "Expect '(' after 'while'."
            "Expect ')' after while condition.").andThen fun condition s ↦
              s.readLoopBody.map fun body ↦ some (.whileLoop condition body)
        | .kwFor => c.advance.readForClauses.andThen fun clauses s ↦
          s.readLoopBody.map fun body ↦
            some (.forLoop clauses.initializer clauses.condition clauses.increment body)
        | .kwBreak =>
          c.advance.readLoopControl keyword .illegalBreak "Expected ';' after break."
            (.breakLoop keyword.span)
        | .kwContinue =>
          c.advance.readLoopControl keyword .illegalContinue "Expected ';' after continue."
            (.continueLoop keyword.span)
        | _ => c.readExpressionStatement.map fun expr ↦ some (.expression expr) := by
  rw [readStatement, Parse.statement]
  split
  · simp_all [readExpressionStatement]
  · rename_i keyword tokens hc
    simp only [hc]
    split
    · rfl
    · rfl
    · rfl
    · refine Parse.val_andThen fun condition s hs ↦ Parse.val_andThen fun thenBranch u hu ↦ ?_
      split
      · simp_all
      · rename_i heq
        simp only [heq]
        rfl
    · exact Parse.val_andThen fun _ _ _ ↦ rfl
    · exact Parse.val_andThen fun _ _ _ ↦ rfl
    · rfl
    · rfl
    · rfl

theorem readDeclaration_eq (c : Cursor) : c.readDeclaration = recover c.readItem := by
  rw [readDeclaration, Parse.declaration]
  split
  case' h_1 => change recover (.read _ _) = recover c.readItem
  case' h_2 => change recover (.failed _ _) = recover c.readItem
  all_goals
    rename_i hparsed
    refine congrArg recover (Eq.symm ?_)
    split at hparsed
    · rename_i hlet
      simpa [readItem, hlet, readBindings] using congrArg Subtype.val hparsed
    · rename_i hlet
      split at hparsed
      · rename_i hconst
        simpa [readItem, hlet, hconst, readBindings] using congrArg Subtype.val hparsed
      · rename_i hconst
        simpa [readItem, hlet, hconst, readStatement] using congrArg Subtype.val hparsed

theorem readItems_eq (c : Cursor) :
    c.readItems = if c.check .rightBrace || c.atEnd then ([], c)
      else (c.readDeclaration.1 ++ c.readDeclaration.2.readItems.1,
        c.readDeclaration.2.readItems.2) := by
  rw [readItems, Parse.items]
  split <;> rfl

theorem size_readDeclaration (c : Cursor) : c.readDeclaration.2.size ≤ c.size - 1 :=
  (Parse.declaration c).property

/-- Reads declarations up to the end. -/
def readProgram (c : Cursor) : List Stmt × Cursor :=
  if c.atEnd then ([], c)
  else
    let first := c.readDeclaration
    let others := first.2.readProgram
    (first.1 ++ others.1, others.2)
termination_by c.size
decreasing_by
  have hpos := size_pos_of_not_atEnd (c := c) (by simp_all)
  have hsize := size_readDeclaration c
  omega

end Cursor

/-- The statements of a program and its syntax errors, both in order. -/
structure Parsed where
  statements : List Stmt
  errors : List SyntaxError
  deriving Repr

/-- Reads a program. -/
def parse (tokens : List Token) : Parsed :=
  let program := (Cursor.ofTokens tokens).readProgram
  ⟨program.1, program.2.errors⟩

end Sigil
