import Sigil.Syntax.Cursor

/-!
# Reading expressions

Expressions have levels, from assignments, which bind loosest, to primaries.  A
level is read by reading the next tighter one first and then looking for its own
operators.  Every reading that succeeds has read at least one token, so the
recursion ends: either fewer tokens are left, or the level is tighter.
-/

namespace Sigil

/-- A level whose operators are written in a row and group to the left. -/
inductive ChainLevel where
  | disjunction
  | conjunction
  | equality
  | comparison
  | additive
  | multiplicative
  deriving DecidableEq, Repr

/-- A level of expressions. -/
inductive Level where
  | assignment
  | chain (level : ChainLevel)
  | conditional
  | unary
  | suffixed
  | primary
  deriving DecidableEq, Repr

/-- How loosely a level binds. -/
def Level.rank : Level → Nat
  | .primary => 0
  | .suffixed => 1
  | .unary => 2
  | .chain .multiplicative => 3
  | .chain .additive => 4
  | .chain .comparison => 5
  | .chain .equality => 6
  | .conditional => 7
  | .chain .conjunction => 8
  | .chain .disjunction => 9
  | .assignment => 10

/-- The level of the operands of a chain. -/
def ChainLevel.operand : ChainLevel → Level
  | .disjunction => .chain .conjunction
  | .conjunction => .conditional
  | .equality => .chain .comparison
  | .comparison => .chain .additive
  | .additive => .chain .multiplicative
  | .multiplicative => .unary

theorem ChainLevel.rank_operand (level : ChainLevel) :
    level.operand.rank < (Level.chain level).rank := by
  cases level <;> decide

/-- An operator between two operands of a chain. -/
inductive Connective where
  | logical (op : LogicalOperator)
  | binary (op : BinaryOperator)
  deriving DecidableEq, Repr

/-- Joins two operands. -/
def Connective.join (connective : Connective) (left right : Expr) (span : Span) : Expr :=
  match connective with
  | .logical op => .logical left op right span
  | .binary op => .binary left op right span

/-- The binary operator that a kind of token stands for. -/
def TokenKind.binaryOperator? : TokenKind → Option BinaryOperator
  | .plus => some .add
  | .minus => some .sub
  | .star => some .mul
  | .slash => some .div
  | .equalEqual => some .equal
  | .bangEqual => some .notEqual
  | .greater => some .greater
  | .greaterEqual => some .greaterEqual
  | .less => some .less
  | .lessEqual => some .lessEqual
  | _ => none

/-- The kinds of tokens that stand between operands of a level. -/
def ChainLevel.kinds : ChainLevel → List TokenKind
  | .disjunction => [.kwOr]
  | .conjunction => [.kwAnd]
  | .equality => [.equalEqual, .bangEqual]
  | .comparison => [.greater, .greaterEqual, .less, .lessEqual]
  | .additive => [.plus, .minus]
  | .multiplicative => [.star, .slash]

/-- The connective that a kind of token is at a level. -/
def ChainLevel.connective? (level : ChainLevel) (kind : TokenKind) : Option Connective :=
  if level.kinds.contains kind then
    match kind with
    | .kwOr => some (.logical .or)
    | .kwAnd => some (.logical .and)
    | kind => kind.binaryOperator?.map .binary
  else none

/-- How an assignment operator makes the stored value: as it is, or by a binary operator from the
value held before. -/
inductive AssignForm where
  | plain
  | compound (op : BinaryOperator)
  deriving DecidableEq, Repr

/-- The form of assignment that a kind of token stands for. -/
def TokenKind.assignForm? : TokenKind → Option AssignForm
  | .equal => some .plain
  | .plusEqual => some (.compound .add)
  | .minusEqual => some (.compound .sub)
  | .starEqual => some (.compound .mul)
  | .slashEqual => some (.compound .div)
  | _ => none

/-- The value stored by an assignment to `name`. -/
def AssignForm.stored (form : AssignForm) (name : String) (target : Span) (value : Expr)
    (operator : Span) : Expr :=
  match form with
  | .plain => value
  | .compound op => .binary (.reference name target) op value operator

/-- The unary operator that a kind of token stands for. -/
def TokenKind.unaryOperator? : TokenKind → Option UnaryOperator
  | .plus => some .plus
  | .minus => some .negate
  | .bang => some .not
  | .kwTypeof => some .typeof
  | .plusPlus => some .increment
  | .minusMinus => some .decrement
  | _ => none

/-- The operator that updates a variable. -/
def UnaryOperator.updates : UnaryOperator → Bool
  | .increment => true
  | .decrement => true
  | _ => false

/-- The expression is a variable. -/
def Expr.isReference : Expr → Bool
  | .reference _ _ => true
  | _ => false

/-- The operation by which a suffix changes a variable. -/
def TokenKind.suffixOperator? : TokenKind → Option BinaryOperator
  | .plusPlus => some .add
  | .minusMinus => some .sub
  | _ => none

/-- The update of a variable by one that yields the value held before. -/
def Expr.updated (name : String) (span : Span) (op : BinaryOperator) (operator : Span) : Expr :=
  .assign name span (.binary (.reference name span) op (.literal (.number 1)) operator) .before

/-- The expression that a single token is. -/
def Token.primary? (token : Token) : Except SyntaxFault Expr :=
  match token.kind with
  | .kwNull => .ok (.literal .null)
  | .kwTrue => .ok (.literal token.literal)
  | .kwFalse => .ok (.literal token.literal)
  | .number => .ok (.literal token.literal)
  | .string => .ok (.literal token.literal)
  | .interpolatedString => .ok (.template token.text)
  | .identifier => .ok (.reference token.text token.span)
  | .templateString => .error .unsupportedTemplateString
  | _ => .error .expectExpression

namespace Parse

mutual
/-- Reads an expression of a level. -/
def level (level : Level) (c : Cursor) : Parse Expr c.size :=
  match level with
  | .assignment =>
    (Parse.level (.chain .disjunction) c).andThen fun target r hr ↦
      match ha : r.accept? TokenKind.assignForm? with
      | none => read target r hr
      | some (form, operator, s) =>
        have hs := Cursor.size_of_accept? ha
        ((Parse.level .assignment s).widen (by omega)).andThen fun value u hu ↦
          match target with
          | .reference name span =>
            read (.assign name span (form.stored name span value operator.span) .after) u hu
          | _ => failed (Cursor.errorAt operator .invalidAssignmentTarget) u (Nat.le_of_lt hu)
  | .chain chainLevel =>
    (Parse.level chainLevel.operand c).andThen fun left r hr ↦
      (Parse.chain chainLevel left r).widen hr
  | .conditional =>
    (Parse.level (.chain .equality) c).andThen fun condition r hr ↦
      match ha : r.acceptOne? .questionMark with
      | none => read condition r hr
      | some (_, s) =>
        have hs := Cursor.size_of_acceptOne? ha
        ((Parse.level .conditional s).widen (by omega)).andThen fun left u hu ↦
          ((expect .colon "Expected ':'." u).widen (Nat.le_of_lt hu)).andThen fun _ v hv ↦
            ((Parse.level .conditional v).widen (Nat.le_of_lt hv)).map (.conditional condition left)
  | .unary =>
    match ha : c.accept? TokenKind.unaryOperator? with
    | none => Parse.level .suffixed c
    | some (op, operator, r) =>
      have hr := Cursor.size_of_accept? ha
      ((Parse.level .unary r).widen (Nat.le_of_lt hr)).andThen fun operand s hs ↦
        if op.updates && !operand.isReference then
          failed (Cursor.errorAt operator .invalidPrefixOperand) s (Nat.le_of_lt hs)
        else read (.unary op operand operator.span) s hs
  | .suffixed =>
    (Parse.level .primary c).andThen fun operand r hr ↦
      match ha : r.accept? TokenKind.suffixOperator? with
      | none => read operand r hr
      | some (op, operator, s) =>
        have hs := Nat.lt_trans (Cursor.size_of_accept? ha) hr
        match operand with
        | .reference name span => read (.updated name span op operator.span) s hs
        | _ => failed (Cursor.errorAt operator .invalidPostfixOperand) s (Nat.le_of_lt hs)
  | .primary =>
    match hc : c.rest with
    | [] => failed (c.errorAtCurrent .expectExpression) c (Nat.le_refl _)
    | token :: _ =>
      have hadvance := Cursor.size_advance_of_rest hc
      if token.kind = .leftParen then
        ((Parse.level .assignment c.advance).widen (Nat.le_of_lt hadvance)).andThen fun inner r hr ↦
          ((expect .rightParen "Expect ')' after expression." r).widen (Nat.le_of_lt hr)).map
            fun _ ↦ .grouping inner
      else
        match token.primary? with
        | .ok expr => read expr c.advance hadvance
        | .error fault => failed (Cursor.errorAt token fault) c (Nat.le_refl _)
termination_by (c.size, level.rank)
decreasing_by
  all_goals first
    | exact Prod.Lex.left _ _ (by omega)
    | exact Prod.Lex.right _ (ChainLevel.rank_operand _)
    | exact Prod.Lex.right _ (by decide)

/-- Reads the rest of a chain after its first operand. -/
def chain (level : ChainLevel) (left : Expr) (c : Cursor) : Parse Expr (c.size + 1) :=
  match ha : c.accept? level.connective? with
  | none => read left c (Nat.lt_succ_self _)
  | some (connective, operator, r) =>
    have hr := Cursor.size_of_accept? ha
    ((Parse.level level.operand r).andThen fun right s hs ↦
      (Parse.chain level (connective.join left right operator.span) s).widen hs).widen (by omega)
termination_by (c.size, 0)
decreasing_by
  all_goals exact Prod.Lex.left _ _ (by omega)
end

end Parse

namespace Cursor

/-- Reads an expression of a level. -/
def readLevel (c : Cursor) (level : Level) : Reading Expr := (Parse.level level c).val

/-- Reads an expression. -/
def readExpression (c : Cursor) : Reading Expr := c.readLevel .assignment

/-- Reads the rest of a chain after its first operand. -/
def readChain (c : Cursor) (level : ChainLevel) (left : Expr) : Reading Expr :=
  (Parse.chain level left c).val

/-! ### Each level in terms of the others -/

theorem readLevel_assignment (c : Cursor) :
    c.readLevel .assignment = (c.readLevel (.chain .disjunction)).andThen fun target r ↦
      match r.accept? TokenKind.assignForm? with
      | none => .read target r
      | some (form, operator, s) => (s.readLevel .assignment).andThen fun value u ↦
        match target with
        | .reference name span =>
          .read (.assign name span (form.stored name span value operator.span) .after) u
        | _ => .failed (errorAt operator .invalidAssignmentTarget) u := by
  rw [readLevel, Parse.level]
  refine Parse.val_andThen fun target r hr ↦ ?_
  split
  · simp_all
  · rename_i heq
    simp only [heq]
    refine Parse.val_andThen fun value u hu ↦ ?_
    split <;> simp_all

theorem readLevel_chain (c : Cursor) (level : ChainLevel) :
    c.readLevel (.chain level) =
      (c.readLevel level.operand).andThen fun left r ↦ r.readChain level left := by
  rw [readLevel, Parse.level]
  exact Parse.val_andThen fun _ _ _ ↦ rfl

theorem readChain_eq (c : Cursor) (level : ChainLevel) (left : Expr) :
    c.readChain level left =
      match c.accept? level.connective? with
      | none => .read left c
      | some (connective, operator, r) => (r.readLevel level.operand).andThen fun right s ↦
        s.readChain level (connective.join left right operator.span) := by
  rw [readChain, Parse.chain]
  split
  · simp_all
  · rename_i heq
    simp only [heq, Parse.val_widen]
    exact Parse.val_andThen fun _ _ _ ↦ rfl

theorem readLevel_conditional (c : Cursor) :
    c.readLevel .conditional = (c.readLevel (.chain .equality)).andThen fun condition r ↦
      match r.acceptOne? .questionMark with
      | none => .read condition r
      | some (_, s) => (s.readLevel .conditional).andThen fun left u ↦
        (u.expect .colon "Expected ':'.").andThen fun _ v ↦
          (v.readLevel .conditional).map (.conditional condition left) := by
  rw [readLevel, Parse.level]
  refine Parse.val_andThen fun condition r hr ↦ ?_
  split
  · simp_all
  · rename_i heq
    simp only [heq]
    exact Parse.val_andThen fun left u hu ↦ Parse.val_andThen fun _ v hv ↦ rfl

theorem readLevel_unary (c : Cursor) :
    c.readLevel .unary = match c.accept? TokenKind.unaryOperator? with
      | none => c.readLevel .suffixed
      | some (op, operator, r) => (r.readLevel .unary).andThen fun operand s ↦
        if op.updates && !operand.isReference then
          .failed (errorAt operator .invalidPrefixOperand) s
        else .read (.unary op operand operator.span) s := by
  rw [readLevel, Parse.level]
  split
  · simp_all [readLevel]
  · rename_i heq
    simp only [heq]
    refine Parse.val_andThen fun operand s hs ↦ ?_
    split <;> simp_all

theorem readLevel_suffixed (c : Cursor) :
    c.readLevel .suffixed = (c.readLevel .primary).andThen fun operand r ↦
      match r.accept? TokenKind.suffixOperator? with
      | none => .read operand r
      | some (op, operator, s) =>
        match operand with
        | .reference name span => .read (.updated name span op operator.span) s
        | _ => .failed (errorAt operator .invalidPostfixOperand) s := by
  rw [readLevel, Parse.level]
  refine Parse.val_andThen fun operand r hr ↦ ?_
  split
  · simp_all
  · rename_i heq
    simp only [heq]
    split <;> simp_all

theorem readLevel_primary (c : Cursor) :
    c.readLevel .primary = match c.rest with
      | [] => .failed (c.errorAtCurrent .expectExpression) c
      | token :: _ =>
        if token.kind = .leftParen then
          (c.advance.readLevel .assignment).andThen fun inner r ↦
            (r.expect .rightParen "Expect ')' after expression.").map fun _ ↦ .grouping inner
        else
          match token.primary? with
          | .ok expr => .read expr c.advance
          | .error fault => .failed (errorAt token fault) c := by
  rw [readLevel, Parse.level]
  split
  · simp_all
  · rename_i heq
    simp only [heq]
    split
    · exact Parse.val_andThen fun _ _ _ ↦ rfl
    · split <;> simp_all

end Cursor

end Sigil
