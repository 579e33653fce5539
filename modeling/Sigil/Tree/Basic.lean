import Sigil.Operator
import Sigil.Token.Basic

/-!
# Expressions and statements

The trees that a script is read into.  Nodes keep the places of the tokens they
were made from; nothing that a script does depends on them.
-/

namespace Sigil

/-- Which value an assignment yields: the one the variable held before it, or the one after. -/
inductive Timing where
  | before
  | after
  deriving DecidableEq, Repr

/-- Whether a declared name may be assigned later. -/
inductive Mutability where
  | mutable
  | constant
  deriving DecidableEq, Repr

/-- An expression. -/
inductive Expr where
  | assign (name : String) (span : Span) (value : Expr) (timing : Timing)
  | logical (left : Expr) (op : LogicalOperator) (right : Expr) (span : Span)
  | conditional (condition left right : Expr)
  | binary (left : Expr) (op : BinaryOperator) (right : Expr) (span : Span)
  | unary (op : UnaryOperator) (operand : Expr) (span : Span)
  | reference (name : String) (span : Span)
  | literal (value : Value)
  | template (text : String)
  | grouping (inner : Expr)
  deriving Repr, Inhabited

/-- A statement.  A branch or a body that is an empty statement is absent. -/
inductive Stmt where
  | expression (expr : Expr)
  | console (expr : Expr)
  | declaration (name : String) (span : Span) (initializer : Option Expr)
    (mutability : Mutability)
  | block (statements : List Stmt)
  | ifThen (condition : Expr) (thenBranch elseBranch : Option Stmt)
  | whileLoop (condition : Expr) (body : Option Stmt)
  | forLoop (initializer : List Stmt) (condition : Expr) (increment : Option Expr)
    (body : Option Stmt)
  | breakLoop (span : Span)
  | continueLoop (span : Span)
  deriving Repr, Inhabited

end Sigil
