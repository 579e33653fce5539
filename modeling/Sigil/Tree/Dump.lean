import Sigil.Tree.Basic
import Sigil.Tree.Outline

/-!
# Dumps of trees

The outline of each node: its name and its parts in a fixed order.
-/

namespace Sigil

/-- A named group of labelled parts. -/
def Outline.record (name : String) (parts : List (String × Outline)) : Outline :=
  .group name .braces (parts.map fun part ↦ .labelled part.1 part.2)

/-- A named group around one part. -/
def Outline.wrap (name : String) (part : Outline) : Outline := .group name .parens [part]

/-- The outline of a part that may be absent. -/
def Outline.optional : Option Outline → Outline
  | none => .atom "None"
  | some part => .wrap "Some" part

/-- The outline of a quoted text. -/
def Outline.text (s : String) : Outline := .atom (quoted s)

/-- The outline of a span. -/
def Span.outline (span : Span) : Outline :=
  .record "Span" [("start", .atom (toString span.start)), ("end", .atom (toString span.stop))]

/-- The outline of a literal. -/
def Value.outline : Value → Outline
  | .null => .atom "Null"
  | .number x => .wrap "Number" (.atom (NumberStyle.dumped.text x))
  | .boolean b => .wrap "Bool" (.atom (if b then "true" else "false"))
  | .text s => .wrap "Str" (.text s)

/-- The name of a timing. -/
def Timing.name : Timing → String
  | .before => "Before"
  | .after => "After"

/-- The name of a mutability. -/
def Mutability.name : Mutability → String
  | .mutable => "Let"
  | .constant => "Const"

/-- The outline of an expression. -/
def Expr.outline : Expr → Outline
  | .assign name span value timing =>
    .record "Assign" [("name", .text name), ("span", span.outline), ("value", value.outline),
      ("timing", .atom timing.name)]
  | .logical left op right span =>
    .record "Logical" [("left", left.outline), ("op", .atom op.name), ("right", right.outline),
      ("span", span.outline)]
  | .conditional condition left right =>
    .record "Trinary" [("condition", condition.outline), ("left", left.outline),
      ("right", right.outline)]
  | .binary left op right span =>
    .record "Binary" [("left", left.outline), ("op", .atom op.name), ("right", right.outline),
      ("span", span.outline)]
  | .unary op operand span =>
    .record "Unary" [("op", .atom op.name), ("operand", operand.outline), ("span", span.outline)]
  | .reference name span => .record "Variable" [("name", .text name), ("span", span.outline)]
  | .literal value => .record "Literal" [("value", value.outline)]
  | .template text => .record "StringInterpolation" [("template", .text text)]
  | .grouping inner => .record "Grouping" [("inner", inner.outline)]

mutual
/-- The outline of a statement. -/
def Stmt.outline : Stmt → Outline
  | .expression expr => .record "Expression" [("expr", expr.outline)]
  | .console expr => .record "Console" [("expr", expr.outline)]
  | .declaration name span initializer mutability =>
    .record "VariableDeclaration" [("name", .text name), ("span", span.outline),
      ("initializer", .optional (initializer.map Expr.outline)),
      ("mutability", .atom mutability.name)]
  | .block statements =>
    .record "Block" [("statements", .group "" .squares (Stmt.outlines statements))]
  | .ifThen condition thenBranch elseBranch =>
    .record "IfThen" [("condition", condition.outline),
      ("then_branch", .optional (Stmt.outline? thenBranch)),
      ("else_branch", .optional (Stmt.outline? elseBranch))]
  | .whileLoop condition body =>
    .record "While" [("condition", condition.outline), ("body", .optional (Stmt.outline? body))]
  | .forLoop initializer condition increment body =>
    .record "For" [("initializer", .group "" .squares (Stmt.outlines initializer)),
      ("condition", condition.outline), ("increment", .optional (increment.map Expr.outline)),
      ("body", .optional (Stmt.outline? body))]
  | .breakLoop span => .record "Break" [("span", span.outline)]
  | .continueLoop span => .record "Continue" [("span", span.outline)]

/-- The outlines of statements. -/
def Stmt.outlines : List Stmt → List Outline
  | [] => []
  | statement :: statements => Stmt.outline statement :: Stmt.outlines statements

/-- The outline of a statement that may be absent. -/
def Stmt.outline? : Option Stmt → Option Outline
  | none => none
  | some statement => some (Stmt.outline statement)
end

end Sigil
