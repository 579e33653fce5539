/-!
# Outlines

An outline is nested data made of named groups.  It is shown on one line or with
one item on each line.
-/

namespace Sigil

/-- The brackets around the items of a group. -/
inductive Brackets where
  | braces
  | parens
  | squares
  deriving DecidableEq, Repr

/-- Nested data to be shown. -/
inductive Outline where
  | atom (text : String)
  | labelled (label : String) (item : Outline)
  | group (name : String) (brackets : Brackets) (items : List Outline)
  deriving Repr, Inhabited

/-- What opens a group on one line. -/
def Brackets.opening : Brackets → String
  | .braces => " \x7b "
  | .parens => "("
  | .squares => "["

/-- What closes a group on one line. -/
def Brackets.closing : Brackets → String
  | .braces => " \x7d"
  | .parens => ")"
  | .squares => "]"

/-- What opens a group whose items stand on lines of their own. -/
def Brackets.openingLine : Brackets → String
  | .braces => " \x7b\n"
  | .parens => "(\n"
  | .squares => "[\n"

/-- What closes a group whose items stand on lines of their own. -/
def Brackets.closingLine : Brackets → String
  | .braces => "\x7d"
  | .parens => ")"
  | .squares => "]"

/-- The spaces before a line of the given indentation. -/
def indentation (indent : Nat) : String := String.ofList (List.replicate indent ' ')

namespace Outline

mutual
/-- The outline on one line. -/
def compact : Outline → String
  | .atom text => text
  | .labelled label item => label ++ ": " ++ compact item
  | .group name brackets items =>
    name ++ brackets.opening ++ compactItems items ++ brackets.closing

/-- Items on one line, with commas between them. -/
def compactItems : List Outline → String
  | [] => ""
  | [item] => compact item
  | item :: items => compact item ++ ", " ++ compactItems items
end

mutual
/-- The outline with every item on a line of its own; `indent` is the indentation of its first
line, which is not written. -/
def pretty (indent : Nat) : Outline → String
  | .atom text => text
  | .labelled label item => label ++ ": " ++ pretty indent item
  | .group name brackets [] => name ++ brackets.opening ++ brackets.closing
  | .group name brackets items =>
    name ++ brackets.openingLine ++ prettyItems (indent + 4) items ++ indentation indent ++
      brackets.closingLine

/-- Items on lines of their own, each followed by a comma. -/
def prettyItems (indent : Nat) : List Outline → String
  | [] => ""
  | item :: items =>
    indentation indent ++ pretty indent item ++ ",\n" ++ prettyItems indent items
end

end Outline

end Sigil
