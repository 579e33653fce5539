import Sigil.Environment

/-!
# Templates

A template is text in which a sigil name stands for the value it is bound to.
It splits into pieces, and each piece is expanded by itself, so substituted text
is never looked at again.
-/

namespace Sigil

/-- A piece of a template. -/
inductive TemplatePiece where
  | text (chars : List Char)
  | sigil
  | reference (run : List Char)
  deriving DecidableEq, Repr

namespace TemplatePiece

/-- The text a piece was read from. -/
def source : TemplatePiece → List Char
  | .text chars => chars
  | .sigil => ['@']
  | .reference run => '@' :: run

/-- The pieces of a template: text without sigils, sigils that no name follows, and references. -/
def all : List Char → List TemplatePiece
  | [] => []
  | c :: cs =>
    if c = '@' then
      if (cs.takeWhile isNameChar).isEmpty then .sigil :: all cs
      else .reference (cs.takeWhile isNameChar) :: all (cs.dropWhile isNameChar)
    else .text (c :: cs.takeWhile (· != '@')) :: all (cs.dropWhile (· != '@'))
termination_by template => template.length
decreasing_by
  · simp
  · exact Nat.lt_succ_of_le (List.dropWhile_suffix _).length_le
  · exact Nat.lt_succ_of_le (List.dropWhile_suffix _).length_le

/-- The text that a piece expands to.  A reference to a name that the environment has is replaced by
the value that is then looked up; a reference to another name stays as it is. -/
def expand (env : Environment) : TemplatePiece → Except RuntimeError (List Char)
  | .reference run =>
    if env.has (String.ofList ('@' :: run)) then
      (env.get (String.ofList ('@' :: run))).map fun value ↦ value.substituted.toList
    else .ok ('@' :: run)
  | piece => .ok piece.source

end TemplatePiece

/-- The text that a template expands to. -/
def interpolate (env : Environment) (template : String) : Except RuntimeError String :=
  ((TemplatePiece.all template.toList).mapM (TemplatePiece.expand env)).map fun texts ↦
    String.ofList texts.flatten

end Sigil
