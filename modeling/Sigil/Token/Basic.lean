import Sigil.Token.Kind
import Sigil.Value.Basic

/-!
# Tokens

A token is a kind, the literal it carries, and its place in the text.
-/

namespace Sigil

/-- A range of byte offsets, the last one excluded. -/
structure Span where
  start : Nat
  stop : Nat
  deriving DecidableEq, Repr, Inhabited

/-- A token.  Kinds without a literal carry `null`. -/
structure Token where
  kind : TokenKind
  literal : Value
  span : Span
  deriving Repr

/-- The literal of a token if it is a text, and the empty text otherwise. -/
def Token.text (token : Token) : String :=
  match token.literal with
  | .text s => s
  | _ => ""

end Sigil
