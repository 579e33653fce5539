import Sigil.Text.Position
import Sigil.Token.Lexeme

/-!
# Segments

A script is a sequence of segments: layout, tokens, and errors.  Segments are
lexemes with two rules added.  A bare word that is no keyword names a member
after a dot and is an error elsewhere; an unexpected character takes everything
up to the next blank with it.  Tokens and errors are read off the segments, with
their places.
-/

namespace Sigil

/-- A piece of a script and what it is. -/
structure Segment where
  lexeme : Lexeme
  text : List Char
  deriving Repr

/-- Something that is no token, and the offset where it starts. -/
structure LexicalError where
  fault : LexicalFault
  offset : Nat
  deriving DecidableEq, Repr

/-- The tokens of a script and its lexical errors, both in order. -/
structure Lexed where
  tokens : List Token
  errors : List LexicalError
  deriving Repr

namespace Segment

/-- Applies the two rules to a lexeme; `afterDot` says that the token before it is a dot. -/
def settle (afterDot : Bool) (scanned : Scanned) : Scanned :=
  match scanned.lexeme with
  | .token .word _ =>
    if afterDot then
      { scanned with lexeme := .token .identifier (.text (String.ofList scanned.text)) }
    else { scanned with lexeme := .fault .unknownKeyword }
  | .fault .unexpectedCharacter =>
    ⟨scanned.lexeme, scanned.text ++ scanned.rest.takeWhile (!isBlank ·),
      scanned.rest.dropWhile (!isBlank ·)⟩
  | _ => scanned

/-- Whether the last token is a dot after a lexeme, given whether it was one before it. -/
def endsInDot (afterDot : Bool) : Lexeme → Bool
  | .token kind _ => kind == .dot
  | _ => afterDot

theorem settle_append (afterDot : Bool) (scanned : Scanned) :
    (settle afterDot scanned).text ++ (settle afterDot scanned).rest =
      scanned.text ++ scanned.rest := by
  unfold settle
  split
  · split <;> rfl
  · simp [List.takeWhile_append_dropWhile]
  · rfl

theorem settle_rest_length (afterDot : Bool) (scanned : Scanned) :
    (settle afterDot scanned).rest.length ≤ scanned.rest.length := by
  unfold settle
  split
  · split <;> exact Nat.le_refl _
  · exact (List.dropWhile_suffix _).length_le
  · exact Nat.le_refl _

/-- The segments of a script, given whether the token before it is a dot. -/
def all (afterDot : Bool) : List Char → List Segment
  | [] => []
  | c :: cs =>
    let scanned := settle afterDot (Lexeme.scan c cs)
    ⟨scanned.lexeme, scanned.text⟩ ::
      all (endsInDot afterDot scanned.lexeme) scanned.rest
termination_by text => text.length
decreasing_by
  exact Nat.lt_of_le_of_lt (settle_rest_length _ _) (Lexeme.scan_rest_length c cs)

/-- The texts of the segments in a row are the script. -/
theorem all_flatMap_text (afterDot : Bool) (text : List Char) :
    (all afterDot text).flatMap Segment.text = text := by
  fun_induction all afterDot text with
  | case1 => rfl
  | case2 afterDot c cs scanned ih =>
    rw [List.flatMap_cons, ih]
    exact (settle_append _ _).trans (Lexeme.scan_append c cs)

end Segment

/-- The tokens and errors among segments, the first of which starts at `offset`. -/
def Lexed.ofSegments (offset : Nat) : List Segment → Lexed
  | [] => ⟨[], []⟩
  | segment :: segments =>
    let stop := offset + byteSize segment.text
    let later := ofSegments stop segments
    match segment.lexeme with
    | .layout => later
    | .token kind literal =>
      { later with tokens := ⟨kind, literal, ⟨offset, stop⟩⟩ :: later.tokens }
    | .fault fault => { later with errors := ⟨fault, offset⟩ :: later.errors }

/-- The tokens and lexical errors of a script. -/
def tokenize (text : List Char) : Lexed := Lexed.ofSegments 0 (Segment.all false text)

/-- A message with the position it is about. -/
def located (table : LineTable) (offset : Nat) (message : String) : String :=
  "At [" ++ (table.locate offset).text ++ "] >" ++ message

/-- The report of a lexical error. -/
def LexicalError.report (table : LineTable) (error : LexicalError) : String :=
  located table error.offset error.fault.message

end Sigil
