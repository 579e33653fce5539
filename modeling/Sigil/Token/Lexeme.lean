import Sigil.Token.Basic
import Sigil.Token.Numeral

/-!
# Lexemes

Scanning a text cuts one lexeme after another off its front: layout, a token, or
something that is none.  The cut is complete, so the texts of the lexemes in a
row give the scanned text back.
-/

namespace Sigil

/-- Why a piece of text is no token. -/
inductive LexicalFault where
  | unexpectedCharacter
  | unterminatedString (delimiter : Char)
  | invalidNameStart
  | emptyName
  | unknownKeyword
  | invalidHexLiteral
  deriving DecidableEq, Repr

/-- The wording of a fault. -/
def LexicalFault.message : LexicalFault → String
  | .unexpectedCharacter => "Unexpected character!"
  | .unterminatedString delimiter =>
    "Unterminated string. Expected " ++ String.singleton delimiter
  | .invalidNameStart =>
    "Variables names can't start with numbers nor with special characters!"
  | .emptyName => "Unexpected variable name."
  | .unknownKeyword => "Unknown keyword!"
  | .invalidHexLiteral => "Invalid hexadecimal literal."

/-- What a piece of text is. -/
inductive Lexeme where
  | layout
  | token (kind : TokenKind) (literal : Value)
  | fault (fault : LexicalFault)
  deriving Repr

/-- A lexeme cut off the front of a text, its own text, and what follows it. -/
structure Scanned where
  lexeme : Lexeme
  text : List Char
  rest : List Char
  deriving Repr

namespace Lexeme

/-- The part of a block comment up to the mark that closes it, with `depth` more comments to close
first, and what follows.  A comment that is not closed runs to the end. -/
def closeComment : Nat → List Char → List Char × List Char
  | _, [] => ([], [])
  | depth, '#' :: '\x7b' :: cs =>
    let (text, rest) := closeComment (depth + 1) cs
    ('#' :: '\x7b' :: text, rest)
  | 0, '\x7d' :: '#' :: cs => (['\x7d', '#'], cs)
  | depth + 1, '\x7d' :: '#' :: cs =>
    let (text, rest) := closeComment depth cs
    ('\x7d' :: '#' :: text, rest)
  | depth, c :: cs =>
    let (text, rest) := closeComment depth cs
    (c :: text, rest)

/-- The comment whose mark `#` has been read. -/
def comment : List Char → Scanned
  | '\x7b' :: cs =>
    let (text, rest) := closeComment 0 cs
    ⟨.layout, '#' :: '\x7b' :: text, rest⟩
  | cs => ⟨.layout, '#' :: cs.takeWhile (· != '\n'), cs.dropWhile (· != '\n')⟩

/-- The body of a quoted literal: whether it was closed, the characters read, and what follows. -/
structure QuotedBody where
  closed : Bool
  body : List Char
  rest : List Char
  deriving DecidableEq, Repr

/-- Reads a quoted body up to the first delimiter that does not follow a backslash.  The newline
that ends a body too early belongs to it; the delimiter that ends it in time does not. -/
def quotedBody (delimiter previous : Char) : List Char → QuotedBody
  | [] => ⟨false, [], []⟩
  | c :: cs =>
    if c = '\n' then ⟨false, [c], cs⟩
    else if c = delimiter ∧ previous ≠ '\\' then ⟨true, [], cs⟩
    else
      let quote := quotedBody delimiter c cs
      { quote with body := c :: quote.body }

/-- The quoted literal of a kind whose delimiter has been read; `decode` turns its body into its
text. -/
def quotedLiteral (kind : TokenKind) (delimiter : Char) (decode : List Char → List Char)
    (cs : List Char) : Scanned :=
  let quote := quotedBody delimiter delimiter cs
  if quote.closed then
    ⟨.token kind (.text (String.ofList (decode quote.body))),
      delimiter :: quote.body ++ [delimiter], quote.rest⟩
  else ⟨.fault (.unterminatedString delimiter), delimiter :: quote.body, quote.rest⟩

/-- The name whose sigil has been read.  A digit first spoils the whole run of name characters;
punctuation or nothing leaves the sigil alone. -/
def sigilName (cs : List Char) : Scanned :=
  let run := cs.takeWhile isNameChar
  let rest := cs.dropWhile isNameChar
  if cs.head?.any fun first ↦ first.isDigit || isNameStop first then
    ⟨.fault .invalidNameStart, '@' :: run, rest⟩
  else if run.isEmpty then ⟨.fault .emptyName, ['@'], cs⟩
  else ⟨.token .identifier (.text (String.ofList ('@' :: run))), '@' :: run, rest⟩

/-- The numeral that starts with a digit. -/
def numeral (c : Char) (cs : List Char) : Scanned :=
  let (numeral, rest) := Numeral.read c cs
  match numeral.value? with
  | some x => ⟨.token .number (.number x), numeral.text, rest⟩
  | none => ⟨.fault .invalidHexLiteral, numeral.text, rest⟩

/-- The literal of a keyword. -/
def keywordLiteral : TokenKind → Value
  | .kwTrue => .boolean true
  | .kwFalse => .boolean false
  | _ => .null

/-- The bare word that starts with a letter. -/
def bareWord (c : Char) (cs : List Char) : Scanned :=
  let text := c :: cs.takeWhile isWordChar
  let kind := TokenKind.ofWord text
  ⟨.token kind (keywordLiteral kind), text, cs.dropWhile isWordChar⟩

/-- The punctuation at the front of a text, or one character that cannot start a lexeme. -/
def punctuation (c : Char) (cs : List Char) : Scanned :=
  match TokenKind.punctuationAt? (c :: cs) with
  | some (text, kind) => ⟨.token kind .null, text, (c :: cs).drop text.length⟩
  | none => ⟨.fault .unexpectedCharacter, [c], cs⟩

/-- The lexeme at the front of a text.  A generated scanner takes the longest text that an entry of
its table of patterns matches; the order of the cases here stands for that choice, as their first
characters tell the patterns apart.  That the longest match is taken is `scan_takes_longest`. -/
def scan (c : Char) (cs : List Char) : Scanned :=
  if isBlank c then ⟨.layout, c :: cs.takeWhile isBlank, cs.dropWhile isBlank⟩
  else if c = '#' then comment cs
  else if c = '\x22' then quotedLiteral .string c unescape cs
  else if c = '\x60' then quotedLiteral .interpolatedString c id cs
  else if c = '\x27' then quotedLiteral .templateString c id cs
  else if c = '@' then sigilName cs
  else if c.isDigit then numeral c cs
  else if c.isAlpha then bareWord c cs
  else punctuation c cs

/-! ### The cut is complete -/

theorem closeComment_append (depth : Nat) (cs : List Char) :
    (closeComment depth cs).1 ++ (closeComment depth cs).2 = cs := by
  fun_induction closeComment depth cs <;> simp_all

theorem comment_append (cs : List Char) : (comment cs).text ++ (comment cs).rest = '#' :: cs := by
  unfold comment
  split
  · simpa using closeComment_append 0 _
  · simp [List.takeWhile_append_dropWhile]

theorem quotedBody_append (delimiter previous : Char) (cs : List Char) :
    (quotedBody delimiter previous cs).body ++
      (if (quotedBody delimiter previous cs).closed then [delimiter] else []) ++
        (quotedBody delimiter previous cs).rest = cs := by
  fun_induction quotedBody delimiter previous cs with
  | case1 => simp
  | case2 => simp_all
  | case3 => simp_all
  | case4 previous c cs _ _ quote ih => simpa using ih

theorem quotedLiteral_append (kind : TokenKind) (delimiter : Char)
    (decode : List Char → List Char) (cs : List Char) :
    (quotedLiteral kind delimiter decode cs).text ++ (quotedLiteral kind delimiter decode cs).rest =
      delimiter :: cs := by
  have h := quotedBody_append delimiter delimiter cs
  unfold quotedLiteral
  dsimp only
  split <;> simp_all

theorem sigilName_append (cs : List Char) :
    (sigilName cs).text ++ (sigilName cs).rest = '@' :: cs := by
  unfold sigilName
  dsimp only
  split
  · simp [List.takeWhile_append_dropWhile]
  · split
    · simp
    · simp [List.takeWhile_append_dropWhile]

theorem numeral_append (c : Char) (cs : List Char) :
    (numeral c cs).text ++ (numeral c cs).rest = c :: cs := by
  have h := Numeral.read_append c cs
  unfold numeral
  dsimp only
  split <;> exact h

theorem punctuationAt?_append {text spelling : List Char} {kind : TokenKind}
    (h : TokenKind.punctuationAt? text = some (spelling, kind)) :
    spelling ++ text.drop spelling.length = text := by
  have hpre := List.find?_some h
  obtain ⟨rest, rfl⟩ := List.isPrefixOf_iff_prefix.mp hpre
  simp

theorem punctuation_append (c : Char) (cs : List Char) :
    (punctuation c cs).text ++ (punctuation c cs).rest = c :: cs := by
  unfold punctuation
  split
  · exact punctuationAt?_append ‹_›
  · rfl

/-- The text of a lexeme and what follows it give the scanned text back. -/
theorem scan_append (c : Char) (cs : List Char) :
    (scan c cs).text ++ (scan c cs).rest = c :: cs := by
  unfold scan
  repeat' split
  · simp [List.takeWhile_append_dropWhile]
  · subst_vars; exact comment_append cs
  · exact quotedLiteral_append ..
  · exact quotedLiteral_append ..
  · exact quotedLiteral_append ..
  · subst_vars; exact sigilName_append cs
  · exact numeral_append c cs
  · simp [bareWord, List.takeWhile_append_dropWhile]
  · exact punctuation_append c cs

/-! ### No lexeme is empty -/

theorem numeral_text_ne_nil (c : Char) (cs : List Char) : (numeral c cs).text ≠ [] := by
  have h := Numeral.read_text_ne_nil c cs
  unfold numeral
  dsimp only
  split <;> exact h

theorem punctuation_text_ne_nil (c : Char) (cs : List Char) : (punctuation c cs).text ≠ [] := by
  unfold punctuation
  split
  · rename_i text kind h
    have hmem := List.mem_of_find?_eq_some h
    have hall : ∀ entry ∈ TokenKind.punctuation, entry.1 ≠ [] := by decide
    exact hall _ hmem
  · simp

/-- A lexeme has at least one character. -/
theorem scan_text_ne_nil (c : Char) (cs : List Char) : (scan c cs).text ≠ [] := by
  unfold scan
  repeat' split
  · simp
  · unfold comment
    split <;> simp
  all_goals try (unfold quotedLiteral; dsimp only; split <;> simp)
  · unfold sigilName
    dsimp only
    repeat' split
    all_goals simp
  · exact numeral_text_ne_nil c cs
  · simp [bareWord]
  · exact punctuation_text_ne_nil c cs

/-- Cutting a lexeme off makes a text shorter. -/
theorem scan_rest_length (c : Char) (cs : List Char) :
    (scan c cs).rest.length < (c :: cs).length := by
  have happend := congrArg List.length (scan_append c cs)
  have hne := List.length_pos_iff.mpr (scan_text_ne_nil c cs)
  rw [List.length_append] at happend
  omega

/-- The lexemes of a text in order, with their texts. -/
def all : List Char → List (Lexeme × List Char)
  | [] => []
  | c :: cs => ((scan c cs).lexeme, (scan c cs).text) :: all (scan c cs).rest
termination_by text => text.length
decreasing_by exact scan_rest_length c cs

end Lexeme

end Sigil
