/-!
# Positions in a text

Places in a script are byte offsets into its UTF-8 form.  People read lines and
columns instead: a line table, built once for a text, turns an offset into a
position.  An offset past the end counts as the end.
-/

namespace Sigil

/-- The number of bytes of a text in UTF-8. -/
def byteSize : List Char → Nat
  | [] => 0
  | c :: text => c.utf8Size + byteSize text

@[simp] theorem byteSize_nil : byteSize [] = 0 := rfl

@[simp] theorem byteSize_cons (c : Char) (text : List Char) :
    byteSize (c :: text) = c.utf8Size + byteSize text := rfl

@[simp] theorem byteSize_append (a b : List Char) :
    byteSize (a ++ b) = byteSize a + byteSize b := by
  induction a with
  | nil => simp
  | cons c a ih => simp [ih, Nat.add_assoc]

/-- A line and a column, both counted from one. -/
structure Position where
  line : Nat
  column : Nat
  deriving DecidableEq, Repr

/-- The form `line:column`. -/
def Position.text (p : Position) : String := toString p.line ++ ":" ++ toString p.column

/-- One line of a text, without the newline that ends it, and the offset of its first byte. -/
structure Line where
  start : Nat
  text : List Char
  deriving DecidableEq, Repr

/-- The first line of a text that starts at offset `start`, and the lines after it. -/
def splitLines (start : Nat) : List Char → Line × List Line
  | [] => (⟨start, []⟩, [])
  | c :: cs =>
    if c = '\n' then
      let (line, lines) := splitLines (start + 1) cs
      (⟨start, []⟩, line :: lines)
    else
      let (line, lines) := splitLines (start + c.utf8Size) cs
      (⟨start, c :: line.text⟩, lines)

/-- The number of characters that take up exactly `bytes` bytes at the front of a text, or `none`
if that cut falls inside a character or past the end. -/
def charsIn? (bytes : Nat) : List Char → Option Nat
  | [] => if bytes = 0 then some 0 else none
  | c :: cs =>
    if bytes = 0 then some 0
    else if bytes < c.utf8Size then none
    else (charsIn? (bytes - c.utf8Size) cs).map (· + 1)

/-- What is left of a text after its first `bytes` bytes, or `none` if that cut falls inside a
character or past the end. -/
def dropBytes? (bytes : Nat) : List Char → Option (List Char)
  | [] => if bytes = 0 then some [] else none
  | c :: cs =>
    if bytes = 0 then some (c :: cs)
    else if bytes < c.utf8Size then none
    else dropBytes? (bytes - c.utf8Size) cs

/-- The first `bytes` bytes of a text, or `none` if that cut falls inside a character or past the
end. -/
def takeBytes? (bytes : Nat) : List Char → Option (List Char)
  | [] => if bytes = 0 then some [] else none
  | c :: cs =>
    if bytes = 0 then some []
    else if bytes < c.utf8Size then none
    else (takeBytes? (bytes - c.utf8Size) cs).map (c :: ·)

/-- The part of a text between two byte offsets, if both fall between characters. -/
def slice? (start stop : Nat) (text : List Char) : Option (List Char) :=
  (dropBytes? start text).bind (takeBytes? (stop - start))

/-- The lines of a text, of which there is at least one, and its size in bytes. -/
structure LineTable where
  first : Line
  others : List Line
  size : Nat
  deriving Repr

/-- The line table of a text. -/
def LineTable.ofText (text : List Char) : LineTable :=
  let (first, others) := splitLines 0 text
  ⟨first, others, byteSize text⟩

/-- The last line that starts at or before `offset`, with its number: the given one, or one of
those that follow it. -/
def lineAt (offset : Nat) (number : Nat) (line : Line) : List Line → Nat × Line
  | [] => (number, line)
  | next :: lines =>
    if next.start ≤ offset then lineAt offset (number + 1) next lines else (number, line)

/-- The position of the byte `offset`.  An offset past the end counts as the end.  The column
counts characters, or bytes when the offset falls inside a character. -/
def LineTable.locate (table : LineTable) (offset : Nat) : Position :=
  let offset := min offset table.size
  let (number, line) := lineAt offset 1 table.first table.others
  let bytes := offset - line.start
  ⟨number, (charsIn? bytes line.text).getD bytes + 1⟩

/-- The position of the byte `offset` of `text`. -/
def locate (text : List Char) (offset : Nat) : Position := (LineTable.ofText text).locate offset

end Sigil
