import Sigil.Token.Segment
import Sigil.Tree.Basic

/-!
# The cursor

Reading tokens moves a cursor over them.  Besides its place, a cursor knows how
many loops it is in and which syntax errors have been met.  Reading one construct
either gives a value or fails, and says where the cursor is then.
-/

namespace Sigil

/-- Why tokens are no program. -/
inductive SyntaxFault where
  | expected (message : String)
  | expectExpression
  | invalidAssignmentTarget
  | invalidPrefixOperand
  | invalidPostfixOperand
  | illegalBreak
  | illegalContinue
  | unsupportedTemplateString
  deriving DecidableEq, Repr

/-- The wording of a fault. -/
def SyntaxFault.message : SyntaxFault → String
  | .expected message => message
  | .expectExpression => "Expect expression."
  | .invalidAssignmentTarget => "Invalid assignment target."
  | .invalidPrefixOperand => "Invalid left-hand side in prefix operation."
  | .invalidPostfixOperand => "Invalid left-hand side expression in postfix operation."
  | .illegalBreak => "Illegal break statement."
  | .illegalContinue => "Illegal continue statement."
  | .unsupportedTemplateString => "Single-quoted template strings are not supported."

/-- A fault and the offset it is reported at. -/
structure SyntaxError where
  fault : SyntaxFault
  offset : Nat
  deriving DecidableEq, Repr

/-- The report of a syntax error. -/
def SyntaxError.report (table : LineTable) (error : SyntaxError) : String :=
  located table error.offset error.fault.message

/-- A place among tokens: the token before it and the tokens after it. -/
structure Cursor where
  previous : Option Token
  rest : List Token
  loopDepth : Nat
  errors : List SyntaxError
  deriving Repr

/-- What reading a construct gives: its value or an error, and the cursor afterwards. -/
inductive Reading (α : Type) where
  | read (value : α) (rest : Cursor)
  | failed (error : SyntaxError) (rest : Cursor)

namespace Cursor

/-- The cursor before the first token, outside all loops. -/
def ofTokens (tokens : List Token) : Cursor := ⟨none, tokens, 0, []⟩

/-- The number of tokens that have not been read. -/
def size (c : Cursor) : Nat := c.rest.length

/-- All tokens have been read. -/
def atEnd (c : Cursor) : Bool := c.rest.isEmpty

/-- The next token. -/
def peek? (c : Cursor) : Option Token := c.rest.head?

/-- Reads the next token, if there is one. -/
def advance (c : Cursor) : Cursor :=
  match c.rest with
  | [] => c
  | token :: tokens => { c with previous := some token, rest := tokens }

/-- The next token is of the given kind. -/
def check (kind : TokenKind) (c : Cursor) : Bool := c.peek?.any (·.kind == kind)

/-- Reads the next token if `select` has something for its kind. -/
def accept? {α : Type} (select : TokenKind → Option α) (c : Cursor) :
    Option (α × Token × Cursor) :=
  match c.rest with
  | [] => none
  | token :: _ => (select token.kind).map fun a ↦ (a, token, c.advance)

/-- Reads the next token if it is of one of the given kinds. -/
def acceptAny? (kinds : List TokenKind) (c : Cursor) : Option (Token × Cursor) :=
  (c.accept? fun kind ↦ if kinds.contains kind then some () else none).map (·.2)

/-- Reads the next token if it is of the given kind. -/
def acceptOne? (kind : TokenKind) (c : Cursor) : Option (Token × Cursor) := c.acceptAny? [kind]

/-- An error at a token. -/
def errorAt (token : Token) (fault : SyntaxFault) : SyntaxError := ⟨fault, token.span.start⟩

/-- An error at the last token read, at the next one if none was read, or at the start of a text
without tokens. -/
def errorAtPrevious (c : Cursor) (fault : SyntaxFault) : SyntaxError :=
  match c.previous.or c.peek? with
  | some token => errorAt token fault
  | none => ⟨fault, 0⟩

/-- An error at the next token, or at the last one read if there is no next. -/
def errorAtCurrent (c : Cursor) (fault : SyntaxFault) : SyntaxError :=
  match c.peek? with
  | some token => errorAt token fault
  | none => c.errorAtPrevious fault

/-- Reads a token of the given kind; it is an error if there is none. -/
def expect (kind : TokenKind) (message : String) (c : Cursor) : Reading Token :=
  match c.acceptOne? kind with
  | some (token, rest) => .read token rest
  | none => .failed (c.errorAtPrevious (.expected message)) c

/-- A statement may start with a token of this kind, whatever stands before it. -/
def startsStatement : TokenKind → Bool
  | .kwFun => true
  | .kwLet => true
  | .kwConst => true
  | .kwIf => true
  | .kwWhile => true
  | .kwReturn => true
  | _ => false

/-- Skips tokens up to one that follows a semicolon or may start a statement.  Gives the token
before that place and the tokens after it. -/
def seekStatement (previous : Option Token) : List Token → Option Token × List Token
  | [] => (previous, [])
  | token :: tokens =>
    if previous.any (·.kind == .semicolon) || startsStatement token.kind then
      (previous, token :: tokens)
    else seekStatement (some token) tokens

/-- Skips at least one token, up to where a statement may start. -/
def synchronize (c : Cursor) : Cursor :=
  let next := c.advance
  let (previous, rest) := seekStatement next.previous next.rest
  { next with previous := previous, rest := rest }

/-- Records an error. -/
def record (error : SyntaxError) (c : Cursor) : Cursor := { c with errors := c.errors ++ [error] }

/-- Goes into a loop. -/
def enterLoop (c : Cursor) : Cursor := { c with loopDepth := c.loopDepth + 1 }

/-- Leaves a loop. -/
def leaveLoop (c : Cursor) : Cursor := { c with loopDepth := c.loopDepth - 1 }

/-! ### Sizes -/

theorem size_advance (c : Cursor) : c.advance.size = c.size - 1 := by
  unfold advance size
  split <;> simp_all

theorem size_advance_of_rest {c : Cursor} {token : Token} {tokens : List Token}
    (h : c.rest = token :: tokens) : c.advance.size < c.size := by
  simp [advance, size, h]

theorem size_le_self (c : Cursor) : c.size ≤ c.size := Nat.le_refl _

theorem size_le_of_lt {c rest : Cursor} (h : rest.size < c.size) : rest.size ≤ c.size :=
  Nat.le_of_lt h

theorem size_pos_of_not_atEnd {c : Cursor} (h : c.atEnd = false) : 0 < c.size := by
  simpa [atEnd, size, List.length_pos_iff] using h

theorem size_of_accept? {α : Type} {select : TokenKind → Option α} {c rest : Cursor} {a : α}
    {token : Token} (h : c.accept? select = some (a, token, rest)) : rest.size < c.size := by
  unfold accept? at h
  split at h
  · cases h
  · rename_i hc
    simp only [Option.map_eq_some_iff, Prod.mk.injEq] at h
    obtain ⟨_, _, _, _, rfl⟩ := h
    exact size_advance_of_rest hc

theorem size_of_acceptAny? {kinds : List TokenKind} {c rest : Cursor} {token : Token}
    (h : c.acceptAny? kinds = some (token, rest)) : rest.size < c.size := by
  simp only [acceptAny?, Option.map_eq_some_iff] at h
  obtain ⟨⟨a, token', rest'⟩, h, heq⟩ := h
  cases heq
  exact size_of_accept? h

theorem size_of_acceptOne? {kind : TokenKind} {c rest : Cursor} {token : Token}
    (h : c.acceptOne? kind = some (token, rest)) : rest.size < c.size := size_of_acceptAny? h

theorem length_seekStatement (previous : Option Token) (tokens : List Token) :
    (seekStatement previous tokens).2.length ≤ tokens.length := by
  fun_induction seekStatement previous tokens with
  | case1 => simp
  | case2 => simp
  | case3 _ _ _ _ ih => exact Nat.le_succ_of_le ih

theorem size_synchronize (c : Cursor) : c.synchronize.size ≤ c.size - 1 :=
  Nat.le_trans (length_seekStatement _ _) (Nat.le_of_eq (size_advance c))

@[simp] theorem size_record (error : SyntaxError) (c : Cursor) :
    (c.record error).size = c.size := rfl

@[simp] theorem size_enterLoop (c : Cursor) : c.enterLoop.size = c.size := rfl

@[simp] theorem size_leaveLoop (c : Cursor) : c.leaveLoop.size = c.size := rfl

end Cursor

namespace Reading

variable {α β : Type}

/-- A value was read with fewer than `n` tokens left after it, or the failure left at most `n`. -/
def Within (n : Nat) : Reading α → Prop
  | .read _ rest => rest.size < n
  | .failed _ rest => rest.size ≤ n

/-- Changes the value read. -/
def map (f : α → β) : Reading α → Reading β
  | .read value rest => .read (f value) rest
  | .failed error rest => .failed error rest

/-- Changes the cursor afterwards. -/
def mapCursor (f : Cursor → Cursor) : Reading α → Reading α
  | .read value rest => .read value (f rest)
  | .failed error rest => .failed error (f rest)

/-- Reads on after a value; a failure ends the reading. -/
def andThen (reading : Reading α) (next : α → Cursor → Reading β) : Reading β :=
  match reading with
  | .read value rest => next value rest
  | .failed error rest => .failed error rest

theorem Within.mono {m n : Nat} {reading : Reading α} (h : reading.Within m) (hmn : m ≤ n) :
    reading.Within n := by
  cases reading with
  | read => exact Nat.lt_of_lt_of_le h hmn
  | failed => exact Nat.le_trans h hmn

theorem Within.map {n : Nat} {reading : Reading α} (f : α → β) (h : reading.Within n) :
    (reading.map f).Within n := by
  cases reading <;> exact h

theorem Within.mapCursor {n : Nat} {reading : Reading α} {f : Cursor → Cursor}
    (hf : ∀ c, (f c).size = c.size) (h : reading.Within n) : (reading.mapCursor f).Within n := by
  cases reading with
  | read _ rest => exact Nat.lt_of_le_of_lt (Nat.le_of_eq (hf rest)) h
  | failed _ rest => exact Nat.le_trans (Nat.le_of_eq (hf rest)) h

end Reading

theorem Cursor.expect_within (kind : TokenKind) (message : String) (c : Cursor) :
    (c.expect kind message).Within c.size := by
  unfold expect
  split
  · exact size_of_acceptOne? ‹_›
  · exact Nat.le_refl c.size

/-- A reading known to leave fewer than `n` tokens if it succeeds, and at most `n` if it fails. -/
abbrev Parse (α : Type) (n : Nat) := { reading : Reading α // reading.Within n }

namespace Parse

variable {α β : Type} {m n : Nat}

/-- A value that has been read. -/
def read (value : α) (rest : Cursor) (h : rest.size < n) : Parse α n := ⟨.read value rest, h⟩

/-- A failure. -/
def failed (error : SyntaxError) (rest : Cursor) (h : rest.size ≤ n) : Parse α n :=
  ⟨.failed error rest, h⟩

/-- Weakens the bound. -/
def widen (parse : Parse α m) (h : m ≤ n) : Parse α n := ⟨parse.val, parse.property.mono h⟩

/-- Changes the value read. -/
def map (f : α → β) (parse : Parse α n) : Parse β n := ⟨parse.val.map f, parse.property.map f⟩

/-- Reads on after a value; a failure ends the reading. -/
def andThen (parse : Parse α n) (next : (value : α) → (rest : Cursor) → rest.size < n → Parse β n) :
    Parse β n :=
  match parse with
  | ⟨.read value rest, h⟩ => next value rest h
  | ⟨.failed error rest, h⟩ => failed error rest h

/-- Reads a token of the given kind; it is an error if there is none. -/
def expect (kind : TokenKind) (message : String) (c : Cursor) : Parse Token c.size :=
  ⟨c.expect kind message, c.expect_within kind message⟩

@[simp] theorem val_read (value : α) (rest : Cursor) (h : rest.size < n) :
    (read value rest h).val = .read value rest := rfl

@[simp] theorem val_failed (error : SyntaxError) (rest : Cursor) (h : rest.size ≤ n) :
    (failed error rest h : Parse α n).val = .failed error rest := rfl

@[simp] theorem val_widen (parse : Parse α m) (h : m ≤ n) : (parse.widen h).val = parse.val := rfl

@[simp] theorem val_map (f : α → β) (parse : Parse α n) :
    (parse.map f).val = parse.val.map f := rfl

@[simp] theorem val_expect (kind : TokenKind) (message : String) (c : Cursor) :
    (expect kind message c).val = c.expect kind message := rfl

/-- Reading on does not depend on the bounds. -/
theorem val_andThen {parse : Parse α n}
    {next : (value : α) → (rest : Cursor) → rest.size < n → Parse β n}
    {plain : α → Cursor → Reading β}
    (h : ∀ value rest hrest, (next value rest hrest).val = plain value rest) :
    (parse.andThen next).val = parse.val.andThen plain := by
  obtain ⟨reading, hreading⟩ := parse
  cases reading with
  | read value rest => exact h value rest hreading
  | failed => rfl

end Parse

end Sigil
