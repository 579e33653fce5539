import Sigil.Script
import Sigil.Tree.Dump

/-!
# Logs

What reading and running a script notes on the way.  The notes are computed
beside the work and change nothing about it.
-/

namespace Sigil

/-- How important a note is. -/
inductive LogLevel where
  | error
  | debug
  | trace
  deriving DecidableEq, Repr

/-- The name of a level. -/
def LogLevel.name : LogLevel → String
  | .error => "ERROR"
  | .debug => "DEBUG"
  | .trace => "TRACE"

/-- A note. -/
structure LogRecord where
  level : LogLevel
  text : String
  deriving DecidableEq, Repr

namespace LogRecord

/-- The note on the tokens of a script. -/
def lexed (lexed : Lexed) : LogRecord :=
  ⟨.debug, "lexed " ++ toString lexed.tokens.length ++ " tokens, " ++
    toString lexed.errors.length ++ " lexical errors"⟩

/-- The note on the statements of a script. -/
def parsed (parsed : Parsed) : LogRecord :=
  ⟨.debug, "parsed " ++ toString parsed.statements.length ++ " statements, " ++
    toString parsed.errors.length ++ " syntax errors"⟩

/-- The note on a statement that is about to run. -/
def executing (statement : Stmt) : LogRecord :=
  ⟨.trace, "executing " ++ statement.outline.compact⟩

/-- The notes on a signal that has no loop around it. -/
def escaped : Flow → List LogRecord
  | .normal => []
  | .breaking => [⟨.error, "break signal escaped every enclosing loop"⟩]
  | .continuing => [⟨.error, "continue signal escaped every enclosing loop"⟩]

/-- The notes on running the statements of a program. -/
def ofProgram (bound : Nat) : List Stmt → State → List LogRecord
  | [], _ => []
  | statement :: statements, state =>
    executing statement ::
      match statement.run bound state with
      | .done .normal state => ofProgram bound statements state
      | .done flow _ => escaped flow
      | _ => []

/-- The notes on running a script from a state. -/
def ofScript (bound : Nat) (source : String) (state : State) : List LogRecord :=
  let tokens := tokenize source.toList
  let program := parse tokens.tokens
  if !tokens.errors.isEmpty then [lexed tokens]
  else if !program.errors.isEmpty then [lexed tokens, parsed program]
  else lexed tokens :: parsed program :: ofProgram bound program.statements state

end LogRecord

end Sigil
