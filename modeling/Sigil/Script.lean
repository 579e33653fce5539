import Sigil.Evaluation.Statement
import Sigil.Syntax.Statement

/-!
# Scripts

Running a script reads its tokens, then its statements, and then runs them.  The
first of these stages that finds errors is the last: its errors are written to
the diagnostics, one on each line.
-/

namespace Sigil

/-- How running a script ended. -/
inductive Outcome where
  | completed
  | lexicalErrors (count : Nat)
  | syntaxErrors (count : Nat)
  | runtimeFailure
  deriving DecidableEq, Repr

/-- The script ran to its end. -/
def Outcome.isSuccess : Outcome → Bool
  | .completed => true
  | _ => false

/-- What running a script gives.  There is no outcome if the diagnostics were refused. -/
structure Report where
  output : Channel
  diagnostics : Channel
  outcome : Option Outcome
  deriving Repr

/-- The line that reports a lexical error. -/
def LexicalError.line (table : LineTable) (error : LexicalError) : String :=
  "Lexical Error: " ++ error.report table

/-- The line that reports a syntax error. -/
def SyntaxError.line (table : LineTable) (error : SyntaxError) : String :=
  "Syntactical Error: " ++ error.report table

/-- Writes lines to the diagnostics and reports an outcome. -/
def Report.diagnose (output diagnostics : Channel) (lines : List String) (outcome : Outcome) :
    Report :=
  match diagnostics.writeLines lines with
  | (diagnostics, true) => ⟨output, diagnostics, some outcome⟩
  | (diagnostics, false) => ⟨output, diagnostics, none⟩

/-- Runs a script with at most `bound` rounds in each loop; `none` if that was not enough. -/
def runScript (bound : Nat) (source : String) (output diagnostics : Channel) : Option Report :=
  let text := source.toList
  let table := LineTable.ofText text
  let lexed := tokenize text
  let parsed := parse lexed.tokens
  if !lexed.errors.isEmpty then
    some (.diagnose output diagnostics (lexed.errors.map (LexicalError.line table))
      (.lexicalErrors lexed.errors.length))
  else if !parsed.errors.isEmpty then
    some (.diagnose output diagnostics (parsed.errors.map (SyntaxError.line table))
      (.syntaxErrors parsed.errors.length))
  else
    match runProgram bound parsed.statements (.initial output) with
    | .done _ state => some ⟨state.output, diagnostics, some .completed⟩
    | .failed e state => some (.diagnose state.output diagnostics [e.message] .runtimeFailure)
    | .unfinished => none

/-- Runs a script on channels that take everything. -/
def report (bound : Nat) (source : String) : Option Report :=
  runScript bound source .unlimited .unlimited

/-- More rounds than any loop is waited for. -/
def patience : Nat := Nat.pow 2 62

end Sigil
