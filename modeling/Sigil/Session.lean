import Sigil.Log

/-!
# Sessions

A session keeps one state over many requests: scripts and expressions, as text
or as trees, and questions about names.
-/

namespace Sigil

namespace Session

/-- What may be asked of a session. -/
inductive Request where
  | run (source : String)
  | evaluate (source : String)
  | runTree (statements : List Stmt)
  | executeTree (statement : Stmt)
  | evaluateTree (expr : Expr)
  | get (name : String)
  | has (name : String)

/-- What a session answers. -/
inductive Response where
  | lexicalErrors (table : LineTable) (errors : List LexicalError)
  | syntaxErrors (table : LineTable) (errors : List SyntaxError)
  | completed
  | value (value : Value)
  | flow (flow : Flow)
  | bound (found : Bool)
  | failed (error : RuntimeError)

/-- An answer, and the state afterwards. -/
structure Answer where
  response : Response
  state : State

/-- The answer that a run gives; `none` if it is unfinished. -/
def ofRun {α : Type} (respond : α → Response) : Run α → Option Answer
  | .done a state => some ⟨respond a, state⟩
  | .failed e state => some ⟨.failed e, state⟩
  | .unfinished => none

/-- Answers a request with at most `bound` rounds in each loop; `none` if that was not enough. -/
def answer (bound : Nat) (state : State) : Request → Option Answer
  | .run source =>
    let table := LineTable.ofText source.toList
    let lexed := tokenize source.toList
    let parsed := parse lexed.tokens
    if !lexed.errors.isEmpty then some ⟨.lexicalErrors table lexed.errors, state⟩
    else if !parsed.errors.isEmpty then some ⟨.syntaxErrors table parsed.errors, state⟩
    else ofRun (fun _ ↦ .completed) (runProgram bound parsed.statements state)
  | .evaluate source =>
    let table := LineTable.ofText source.toList
    let lexed := tokenize source.toList
    if !lexed.errors.isEmpty then some ⟨.lexicalErrors table lexed.errors, state⟩
    else
      match (Cursor.ofTokens lexed.tokens).readExpression with
      | .failed error _ => some ⟨.syntaxErrors table [error], state⟩
      | .read expr _ => ofRun .value (state.eval expr)
  | .runTree statements => ofRun (fun _ ↦ .completed) (runProgram bound statements state)
  | .executeTree statement => ofRun .flow (statement.run bound state)
  | .evaluateTree expr => ofRun .value (state.eval expr)
  | .get name =>
    match state.environment.get name with
    | .ok value => some ⟨.value value, state⟩
    | .error e => some ⟨.failed e, state⟩
  | .has name => some ⟨.bound (state.environment.has name), state⟩

/-- The notes on answering a request. -/
def log (bound : Nat) (state : State) : Request → List LogRecord
  | .run source => LogRecord.ofScript bound source state
  | .evaluate source => [LogRecord.lexed (tokenize source.toList)]
  | .runTree statements => LogRecord.ofProgram bound statements state
  | _ => []

end Session

end Sigil
