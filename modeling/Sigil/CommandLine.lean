import Sigil.Script
import Sigil.Tree.Dump

/-!
# The command line

A script is given as an argument or as the name of a file.  It is run, or its
tokens are listed, or its statements are dumped.
-/

namespace Sigil

namespace CommandLine

/-- A flag. -/
inductive Flag where
  | file
  | tokens
  | ast
  | version
  deriving DecidableEq, Repr

/-- The flag of a long name. -/
def Flag.ofName? : String → Option Flag
  | "file" => some .file
  | "tokens" => some .tokens
  | "ast" => some .ast
  | "version" => some .version
  | _ => none

/-- The flag of a letter. -/
def Flag.ofLetter? : Char → Option Flag
  | 'f' => some .file
  | 't' => some .tokens
  | 'a' => some .ast
  | 'V' => some .version
  | _ => none

/-- What the arguments read so far say. -/
structure Given where
  flags : List Flag
  contents : Option String
  deriving DecidableEq, Repr

/-- What the arguments ask for. -/
inductive Command where
  | misuse
  | version
  | given (given : Given)
  deriving DecidableEq, Repr

/-- Adds flags; the version is asked for as soon as its flag is met, and no flag may be given
twice. -/
def addFlags (given : Given) : List (Option Flag) → Command
  | [] => .given given
  | none :: _ => .misuse
  | some .version :: _ => .version
  | some flag :: flags =>
    if given.flags.contains flag then .misuse
    else addFlags { given with flags := flag :: given.flags } flags

/-- Adds the contents, which may be given once. -/
def addContents (given : Given) (text : String) : Command :=
  match given.contents with
  | none => .given { given with contents := some text }
  | some _ => .misuse

/-- The flags that an argument names, if it is an argument for flags. -/
def flagsOf? (argument : List Char) : Option (List (Option Flag)) :=
  match argument with
  | '-' :: '-' :: name => some [Flag.ofName? (String.ofList name)]
  | '-' :: letter :: letters => some ((letter :: letters).map Flag.ofLetter?)
  | _ => none

/-- Reads arguments from left to right.  After `--` there are no flags any more. -/
def readArguments (given : Given) (flagsEnded : Bool) : List String → Command
  | [] => .given given
  | argument :: arguments =>
    if !flagsEnded && argument = "--" then readArguments given true arguments
    else
      let next :=
        match flagsEnded, flagsOf? argument.toList with
        | false, some flags => addFlags given flags
        | _, _ => addContents given argument
      match next with
      | .given given => readArguments given flagsEnded arguments
      | command => command

/-- What is done with a script. -/
inductive Mode where
  | run
  | tokens
  | ast
  deriving DecidableEq, Repr

/-- A task: a mode, and contents that are a script or the name of a file. -/
structure Task where
  mode : Mode
  file : Bool
  contents : String
  deriving DecidableEq, Repr

/-- The task that the arguments give.  The contents must be there, and only one mode. -/
def Given.task? (given : Given) : Option Task :=
  match given.contents, given.flags.contains .tokens, given.flags.contains .ast with
  | some contents, false, false => some ⟨.run, given.flags.contains .file, contents⟩
  | some contents, true, false => some ⟨.tokens, given.flags.contains .file, contents⟩
  | some contents, false, true => some ⟨.ast, given.flags.contains .file, contents⟩
  | _, _, _ => none

/-- Why a file cannot be read. -/
inductive ReadError where
  | missing
  | directory
  | notText
  | other (message : String)
  deriving DecidableEq, Repr

/-- The wording of a read error. -/
def ReadError.message : ReadError → String
  | .missing => "No such file or directory (os error 2)"
  | .directory => "Is a directory (os error 21)"
  | .notText => "stream did not contain valid UTF-8"
  | .other message => message

/-- What the program leaves: two texts and an exit code. -/
structure Result where
  exit : Nat
  stdout : String
  stderr : String
  deriving DecidableEq, Repr

/-- Lines, each ended by a newline. -/
def linesText (lines : List String) : String := String.join (lines.map (· ++ "\n"))

/-- The exit code of a success or a failure. -/
def exitCode (success : Bool) : Nat := if success then 0 else 1

/-- The line that lists a token: its position, its kind, and its text as it stands. -/
def tokenLine (text : List Char) (table : LineTable) (token : Token) : String :=
  (table.locate token.span.start).text ++ " " ++ token.kind.name ++ " " ++
    quoted (String.ofList ((slice? token.span.start token.span.stop text).getD []))

/-- Lists the tokens of a script. -/
def listTokens (source : String) : Result :=
  let text := source.toList
  let table := LineTable.ofText text
  let lexed := tokenize text
  ⟨exitCode lexed.errors.isEmpty, linesText (lexed.tokens.map (tokenLine text table)),
    linesText (lexed.errors.map (LexicalError.line table))⟩

/-- Dumps the statements of a script. -/
def dumpStatements (source : String) : Result :=
  let text := source.toList
  let table := LineTable.ofText text
  let lexed := tokenize text
  let parsed := parse lexed.tokens
  ⟨exitCode (lexed.errors.isEmpty && parsed.errors.isEmpty),
    linesText (parsed.statements.map fun statement ↦ statement.outline.pretty 0),
    linesText (lexed.errors.map (LexicalError.line table) ++
      parsed.errors.map (SyntaxError.line table))⟩

/-- Carries out a mode on a script; `none` if it did not end within the bound. -/
def Mode.perform (bound : Nat) (source : String) : Mode → Option Result
  | .tokens => some (listTokens source)
  | .ast => some (dumpStatements source)
  | .run =>
    (report bound source).map fun report ↦
      ⟨exitCode (report.outcome.any Outcome.isSuccess), report.output.text,
        report.diagnostics.text⟩

/-- Carries out a task, reading files by `readFile`. -/
def Task.perform (bound : Nat) (readFile : String → Except ReadError String) (task : Task) :
    Option Result :=
  if task.file then
    match readFile task.contents with
    | .ok source => task.mode.perform bound source
    | .error e =>
      some ⟨1, "", "Failed to read the input file '" ++ task.contents ++ "': " ++ e.message ++ "\n"⟩
  else task.mode.perform bound task.contents

/-- The name of the file that a call reads, if it reads one. -/
def fileOf? (arguments : List String) : Option String :=
  match readArguments ⟨[], none⟩ false arguments with
  | .given given =>
    match given.task? with
    | some ⟨_, true, name⟩ => some name
    | _ => none
  | _ => none

/-- How the program is to be called. -/
def usage : String := "Usage: pencil [OPTIONS] <CONTENTS>\n"

/-- Carries out a call of the program; `none` if it did not end within the bound. -/
def call (bound : Nat) (readFile : String → Except ReadError String) (arguments : List String) :
    Option Result :=
  match readArguments ⟨[], none⟩ false arguments with
  | .misuse => some ⟨2, "", usage⟩
  | .version => some ⟨0, "pencil 0.1.0\n", ""⟩
  | .given given =>
    match given.task? with
    | some task => task.perform bound readFile
    | none => some ⟨2, "", usage⟩

end CommandLine

end Sigil
