import Sigil.CommandLine

/-!
# The program

Reads the file that the arguments name, if they name one, and leaves what the
command line gives.
-/

namespace Sigil

/-- Reads a file as text. -/
def readScript (name : String) : IO (Except CommandLine.ReadError String) := do
  try
    let bytes ← IO.FS.readBinFile name
    match String.fromUTF8? bytes with
    | some text => return .ok text
    | none => return .error .notText
  catch
    | .noFileOrDirectory .. => return .error .missing
    | .inappropriateType .. => return .error .directory
    | e => return .error (.other e.toString)

end Sigil

open Sigil in
/-- Calls the program with its arguments. -/
def main (arguments : List String) : IO UInt32 := do
  let source ← match CommandLine.fileOf? arguments with
    | some name => readScript name
    | none => pure (.error .missing)
  match CommandLine.call patience (fun _ ↦ source) arguments with
  | some result =>
    IO.print result.stdout
    IO.eprint result.stderr
    return result.exit.toUInt32
  | none => return 1
