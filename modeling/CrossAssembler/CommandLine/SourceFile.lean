import CrossAssembler.CommandLine.Files
import CrossAssembler.Source.Reader

/-!
# Source files

## Main definitions

* `SourceFileError` — why a source file gives no program.
* `readSource` — the program of a source file.
* `sourceEvents` — the journal of reading it.
-/

namespace CrossAssembler
namespace CommandLine

/-- Why a source file gives no program. -/
inductive SourceFileError where
  /-- The file cannot be read. -/
  | file (cause : FileError)
  /-- The file is no UTF-8 text. -/
  | notText
  /-- Lines of the file are refused. -/
  | lines (errors : List Source.SourceError)
  deriving DecidableEq, Repr

/-- The lines that report a `SourceFileError`, one for each refused line. -/
def SourceFileError.messages (path : String) : SourceFileError → List String
  | file cause => [path ++ ": " ++ cause.message]
  | notText => [path ++ ": stream did not contain valid UTF-8"]
  | lines errors => errors.map fun e => path ++ ":" ++ e.message

/-- The text of a source file. -/
def readText (read : String → Except FileError ByteArray) (path : String) :
    Except SourceFileError String :=
  match read path with
  | .error e => .error (.file e)
  | .ok contents =>
    match String.fromUTF8? contents with
    | none => .error .notText
    | some text => .ok text

/-- The program of a source file. -/
def readSource (read : String → Except FileError ByteArray) (path : String) :
    Except SourceFileError (List SourceInstruction) := do
  let text ← readText read path
  (Source.readProgramOrErrors text).mapError .lines

/-- The journal of reading a source file. -/
def sourceEvents (read : String → Except FileError ByteArray) (path : String) : List Event :=
  match readText read path with
  | .ok text => Source.events text
  | .error _ => []

end CommandLine
end CrossAssembler
