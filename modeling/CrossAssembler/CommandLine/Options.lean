import CrossAssembler.CommandLine.Files
import CrossAssembler.CommandLine.Parameter
import CrossAssembler.Journal
import CrossAssembler.Target.File
import CrossAssembler.Text.Numeral

/-!
# Options of the programs

The settings that a command line gives a program, and the target it selects: the
target file if one is named, the defaults otherwise, and over either the fields
that are given on the command line.

## Main definitions

* `CommonOptions`, `AssemblerOptions`, `RunnerOptions` — the settings of both
  programs, and of each.
* `SelectionError` — why no target can be selected.
* `TargetOptions.select` — the target that the settings select.
-/

namespace CrossAssembler
namespace CommandLine

/-! ### Settings -/

/-- The settings that select a target. -/
structure TargetOptions where
  /-- The target file. -/
  file : Option String
  /-- The size of the register file, as given. -/
  registers : Option String
  /-- The number of memory cells, as given. -/
  memorySize : Option String
  /-- The number of instructions a run may execute, as given. -/
  maxIterations : Option String
  deriving DecidableEq, Repr

/-- The settings of both programs. -/
structure CommonOptions where
  /-- The source file. -/
  input : String
  /-- The target. -/
  target : TargetOptions
  /-- How much of the journal is shown.  Without it, nothing is. -/
  logLevel : Option Level
  deriving DecidableEq, Repr

/-- The settings of the assembler. -/
structure AssemblerOptions extends CommonOptions where
  /-- The file the ROM image goes to. -/
  output : Option String
  /-- Whether to print the listing. -/
  listing : Bool
  /-- The file the JSON listing goes to. -/
  listingJson : Option String
  /-- Whether to compare the runs of the source and of the lowered program. -/
  verify : Bool
  deriving DecidableEq, Repr

/-- The settings of the runner. -/
structure RunnerOptions extends CommonOptions where
  /-- Whether to lower the program before it is run. -/
  lower : Bool
  deriving DecidableEq, Repr

/-- The settings of both programs in a command line. -/
def CommonOptions.ofGiven (g : Given) : CommonOptions where
  input := g.input
  target := {
    file := g.value? .target
    registers := g.value? .registers
    memorySize := g.value? .memorySize
    maxIterations := g.value? .maxIterations }
  logLevel := (g.value? .logLevel).bind Level.ofName?

/-- The settings of the assembler in a command line. -/
def AssemblerOptions.ofGiven (g : Given) : AssemblerOptions where
  toCommonOptions := .ofGiven g
  output := g.value? .output
  listing := g.has .listing
  listingJson := g.value? .listingJson
  verify := g.has .verify

/-- The settings of the runner in a command line. -/
def RunnerOptions.ofGiven (g : Given) : RunnerOptions where
  toCommonOptions := .ofGiven g
  lower := g.has .lower

/-- Read the command line of the assembler. -/
def AssemblerOptions.parse {ε : Type} (matcher : Matcher ε) (arguments : List String) :
    Except ε AssemblerOptions :=
  (matcher assemblerParameters arguments).map .ofGiven

/-- Read the command line of the runner. -/
def RunnerOptions.parse {ε : Type} (matcher : Matcher ε) (arguments : List String) :
    Except ε RunnerOptions :=
  (matcher runnerParameters arguments).map .ofGiven

/-- The part of a journal that the settings show. -/
def CommonOptions.shown (o : CommonOptions) (journal : Unit → List Event) : List Event :=
  match o.logLevel with
  | none => []
  | some level => Event.visible level (journal ())

/-! ### Selecting a target -/

/-- Why no target can be selected. -/
inductive SelectionError where
  /-- The target file cannot be opened. -/
  | file (path : String) (cause : FileError)
  /-- The target file does not describe a target. -/
  | description (path : String) (cause : TargetError)
  /-- A field given on the command line is no number. -/
  | number (parameter : Parameter) (text : String)
  /-- The target cannot be used. -/
  | target (cause : TargetError)
  deriving DecidableEq, Repr

/-- The wording of a `SelectionError`. -/
def SelectionError.message : SelectionError → String
  | file path cause => path ++ ": " ++ cause.message
  | description path cause => path ++ ": " ++ cause.message
  | number parameter text =>
    let name := parameter.long
    s!"--{name} expects a number but got {text}"
  | target cause => cause.message

/-- The target that a file describes.  A directory can be opened like a file, but
nothing can be read from it, and bytes that are no text describe nothing. -/
def readTarget (yaml : Target.Format) (read : String → Except FileError ByteArray)
    (path : String) : Except SelectionError Target :=
  match read path with
  | .error .isADirectory => .error (.description path .malformed)
  | .error e => .error (.file path e)
  | .ok contents =>
    match String.fromUTF8? contents with
    | none => .error (.description path .malformed)
    | some text => (Target.ofYaml yaml text).mapError (.description path)

/-- Give a field the number on the command line, if there is one. -/
def overrideField (parameter : Parameter) (field : Target.Field) (given : Option String)
    (t : Target) : Except SelectionError Target :=
  match given with
  | none => .ok t
  | some text =>
    match Numeral.uint64? text.toList with
    | some n => .ok (t.set field n)
    | none => .error (.number parameter text)

/-- The target that the settings select, or the first thing wrong on the way to it.
A target file must describe a target that can be used by itself, whatever the
command line then replaces. -/
def TargetOptions.select (o : TargetOptions) (yaml : Target.Format)
    (read : String → Except FileError ByteArray) : Except SelectionError Target := do
  let t ← match o.file with
    | some path => readTarget yaml read path
    | none => pure .default
  let t ← overrideField .registers .registers o.registers t
  let t ← overrideField .memorySize .memorySize o.memorySize t
  let t ← overrideField .maxIterations .maxIterations o.maxIterations t
  t.validate.mapError .target

end CommandLine
end CrossAssembler
