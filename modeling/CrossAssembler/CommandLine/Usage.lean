import CrossAssembler.CommandLine.Arguments
import CrossAssembler.Text.Layout

/-!
# Help texts

## Main definitions

* `Parameter.purpose` — what a parameter is for.
* `UsageError.message` — the wording of a `UsageError`.
* `helpText` — how a program is used.
-/

namespace CrossAssembler
namespace CommandLine

/-- What a parameter is for. -/
def Parameter.purpose : Parameter → String
  | input => "Assembly source file"
  | output => "File that the VHDL ROM image is written to"
  | target =>
    "YAML file describing the target machine (registers, memory_size, max_iterations)"
  | registers => "Number of registers in the register file, including the reserved register 0"
  | memorySize => "Number of memory cells available to the reference interpreter"
  | maxIterations => "Number of instructions the reference interpreter runs before giving up"
  | listing =>
    "Print every generated instruction next to the index of the source instruction it came from"
  | listingJson => "Write the listing and the lowering diagnostics to a JSON file"
  | verify =>
    "Run the source and the lowered program in the reference interpreter and compare them"
  | lower => "Lower the program onto the register file before running it"
  | logLevel => "Set the level of log messages printed while working"
  | help => "Prints help information"
  | version => "Prints version information"

/-- The wording of a `UsageError`. -/
def UsageError.message : UsageError → String
  | unknownArgument => "error: an argument was not understood"
  | missingInput => "error: --input <input> is required"
  | missingValue => "error: an option is given without its value"
  | invalidValue => "error: --log-level does not know this level"
  | repeated => "error: an option is given more than once"
  | helpRequested => ""
  | versionRequested => ""

/-- How a parameter is written. -/
def Parameter.form (p : Parameter) : String :=
  let name := p.long
  let short := match p.short? with
    | some c => s!"-{c}, "
    | none => "    "
  let value := if p.takesValue then s!" <{name}>" else ""
  s!"{short}--{name}{value}"

/-- How a program with the given title and parameters is used. -/
def helpText (title : String) (accepted : List Parameter) : String :=
  Text.unlines (title :: accepted.map fun p => "    " ++ p.form ++ "  " ++ p.purpose)

end CommandLine
end CrossAssembler
