/-!
# Parameters of the command lines

There are two programs, the assembler and the runner.  Each accepts its own set of
parameters: options, which take a value, and flags, which do not.  The source file is
the one parameter that every command line has to set.

## Main definitions

* `Parameter` — everything that a command line can set.
* `Parameter.long`, `Parameter.short?` — how it is named.
* `Parameter.takesValue` — whether it is an option.
* `assemblerParameters`, `runnerParameters` — what the programs accept.
* `Given`, `Matcher` — what a command line sets, and a way to find out.
-/

namespace CrossAssembler
namespace CommandLine

/-- Something that a command line can set. -/
inductive Parameter where
  /-- The source file. -/
  | input
  /-- The file the ROM image goes to. -/
  | output
  /-- The target file. -/
  | target
  /-- The size of the register file. -/
  | registers
  /-- The number of memory cells. -/
  | memorySize
  /-- The number of instructions a run may execute. -/
  | maxIterations
  /-- Whether to print the listing. -/
  | listing
  /-- The file the JSON listing goes to. -/
  | listingJson
  /-- Whether to compare the runs of the source and of the lowered program. -/
  | verify
  /-- Whether to lower the program before it is run. -/
  | lower
  /-- How much of the journal is shown. -/
  | logLevel
  /-- Whether to show how the program is used. -/
  | help
  /-- Whether to show the version of the program. -/
  | version
  deriving DecidableEq, Repr

namespace Parameter

/-- The long name, written behind two dashes. -/
def long : Parameter → String
  | input => "input"
  | output => "output"
  | target => "target"
  | registers => "registers"
  | memorySize => "memory-size"
  | maxIterations => "max-iterations"
  | listing => "listing"
  | listingJson => "listing-json"
  | verify => "verify"
  | lower => "lower"
  | logLevel => "log-level"
  | help => "help"
  | version => "version"

/-- The short name, written behind one dash. -/
def short? : Parameter → Option Char
  | input => some 'i'
  | output => some 'o'
  | target => some 't'
  | registers => some 'r'
  | help => some 'h'
  | version => some 'V'
  | _ => none

/-- Whether the parameter is an option. -/
def takesValue : Parameter → Bool
  | listing | verify | lower | help | version => false
  | _ => true

end Parameter

/-- The parameters of the assembler. -/
def assemblerParameters : List Parameter :=
  [.input, .output, .target, .registers, .memorySize, .maxIterations, .listing, .listingJson,
    .verify, .logLevel, .help, .version]

/-- The parameters of the runner. -/
def runnerParameters : List Parameter :=
  [.input, .lower, .target, .registers, .memorySize, .maxIterations, .logLevel, .help, .version]

/-- What a command line sets. -/
structure Given where
  /-- The source file. -/
  input : String
  /-- The value of an option, if it is set. -/
  value? : Parameter → Option String
  /-- Whether a flag is set. -/
  has : Parameter → Bool

/-- A way to read command lines for a program with given parameters, with reasons to refuse
them. -/
abbrev Matcher (ε : Type) := List Parameter → List String → Except ε Given

end CommandLine
end CrossAssembler
