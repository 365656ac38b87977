import CrossAssembler.CommandLine.Parameter
import CrossAssembler.Journal

/-!
# Reading a command line

Arguments are read from left to right.  An option takes its value from the same
argument, with or without an equals sign, or from the next argument, which must
not begin with a dash.  What is wrong with a single argument is reported at once;
what is wrong with the command line as a whole is reported at its end.

## Main definitions

* `UsageError` — why a command line is refused.
* `Arguments` — what has been read of a command line.
* `Arguments.read` — one more argument.
* `Arguments.check` — the whole command line.
* `parse` — a command line for a program with given parameters.
-/

namespace CrossAssembler
namespace CommandLine

/-- Why a command line is refused. -/
inductive UsageError where
  /-- An argument names no parameter of the program. -/
  | unknownArgument
  /-- There is no source file. -/
  | missingInput
  /-- An option has no value. -/
  | missingValue
  /-- The value of an option is not among those it may take. -/
  | invalidValue
  /-- A parameter is given twice. -/
  | repeated
  /-- Help is asked for. -/
  | helpRequested
  /-- The version is asked for. -/
  | versionRequested
  deriving DecidableEq, Repr

/-- What has been read of a command line. -/
structure Arguments where
  /-- The parameters named, in order. -/
  named : List Parameter
  /-- The values given, in order. -/
  values : List (Parameter × String)
  /-- The option that may take the next argument for its value. -/
  awaiting : Option Parameter
  /-- Whether `--` has gone by, after which no argument names a parameter. -/
  closed : Bool
  deriving DecidableEq, Repr

namespace Arguments

/-- Nothing read yet. -/
def empty : Arguments := ⟨[], [], none, false⟩

/-- The value of an option. -/
def value? (a : Arguments) (p : Parameter) : Option String := a.values.lookup p

/-- Whether a parameter is given. -/
def has (a : Arguments) (p : Parameter) : Bool := a.named.contains p

/-! ### One argument -/

/-- Take the argument that an option waits for as its value. -/
def give (a : Arguments) (p : Parameter) (value : String) : Arguments :=
  { a with values := a.values ++ [(p, value)], awaiting := none }

/-- Take a parameter that has been named, with the value attached to it.  Equals
signs in front of the value are dropped.  A flag drops its value. -/
def name (a : Arguments) (p : Parameter) (attached : Option (List Char)) :
    Except UsageError Arguments :=
  let a := { a with named := a.named ++ [p], awaiting := none }
  match p, p.takesValue, attached with
  | .help, _, _ => .error .helpRequested
  | .version, _, _ => .error .versionRequested
  | _, false, _ => .ok a
  | _, true, none => .ok { a with awaiting := some p }
  | _, true, some value => .ok (a.give p (String.ofList (value.dropWhile (· == '='))))

/-- An argument behind two dashes: a long name, then perhaps an equals sign and a
value. -/
def readLong (accepted : List Parameter) (a : Arguments) (text : List Char) :
    Except UsageError Arguments :=
  let word := text.takeWhile (· != '=')
  let attached := if text.contains '=' then some (text.dropWhile (· != '=')) else none
  match accepted.find? fun p => p.long == String.ofList word with
  | some p => a.name p attached
  | none => .error .unknownArgument

/-- An argument behind one dash: a short name, then perhaps a value. -/
def readShort (accepted : List Parameter) (a : Arguments) (short : Char) (text : List Char) :
    Except UsageError Arguments :=
  match accepted.find? fun p => p.short? == some short with
  | some p => a.name p (if text.isEmpty then none else some text)
  | none => .error .unknownArgument

/-- An argument that names no parameter: the value that an option waits for. -/
def readValue (a : Arguments) (text : List Char) : Except UsageError Arguments :=
  match a.awaiting with
  | some p => .ok (a.give p (String.ofList text))
  | none => .error .unknownArgument

/-- Read one more argument. -/
def read (accepted : List Parameter) (a : Arguments) (argument : String) :
    Except UsageError Arguments :=
  if a.closed then .error .unknownArgument
  else
    match argument.toList with
    | ['-', '-'] => .ok { a with closed := true }
    | '-' :: '-' :: text => a.readLong accepted (text.dropWhile (· == '-'))
    | '-' :: short :: text => a.readShort accepted short text
    | text => a.readValue text

/-! ### The whole command line -/

/-- Whether all values of an option are among those it may take. -/
def valuesAllowed (a : Arguments) (p : Parameter) : Bool :=
  p != .logLevel || a.values.all fun (q, v) => q != p || (Level.ofName? v).isSome

/-- What is wrong with a parameter that has been named. -/
def checkParameter (a : Arguments) (p : Parameter) : Except UsageError Unit :=
  if !a.has p then .ok ()
  else if p.takesValue && (a.value? p).isNone then .error .missingValue
  else if !a.valuesAllowed p then .error .invalidValue
  else if 1 < a.named.count p then .error .repeated
  else .ok ()

/-- The whole command line, if nothing is wrong with it. -/
def check (accepted : List Parameter) (a : Arguments) : Except UsageError Arguments := do
  if !a.has .input then throw .missingInput
  match a.awaiting with
  | some p => if (a.value? p).isNone then throw .missingValue
  | none => pure ()
  accepted.forM a.checkParameter
  return a

end Arguments

/-- What the arguments set. -/
def Arguments.given (a : Arguments) : Given := ⟨(a.value? .input).getD "", a.value?, a.has⟩

/-- Read a command line for a program with the given parameters. -/
def parse : Matcher UsageError := fun accepted arguments => do
  let a ← arguments.foldlM (Arguments.read accepted) .empty
  return (← a.check accepted).given

end CommandLine
end CrossAssembler
