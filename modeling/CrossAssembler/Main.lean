import CrossAssembler.CommandLine.Assembler
import CrossAssembler.CommandLine.Runner
import CrossAssembler.CommandLine.Usage
import CrossAssembler.Listing.Pretty
import CrossAssembler.Yaml.Format

/-!
# The command line

The first argument chooses the program: `assemble` or `run`.  Everything that
touches the outside world is here: the files a command line names are read, the
program is asked for its script, and the script is carried out.  Here is also where
the programs are given a way to read command lines, YAML for target files, and the
layout of JSON documents.
-/

namespace CrossAssembler
namespace CommandLine

/-- The reason the system gives for a failure. -/
def FileError.ofSystem : IO.Error → FileError
  | .noFileOrDirectory .. => .notFound
  | .inappropriateType _ 20 _ => .notADirectory
  | .inappropriateType _ 21 _ => .isADirectory
  | .permissionDenied _ code details => .other s!"{details} (os error {code})"
  | .resourceExhausted _ code details => .other s!"{details} (os error {code})"
  | .otherError code details => .other s!"{details} (os error {code})"
  | e => .other (toString e)

/-- Do something with a file. -/
def attempt {α : Type} (act : IO α) : IO (Except FileError α) :=
  (act.toEIO FileError.ofSystem).toIO'

/-- The contents of the named files. -/
def loadFiles (paths : List String) : IO (String → Except FileError ByteArray) := do
  let loaded ← paths.mapM fun (path : String) => return (path, ← attempt (IO.FS.readBinFile path))
  return fun path => (loaded.lookup path).getD (.error .notFound)

/-- Carry out acts, and give the code to exit with. -/
def carryOut (exit : ExitCode) : List Action → IO ExitCode
  | [] => return exit
  | .log event :: rest => do
    IO.println ("[" ++ event.level.label ++ "] " ++ event.message)
    carryOut exit rest
  | .print text :: rest => do
    IO.print text
    carryOut exit rest
  | .report line :: rest => do
    IO.eprintln line
    carryOut exit rest
  | .save path text :: rest => do
    match ← attempt (IO.FS.writeFile path text) with
    | .ok () => carryOut exit rest
    | .error e =>
      IO.eprintln (fileMessage path e)
      return .ioError

/-- Load the files that the settings name, and carry out the script that a program
gives for them. -/
def launch (o : CommonOptions) (program : (String → Except FileError ByteArray) → Script) :
    IO UInt32 := do
  let script := program (← loadFiles (o.input :: o.target.file.toList))
  return .ofNat (← carryOut script.exit script.actions).toNat

/-- Answer a command line that is refused, or that asks for help. -/
def refuse (title : String) (accepted : List Parameter) : UsageError → IO UInt32
  | .helpRequested => do
    IO.print (helpText title accepted)
    return 0
  | .versionRequested => do
    IO.println (title ++ " 0.1.0")
    return 0
  | e => do
    IO.eprintln e.message
    return 1

end CommandLine
end CrossAssembler

open CrossAssembler CommandLine in
/-- Run one of the two programs. -/
def main : List String → IO UInt32
  | "assemble" :: arguments =>
    match AssemblerOptions.parse parse arguments with
    | .ok o => launch o.toCommonOptions (assembler Yaml.format Listing.Json.pretty o)
    | .error e => refuse "ROM Cross Assembler" assemblerParameters e
  | "run" :: arguments =>
    match RunnerOptions.parse parse arguments with
    | .ok o => launch o.toCommonOptions (runner Yaml.format o)
    | .error e => refuse "ROM Reference Interpreter" runnerParameters e
  | _ => do
    IO.eprintln "usage: assemble|run [options]"
    return 1
