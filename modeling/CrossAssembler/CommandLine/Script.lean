import CrossAssembler.CommandLine.Files
import CrossAssembler.Journal

/-!
# Scripts

What a program does to the outside world, as data: the texts it prints, the files
it writes, and the code it exits with.  A program reads all its input before it
acts, so its script is settled by what it has read; only a file that cannot be
written cuts a script short.

## Main definitions

* `ExitCode` — how a program ended.
* `Action`, `Script` — one act of a program, and all of them.
* `Outcome`, `Script.perform` — a script carried out in a directory.
-/

namespace CrossAssembler
namespace CommandLine

/-- How a program ended. -/
inductive ExitCode where
  /-- In good order. -/
  | success
  /-- The source could not be read. -/
  | readerError
  /-- The target could not be used. -/
  | configError
  /-- A file could not be written. -/
  | ioError
  /-- The program could not be lowered. -/
  | loweringError
  /-- A run faulted. -/
  | executionFault
  /-- The lowered program does not do what the source does. -/
  | verifyMismatch
  deriving DecidableEq, Repr

/-- The number of an exit code. -/
def ExitCode.toNat : ExitCode → Nat
  | success => 0
  | readerError => 1
  | configError => 2
  | ioError => 3
  | loweringError => 4
  | executionFault => 5
  | verifyMismatch => 6

/-- One act of a program. -/
inductive Action where
  /-- Show an event of the journal. -/
  | log (event : Event)
  /-- Print a text. -/
  | print (text : String)
  /-- Print a line to the error stream. -/
  | report (line : String)
  /-- Write a text to a file. -/
  | save (path text : String)
  deriving DecidableEq, Repr

/-- All that a program does. -/
structure Script where
  /-- Its acts, in order. -/
  actions : List Action
  /-- The code it exits with if all acts succeed. -/
  exit : ExitCode
  deriving DecidableEq, Repr

namespace Script

/-- Report lines and exit. -/
def fail (lines : List String) (exit : ExitCode) : Script := ⟨lines.map .report, exit⟩

/-- Act, and then go on with a script. -/
def after (actions : List Action) (script : Script) : Script :=
  { script with actions := actions ++ script.actions }

end Script

/-- The line that reports a file that could not be read or written. -/
def fileMessage (path : String) (e : FileError) : String := path ++ ": " ++ e.message

/-! ### Carrying out a script -/

/-- What a program leaves behind. -/
structure Outcome where
  /-- The code it exited with. -/
  exit : ExitCode
  /-- What it printed. -/
  stdout : String
  /-- What it printed to the error stream. -/
  stderr : String
  /-- The files. -/
  directory : Directory

/-- Carry out acts in a directory, after some texts have been printed.  The journal
is not shown. -/
def performActions (exit : ExitCode) :
    List Action → (stdout stderr : String) → Directory → Outcome
  | [], stdout, stderr, d => ⟨exit, stdout, stderr, d⟩
  | .log _ :: rest, stdout, stderr, d => performActions exit rest stdout stderr d
  | .print text :: rest, stdout, stderr, d => performActions exit rest (stdout ++ text) stderr d
  | .report line :: rest, stdout, stderr, d =>
    performActions exit rest stdout (stderr ++ line ++ "\n") d
  | .save path text :: rest, stdout, stderr, d =>
    match d.write path text.toUTF8 with
    | .ok d => performActions exit rest stdout stderr d
    | .error e => ⟨.ioError, stdout, stderr ++ fileMessage path e ++ "\n", d⟩

/-- Carry out a script in a directory. -/
def Script.perform (script : Script) (d : Directory) : Outcome :=
  performActions script.exit script.actions "" "" d

end CommandLine
end CrossAssembler
