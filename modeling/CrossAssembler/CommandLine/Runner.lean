import CrossAssembler.CommandLine.Options
import CrossAssembler.CommandLine.Script
import CrossAssembler.CommandLine.SourceFile
import CrossAssembler.Lowering.Pass
import CrossAssembler.Machine.Run
import CrossAssembler.Text.Layout

/-!
# The runner

The runner executes a source file on the reference machine, as it is or lowered,
and prints what the program printed and the memory it leaves.

## Main definitions

* `executionLines` — the lines that show a run.
* `runner` — the script of the runner.
-/

namespace CrossAssembler
namespace CommandLine

/-- The lines that show a run that ended in good order. -/
def executionLines (e : Execution) : List String :=
  e.machine.output.toList.map toString
  ++ (match e.halt with
    | .unknownInstruction _ word => ["Unknown instruction: " ++ word]
    | _ => [])
  ++ ["Memory at the end:",
    "[" ++ ", ".intercalate (e.machine.memory.toList.map toString) ++ "]"]

/-- Execute a program and show the run. -/
def showRun (o : RunnerOptions) (program : List SourceInstruction) (flavor : Flavor)
    (t : Target) : Script :=
  .after ((o.shown fun _ => executeEvents program flavor t).map .log) <|
  match execute program flavor t with
  | .ok e => ⟨[.print (Text.unlines (executionLines e))], .success⟩
  | .error fault => .fail [fault.message] .executionFault

/-- The script of the runner, given the format of target files. -/
def runner (yaml : Target.Format) (o : RunnerOptions)
    (read : String → Except FileError ByteArray) : Script :=
  match o.target.select yaml read with
  | .error e => .fail [e.message] .configError
  | .ok t =>
    .after ((o.shown fun _ => sourceEvents read o.input).map .log) <|
    match readSource read o.input with
    | .error e => .fail (e.messages o.input) .readerError
    | .ok source =>
      if o.lower then
        match Lowering.lower source t.registers.toNat with
        | .error e => .fail [e.message] .loweringError
        | .ok lowered =>
          .after ((o.shown fun _ => Lowering.lowerEvents source t.registers.toNat).map .log) <|
          .after (lowered.diagnostics.map fun d => .report ("[!] " ++ d.message)) <|
          showRun o (lowered.program.instructions.map (·.toSource)) .register t
      else showRun o source .memory t

end CommandLine
end CrossAssembler
