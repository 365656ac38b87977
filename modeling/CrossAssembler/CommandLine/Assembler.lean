import CrossAssembler.CommandLine.Options
import CrossAssembler.CommandLine.Script
import CrossAssembler.CommandLine.SourceFile
import CrossAssembler.Listing.Console
import CrossAssembler.Listing.Json
import CrossAssembler.Machine.Compare
import CrossAssembler.Rom.Vhdl

/-!
# The assembler

The assembler lowers a source file onto the target and writes the ROM image.  On
request it lists the lowered program, and runs the source and the lowered program
to see whether they do the same.

## Main definitions

* `verification` — the comparison of the two runs, as a script.
* `assembler` — the script of the assembler.
-/

namespace CrossAssembler
namespace CommandLine

open Lowering (Lowered)

/-- The lines that report in what the runs of the source and of the lowered program
differ. -/
def differenceLines (source lowered : Execution) : List String :=
  (source.compare lowered).cells.map (fun cell =>
    let x := source.machine.memory.getD cell 0
    let y := lowered.machine.memory.getD cell 0
    s!"mem[{cell}]: source {x} lowered {y}")
  ++ ["Lowered program diverges from the source program"]

/-- The line that warns of a word at which only the source program halts. -/
def unknownLines : Halt → List String
  | .unknownInstruction ip word =>
    [s!"Source program halted on unknown instruction {word} at {ip}; the lowered program skips it"]
  | _ => []

/-- Run the source and the lowered program and compare them. -/
def verification (source : List SourceInstruction) (lowered : Lowered) (t : Target) : Script :=
  match execute source .memory t with
  | .error fault => .fail ["Source program faulted: " ++ fault.message] .executionFault
  | .ok x =>
    match execute (lowered.program.instructions.map (·.toSource)) .register t with
    | .error fault => .fail ["Lowered program faulted: " ++ fault.message] .verifyMismatch
    | .ok y =>
      .after ((unknownLines x.halt).map .report) <|
        if (x.compare y).agrees then
          .fail ["[+] Lowered program matches the source program"] .success
        else .fail (differenceLines x y) .verifyMismatch

/-- The journal of running the source and the lowered program. -/
def verificationEvents (source : List SourceInstruction) (lowered : Lowered) (t : Target) :
    List Event :=
  executeEvents source .memory t ++
    match execute source .memory t with
    | .error _ => []
    | .ok _ => executeEvents (lowered.program.instructions.map (·.toSource)) .register t

/-- The acts that write out a lowered program: diagnostics, listings, image. -/
def outputActions (pretty : Listing.Json → String) (o : AssemblerOptions) (lowered : Lowered) :
    List Action :=
  let image := Rom.Image.ofCode lowered.program.instructions
  lowered.diagnostics.map (fun d => .report ("[!] " ++ d.message))
  ++ (if o.listing then
      [.print "[+] New generated instructions:\n", .print (Listing.console lowered)] else [])
  ++ o.listingJson.toList.map (fun path => .save path (Listing.json pretty lowered))
  ++ (o.shown fun _ => image.events).map .log
  ++ image.overflows.map (fun e => .report ("[!] " ++ e.message))
  ++ [match o.output with
    | some path => .save path image.vhdl
    | none => .print image.vhdl]

/-- The script of the assembler, given the format of target files and the layout of listing
documents. -/
def assembler (yaml : Target.Format) (pretty : Listing.Json → String) (o : AssemblerOptions)
    (read : String → Except FileError ByteArray) : Script :=
  match o.target.select yaml read with
  | .error e => .fail [e.message] .configError
  | .ok t =>
    .after ((o.shown fun _ => sourceEvents read o.input).map .log) <|
    match readSource read o.input with
    | .error e => .fail (e.messages o.input) .readerError
    | .ok source =>
      match Lowering.lower source t.registers.toNat with
      | .error e => .fail [e.message] .loweringError
      | .ok lowered =>
        .after ((o.shown fun _ => Lowering.lowerEvents source t.registers.toNat).map .log) <|
        .after (outputActions pretty o lowered) <|
        if o.verify then
          .after ((o.shown fun _ => verificationEvents source lowered t).map .log) <|
          verification source lowered t
        else ⟨[], .success⟩

end CommandLine
end CrossAssembler
