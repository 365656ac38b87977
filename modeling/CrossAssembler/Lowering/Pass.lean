import CrossAssembler.Lowering.Step

/-!
# The lowering pass

A pass lowers the instructions of a source program one after the other, each
with the residency table that the one before it left.

## Main definitions

* `steps` — the steps of a pass from a given table.
* `Lowered` — the program and the diagnostics a pass gives.
* `lower` — a whole source program onto a register file of a given size.
* `events` — the journal of a pass.
-/

namespace CrossAssembler
namespace Lowering

open Residency (Table)

/-- The steps of lowering the given instructions, each under its own index. -/
def steps (t : Table) : List (SourceInstruction × Nat) → List Step
  | [] => []
  | (i, index) :: rest =>
    let s := step t index i
    s :: steps s.table rest

/-- The journal of steps whose code starts at `address`. -/
def events (address : Nat) : List Step → List Event
  | [] => []
  | s :: rest => s.events address ++ events (address + s.code.length) rest

/-- What lowering a source program gives. -/
structure Lowered where
  /-- The emitted instructions with their origins. -/
  program : Program
  /-- The problems found, in source order. -/
  diagnostics : List Diagnostic
  deriving DecidableEq, Repr

/-- Gather what the steps of a pass emitted and reported. -/
def Lowered.ofSteps (ss : List Step) : Lowered :=
  ⟨(ss.foldl Step.build .empty).program, ss.filterMap Step.diagnostic⟩

theorem entries_foldl_build (b : Builder) (ss : List Step) :
    (ss.foldl Step.build b).program.entries = b.program.entries ++ ss.flatMap Step.entries := by
  induction ss generalizing b with
  | nil => simp
  | cons s ss ih =>
    rw [List.foldl_cons, ih, Step.entries_build, List.flatMap_cons, List.append_assoc]

/-- The program of a pass is what its steps emitted, each under its own index. -/
theorem Lowered.program_ofSteps (ss : List Step) :
    (ofSteps ss).program = ⟨ss.flatMap Step.entries⟩ :=
  congrArg Program.mk (entries_foldl_build .empty ss)

/-- The empty residency table of a register file, if its size is supported. -/
def start (registers : Nat) : Except LoweringError Table :=
  if RegisterFile.Supported registers then .ok (.empty registers)
  else .error (.registerCount registers)

/-- The steps of lowering a whole source program. -/
def programSteps (t : Table) (source : List SourceInstruction) : List Step := steps t source.zipIdx

/-- Lower a source program onto a register file. -/
def lower (source : List SourceInstruction) (registers : Nat) : Except LoweringError Lowered :=
  (start registers).map fun t => .ofSteps (programSteps t source)

/-- The journal of lowering a source program: nothing if the pass cannot start. -/
def lowerEvents (source : List SourceInstruction) (registers : Nat) : List Event :=
  match start registers with
  | .ok t => events 0 (programSteps t source)
  | .error _ => []

end Lowering
end CrossAssembler
