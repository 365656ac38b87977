import CrossAssembler.Isa.RegisterFile

/-!
# Errors and diagnostics of lowering

A lowering fails only on a register file it cannot use.  Everything else it
finds wrong with a program is a diagnostic: the pass goes on.

## Main definitions

* `LoweringError` — why a lowering cannot start.
* `Diagnostic` — a problem found on the way.
-/

namespace CrossAssembler
namespace Lowering

/-- Why a lowering cannot start. -/
inductive LoweringError where
  /-- The register file has an unsupported size. -/
  | registerCount (registers : Nat)
  deriving DecidableEq, Repr

/-- The wording of a `LoweringError`. -/
def LoweringError.message : LoweringError → String
  | registerCount n =>
    let least := RegisterFile.minSize
    let most := RegisterFile.maxSize
    s!"Cannot lower onto {n} registers: the register file needs between {least} and {most} registers"

/-- A problem found while lowering the source instruction at `index`. -/
inductive Diagnostic where
  /-- The word names no operation; the instruction is skipped. -/
  | unrecognized (index : Nat) (word : String)
  /-- The instruction loads a register that is not allocatable, so the load is not
  recorded in the residency table. -/
  | untrackedRegister (index : Nat) (register : Int64)
  deriving DecidableEq, Repr

/-- The wording of a `Diagnostic` for the reader of a listing. -/
def Diagnostic.message : Diagnostic → String
  | unrecognized index word => s!"[{index}] Unrecognized command: {word}"
  | untrackedRegister index register => s!"[{index}] LOAD into register {register} is not tracked"

/-- The wording of a `Diagnostic` in the journal. -/
def Diagnostic.journalMessage : Diagnostic → String
  | unrecognized index word => s!"Unrecognized opcode {word} at instruction {index}"
  | untrackedRegister index register =>
    s!"LOAD into register {register} at instruction {index} is not tracked"

end Lowering
end CrossAssembler
