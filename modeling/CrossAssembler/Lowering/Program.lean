import CrossAssembler.Isa.Instruction
import CrossAssembler.Journal

/-!
# Lowered programs

The instructions a lowering emits, in ROM order.  Each is kept together with its
origin, the index of the source instruction it was emitted for, so that a
program and its origins cannot fall out of step.

## Main definitions

* `Entry`, `Program` — an emitted instruction with its origin, and a list of them.
* `Program.originOf?` — the source instruction a lowered instruction comes from.
* `Program.targetsOf` — the lowered instructions a source instruction became.
* `Program.emissions` — the journal of emitting entries.
-/

namespace CrossAssembler
namespace Lowering

/-- An emitted instruction. -/
structure Entry where
  /-- The instruction. -/
  instruction : LoweredInstruction
  /-- The index of the source instruction it was emitted for. -/
  origin : Nat
  deriving DecidableEq, Repr, Inhabited

/-- The instructions emitted by a lowering, in ROM order. -/
structure Program where
  /-- The instructions with their origins. -/
  entries : List Entry
  deriving DecidableEq, Repr, Inhabited

namespace Program

/-- The instructions alone. -/
def instructions (p : Program) : List LoweredInstruction := p.entries.map Entry.instruction

/-- The origins alone, one for each instruction. -/
def origins (p : Program) : List Nat := p.entries.map Entry.origin

/-- The instruction at an address. -/
def get? (p : Program) (address : Nat) : Option LoweredInstruction := p.instructions[address]?

/-- The index of the source instruction that the instruction at an address comes
from. -/
def originOf? (p : Program) (address : Nat) : Option Nat := p.origins[address]?

/-- The addresses of the instructions emitted for a source instruction. -/
def targetsOf (p : Program) (source : Nat) : List Nat :=
  p.origins.zipIdx.filterMap fun (origin, address) =>
    if origin = source then some address else none

theorem length_origins (p : Program) : p.origins.length = p.instructions.length := by
  simp [origins, instructions]

/-- The journal of emitting entries, the first of them at `address`. -/
def emissions (address : Nat) (entries : List Entry) : List Event :=
  (entries.zipIdx address).map fun (entry, address) =>
    let origin := entry.origin
    let instruction := entry.instruction
    ⟨.trace, s!"[{origin}] {address}: {instruction}"⟩

end Program

end Lowering
end CrossAssembler
