import CrossAssembler.Lowering.Program

/-!
# Building a lowered program

A builder collects what a lowering emits.  It keeps the index of the source
instruction that is being lowered, and every instruction it is given counts for
that one.

## Main definitions

* `Builder` — a program under construction.
* `Builder.setOrigin` — go on to another source instruction.
* `Builder.emit` — append an instruction.
* `Builder.emission` — the journal of appending one.
-/

namespace CrossAssembler
namespace Lowering

/-- A lowered program under construction. -/
structure Builder where
  /-- What has been emitted so far. -/
  program : Program
  /-- The index of the source instruction that is being lowered. -/
  origin : Nat
  deriving DecidableEq, Repr

namespace Builder

/-- Nothing emitted yet. -/
def empty : Builder := ⟨⟨[]⟩, 0⟩

/-- Go on to another source instruction. -/
def setOrigin (b : Builder) (origin : Nat) : Builder := { b with origin }

/-- Append an instruction. -/
def emit (b : Builder) (i : LoweredInstruction) : Builder :=
  { b with program := ⟨b.program.entries ++ [⟨i, b.origin⟩]⟩ }

/-- The journal of appending an instruction. -/
def emission (b : Builder) (i : LoweredInstruction) : List Event :=
  Program.emissions b.program.entries.length [⟨i, b.origin⟩]

/-- Code that is appended counts for the source instruction that is being lowered. -/
theorem foldl_emit (b : Builder) (code : List LoweredInstruction) :
    code.foldl emit b =
      ⟨⟨b.program.entries ++ code.map fun i => ⟨i, b.origin⟩⟩, b.origin⟩ := by
  induction code generalizing b with
  | nil => simp
  | cons i code ih =>
    rw [List.foldl_cons, ih]
    simp [emit]

end Builder

end Lowering
end CrossAssembler
