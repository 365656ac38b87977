import CrossAssembler.Machine.Run

/-!
# Comparing two runs

## Main definitions

* `Comparison` — in what two runs differ.
* `Execution.compare` — the comparison of two runs.
-/

namespace CrossAssembler

/-- In what two runs differ. -/
structure Comparison where
  /-- The cells whose final values differ. -/
  cells : List Nat
  /-- Whether both runs printed the same. -/
  sameOutput : Bool
  deriving DecidableEq, Repr

/-- Whether two runs differ in nothing. -/
def Comparison.agrees (c : Comparison) : Bool := c.cells.isEmpty && c.sameOutput

/-- Compare the final memories and the outputs of two runs. -/
def Execution.compare (x y : Execution) : Comparison :=
  ⟨x.machine.differingCells y.machine, x.machine.output == y.machine.output⟩

end CrossAssembler
