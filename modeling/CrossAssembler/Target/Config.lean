import CrossAssembler.Isa.RegisterFile

/-!
# Targets

A target describes the machine that programs are lowered onto and run by.

## Main definitions

* `Target`, `Target.default` — a description, and the one used when nothing is
  said.
* `TargetError` — why a description is refused.
* `Target.validate` — whether a description can be used.
-/

namespace CrossAssembler

/-- A description of the machine. -/
structure Target where
  /-- The size of the register file, the reserved register included. -/
  registers : UInt64
  /-- The number of memory cells. -/
  memorySize : UInt64
  /-- The number of instructions a run may execute. -/
  maxIterations : UInt64
  deriving DecidableEq, Repr

/-- Why a description is refused. -/
inductive TargetError where
  /-- The text of the description is malformed. -/
  | malformed
  /-- The register file has an unsupported size. -/
  | registers (count : UInt64)
  /-- There is no memory. -/
  | memorySize
  /-- No instruction may be executed. -/
  | maxIterations
  deriving DecidableEq, Repr

/-- The wording of a `TargetError`. -/
def TargetError.message : TargetError → String
  | malformed => "Invalid target file: not a description of a target"
  | registers count =>
    let least := RegisterFile.minSize
    let most := RegisterFile.maxSize
    s!"registers must be between {least} and {most}, got {count}"
  | memorySize => "memory_size must be greater than 0"
  | maxIterations => "max_iterations must be greater than 0"

namespace Target

/-- The description that is used when nothing is said. -/
def default : Target := ⟨8, 256, 5000⟩

/-- A description that can be used, or the first thing wrong with it. -/
def validate (t : Target) : Except TargetError Target :=
  if ¬ RegisterFile.Supported t.registers.toNat then .error (.registers t.registers)
  else if t.memorySize = 0 then .error .memorySize
  else if t.maxIterations = 0 then .error .maxIterations
  else .ok t

end Target

end CrossAssembler
