/-!
# The reference machine

A machine has a flat memory, a register file, and a frame base that is added to
every memory address.  It counts the instructions it has executed and keeps what
they print.

## Main definitions

* `Machine` — the state of a machine.
* `Flavor` — whether the operands of an instruction name cells or registers.
* `Halt`, `Fault` — the two ways in which a run ends.
* `Location` — a cell or a register, by its index.
* `Machine.resolve` — the location an operand names, or the fault of naming none.
-/

namespace CrossAssembler

/-- The state of a machine. -/
structure Machine where
  /-- The data memory. -/
  memory : Array Int64
  /-- The register file. -/
  registers : Array Int64
  /-- The index of the next instruction. -/
  ip : Nat
  /-- The base of the current frame. -/
  offset : Int64
  /-- The values printed so far. -/
  output : Array Int64
  /-- The number of instructions executed so far. -/
  steps : Nat
  deriving DecidableEq, Repr

/-- What the operands of computations, assignments and conditional jumps name. -/
inductive Flavor where
  /-- Memory cells, as in source programs. -/
  | memory
  /-- Registers, as in lowered programs. -/
  | register
  deriving DecidableEq, Repr

/-- Why a run ended in good order. -/
inductive Halt where
  /-- The instruction pointer left the program. -/
  | finished
  /-- The run reached a NOP at `ip`. -/
  | nop (ip : Nat)
  /-- The run reached a word that names no operation. -/
  | unknownInstruction (ip : Nat) (word : String)
  deriving DecidableEq, Repr

/-- Why a run was broken off. -/
inductive Fault where
  /-- The instruction at `ip` addresses a cell outside memory. -/
  | memoryOutOfBounds (ip : Nat) (address : Int64)
  /-- The instruction at `ip` names a register outside the register file. -/
  | registerOutOfBounds (ip : Nat) (register : Int64)
  /-- The instruction at `ip` divides by zero. -/
  | divisionByZero (ip : Nat)
  /-- The instruction at `ip` jumps to a negative index. -/
  | invalidJump (ip : Nat) (target : Int64)
  /-- The run did not end within `limit` instructions. -/
  | iterationLimit (limit : Nat)
  deriving DecidableEq, Repr

/-- The wording of a `Fault`. -/
def Fault.message : Fault → String
  | memoryOutOfBounds ip address => s!"ip {ip}: memory address {address} is out of bounds"
  | registerOutOfBounds ip register => s!"ip {ip}: register {register} does not exist"
  | divisionByZero ip => s!"ip {ip}: division by zero"
  | invalidJump ip target => s!"ip {ip}: cannot jump to {target}"
  | iterationLimit limit => s!"program did not finish within {limit} instructions"

/-- A place that holds a value. -/
inductive Location where
  /-- A memory cell. -/
  | cell (index : Nat)
  /-- A register. -/
  | register (index : Nat)
  deriving DecidableEq, Repr

namespace Machine

/-- A machine that has not run: memory and registers hold zeros. -/
def fresh (memorySize registers : Nat) : Machine where
  memory := Array.replicate memorySize 0
  registers := Array.replicate registers 0
  ip := 0
  offset := 0
  output := #[]
  steps := 0

/-! ### Locations -/

/-- The cell at an address relative to the frame base. -/
def resolveCell (m : Machine) (address : Int64) : Except Fault Location :=
  let index := address + m.offset
  if 0 ≤ index.toInt ∧ index.toInt < m.memory.size then .ok (.cell index.toInt.toNat)
  else .error (.memoryOutOfBounds m.ip index)

/-- The register with a number. -/
def resolveRegister (m : Machine) (register : Int64) : Except Fault Location :=
  if 0 ≤ register.toInt ∧ register.toInt < m.registers.size then
    .ok (.register register.toInt.toNat)
  else .error (.registerOutOfBounds m.ip register)

/-- The location an operand names. -/
def resolve (m : Machine) : Flavor → Int64 → Except Fault Location
  | .memory => m.resolveCell
  | .register => m.resolveRegister

/-- The value a location holds. -/
def value (m : Machine) : Location → Int64
  | .cell index => m.memory.getD index 0
  | .register index => m.registers.getD index 0

/-- The value of the cell at an address. -/
def readCell (m : Machine) (address : Int64) : Except Fault Int64 :=
  (m.resolveCell address).map m.value

/-- The value of the register with a number. -/
def readRegister (m : Machine) (register : Int64) : Except Fault Int64 :=
  (m.resolveRegister register).map m.value

/-- The value an operand names. -/
def read (m : Machine) (flavor : Flavor) (operand : Int64) : Except Fault Int64 :=
  (m.resolve flavor operand).map m.value

/-- Put a value at a location. -/
def write (m : Machine) (location : Location) (v : Int64) : Machine :=
  match location with
  | .cell index => { m with memory := m.memory.setIfInBounds index v }
  | .register index => { m with registers := m.registers.setIfInBounds index v }

/-- The cells at which the memories of two machines differ.  A cell that only one
of them has counts as a difference. -/
def differingCells (m n : Machine) : List Nat :=
  (List.range (max m.memory.size n.memory.size)).filter fun i => m.memory[i]? ≠ n.memory[i]?

end Machine

end CrossAssembler
