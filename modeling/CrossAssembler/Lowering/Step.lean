import CrossAssembler.Lowering.Builder
import CrossAssembler.Lowering.Diagnostic
import CrossAssembler.Residency.Table

/-!
# Lowering one instruction

Source instructions compute on memory cells, the ROM CPU computes on registers.
An operand is taken from the register that already caches it, and loaded into a
register first if there is none.  A result goes straight through to memory, and
the register that produced it becomes the one cached copy of its cell.

Residency is tracked as if programs ran from top to bottom: a jump forgets
nothing.

## Main definitions

* `Block` — emitted code, and the residency table it leaves.
* `fetch`, `writeBack`, `refill` — the three moves between memory and registers
  that the rules below are made of.
* `tracked?` — the check that a register named by a load is one to keep track of.
* `lowerBinary`, `lowerNot`, `lowerCopy`, `lowerConstant`, `lowerLoad`,
  `lowerStore`, `lowerBranch` — the rule for each kind of instruction.
* `Step`, `step` — the outcome of lowering one source instruction.
-/

namespace CrossAssembler
namespace Lowering

open Residency (Table)
open LoweredInstruction (load store)

/-- Emitted code together with the residency table it leaves. -/
structure Block where
  /-- The instructions, in order. -/
  code : List LoweredInstruction
  /-- What the registers cache once the code has run. -/
  table : Table
  deriving DecidableEq, Repr

/-! ### Moves between memory and registers -/

/-- A register that holds the value of `address`, and the code that brings it
there: none if a register caches the address, a load otherwise.  Either way the
register counts as just used. -/
def fetch (t : Table) (address : Int64) : Nat × Block :=
  match t.locate address with
  | some r => (r, ⟨[], t.fill r address⟩)
  | none =>
    let (r, t) := t.evict
    (r, ⟨[load r address], t.fill r address⟩)

/-- Store a register into `destination`, of which it becomes the only copy. -/
def writeBack (t : Table) (register : Nat) (destination : Int64) : Block :=
  ⟨[store destination register], (t.dropAddress destination).fill register destination⟩

/-- Record that a register has been overwritten with the value of `address`. -/
def record (t : Table) (register : Nat) (address : Int64) : Table :=
  ((t.clear register).dropAddress address).fill register address

/-- The register of the given number, if it is one that the table tracks. -/
def tracked? (t : Table) (register : Int64) : Option Nat :=
  if RegisterFile.reserved < register.toInt ∧ register.toInt < t.size then
    some register.toInt.toNat
  else none

/-- Record an explicit load of `address`, if it names a tracked register. -/
def refill (t : Table) (register address : Int64) : Table :=
  match tracked? t register with
  | some r => record t r address
  | none => t

/-- What an explicit load under `index` has to report: a register that is not tracked. -/
def untracked? (t : Table) (index : Nat) (register : Int64) : Option Diagnostic :=
  if (tracked? t register).isNone then some (.untrackedRegister index register) else none

/-! ### The rules -/

/-- Fetch both operands, compute into a third register, write the result back.
The machine takes the operand registers in reverse order. -/
def lowerBinary (t : Table) (op : Binary) (destination x y : Int64) : Block :=
  let (rx, fx) := fetch t x
  let (ry, fy) := fetch fx.table y
  let (rd, t) := fy.table.evict
  let result := writeBack t rd destination
  ⟨fx.code ++ fy.code ++ ⟨.binary op, .ofNat rd, .ofNat ry, .ofNat rx⟩ :: result.code, result.table⟩

/-- Negate a cell in place. -/
def lowerNot (t : Table) (cell : Int64) : Block :=
  let (rs, f) := fetch t cell
  let (rd, t) := f.table.evict
  let result := writeBack t rd cell
  ⟨f.code ++ ⟨.not, .ofNat rd, .ofNat rs, 0⟩ :: result.code, result.table⟩

/-- Copy a cell: the register that caches the source is stored to the destination. -/
def lowerCopy (t : Table) (destination source : Int64) : Block :=
  let (r, f) := fetch t source
  let result := writeBack f.table r destination
  ⟨f.code ++ result.code, result.table⟩

/-- Put a constant into a register and write it back. -/
def lowerConstant (t : Table) (destination value : Int64) : Block :=
  let (r, t) := t.evict
  let result := writeBack t r destination
  ⟨⟨.afc, .ofNat r, value, 0⟩ :: result.code, result.table⟩

/-- An explicit load is kept, and recorded. -/
def lowerLoad (t : Table) (register address : Int64) : Block :=
  ⟨[⟨.load, register, address, 0⟩], refill t register address⟩

/-- An explicit store is kept; copies of the cell it overwrites are forgotten. -/
def lowerStore (t : Table) (address register : Int64) : Block :=
  ⟨[⟨.store, address, register, 0⟩], t.dropAddress address⟩

/-- A conditional jump always loads its condition into the scratch register. -/
def lowerBranch (t : Table) (condition target : Int64) : Block :=
  ⟨[load RegisterFile.scratch condition, ⟨.jmf, .ofNat RegisterFile.scratch, target, 0⟩],
    refill t (.ofNat RegisterFile.scratch) condition⟩

/-- The rule for an operation of the instruction set.  Operations that neither
read nor write a cached cell are kept as they are. -/
def lowerOp (t : Table) (op : Opcode) (a b c : Int64) : Block :=
  match op with
  | .binary op => lowerBinary t op a b c
  | .not => lowerNot t a
  | .cop => lowerCopy t a b
  | .afc => lowerConstant t a b
  | .load => lowerLoad t a b
  | .store => lowerStore t a b
  | .jmf => lowerBranch t a b
  | .jmp | .pri | .ret | .nop | .call | .push | .pop => ⟨[⟨op, a, b, c⟩], t⟩

/-- The rule for a source instruction.  An unrecognized word becomes nothing. -/
def lowerInstruction (t : Table) (i : SourceInstruction) : Block :=
  match i.op with
  | .known op => lowerOp t op i.a i.b i.c
  | .unrecognized _ => ⟨[], t⟩

/-- What there is to report about the source instruction at `index`. -/
def diagnose (t : Table) (index : Nat) (i : SourceInstruction) : Option Diagnostic :=
  match i.op with
  | .unrecognized word => some (.unrecognized index word)
  | .known .load => untracked? t index i.a
  | .known .jmf => untracked? t index (.ofNat RegisterFile.scratch)
  | .known _ => none

/-! ### Steps -/

/-- The outcome of lowering one source instruction. -/
structure Step where
  /-- The index the instruction was lowered under. -/
  index : Nat
  /-- The source instruction. -/
  source : SourceInstruction
  /-- The code emitted for it. -/
  code : List LoweredInstruction
  /-- What there is to report about it. -/
  diagnostic : Option Diagnostic
  /-- The residency table afterwards, with the clock advanced. -/
  table : Table
  deriving DecidableEq, Repr

/-- Lower one source instruction.  The clock advances once, whatever the
instruction is. -/
def step (t : Table) (index : Nat) (i : SourceInstruction) : Step :=
  let block := lowerInstruction t i
  ⟨index, i, block.code, diagnose t index i, block.table.tick⟩

namespace Step

/-- The emitted code with its origin. -/
def entries (s : Step) : List Entry := s.code.map fun instruction => ⟨instruction, s.index⟩

/-- Append the emitted code to a program. -/
def build (b : Builder) (s : Step) : Builder := s.code.foldl Builder.emit (b.setOrigin s.index)

theorem entries_build (b : Builder) (s : Step) :
    (build b s).program.entries = b.program.entries ++ s.entries := by
  rw [build, Builder.foldl_emit]
  rfl

/-- The journal of a step whose code starts at `address`: what it emits, what it
reports, and the table it leaves. -/
def events (address : Nat) (s : Step) : List Event :=
  let index := s.index
  let source := s.source
  let table := s.table
  Program.emissions address s.entries
    ++ s.diagnostic.toList.map (fun d => ⟨.warn, d.journalMessage⟩)
    ++ [⟨.debug, s!"Processed {index}: {source}. Registers: {table}"⟩]

end Step

end Lowering
end CrossAssembler
