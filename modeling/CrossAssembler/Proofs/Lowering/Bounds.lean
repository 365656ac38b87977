import CrossAssembler.Lowering.Pass
import CrossAssembler.Proofs.Residency.Bounds

/-!
# Lowering names registers that exist

Every register that a lowering rule asks the residency table about, fills or
clears is one of the register file.  It comes from the table itself or from the
check of an explicit load.  The scratch register always passes that check,
because a register file has at least two registers.

As for the table, this is said with a second set of rules, in which an access past
the end of the slots refuses the whole step.

## Main definitions

* `Checked.lowerInstruction`, `Checked.step`, `Checked.steps` — lowering with every
  slot access checked.

## Main results

* `tracked?_scratch` — the load of a condition passes the check of explicit loads.
* `Checked.steps_eq` — no sequence of steps is refused, and the checks change
  nothing about what it gives.
-/

namespace CrossAssembler
namespace Lowering

open Residency (Table)
open Residency.Table (mem_usable)
open LoweredInstruction (load store)

variable {t : Table}

/-! ### Registers of the moves -/

theorem fetch_of_locate_eq_some {address : Int64} {r : Nat} (h : t.locate address = some r) :
    fetch t address = (r, ⟨[], t.fill r address⟩) := by
  rw [fetch, h]

theorem fetch_of_locate_eq_none {address : Int64} (h : t.locate address = none) :
    fetch t address =
      (t.evict.1, ⟨[load t.evict.1 address], t.evict.2.fill t.evict.1 address⟩) := by
  rw [fetch, h]

@[simp] theorem size_fetch (t : Table) (address : Int64) :
    (fetch t address).2.table.size = t.size := by
  cases h : t.locate address with
  | none => rw [fetch_of_locate_eq_none h, Table.size_fill, Table.size_evict]
  | some r => rw [fetch_of_locate_eq_some h, Table.size_fill]

@[simp] theorem size_writeBack (t : Table) (r : Nat) (destination : Int64) :
    (writeBack t r destination).table.size = t.size := by
  rw [writeBack, Table.size_fill, Table.size_dropAddress]

theorem size_record (t : Table) (r : Nat) (address : Int64) :
    (record t r address).size = t.size := by
  rw [record, Table.size_fill, Table.size_dropAddress, Table.size_clear]

@[simp] theorem size_refill (t : Table) (register address : Int64) :
    (refill t register address).size = t.size := by
  unfold refill
  split
  · rw [size_record]
  · rfl

/-- An operand is fetched into a usable register. -/
theorem fetch_mem_usable (h : 1 < t.size) (address : Int64) :
    (fetch t address).1 ∈ t.usable := by
  cases hl : t.locate address with
  | none =>
    rw [fetch_of_locate_eq_none hl]
    exact Table.evict_mem_usable h
  | some r =>
    rw [fetch_of_locate_eq_some hl]
    exact (Table.of_locate hl).1

theorem fetch_lt_size (h : 1 < t.size) (address : Int64) : (fetch t address).1 < t.size :=
  (mem_usable.mp (fetch_mem_usable h address)).2

theorem evict_lt_size (h : 1 < t.size) : t.evict.1 < t.size :=
  (mem_usable.mp (Table.evict_mem_usable h)).2

/-- The registers that are tracked are the usable ones. -/
theorem tracked?_eq_some_iff {register : Int64} {r : Nat} :
    tracked? t register = some r ↔
      RegisterFile.reserved < register.toInt ∧ register.toInt < t.size ∧
        r = register.toInt.toNat := by
  unfold tracked?
  split
  · rename_i h
    simp only [Option.some.injEq]
    exact ⟨fun hr => ⟨h.1, h.2, hr.symm⟩, fun hr => hr.2.2.symm⟩
  · rename_i h
    simp only [reduceCtorEq, false_iff]
    exact fun hr => h ⟨hr.1, hr.2.1⟩

/-- The register that is tracked has the number that the operand says. -/
theorem ofNat_of_tracked? {register : Int64} {r : Nat} (h : tracked? t register = some r) :
    Int64.ofNat r = register := by
  obtain ⟨hpos, -, rfl⟩ := tracked?_eq_some_iff.mp h
  rw [← Int64.ofInt_eq_ofNat, Int.toNat_of_nonneg (Int.le_of_lt hpos), Int64.ofInt_toInt]

theorem mem_usable_of_tracked? {register : Int64} {r : Nat} (h : tracked? t register = some r) :
    r ∈ t.usable := by
  obtain ⟨hpos, hlt, rfl⟩ := tracked?_eq_some_iff.mp h
  rw [mem_usable]
  omega

theorem tracked?_ofNat {r : Nat} (h : r ∈ t.usable) (hr : r < RegisterFile.maxSize) :
    tracked? t (.ofNat r) = some r := by
  rw [mem_usable] at h
  rw [tracked?_eq_some_iff, RegisterFile.toInt_ofNat hr, Int.toNat_natCast]
  exact ⟨Int.ofNat_lt.mpr h.1, Int.ofNat_lt.mpr h.2, rfl⟩

/-- The scratch register of a conditional jump passes the check, since a register file has
at least two registers. -/
theorem tracked?_scratch (h : 1 < t.size) :
    tracked? t (.ofNat RegisterFile.scratch) = some RegisterFile.scratch :=
  tracked?_ofNat (mem_usable.mpr ⟨Nat.zero_lt_one, h⟩) (by decide)

theorem refill_of_tracked? {register : Int64} {r : Nat} (h : tracked? t register = some r)
    (address : Int64) : refill t register address = record t r address := by
  rw [refill, h]

theorem refill_of_untracked {register : Int64} (h : tracked? t register = none)
    (address : Int64) : refill t register address = t := by
  rw [refill, h]

/-! ### The rules, checked -/

namespace Checked

open Residency

/-- `Lowering.fetch`, checked. -/
def fetch (t : Table) (address : Int64) : Option (Nat × Block) := do
  match ← Checked.locate t address with
  | some r => return (r, ⟨[], ← Checked.fill t r address⟩)
  | none =>
    let (r, t) ← Checked.evict t
    return (r, ⟨[load r address], ← Checked.fill t r address⟩)

/-- `Lowering.writeBack`, checked. -/
def writeBack (t : Table) (register : Nat) (destination : Int64) : Option Block := do
  let t ← Checked.dropAddress t destination
  return ⟨[store destination register], ← Checked.fill t register destination⟩

/-- `Lowering.record`, checked. -/
def record (t : Table) (register : Nat) (address : Int64) : Option Table := do
  let t ← Checked.clear t register
  let t ← Checked.dropAddress t address
  Checked.fill t register address

/-- `Lowering.refill`, checked. -/
def refill (t : Table) (register address : Int64) : Option Table :=
  match tracked? t register with
  | some r => record t r address
  | none => some t

/-- `Lowering.lowerBinary`, checked. -/
def lowerBinary (t : Table) (op : Binary) (destination x y : Int64) : Option Block := do
  let (rx, fx) ← fetch t x
  let (ry, fy) ← fetch fx.table y
  let (rd, t) ← Checked.evict fy.table
  let result ← writeBack t rd destination
  return ⟨fx.code ++ fy.code ++ ⟨.binary op, .ofNat rd, .ofNat ry, .ofNat rx⟩ :: result.code,
    result.table⟩

/-- `Lowering.lowerNot`, checked. -/
def lowerNot (t : Table) (cell : Int64) : Option Block := do
  let (rs, f) ← fetch t cell
  let (rd, t) ← Checked.evict f.table
  let result ← writeBack t rd cell
  return ⟨f.code ++ ⟨.not, .ofNat rd, .ofNat rs, 0⟩ :: result.code, result.table⟩

/-- `Lowering.lowerCopy`, checked. -/
def lowerCopy (t : Table) (destination source : Int64) : Option Block := do
  let (r, f) ← fetch t source
  let result ← writeBack f.table r destination
  return ⟨f.code ++ result.code, result.table⟩

/-- `Lowering.lowerConstant`, checked. -/
def lowerConstant (t : Table) (destination value : Int64) : Option Block := do
  let (r, t) ← Checked.evict t
  let result ← writeBack t r destination
  return ⟨⟨.afc, .ofNat r, value, 0⟩ :: result.code, result.table⟩

/-- `Lowering.lowerLoad`, checked. -/
def lowerLoad (t : Table) (register address : Int64) : Option Block := do
  return ⟨[⟨.load, register, address, 0⟩], ← refill t register address⟩

/-- `Lowering.lowerStore`, checked. -/
def lowerStore (t : Table) (address register : Int64) : Option Block := do
  return ⟨[⟨.store, address, register, 0⟩], ← Checked.dropAddress t address⟩

/-- `Lowering.lowerBranch`, checked. -/
def lowerBranch (t : Table) (condition target : Int64) : Option Block := do
  return ⟨[load RegisterFile.scratch condition, ⟨.jmf, .ofNat RegisterFile.scratch, target, 0⟩],
    ← refill t (.ofNat RegisterFile.scratch) condition⟩

/-- `Lowering.lowerInstruction`, checked. -/
def lowerInstruction (t : Table) (i : SourceInstruction) : Option Block :=
  match i.op with
  | .known (.binary op) => lowerBinary t op i.a i.b i.c
  | .known .not => lowerNot t i.a
  | .known .cop => lowerCopy t i.a i.b
  | .known .afc => lowerConstant t i.a i.b
  | .known .load => lowerLoad t i.a i.b
  | .known .store => lowerStore t i.a i.b
  | .known .jmf => lowerBranch t i.a i.b
  | .known op => some ⟨[⟨op, i.a, i.b, i.c⟩], t⟩
  | .unrecognized _ => some ⟨[], t⟩

/-- `Lowering.step`, checked. -/
def step (t : Table) (index : Nat) (i : SourceInstruction) : Option Step := do
  let block ← lowerInstruction t i
  return ⟨index, i, block.code, diagnose t index i, block.table.tick⟩

/-- `Lowering.steps`, checked. -/
def steps (t : Table) : List (SourceInstruction × Nat) → Option (List Step)
  | [] => some []
  | (i, index) :: rest => do
    let s ← step t index i
    return s :: (← steps s.table rest)

/-! ### No step is refused -/

theorem fetch_eq (h : 1 < t.size) (address : Int64) :
    fetch t address = some (Lowering.fetch t address) := by
  rw [fetch, Checked.locate_eq]
  cases hl : t.locate address with
  | some r =>
    have hr := (mem_usable.mp (Table.of_locate hl).1).2
    simp [fetch_of_locate_eq_some hl, Checked.fill_eq hr]
  | none =>
    have hr : t.evict.1 < t.evict.2.size := by
      rw [Table.size_evict]
      exact evict_lt_size h
    simp [fetch_of_locate_eq_none hl, Checked.evict_eq h, Checked.fill_eq hr]

theorem writeBack_eq {r : Nat} (h : r < t.size) (destination : Int64) :
    writeBack t r destination = some (Lowering.writeBack t r destination) := by
  have hr : r < (t.dropAddress destination).size := by rwa [Table.size_dropAddress]
  simp [writeBack, Lowering.writeBack, Checked.dropAddress_eq, Checked.fill_eq hr]

theorem record_eq {r : Nat} (h : r < t.size) (address : Int64) :
    record t r address = some (Lowering.record t r address) := by
  have hr : r < ((t.clear r).dropAddress address).size := by
    rwa [Table.size_dropAddress, Table.size_clear]
  simp [record, Lowering.record, Checked.clear_eq h, Checked.dropAddress_eq, Checked.fill_eq hr]

theorem refill_eq (t : Table) (register address : Int64) :
    refill t register address = some (Lowering.refill t register address) := by
  rw [refill]
  cases hr : tracked? t register with
  | none => rw [refill_of_untracked hr]
  | some r =>
    rw [refill_of_tracked? hr]
    exact record_eq (mem_usable.mp (mem_usable_of_tracked? hr)).2 address

/-- A result is written back to a register that was evicted for it. -/
theorem writeBack_evict_eq (h : 1 < t.size) (destination : Int64) :
    writeBack t.evict.2 t.evict.1 destination =
      some (Lowering.writeBack t.evict.2 t.evict.1 destination) :=
  writeBack_eq (by rw [Table.size_evict]; exact evict_lt_size h) destination

theorem lowerInstruction_eq (h : 1 < t.size) (i : SourceInstruction) :
    lowerInstruction t i = some (Lowering.lowerInstruction t i) := by
  obtain ⟨op, a, b, c⟩ := i
  cases op with
  | unrecognized word => rfl
  | known op =>
    cases op with
    | binary op =>
      have hy : 1 < (Lowering.fetch t b).2.table.size := by rwa [size_fetch]
      have hd : 1 < (Lowering.fetch (Lowering.fetch t b).2.table c).2.table.size := by
        rwa [size_fetch]
      simp [lowerInstruction, lowerBinary, fetch_eq h, fetch_eq hy, Checked.evict_eq hd,
        writeBack_evict_eq hd, Lowering.lowerInstruction, lowerOp, Lowering.lowerBinary]
    | not =>
      have hd : 1 < (Lowering.fetch t a).2.table.size := by rwa [size_fetch]
      simp [lowerInstruction, lowerNot, fetch_eq h, Checked.evict_eq hd, writeBack_evict_eq hd,
        Lowering.lowerInstruction, lowerOp, Lowering.lowerNot]
    | cop =>
      have hr : (Lowering.fetch t b).1 < (Lowering.fetch t b).2.table.size := by
        rw [size_fetch]
        exact fetch_lt_size h b
      simp [lowerInstruction, lowerCopy, fetch_eq h, writeBack_eq hr,
        Lowering.lowerInstruction, lowerOp, Lowering.lowerCopy]
    | afc =>
      simp [lowerInstruction, lowerConstant, Checked.evict_eq h, writeBack_evict_eq h,
        Lowering.lowerInstruction, lowerOp, Lowering.lowerConstant]
    | load =>
      simp [lowerInstruction, lowerLoad, refill_eq, Lowering.lowerInstruction, lowerOp,
        Lowering.lowerLoad]
    | store =>
      simp [lowerInstruction, lowerStore, Checked.dropAddress_eq, Lowering.lowerInstruction,
        lowerOp, Lowering.lowerStore]
    | jmf =>
      simp [lowerInstruction, lowerBranch, refill_eq, Lowering.lowerInstruction, lowerOp,
        Lowering.lowerBranch]
    | jmp | pri | ret | nop | call | push | pop => rfl

theorem step_eq (h : 1 < t.size) (index : Nat) (i : SourceInstruction) :
    step t index i = some (Lowering.step t index i) := by
  rw [step, lowerInstruction_eq h]
  rfl

end Checked

@[simp] theorem size_lowerInstruction (t : Table) (i : SourceInstruction) :
    (lowerInstruction t i).table.size = t.size := by
  obtain ⟨op, a, b, c⟩ := i
  cases op with
  | unrecognized word => rfl
  | known op =>
    cases op with
    | binary op => simp [lowerInstruction, lowerOp, lowerBinary]
    | not => simp [lowerInstruction, lowerOp, lowerNot]
    | cop => simp [lowerInstruction, lowerOp, lowerCopy]
    | afc => simp [lowerInstruction, lowerOp, lowerConstant]
    | load => simp [lowerInstruction, lowerOp, lowerLoad]
    | store => simp [lowerInstruction, lowerOp, lowerStore]
    | jmf => simp [lowerInstruction, lowerOp, lowerBranch]
    | jmp | pri | ret | nop | call | push | pop => rfl

@[simp] theorem size_step (t : Table) (index : Nat) (i : SourceInstruction) :
    (step t index i).table.size = t.size := by
  rw [step, Table.size_tick, size_lowerInstruction]

/-- No sequence of steps is refused, and the checks change nothing. -/
theorem Checked.steps_eq (h : 1 < t.size) (calls : List (SourceInstruction × Nat)) :
    Checked.steps t calls = some (Lowering.steps t calls) := by
  induction calls generalizing t with
  | nil => rfl
  | cons call rest ih =>
    obtain ⟨i, index⟩ := call
    have hsize : 1 < (Lowering.step t index i).table.size := by rwa [size_step]
    simp [Checked.steps, Lowering.steps, Checked.step_eq h, ih hsize]

end Lowering
end CrossAssembler
