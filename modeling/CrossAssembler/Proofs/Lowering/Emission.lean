import CrossAssembler.Proofs.Lowering.Invariant

/-!
# What lowering emits

Whatever the residency table holds, an emitted instruction has one of a few shapes.  Its
operands come from two sources only: from the source instruction it is emitted for, or from
lowering, which chooses registers among those that may be allocated.  `Emitted` lists the
shapes, and what holds of all emitted code is read off this list without a look at the
rules.

## Main definitions

* `Opcode.passesThrough` — operations that are emitted as they stand.
* `RegisterFile.Allocatable` — registers that lowering may choose.
* `Emitted` — the shapes of the code for a source instruction.

## Main results

* `emitted_of_mem` — the code for an instruction has these shapes.
* `emitted_of_get?` — every instruction of a lowered program is emitted for its origin.
-/

namespace CrossAssembler

/-- The operation is emitted as it stands, and leaves the residency table alone. -/
def Opcode.passesThrough : Opcode → Bool
  | .jmp | .pri | .ret | .nop | .call | .push | .pop => true
  | .binary _ | .not | .cop | .afc | .load | .store | .jmf => false

/-- The register is one that lowering may choose, on a register file of the given size. -/
def RegisterFile.Allocatable (registers r : Nat) : Prop := reserved < r ∧ r < registers

namespace Lowering

open Residency (Table)
open Residency.Table (mem_usable)
open RegisterFile (Allocatable scratch)
open LoweredInstruction (load store)

/-! ### Shapes -/

/-- `Emitted registers i j` says that `j` may be emitted for the source instruction `i`, on
a register file of the given size. -/
inductive Emitted (registers : Nat) : SourceInstruction → LoweredInstruction → Prop
  /-- An operand is loaded. -/
  | fetch {i : SourceInstruction} {r : Nat} {address : Int64} :
      Allocatable registers r → address ∈ i.operands → Emitted registers i (load r address)
  /-- A result is stored. -/
  | writeBack {i : SourceInstruction} {r : Nat} :
      Allocatable registers r → Emitted registers i (store i.a r)
  /-- One register is computed from two. -/
  | binary {op : Binary} {a b c : Int64} {rd ry rx : Nat} :
      Allocatable registers rd → Allocatable registers ry → Allocatable registers rx →
      Emitted registers ⟨.known (.binary op), a, b, c⟩
        ⟨.binary op, .ofNat rd, .ofNat ry, .ofNat rx⟩
  /-- A register is negated. -/
  | not {a b c : Int64} {rd rs : Nat} :
      Allocatable registers rd → Allocatable registers rs →
      Emitted registers ⟨.known .not, a, b, c⟩ ⟨.not, .ofNat rd, .ofNat rs, 0⟩
  /-- A register takes a constant. -/
  | constant {a b c : Int64} {r : Nat} :
      Allocatable registers r → Emitted registers ⟨.known .afc, a, b, c⟩ ⟨.afc, .ofNat r, b, 0⟩
  /-- The scratch register is jumped on. -/
  | branch {a b c : Int64} :
      Allocatable registers scratch →
      Emitted registers ⟨.known .jmf, a, b, c⟩ ⟨.jmf, .ofNat scratch, b, 0⟩
  /-- An explicit load names its register itself. -/
  | load {a b c : Int64} : Emitted registers ⟨.known .load, a, b, c⟩ ⟨.load, a, b, 0⟩
  /-- So does an explicit store. -/
  | store {a b c : Int64} : Emitted registers ⟨.known .store, a, b, c⟩ ⟨.store, a, b, 0⟩
  /-- An operation is kept as it is. -/
  | kept {op : Opcode} {a b c : Int64} :
      op.passesThrough = true → Emitted registers ⟨.known op, a, b, c⟩ ⟨op, a, b, c⟩

/-! ### The rules -/

section

variable {registers : Nat} {t : Table} {i : SourceInstruction} {j : LoweredInstruction}
variable (h : 1 < registers) (ht : t.size = registers)
include h ht

theorem allocatable_fetch (address : Int64) : Allocatable registers (fetch t address).1 := by
  subst ht
  exact mem_usable.mp (fetch_mem_usable h address)

theorem allocatable_evict : Allocatable registers t.evict.1 := by
  subst ht
  exact mem_usable.mp (Table.evict_mem_usable h)

theorem emitted_of_mem_fetch {address : Int64} (haddress : address ∈ i.operands)
    (hj : j ∈ (fetch t address).2.code) : Emitted registers i j := by
  cases hl : t.locate address with
  | some r =>
    rw [fetch_of_locate_eq_some hl] at hj
    cases hj
  | none =>
    rw [fetch_of_locate_eq_none hl] at hj
    rw [List.mem_singleton.mp hj]
    exact .fetch (allocatable_evict h ht) haddress

/-- A computation into a victim, which is written back to where the instruction says. -/
theorem emitted_of_mem_compute {make : Nat → LoweredInstruction}
    (hmake : ∀ r, Allocatable registers r → Emitted registers i (make r))
    (hj : j ∈ (compute t make i.a).code) : Emitted registers i j := by
  have hvictim := allocatable_evict h ht
  simp only [compute, writeBack, List.mem_cons, List.not_mem_nil, or_false] at hj
  rcases hj with rfl | rfl
  · exact hmake _ hvictim
  · exact .writeBack hvictim

/-- **What lowering emits for an instruction.** -/
theorem emitted_of_mem (hj : j ∈ (lowerInstruction t i).code) : Emitted registers i j := by
  obtain ⟨op, a, b, c⟩ := i
  cases op with
  | unrecognized word => cases hj
  | known op =>
    cases op with
    | binary op =>
      have hsize : (fetch t b).2.table.size = registers := (size_fetch t b).trans ht
      have hsize' : (fetch (fetch t b).2.table c).2.table.size = registers :=
        (size_fetch _ c).trans hsize
      have hx := allocatable_fetch h ht b
      have hy := allocatable_fetch h hsize c
      simp only [lowerInstruction, lowerOp, lowerBinary_eq, List.mem_append] at hj
      rcases hj with (hj | hj) | hj
      · exact emitted_of_mem_fetch h ht (by simp [Instruction.operands]) hj
      · exact emitted_of_mem_fetch h hsize (by simp [Instruction.operands]) hj
      · exact emitted_of_mem_compute h hsize' (fun r hr => .binary hr hy hx) hj
    | not =>
      have hsize : (fetch t a).2.table.size = registers := (size_fetch t a).trans ht
      have hs := allocatable_fetch h ht a
      simp only [lowerInstruction, lowerOp, lowerNot_eq, List.mem_append] at hj
      rcases hj with hj | hj
      · exact emitted_of_mem_fetch h ht (by simp [Instruction.operands]) hj
      · exact emitted_of_mem_compute h hsize (fun r hr => .not hr hs) hj
    | cop =>
      simp only [lowerInstruction, lowerOp, lowerCopy_eq, writeBack, List.mem_append,
        List.mem_singleton] at hj
      rcases hj with hj | rfl
      · exact emitted_of_mem_fetch h ht (by simp [Instruction.operands]) hj
      · exact .writeBack (allocatable_fetch h ht b)
    | afc =>
      simp only [lowerInstruction, lowerOp, lowerConstant_eq] at hj
      exact emitted_of_mem_compute h ht (fun r hr => .constant hr) hj
    | jmf =>
      have hscratch : Allocatable registers scratch := ⟨Nat.zero_lt_one, h⟩
      simp only [lowerInstruction, lowerOp, lowerBranch, List.mem_cons, List.not_mem_nil,
        or_false] at hj
      rcases hj with rfl | rfl
      · exact .fetch hscratch (by simp [Instruction.operands])
      · exact .branch hscratch
    | load =>
      rw [List.mem_singleton.mp hj]
      exact .load
    | store =>
      rw [List.mem_singleton.mp hj]
      exact .store
    | jmp | pri | ret | nop | call | push | pop =>
      rw [List.mem_singleton.mp hj]
      exact .kept rfl

end

/-! ### The steps of a pass -/

/-- Every step of a sequence lowers one of its instructions, from some table of the same
size. -/
theorem exists_of_mem_steps {t : Table} {calls : List (SourceInstruction × Nat)} {s : Step}
    (hs : s ∈ steps t calls) :
    ∃ t' i index, (i, index) ∈ calls ∧ t'.size = t.size ∧ s = step t' index i := by
  induction calls generalizing t with
  | nil => cases hs
  | cons call rest ih =>
    obtain ⟨i, index⟩ := call
    rcases List.mem_cons.mp hs with rfl | hs
    · exact ⟨t, i, index, List.mem_cons_self, rfl, rfl⟩
    · obtain ⟨t', i', index', hmem, hsize, rfl⟩ := ih hs
      exact ⟨t', i', index', List.mem_cons_of_mem _ hmem, hsize.trans (size_step t index i), rfl⟩

/-- Every instruction of a sequence is lowered by one of its steps. -/
theorem exists_mem_steps (t : Table) {calls : List (SourceInstruction × Nat)}
    {i : SourceInstruction} {index : Nat} (h : (i, index) ∈ calls) :
    ∃ t', step t' index i ∈ steps t calls := by
  induction calls generalizing t with
  | nil => cases h
  | cons call rest ih =>
    rcases List.mem_cons.mp h with rfl | h
    · exact ⟨t, List.mem_cons_self⟩
    · obtain ⟨t', hmem⟩ := ih (step t call.2 call.1).table h
      exact ⟨t', List.mem_cons_of_mem _ hmem⟩

/-! ### Programs -/

/-- **Every instruction of a lowered program is emitted for its origin.** -/
theorem emitted_of_get? {registers : Nat} (h : RegisterFile.Supported registers)
    {source : List SourceInstruction} {lowered : Lowered}
    (hlower : lower source registers = .ok lowered) {address : Nat} {j : LoweredInstruction}
    (hj : lowered.program.get? address = some j) :
    ∃ k i, lowered.program.originOf? address = some k ∧ source[k]? = some i ∧
      Emitted registers i j := by
  cases (lower_eq h source).symm.trans hlower
  rw [Program.get?, Program.instructions, List.getElem?_map, Option.map_eq_some_iff] at hj
  obtain ⟨entry, hentry, rfl⟩ := hj
  have hmem := List.mem_of_getElem? hentry
  rw [Lowered.program_ofSteps] at hmem
  obtain ⟨s, hs, hmem⟩ := List.mem_flatMap.mp hmem
  obtain ⟨j, hj, rfl⟩ := List.mem_map.mp hmem
  obtain ⟨t, i, k, hcall, hsize, rfl⟩ := exists_of_mem_steps hs
  refine ⟨k, i, ?_, List.mem_zipIdx_iff_getElem?.mp hcall, ?_⟩
  · rw [Program.originOf?, Program.origins, List.getElem?_map, hentry]
    rfl
  · exact emitted_of_mem h.1 (hsize.trans (Table.size_empty registers)) hj

end Lowering
end CrossAssembler
