import CrossAssembler.Proofs.Lowering.Emission
import CrossAssembler.Proofs.Lowering.Coherence
import CrossAssembler.Proofs.Lowering.Origins
import CrossAssembler.Proofs.Residency.Seniority

/-!
# Instructions that lowering does not see

An operation that passes through, and a word that names none, leave the residency table as it
is, but the clock advances over them as over all others.  So with such instructions left out
the ages of registers are not what they were.  Which registers are chosen is, for the tables
stay alike.  The code for the other instructions is the same, instruction by instruction.

## Main definitions

* `Operation.usesTable` — operations whose lowering looks at the residency table.
* `tableUsers`, `tableUserIndices` — the instructions of a program that have such an operation,
  and where they stand in it.

## Main results

* `alike_lowerInstruction` — lowering an instruction from alike tables gives the same code.
* `entries_of_tableUsers` — lowering a program without the other instructions gives the code of
  these.
* `other_instructions_are_transparent` — what this means for a lowered program and its origins.
-/

namespace CrossAssembler

/-- Lowering the operation looks at the residency table or changes it. -/
def Operation.usesTable : Operation → Bool
  | .known op => !op.passesThrough
  | .unrecognized _ => false

namespace Lowering

open Residency (Table)
open Residency.Table (Alike)

variable {registers ticks : Nat} {t u : Table}

/-! ### Lowering from alike tables -/

/-- The blocks have the same code, and leave tables that are alike. -/
structure Block.Alike (ticks : Nat) (b b' : Block) : Prop where
  code_eq : b.code = b'.code
  table : Table.Alike ticks b.table b'.table

theorem Block.Alike.prepend {b b' : Block} (h : b.Alike ticks b')
    {code code' : List LoweredInstruction} (hcode : code = code') :
    Block.Alike ticks ⟨code ++ b.code, b.table⟩ ⟨code' ++ b'.code, b'.table⟩ :=
  ⟨by rw [hcode, h.code_eq], h.table⟩

section

variable (h : Alike ticks t u)
include h

theorem fetch_fst_eq (address : Int64) : (fetch t address).1 = (fetch u address).1 := by
  have hlocate := h.locate_eq address
  cases hl : u.locate address with
  | some r =>
    rw [fetch_of_locate_eq_some (hlocate.trans hl), fetch_of_locate_eq_some hl]
  | none =>
    rw [fetch_of_locate_eq_none (hlocate.trans hl), fetch_of_locate_eq_none hl]
    exact h.evict_eq

theorem alike_fetch (address : Int64) :
    Block.Alike ticks (fetch t address).2 (fetch u address).2 := by
  have hlocate := h.locate_eq address
  cases hl : u.locate address with
  | some r =>
    rw [fetch_of_locate_eq_some (hlocate.trans hl), fetch_of_locate_eq_some hl]
    exact ⟨rfl, h.fill r address⟩
  | none =>
    rw [fetch_of_locate_eq_none (hlocate.trans hl), fetch_of_locate_eq_none hl, h.evict_eq]
    exact ⟨rfl, h.evict.fill u.evict.1 address⟩

theorem alike_writeBack (r : Nat) (destination : Int64) :
    Block.Alike ticks (writeBack t r destination) (writeBack u r destination) :=
  ⟨rfl, (h.dropAddress destination).fill r destination⟩

theorem alike_compute (i : Nat → LoweredInstruction) (destination : Int64) :
    Block.Alike ticks (compute t i destination) (compute u i destination) := by
  have hresult := alike_writeBack h.evict u.evict.1 destination
  simp only [compute, h.evict_eq]
  exact ⟨congrArg (i u.evict.1 :: ·) hresult.code_eq, hresult.table⟩

theorem tracked?_eq (register : Int64) : tracked? t register = tracked? u register := by
  rw [tracked?, tracked?, h.size_eq]

theorem alike_refill (register address : Int64) :
    Alike ticks (refill t register address) (refill u register address) := by
  rw [refill, refill, tracked?_eq h]
  cases tracked? u register with
  | some r => exact ((h.clear r).dropAddress address).fill r address
  | none => exact h

/-- **Lowering an instruction from alike tables** gives the same code, and tables that are
alike. -/
theorem alike_lowerInstruction (i : SourceInstruction) :
    Block.Alike ticks (lowerInstruction t i) (lowerInstruction u i) := by
  obtain ⟨op, a, b, c⟩ := i
  cases op with
  | unrecognized word => exact ⟨rfl, h⟩
  | known op =>
    cases op with
    | binary op =>
      have hx := alike_fetch h b
      have hy := alike_fetch hx.table c
      have hrx := fetch_fst_eq h b
      have hry := fetch_fst_eq hx.table c
      simp only [lowerInstruction, lowerOp, lowerBinary_eq, hrx, hry]
      exact (alike_compute hy.table _ a).prepend (by rw [hx.code_eq, hy.code_eq])
    | not =>
      have hx := alike_fetch h a
      simp only [lowerInstruction, lowerOp, lowerNot_eq, fetch_fst_eq h a]
      exact (alike_compute hx.table _ a).prepend hx.code_eq
    | cop =>
      have hx := alike_fetch h b
      simp only [lowerInstruction, lowerOp, lowerCopy_eq, fetch_fst_eq h b]
      exact (alike_writeBack hx.table _ a).prepend hx.code_eq
    | afc =>
      simp only [lowerInstruction, lowerOp, lowerConstant_eq]
      exact alike_compute h _ a
    | load => exact ⟨rfl, alike_refill h a b⟩
    | store => exact ⟨rfl, h.dropAddress a⟩
    | jmf => exact ⟨rfl, alike_refill h (.ofNat RegisterFile.scratch) a⟩
    | jmp | pri | ret | nop | call | push | pop => exact ⟨rfl, h⟩

end

/-! ### Instructions that are left out -/

/-- An instruction that does not use the table leaves it as it is, and all that is emitted for
it passes through. -/
theorem lowerInstruction_of_not_usesTable {i : SourceInstruction} (hi : i.op.usesTable = false) :
    (lowerInstruction t i).table = t ∧
      ∀ j ∈ (lowerInstruction t i).code, j.op.passesThrough = true := by
  obtain ⟨op, a, b, c⟩ := i
  cases op with
  | unrecognized word => exact ⟨rfl, fun j hj => by cases hj⟩
  | known op =>
    cases op with
    | binary | not | cop | afc | load | store | jmf => cases hi
    | jmp | pri | ret | nop | call | push | pop =>
      exact ⟨rfl, fun j hj => by rw [List.mem_singleton.mp hj]; rfl⟩

/-- Nothing that is emitted for an instruction that uses the table passes through. -/
theorem passesThrough_of_usesTable {i : SourceInstruction} (hi : i.op.usesTable = true)
    {j : LoweredInstruction} (hj : j ∈ (lowerInstruction t i).code) :
    j.op.passesThrough = false := by
  rcases op_of_mem_lowerInstruction hj with hop | hop | hop
  · rw [hop]
    rfl
  · rw [hop]
    rfl
  · rw [← hop] at hi
    simpa [Operation.usesTable] using hi

/-- The entries of a step for an instruction that uses the table are all kept. -/
theorem filter_entries_of_usesTable {i : SourceInstruction} (hi : i.op.usesTable = true)
    (index : Nat) :
    (step t index i).entries.filter (fun e => !e.instruction.op.passesThrough) =
      (step t index i).entries := by
  rw [List.filter_eq_self]
  intro e he
  obtain ⟨j, hj, rfl⟩ := List.mem_map.mp he
  rw [passesThrough_of_usesTable hi hj]
  rfl

/-- The entries of a step for any other instruction are all left out. -/
theorem filter_entries_of_not_usesTable {i : SourceInstruction} (hi : i.op.usesTable = false)
    (index : Nat) :
    (step t index i).entries.filter (fun e => !e.instruction.op.passesThrough) = [] := by
  rw [List.filter_eq_nil_iff]
  intro e he
  obtain ⟨j, hj, rfl⟩ := List.mem_map.mp he
  simp [(lowerInstruction_of_not_usesTable hi).2 j hj]

/-- **Leaving instructions out.**  Lowering only the instructions that use the table, from a
table that is alike, gives what is emitted for them among all the others. -/
theorem entries_of_tableUsers (ht : t.Settled registers) (hu : u.Settled registers)
    (hsize : 1 < registers) (h : Alike ticks t u) {calls : List (SourceInstruction × Nat)}
    (hlimit : ticks + calls.length ≤ Residency.Slot.maxAge) :
    ((steps t calls).flatMap Step.entries).filter (fun e => !e.instruction.op.passesThrough) =
      (steps u (calls.filter fun call => call.1.op.usesTable)).flatMap Step.entries := by
  induction calls generalizing t u ticks with
  | nil => rfl
  | cons call rest ih =>
    obtain ⟨i, index⟩ := call
    have hmax : ticks < Residency.Slot.maxAge := by
      rw [List.length_cons] at hlimit
      omega
    have hlimit' : ticks + 1 + rest.length ≤ Residency.Slot.maxAge := by
      rw [List.length_cons] at hlimit
      omega
    have ht' : 1 < t.size := by rwa [ht.size_eq]
    have hu' : 1 < u.size := by rwa [hu.size_eq]
    rw [steps, List.flatMap_cons, List.filter_append]
    by_cases hi : i.op.usesTable = true
    · -- both tables see the instruction, and the clocks of both advance
      have hblock := alike_lowerInstruction h i
      have hentries : (step t index i).entries = (step u index i).entries := by
        simp only [Step.entries, step, hblock.code_eq]
      have halike : Alike (ticks + 1) (step t index i).table (step u index i).table :=
        hblock.table.tick (valid_lowerInstruction ht.toValid ht' i)
          (valid_lowerInstruction hu.toValid hu' i) hmax
      rw [List.filter_cons, if_pos hi, steps, List.flatMap_cons, hentries,
        filter_entries_of_usesTable hi]
      exact congrArg _ (ih (settled_step ht ht' index i) (settled_step hu hu' index i) halike
        hlimit')
    · -- only the first clock advances
      have hi' : i.op.usesTable = false := Bool.eq_false_iff.mpr hi
      have halike : Alike (ticks + 1) (step t index i).table u := by
        show Alike (ticks + 1) (lowerInstruction t i).table.tick u
        rw [(lowerInstruction_of_not_usesTable hi').1]
        exact h.tick_left ht.toValid hu hmax
      rw [List.filter_cons, if_neg hi, filter_entries_of_not_usesTable hi', List.nil_append]
      exact ih (settled_step ht ht' index i) hu halike hlimit'

/-- The indices under which instructions are lowered are nothing but the origins of what is
emitted. -/
theorem entries_steps_map (f : Nat → Nat) (t : Table) (calls : List (SourceInstruction × Nat)) :
    (steps t (calls.map fun call => (call.1, f call.2))).flatMap Step.entries =
      ((steps t calls).flatMap Step.entries).map fun e => ⟨e.instruction, f e.origin⟩ := by
  induction calls generalizing t with
  | nil => rfl
  | cons call rest ih =>
    have hentries : (step t (f call.2) call.1).entries =
        (step t call.2 call.1).entries.map fun e => ⟨e.instruction, f e.origin⟩ := by
      simp [Step.entries, step]
    rw [List.map_cons, steps, steps, List.flatMap_cons, List.flatMap_cons, List.map_append,
      hentries]
    exact congrArg _ (ih _)

/-! ### Programs -/

/-- The instructions of a program whose lowering uses the table. -/
def tableUsers (source : List SourceInstruction) : List SourceInstruction :=
  source.filter fun i => i.op.usesTable

/-- Where these instructions stand in the program. -/
def tableUserIndices (source : List SourceInstruction) : List Nat :=
  (source.zipIdx.filter fun call => call.1.op.usesTable).map Prod.snd

theorem map_fst_filter_zipIdx (source : List SourceInstruction) :
    (source.zipIdx.filter fun call => call.1.op.usesTable).map Prod.fst = tableUsers source := by
  have hfirst : source.zipIdx.map Prod.fst = source := List.zipIdx_map_fst 0 source
  calc (source.zipIdx.filter fun call => call.1.op.usesTable).map Prod.fst
      = (source.zipIdx.map Prod.fst).filter fun i => i.op.usesTable := by
        rw [List.filter_map]
        rfl
    _ = tableUsers source := by rw [hfirst, tableUsers]

/-- The instructions stand where it is said. -/
theorem getElem?_tableUserIndices (source : List SourceInstruction) :
    (tableUserIndices source).map (source[·]?) = (tableUsers source).map some := by
  rw [← map_fst_filter_zipIdx, tableUserIndices, List.map_map, List.map_map]
  refine List.map_congr_left fun call hcall => ?_
  exact List.mem_zipIdx_iff_getElem?.mp (List.mem_filter.mp hcall).1

/-- The instructions under the indices that they have in the whole program. -/
theorem filter_zipIdx_eq (source : List SourceInstruction) :
    (source.zipIdx.filter fun call => call.1.op.usesTable) =
      (tableUsers source).zipIdx.map fun call =>
        (call.1, (tableUserIndices source).getD call.2 0) := by
  rw [← map_fst_filter_zipIdx, tableUserIndices]
  generalize source.zipIdx.filter _ = calls
  refine List.ext_getElem? fun k => ?_
  cases hk : calls[k]? with
  | none => simp [hk]
  | some call => simp [hk]

/-- Every origin among the entries of a program is the index of one of its instructions. -/
theorem origin_lt_of_mem_entries {source : List SourceInstruction} {e : Entry}
    (he : e ∈ (programSteps t source).flatMap Step.entries) : e.origin < source.length := by
  obtain ⟨s, hs, he⟩ := List.mem_flatMap.mp he
  obtain ⟨j, -, rfl⟩ := List.mem_map.mp he
  have hindex : s.index ∈ (programSteps t source).map Step.index := List.mem_map_of_mem hs
  rw [programSteps, index_steps, List.zipIdx_map_snd] at hindex
  simpa using hindex

/-- A program short enough that no clock stops: its entries without what passes through, and
those of its instructions that use the table. -/
theorem entries_programSteps_tableUsers (h : RegisterFile.Supported registers)
    {source : List SourceInstruction} (hlength : source.length < UInt32.size) :
    ((programSteps (.empty registers) source).flatMap Step.entries).filter
        (fun e => !e.instruction.op.passesThrough) =
      ((programSteps (.empty registers) (tableUsers source)).flatMap Step.entries).map
        fun e => ⟨e.instruction, (tableUserIndices source).getD e.origin 0⟩ := by
  have hempty := settled_start h
  have hlimit : 0 + source.zipIdx.length ≤ Residency.Slot.maxAge := by
    rw [List.length_zipIdx, Nat.zero_add]
    exact Nat.le_sub_one_of_lt hlength
  have hkept := entries_of_tableUsers hempty hempty h.1 (Alike.refl_empty registers) hlimit
  rwa [filter_zipIdx_eq, entries_steps_map fun k => (tableUserIndices source).getD k 0] at hkept

/-- **Instructions that do not use the table are transparent.**  Take a program short enough
that no clock stops, and the program with all of them left out.  Both are lowered, and what
passes through in the code of the first left out too, the code of the two is the same.  What
remains comes from the same instructions: one that stands at `k` in the shorter program stands
at the `k`-th of the remaining indices in the longer. -/
theorem other_instructions_are_transparent {registers : Nat}
    (h : RegisterFile.Supported registers) {source : List SourceInstruction}
    (hlength : source.length < UInt32.size) :
    ∃ lowered lowered', lower source registers = .ok lowered ∧
      lower (tableUsers source) registers = .ok lowered' ∧
      lowered'.program.instructions =
        lowered.program.instructions.filter (fun j => !j.op.passesThrough) ∧
      lowered'.program.origins.map ((tableUserIndices source)[·]?) =
        (lowered.program.entries.filter fun e => !e.instruction.op.passesThrough).map
          (fun e => some e.origin) ∧
      (tableUserIndices source).map (source[·]?) = (tableUsers source).map some := by
  have hkept := entries_programSteps_tableUsers h hlength
  refine ⟨_, _, lower_eq h _, lower_eq h _, ?_, ?_, getElem?_tableUserIndices source⟩
  · simp only [Program.instructions, Lowered.program_ofSteps, List.filter_map, Function.comp_def]
    rw [hkept, List.map_map]
    rfl
  · simp only [Program.origins, Lowered.program_ofSteps]
    rw [hkept, List.map_map, List.map_map]
    refine List.map_congr_left fun e he => ?_
    have hcount : (tableUserIndices source).length = (tableUsers source).length := by
      simpa using congrArg List.length (getElem?_tableUserIndices source)
    have hlt : e.origin < (tableUserIndices source).length :=
      hcount ▸ origin_lt_of_mem_entries he
    simp [List.getD_eq_getElem?_getD, List.getElem?_eq_getElem hlt]

/-- Three registers, two of them usable.  The instructions in between make the cached values
older by different amounts.  Still the third constant pushes out the first, and the addition
fetches it again. -/
theorem other_instructions_are_transparent_three :
    let source : List SourceInstruction := [⟨.known .afc, 0, 5, 0⟩, ⟨.known .pri, 0, 0, 0⟩,
      ⟨.unrecognized "HALT", 0, 0, 0⟩, ⟨.known .afc, 1, 6, 0⟩, ⟨.known .push, 1, 0, 0⟩,
      ⟨.known .afc, 2, 7, 0⟩, ⟨.known .nop, 0, 0, 0⟩, ⟨.known (.binary .add), 3, 0, 2⟩]
    RegisterFile.Supported 3 ∧ source.length < UInt32.size ∧
      ∃ lowered lowered', lower source 3 = .ok lowered ∧
        lower (tableUsers source) 3 = .ok lowered' ∧
        lowered'.program.instructions =
          lowered.program.instructions.filter (fun j => !j.op.passesThrough) ∧
        lowered.program.origins = [0, 0, 1, 3, 3, 4, 5, 5, 6, 7, 7, 7] ∧
        lowered'.program.origins = [0, 0, 1, 1, 2, 2, 3, 3, 3] ∧
        tableUserIndices source = [0, 3, 5, 7] := by
  intro source
  obtain ⟨lowered, lowered', hlower, hlower', hinstructions, -, -⟩ :=
    @other_instructions_are_transparent 3 (by decide) source (by decide)
  cases hlower
  cases hlower'
  exact ⟨by decide, by decide, _, _, rfl, rfl, hinstructions, by decide +kernel,
    by decide +kernel, by decide +kernel⟩

end Lowering
end CrossAssembler
