import CrossAssembler.Proofs.Lowering.Emission
import CrossAssembler.Proofs.Rom.Packing

/-!
# Where the reports of an image come from

An operand of a lowered instruction was written by the programmer or chosen by lowering.
Lowering chooses registers, and the largest register file it accepts is the largest one
whose register numbers are bytes.  So an operand that does not fit in a ROM word has been
taken over from the source, and a program whose operands are all bytes is packed without a
report, onto whatever register file it is lowered.

## Main results

* `operand_of_emitted` — an operand of an emitted instruction is one of its source, or fits.
* `overflows_come_from_source` — what is reported about an image stands in the source.
-/

namespace CrossAssembler
namespace Rom

open Lowering (Emitted lower)
open RegisterFile (Allocatable Supported)
open Instruction (mem_operands)

section

variable {registers : Nat} {i : SourceInstruction} {j : LoweredInstruction} {v : Int64}
variable (h : Supported registers)
include h

/-- The number of a register that lowering may choose is a byte. -/
theorem fits_of_allocatable {r : Nat} (hr : Allocatable registers r) : Fits (.ofNat r) := by
  have hbyte : r < 256 := Nat.lt_of_lt_of_le hr.2 h.2
  rw [fits_iff, Int64.toInt_ofNat_of_lt (by omega)]
  omega

/-- **An operand of an emitted instruction** is one of its source, or it fits: it is the
number of a register that lowering has chosen, or the zero of a field that is not used. -/
theorem operand_of_emitted (hj : Emitted registers i j) (hv : v ∈ j.operands) :
    v ∈ i.operands ∨ Fits v := by
  have hzero : Fits 0 := by decide
  have hregister : ∀ {r}, Allocatable registers r → Fits (.ofNat r) := fits_of_allocatable h
  cases hj with
  | fetch hr haddress =>
    rcases mem_operands.mp hv with rfl | rfl | rfl
    · exact Or.inr (hregister hr)
    · exact Or.inl haddress
    · exact Or.inr hzero
  | writeBack hr =>
    rcases mem_operands.mp hv with rfl | rfl | rfl
    · exact Or.inl (mem_operands.mpr (Or.inl rfl))
    · exact Or.inr (hregister hr)
    · exact Or.inr hzero
  | binary hd hy hx =>
    rcases mem_operands.mp hv with rfl | rfl | rfl
    · exact Or.inr (hregister hd)
    · exact Or.inr (hregister hy)
    · exact Or.inr (hregister hx)
  | not hd hs =>
    rcases mem_operands.mp hv with rfl | rfl | rfl
    · exact Or.inr (hregister hd)
    · exact Or.inr (hregister hs)
    · exact Or.inr hzero
  | constant hr | branch hr =>
    rcases mem_operands.mp hv with rfl | rfl | rfl
    · exact Or.inr (hregister hr)
    · exact Or.inl (mem_operands.mpr (Or.inr (Or.inl rfl)))
    · exact Or.inr hzero
  | load | store =>
    rcases mem_operands.mp hv with rfl | rfl | rfl
    · exact Or.inl (mem_operands.mpr (Or.inl rfl))
    · exact Or.inl (mem_operands.mpr (Or.inr (Or.inl rfl)))
    · exact Or.inr hzero
  | kept _ => exact Or.inl hv

end

/-- **Reports come from the source.**  Lower a program onto any register file and pack the
result.  The value of every report is an operand of the source instruction from which the
reported word comes.  So if all operands of the source are bytes, then nothing is reported
and the words spell the lowered program. -/
theorem overflows_come_from_source {registers : Nat} (h : Supported registers)
    (source : List SourceInstruction) :
    ∃ lowered, lower source registers = .ok lowered ∧
      let image := Image.ofCode lowered.program.instructions
      (∀ o ∈ image.overflows, ∃ k i, lowered.program.originOf? o.address = some k ∧
        source[k]? = some i ∧ o.value ∈ i.operands) ∧
      ((∀ i ∈ source, ∀ v ∈ i.operands, 0 ≤ v.toInt ∧ v.toInt ≤ 255) →
        image.overflows = [] ∧
          image.words.map decodeWord? = lowered.program.instructions.map some) := by
  have hlower := Lowering.lower_eq h source
  refine ⟨_, hlower, ?_⟩
  generalize Lowering.Lowered.ofSteps _ = lowered at hlower ⊢
  intro image
  have hsource : ∀ o ∈ image.overflows, ∃ k i, lowered.program.originOf? o.address = some k ∧
      source[k]? = some i ∧ o.value ∈ i.operands := by
    intro o ho
    obtain ⟨⟨j, hj, -, hvalue⟩, houtside, -⟩ := Image.mem_overflows_iff.mp ho
    obtain ⟨k, i, horigin, hi, hemitted⟩ := Lowering.emitted_of_get? h hlower hj
    have hoperand := operand_of_emitted h hemitted (List.mem_of_getElem? hvalue)
    exact ⟨k, i, horigin, hi, hoperand.resolve_right fun hfits => houtside (fits_iff.mp hfits)⟩
  refine ⟨hsource, fun hbytes => ?_⟩
  have hnone : image.overflows = [] := by
    refine List.eq_nil_iff_forall_not_mem.mpr fun o ho => ?_
    obtain ⟨k, i, -, hi, hvalue⟩ := hsource o ho
    exact (Image.mem_overflows_iff.mp ho).outside (hbytes i (List.mem_of_getElem? hi) _ hvalue)
  exact ⟨hnone, Image.decode_words hnone⟩

/-- The operands of the addition go through the last register of the largest register file,
and all words spell what they should.  Of a constant and an address that do not fit, the one
is reported for the second word and the other for the third, which come from one source
instruction. -/
theorem overflows_come_from_source_last :
    let bytes : List SourceInstruction := [⟨.known .load, 255, 5, 0⟩,
      ⟨.known (.binary .add), 7, 5, 5⟩]
    let source : List SourceInstruction := [⟨.known .nop, 0, 0, 0⟩, ⟨.known .afc, 300, -1, 0⟩]
    (Supported 256 ∧ ∃ lowered, lower bytes 256 = .ok lowered ∧
        (Image.ofCode lowered.program.instructions).overflows = [] ∧
        (Image.ofCode lowered.program.instructions).words.map decodeWord? =
          lowered.program.instructions.map some) ∧
      Supported 2 ∧ ∃ lowered, lower source 2 = .ok lowered ∧
        (Image.ofCode lowered.program.instructions).overflows =
          [⟨1, 2, -1, 255⟩, ⟨2, 1, 300, 44⟩] ∧
        ∃ k i, lowered.program.originOf? 2 = some k ∧ source[k]? = some i ∧
          300 ∈ i.operands := by
  intro bytes source
  obtain ⟨lowered, hlower, -, hbytes⟩ := @overflows_come_from_source 256 (by decide) bytes
  have hfits : ∀ i ∈ bytes, ∀ v ∈ i.operands, 0 ≤ v.toInt ∧ v.toInt ≤ 255 := by
    simp [bytes, Instruction.operands]
  obtain ⟨lowered', hlower', hreports, -⟩ := @overflows_come_from_source 2 (by decide) source
  cases hlower'
  have hoverflows : (Image.ofCode (Lowering.Lowered.ofSteps (Lowering.programSteps (.empty 2)
      source)).program.instructions).overflows = [⟨1, 2, -1, 255⟩, ⟨2, 1, 300, 44⟩] := by
    decide +kernel
  have hreport := hreports ⟨2, 1, 300, 44⟩ (by rw [hoverflows]; decide)
  exact ⟨⟨by decide, lowered, hlower, hbytes hfits⟩, by decide, _, rfl, hoverflows, hreport⟩

end Rom
end CrossAssembler
