import CrossAssembler.Proofs.Lowering.Coherence
import CrossAssembler.Proofs.Machine.Independence
import Mathlib.Control.Monad.Basic

/-!
# Lowered code and the registers it starts from

Lowering reads a register only if the residency table says that the register caches an
address, and the table says so only of registers that the code before has written.  So the
code reads no register that it has not written, whatever was lowered before.  An explicit
store is the one exception, as it names a register itself.

On a small register file the operands of one instruction push each other out, and a register
that was read into for one operand is overwritten for the other.  What the register holds is
then not what the source asks for, but it is still something that the code has put there.

## Main definitions

* `Operation.straightLine` — operations that do not jump and choose no register to read.
* `CachesKnown` — the registers that cache an address are known.
* `Block.KeepsKnown` — the code reads known registers, and the table that it leaves has in it
  only registers that are known by then.

## Main results

* `keepsKnown_lowerInstruction` — the code for an instruction other than an explicit store
  keeps to known registers.
* `readsKnown_steps` — so does the code of any sequence of steps.
* `straight_line_ignores_registers` — lowered code without jumps runs the same from any
  registers.
-/

namespace CrossAssembler

/-- The operation does not jump, and is no explicit store, which reads a register of its own
choice. -/
def Operation.straightLine : Operation → Bool
  | .known .store => false
  | .known op => op.neverJumps
  | .unrecognized _ => true

theorem Operation.of_straightLine {op : Operation} (h : op.straightLine = true) :
    op ≠ .known .store ∧ ∀ code, op = .known code → code.neverJumps = true := by
  cases op with
  | unrecognized word => exact ⟨by rintro ⟨⟩, by rintro _ ⟨⟩⟩
  | known op =>
    cases op with
    | store => cases h
    | _ => exact ⟨by rintro ⟨⟩, by rintro _ ⟨⟩; exact h⟩

namespace Lowering

open Residency (Table)

variable {known : List Int64} {t : Table}

/-! ### Tables -/

/-- Every register that caches an address is known. -/
def CachesKnown (known : List Int64) (t : Table) : Prop :=
  ∀ r address, t.resident? r = some address → Int64.ofNat r ∈ known

theorem cachesKnown_empty (registers : Nat) : CachesKnown [] (.empty registers) := by
  intro r address hr
  rw [Table.resident?_empty] at hr
  cases hr

namespace CachesKnown

variable (h : CachesKnown known t)
include h

theorem after (code : List LoweredInstruction) : CachesKnown (knownAfterAll known code) t :=
  fun r address hr => mem_knownAfterAll (h r address hr) code

theorem fill {r : Nat} (hr : Int64.ofNat r ∈ known) (address : Int64) :
    CachesKnown known (t.fill r address) := by
  intro q other hq
  by_cases hne : q = r
  · exact hne ▸ hr
  · rw [Table.resident?_fill_of_ne address hne] at hq
    exact h q other hq

theorem clear (r : Nat) : CachesKnown known (t.clear r) := by
  intro q other hq
  rw [Table.resident?_clear] at hq
  split at hq
  · cases hq
  · exact h q other hq

theorem dropAddress (address : Int64) : CachesKnown known (t.dropAddress address) := by
  intro q other hq
  rw [Table.resident?_dropAddress] at hq
  split at hq
  · cases hq
  · exact h q other hq

theorem evict : CachesKnown known t.evict.2 := by
  unfold Table.evict
  split
  · exact h
  · exact h.clear t.oldest

theorem tick : CachesKnown known t.tick := by
  intro q other hq
  rw [Table.resident?_tick] at hq
  exact h q other hq

end CachesKnown

/-! ### The rules -/

/-- The code reads known registers only, and every register that caches an address in the
table is known after the code. -/
structure Block.KeepsKnown (known : List Int64) (b : Block) : Prop where
  reads : ReadsKnown known b.code
  caches : CachesKnown (knownAfterAll known b.code) b.table

theorem Block.KeepsKnown.prepend {b : Block} {code : List LoweredInstruction}
    (hcode : ReadsKnown known code) (h : b.KeepsKnown (knownAfterAll known code)) :
    Block.KeepsKnown known ⟨code ++ b.code, b.table⟩ :=
  ⟨hcode.append h.reads, by rw [knownAfterAll_append]; exact h.caches⟩

section

variable (h : CachesKnown known t)
include h

/-- An operand is in a register that is known, for the table said so or it has been loaded. -/
theorem keepsKnown_fetch (address : Int64) : (fetch t address).2.KeepsKnown known ∧
    Int64.ofNat (fetch t address).1 ∈ knownAfterAll known (fetch t address).2.code := by
  cases hl : t.locate address with
  | some r =>
    have hr : Int64.ofNat r ∈ known := h r address (Table.of_locate hl).2
    rw [fetch_of_locate_eq_some hl]
    exact ⟨⟨trivial, h.fill hr address⟩, hr⟩
  | none =>
    have hload : Int64.ofNat t.evict.1 ∈
        knownAfterAll known [LoweredInstruction.load t.evict.1 address] := .head _
    rw [fetch_of_locate_eq_none hl]
    exact ⟨⟨⟨List.forall_mem_nil _, trivial⟩, (h.evict.after _).fill hload address⟩, hload⟩

theorem keepsKnown_writeBack {r : Nat} (hr : Int64.ofNat r ∈ known) (destination : Int64) :
    (writeBack t r destination).KeepsKnown known :=
  ⟨⟨fun _ hmem => List.mem_singleton.mp hmem ▸ hr, trivial⟩,
    (h.dropAddress destination).fill hr destination⟩

/-- A computation from known registers writes its result before it is stored. -/
theorem keepsKnown_compute {make : Nat → LoweredInstruction}
    (hread : ∀ r, ∀ register ∈ (make r).registersRead, register ∈ known)
    (hwritten : ∀ r, (make r).written? = some (.ofNat r)) (destination : Int64) :
    (compute t make destination).KeepsKnown known := by
  have hvictim : Int64.ofNat t.evict.1 ∈ knownAfterAll known [make t.evict.1] :=
    LoweredInstruction.mem_knownAfter.mpr (Or.inl (hwritten t.evict.1))
  have hcompute : ReadsKnown known [make t.evict.1] := ⟨hread t.evict.1, trivial⟩
  exact (keepsKnown_writeBack (h.evict.after [make t.evict.1]) hvictim destination).prepend
    hcompute

theorem cachesKnown_refill {register : Int64} (hregister : register ∈ known) (address : Int64) :
    CachesKnown known (refill t register address) := by
  rw [refill]
  cases hr : tracked? t register with
  | some r =>
    exact ((h.clear r).dropAddress address).fill (ofNat_of_tracked? hr ▸ hregister) address
  | none => exact h

theorem keepsKnown_lowerLoad (register address : Int64) :
    (lowerLoad t register address).KeepsKnown known := by
  have hregister : register ∈ knownAfterAll known (lowerLoad t register address).code := .head _
  exact ⟨⟨List.forall_mem_nil _, trivial⟩, cachesKnown_refill (h.after _) hregister address⟩

/-- **The code for an instruction keeps to known registers**, unless the instruction is an
explicit store, which names a register itself. -/
theorem keepsKnown_lowerInstruction {i : SourceInstruction} (hi : i.op ≠ .known .store) :
    (lowerInstruction t i).KeepsKnown known := by
  obtain ⟨op, a, b, c⟩ := i
  cases op with
  | unrecognized word => exact ⟨trivial, h⟩
  | known op =>
    cases op with
    | binary op =>
      obtain ⟨hx, hrx⟩ := keepsKnown_fetch h b
      obtain ⟨hy, hry⟩ := keepsKnown_fetch hx.caches c
      simp only [lowerInstruction, lowerOp, lowerBinary_eq]
      refine Block.KeepsKnown.prepend (hx.reads.append hy.reads) ?_
      rw [knownAfterAll_append]
      -- the first register is known still, also if the second fetch has overwritten it
      refine keepsKnown_compute hy.caches (fun r register hr => ?_) (fun r => rfl) a
      rcases List.mem_cons.mp hr with rfl | hr
      · exact hry
      · exact List.mem_singleton.mp hr ▸ mem_knownAfterAll hrx _
    | not =>
      obtain ⟨hx, hrx⟩ := keepsKnown_fetch h a
      simp only [lowerInstruction, lowerOp, lowerNot_eq]
      refine (keepsKnown_compute hx.caches (fun r register hr => ?_) (fun r => rfl) a).prepend
        hx.reads
      exact List.mem_singleton.mp hr ▸ hrx
    | cop =>
      obtain ⟨hx, hrx⟩ := keepsKnown_fetch h b
      simp only [lowerInstruction, lowerOp, lowerCopy_eq]
      exact (keepsKnown_writeBack hx.caches hrx a).prepend hx.reads
    | afc =>
      simp only [lowerInstruction, lowerOp, lowerConstant_eq]
      exact keepsKnown_compute h (fun r => List.forall_mem_nil _) (fun r => rfl) a
    | load => exact keepsKnown_lowerLoad h a b
    | store => exact absurd rfl hi
    | jmf =>
      have hscratch : Int64.ofNat RegisterFile.scratch ∈
          knownAfterAll known (lowerBranch t a b).code := .head _
      refine ⟨⟨List.forall_mem_nil _, fun _ hr => ?_, trivial⟩,
        cachesKnown_refill (h.after _) hscratch a⟩
      exact List.mem_singleton.mp hr ▸ hscratch
    | jmp | pri | ret | nop | call | push | pop => exact ⟨⟨List.forall_mem_nil _, trivial⟩, h⟩

end

/-- **The code of a sequence of steps keeps to known registers.** -/
theorem readsKnown_steps (h : CachesKnown known t) {calls : List (SourceInstruction × Nat)}
    (hcalls : ∀ call ∈ calls, call.1.op ≠ .known .store) :
    ReadsKnown known ((steps t calls).flatMap Step.code) := by
  induction calls generalizing t known with
  | nil => trivial
  | cons call rest ih =>
    have hblock := keepsKnown_lowerInstruction h (hcalls call List.mem_cons_self)
    rw [steps, List.flatMap_cons]
    exact hblock.reads.append
      (ih hblock.caches.tick fun call hcall => hcalls call (List.mem_cons_of_mem _ hcall))

/-! ### Programs -/

/-- **Lowered code does not depend on the registers it starts from.**  Lower a program that
neither jumps nor has explicit stores.  Two machines at the start of the code that differ in
nothing but what their registers hold make the same run: it ends for the same reason, at the
same place and after equally many instructions, and leaves the same memory and the same
output. -/
theorem straight_line_ignores_registers {registers : Nat} (h : RegisterFile.Supported registers)
    {source : List SourceInstruction} (hsource : ∀ i ∈ source, i.op.straightLine = true) :
    ∃ lowered, lower source registers = .ok lowered ∧
      ∀ (m n : Machine) (limit : Nat), m.ip = 0 → n.ip = 0 → m.Agrees n → m.steps = n.steps →
        let program := lowered.program.executable.toArray
        let x := m.run program .register limit
        let y := n.run program .register limit
        x.2 = y.2 ∧ x.1.memory = y.1.memory ∧ x.1.output = y.1.output ∧ x.1.ip = y.1.ip ∧
          x.1.steps = y.1.steps := by
  have hcalls : ∀ call ∈ source.zipIdx, call.1.op.straightLine = true := fun call hcall =>
    hsource call.1 (List.fst_mem_of_mem_zipIdx hcall)
  have hjumps : ∀ j ∈ (programSteps (.empty registers) source).flatMap Step.code,
      j.op.neverJumps = true := fun j hj =>
    op_of_mem_steps (P := fun op => ∀ code, op = .known code → code.neverJumps = true)
      (by rintro _ ⟨⟩; rfl) (by rintro _ ⟨⟩; rfl)
      (fun call hcall => (Operation.of_straightLine (hcalls call hcall)).2) hj j.op rfl
  have hcode : ReadsKnown [] ((programSteps (.empty registers) source).flatMap Step.code) :=
    readsKnown_steps (cachesKnown_empty registers) fun call hcall =>
      (Operation.of_straightLine (hcalls call hcall)).1
  refine ⟨_, lower_eq h source, fun m n limit hm hn hagrees hsteps => ?_⟩
  have hstart : Machine.AgreesOn [] m n :=
    ⟨hagrees, hm.trans hn.symm, hsteps, List.forall_mem_nil _⟩
  rw [Program.executable, instructions_ofSteps]
  obtain ⟨houtcome, hend⟩ := hstart.of_run hjumps (by rwa [hm])
  exact ⟨houtcome, hend.memory, hend.output, hend.ip_eq, hend.steps_eq⟩

/-- One usable register, and machines that hold different things in all of theirs.  The
operands of the division push each other out, and it is the divisor, a zero, that is divided.
Under a smaller limit, both runs are broken off before. -/
theorem straight_line_ignores_registers_two :
    let source : List SourceInstruction := [⟨.known .afc, 0, 6, 0⟩, ⟨.known .pri, 0, 0, 0⟩,
      ⟨.known .load, 0, 1, 0⟩, ⟨.known (.binary .div), 2, 0, 1⟩]
    let m : Machine := ⟨#[1, 0, 0], #[0, 0], 0, 0, #[], 0⟩
    let n : Machine := ⟨#[1, 0, 0], #[7, -9], 0, 0, #[], 0⟩
    RegisterFile.Supported 2 ∧ (∀ i ∈ source, i.op.straightLine = true) ∧ m.Agrees n ∧
      ∃ lowered, lower source 2 = .ok lowered ∧
      let program := lowered.program.executable.toArray
      ((m.run program .register 9).2 = .error (.divisionByZero 5) ∧
        (n.run program .register 9).2 = .error (.divisionByZero 5)) ∧
      (m.run program .register 3).2 = (n.run program .register 3).2 ∧
      (m.run program .register 9).1.output = (n.run program .register 9).1.output := by
  intro source m n
  have hagrees : m.Agrees n := ⟨rfl, rfl, rfl, rfl⟩
  obtain ⟨lowered, hlower, hruns⟩ := @straight_line_ignores_registers 2 (by decide) source
    (by decide)
  have heval : (lower source 2).map (fun lowered =>
      (m.run lowered.program.executable.toArray .register 9).2) =
        .ok (.error (.divisionByZero 5)) := by decide +kernel
  rw [hlower] at heval
  have hfault := Except.ok.inj heval
  obtain ⟨houtcome, -, houtput, -, -⟩ := hruns m n 9 rfl rfl hagrees rfl
  obtain ⟨hbroken, -⟩ := hruns m n 3 rfl rfl hagrees rfl
  exact ⟨by decide, by decide, hagrees, lowered, hlower,
    ⟨hfault, houtcome.symm.trans hfault⟩, hbroken, houtput⟩

end Lowering
end CrossAssembler
