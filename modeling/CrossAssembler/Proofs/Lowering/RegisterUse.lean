import CrossAssembler.Proofs.Lowering.Coherence
import CrossAssembler.Proofs.Lowering.Emission
import CrossAssembler.Proofs.Machine.Access
import CrossAssembler.Proofs.Machine.Limit
import Mathlib.Control.Monad.Basic

/-!
# The registers that lowered code uses

A register that lowered code names is one that lowering has chosen among the allocatable
ones, unless an explicit load or store of the source names it.  This is so of every single
instruction, so it does not matter in which order a run executes them, where it begins, or
whether a jump lands in the midst of the code for some instruction.

So a machine that has the registers lowered for lacks a register only where the source asks
for one that it does not have.  The reserved register, and registers beyond those lowered
for, are left alone but for explicit loads.

## Main definitions

* `SourceInstruction.NamesRegister` — an explicit load or store names a register.

## Main results

* `registerOperand_of_emitted`, `written_of_emitted` — where the registers of an emitted
  instruction come from.
* `keeps_register` — no instruction of a lowered program changes a register that was not
  allocated, unless an explicit load names it.
* `namesRegister_of_run` — a register is missing only where the source names it.
* `lowered_runs_respect_registers` — what follows for every run.
-/

namespace CrossAssembler

/-- An explicit load or store names the register. -/
def SourceInstruction.NamesRegister (i : SourceInstruction) (register : Int64) : Prop :=
  i.op = .known .load ∧ i.a = register ∨ i.op = .known .store ∧ i.b = register

namespace Lowering

open RegisterFile (Allocatable Supported)
open LoweredInstruction (registerOperands written?)

/-! ### Emitted instructions -/

section

variable {registers : Nat} {i : SourceInstruction} {j : LoweredInstruction} {register : Int64}

/-- A register that is named was chosen by lowering, or named by the source. -/
theorem registerOperand_of_emitted (h : Emitted registers i j)
    (hregister : register ∈ j.registerOperands) :
    (∃ r, Allocatable registers r ∧ register = .ofNat r) ∨ i.NamesRegister register := by
  cases h with
  | fetch hr _ | constant hr | branch hr | writeBack hr =>
    rw [List.mem_singleton.mp hregister]
    exact Or.inl ⟨_, hr, rfl⟩
  | binary hd hy hx =>
    simp only [registerOperands, List.mem_cons, List.not_mem_nil, or_false] at hregister
    rcases hregister with rfl | rfl | rfl
    · exact Or.inl ⟨_, hd, rfl⟩
    · exact Or.inl ⟨_, hy, rfl⟩
    · exact Or.inl ⟨_, hx, rfl⟩
  | not hd hs =>
    simp only [registerOperands, List.mem_cons, List.not_mem_nil, or_false] at hregister
    rcases hregister with rfl | rfl
    · exact Or.inl ⟨_, hd, rfl⟩
    · exact Or.inl ⟨_, hs, rfl⟩
  | load => exact Or.inr (Or.inl ⟨rfl, (List.mem_singleton.mp hregister).symm⟩)
  | store => exact Or.inr (Or.inr ⟨rfl, (List.mem_singleton.mp hregister).symm⟩)
  | @kept op a b c hop =>
    -- what passes through names no register
    cases op with
    | binary | not | cop | afc | load | store | jmf => cases hop
    | jmp | pri | ret | nop | call | push | pop => cases hregister

/-- A register that is written was chosen by lowering, or named by an explicit load. -/
theorem written_of_emitted (h : Emitted registers i j) (hwritten : j.written? = some register) :
    (∃ r, Allocatable registers r ∧ register = .ofNat r) ∨
      i.op = .known .load ∧ i.a = register := by
  cases h with
  | fetch hr _ | constant hr =>
    cases hwritten
    exact Or.inl ⟨_, hr, rfl⟩
  | binary hd _ _ =>
    cases hwritten
    exact Or.inl ⟨_, hd, rfl⟩
  | not hd _ =>
    cases hwritten
    exact Or.inl ⟨_, hd, rfl⟩
  | load =>
    cases hwritten
    exact Or.inr ⟨rfl, rfl⟩
  | branch | writeBack | store => cases hwritten
  | @kept op a b c hop =>
    cases op with
    | binary | not | cop | afc | load => cases hop
    | store | jmf | jmp | pri | ret | nop | call | push | pop => cases hwritten

theorem op_ne_cop_of_emitted (h : Emitted registers i j) : j.op ≠ .cop := by
  cases h with
  | kept hop =>
    rintro rfl
    cases hop
  | _ => exact fun hcop => by cases hcop

end

/-! ### Lowered programs -/

section

variable {registers : Nat} {source : List SourceInstruction} {lowered : Lowered}
variable (h : Supported registers) (hlower : lower source registers = .ok lowered)
include h hlower

/-- What a machine executes in a lowered program was emitted for its origin. -/
theorem emitted_of_executable {address : Nat} {j : SourceInstruction}
    (hj : lowered.program.executable.toArray[address]? = some j) :
    ∃ k i j', lowered.program.originOf? address = some k ∧ source[k]? = some i ∧
      Emitted registers i j' ∧ j = j'.toSource := by
  rw [Program.executable, List.getElem?_toArray, List.getElem?_map,
    Option.map_eq_some_iff] at hj
  obtain ⟨j', hj', rfl⟩ := hj
  obtain ⟨k, i, horigin, hsource, hemitted⟩ := emitted_of_get? h hlower hj'
  exact ⟨k, i, j', horigin, hsource, hemitted, rfl⟩

/-- A register that is not allocatable is not changed, unless an explicit load names it. -/
theorem keeps_register {r : Nat} (hr : ¬ Allocatable registers r)
    (hload : ∀ i ∈ source, i.op = .known .load → i.a.toInt ≠ r) (v : Option Int64) :
    Machine.Keeps lowered.program.executable.toArray .register
      fun k => k.registers[r]? = v := by
  intro k k' j e hk hj hstep
  obtain ⟨_, i, j', -, hi, hemitted, rfl⟩ := emitted_of_executable h hlower hj
  rw [Machine.registers_of_step hstep, hk]
  intro register hwritten
  rcases written_of_emitted hemitted hwritten with ⟨q, hq, rfl⟩ | ⟨hop, rfl⟩
  · have hmax : q < RegisterFile.maxSize := Nat.lt_of_lt_of_le hq.2 h.2
    rw [RegisterFile.toInt_ofNat hmax]
    intro heq
    exact hr (Int.ofNat.inj heq ▸ hq)
  · exact hload i (List.mem_of_getElem? hi) hop

/-- A register is missing only where the source names one that the machine does not have. -/
theorem namesRegister_of_run {m m' : Machine} {limit address : Nat} {register : Int64}
    (hsize : registers ≤ m.registers.size)
    (hrun : m.run lowered.program.executable.toArray .register limit =
      (m', .error (.registerOutOfBounds address register))) :
    ∃ k i, lowered.program.originOf? address = some k ∧ source[k]? = some i ∧
      i.NamesRegister register ∧ ¬ m.HasRegister register := by
  rcases Machine.outcome_of_run hrun with heq | heq | ⟨k, hk, j, hj, hstep⟩
  · cases heq
  · cases heq
  -- the run has ended in a step of a machine with as many registers
  have hkeeps : Machine.Keeps lowered.program.executable.toArray .register
      fun k => k.registers.size = m.registers.size :=
    fun hk _ hstep => (Machine.size_registers_of_step hstep).trans hk
  have hregisters : k.registers.size = m.registers.size :=
    Machine.forall_mem_visits hkeeps rfl k hk
  have haddress : some address = some k.ip := Machine.names_of_step hstep
  obtain ⟨origin, i, j', horigin, hi, hemitted, rfl⟩ := emitted_of_executable h hlower hj
  obtain ⟨hnamed, hmissing⟩ := Machine.misses_of_step hstep
  rw [Machine.HasRegister, hregisters] at hmissing
  refine ⟨origin, i, Option.some.inj haddress ▸ horigin, hi, ?_, hmissing⟩
  refine (registerOperand_of_emitted hemitted hnamed).resolve_left ?_
  -- a register that lowering has chosen exists
  rintro ⟨r, hr, rfl⟩
  have hmax : r < RegisterFile.maxSize := Nat.lt_of_lt_of_le hr.2 h.2
  have hlt := hr.2
  rw [RegisterFile.toInt_ofNat hmax] at hmissing
  omega

end

/-- **Lowered code and the registers of a machine.**  Run a lowered program on any machine
that has the registers lowered for, from wherever it stands and under any limit.  A register
is missing only where an explicit load or store of the source names one that the machine does
not have; the reserved register and registers beyond those lowered for keep their values
unless an explicit load names them; and no copy between registers is executed. -/
theorem lowered_runs_respect_registers {registers : Nat} (h : Supported registers)
    (source : List SourceInstruction) :
    ∃ lowered, lower source registers = .ok lowered ∧
      ∀ (m : Machine) (limit : Nat), registers ≤ m.registers.size →
        let program := lowered.program.executable.toArray
        (∀ m' address register,
          m.run program .register limit = (m', .error (.registerOutOfBounds address register)) →
          ∃ k i, lowered.program.originOf? address = some k ∧ source[k]? = some i ∧
            i.NamesRegister register ∧ ¬ m.HasRegister register) ∧
        (∀ r, r = RegisterFile.reserved ∨ registers ≤ r →
          (∀ i ∈ source, i.op = .known .load → i.a.toInt ≠ r) →
          (∀ k ∈ m.visits program .register limit, k.registers[r]? = m.registers[r]?) ∧
            (m.run program .register limit).1.registers[r]? = m.registers[r]?) ∧
        ∀ k ∈ m.visits program .register limit, ∀ i,
          program[k.ip]? = some i → i.op ≠ .known .cop := by
  have hlower := lower_eq h source
  refine ⟨_, hlower, fun m limit hsize => ⟨?_, ?_, ?_⟩⟩
  · exact fun m' address register hrun => namesRegister_of_run h hlower hsize hrun
  · intro r hr hload
    have hr' : ¬ Allocatable registers r := fun hallocatable => by
      have hlt := hallocatable.1
      have hlt' := hallocatable.2
      omega
    exact ⟨Machine.forall_mem_visits (keeps_register h hlower hr' hload _) rfl,
      Machine.invariant_of_run (keeps_register h hlower hr' hload _) rfl⟩
  · intro k _ j hj hcop
    obtain ⟨_, i, j', -, -, hemitted, rfl⟩ := emitted_of_executable h hlower hj
    exact op_ne_cop_of_emitted hemitted (Operation.known.inj hcop)

/-- The jump lands between the fetch of an addition and the addition itself, and the load at
the end names a register that a machine of three does not have. -/
theorem lowered_runs_respect_registers_two :
    let source : List SourceInstruction := [⟨.known .jmf, 0, 3, 0⟩,
      ⟨.known (.binary .add), 1, 1, 1⟩, ⟨.known .load, 7, 0, 0⟩]
    let m : Machine := ⟨#[0, 7], #[9, 9, 9], 0, 0, #[], 0⟩
    Supported 2 ∧ ∃ lowered m', lower source 2 = .ok lowered ∧
      m.run lowered.program.executable.toArray .register 9 =
        (m', .error (.registerOutOfBounds 5 7)) ∧
      (∃ k i, lowered.program.originOf? 5 = some k ∧ source[k]? = some i ∧
        i.NamesRegister 7 ∧ ¬ m.HasRegister 7) ∧
      m'.registers[0]? = some 9 ∧ m'.registers[2]? = some 9 := by
  intro source m
  obtain ⟨lowered, hlower, hruns⟩ := @lowered_runs_respect_registers 2 (by decide) source
  obtain ⟨hfault, hkept, -⟩ := hruns m 9 (by decide)
  have heval : (lower source 2).map (fun lowered =>
      (m.run lowered.program.executable.toArray .register 9).2) =
        .ok (.error (.registerOutOfBounds 5 7)) := by decide +kernel
  rw [hlower] at heval
  have hzero := (hkept 0 (Or.inl rfl) (by decide)).2
  have htwo := (hkept 2 (Or.inr (Nat.le_refl 2)) (by decide)).2
  rcases hrun : m.run lowered.program.executable.toArray .register 9 with ⟨m', e⟩
  rw [hrun] at hzero htwo
  obtain rfl : e = _ := (congrArg Prod.snd hrun).symm.trans (Except.ok.inj heval)
  exact ⟨by decide, lowered, m', hlower, hrun, hfault _ _ _ hrun, hzero, htwo⟩

end Lowering
end CrossAssembler
