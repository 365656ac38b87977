import CrossAssembler.Proofs.Machine.Access
import CrossAssembler.Proofs.Machine.Limit

/-!
# Runs that do not depend on the registers they start from

A register that code writes before it reads it may hold anything at the start.  So follow the
code from top to bottom, and count a register as known once it has been written.  If nothing
but known registers is read, then two machines that differ in the other registers make the
same run: the values that instructions read are the same, and so are the values that they
write.

This needs the order in which instructions are executed to be that of the code, and so it is
about code that does not jump.

## Main definitions

* `LoweredInstruction.registersRead` — the operands that name registers to be read.
* `LoweredInstruction.knownAfter`, `knownAfterAll` — the known registers after an instruction,
  and after code.
* `ReadsKnown` — the code reads known registers only.
* `Machine.AgreesOn` — two machines agree, and so do their known registers.

## Main results

* `Machine.AgreesOn.opEffect_eq` — an operation that reads known registers has the same effect.
* `Machine.AgreesOn.of_step` — an instruction that reads known registers keeps the machines in
  agreement, and makes the register known that it writes.
* `Machine.AgreesOn.of_run` — code that reads known registers runs the same.
-/

namespace CrossAssembler

namespace LoweredInstruction

/-- The operands that name registers to be read, when the instruction is executed among
registers. -/
def registersRead (i : LoweredInstruction) : List Int64 :=
  match i.op with
  | .binary _ => [i.b, i.c]
  | .not | .cop | .store => [i.b]
  | .jmf => [i.a]
  | .afc | .load | .nop | .jmp | .pri | .push | .pop | .call | .ret => []

/-- The known registers after the instruction: the one that it writes is among them. -/
def knownAfter (i : LoweredInstruction) (known : List Int64) : List Int64 :=
  i.written?.toList ++ known

theorem mem_knownAfter {i : LoweredInstruction} {known : List Int64} {register : Int64} :
    register ∈ i.knownAfter known ↔ i.written? = some register ∨ register ∈ known := by
  rw [knownAfter, List.mem_append, Option.mem_toList]

end LoweredInstruction

/-! ### Code -/

/-- The known registers after some code. -/
def knownAfterAll (known : List Int64) (code : List LoweredInstruction) : List Int64 :=
  code.foldl (fun known i => i.knownAfter known) known

/-- Every register that is read is known by then. -/
def ReadsKnown (known : List Int64) : List LoweredInstruction → Prop
  | [] => True
  | i :: rest =>
    (∀ register ∈ i.registersRead, register ∈ known) ∧ ReadsKnown (i.knownAfter known) rest

section

variable {known : List Int64} {code : List LoweredInstruction}

@[simp] theorem knownAfterAll_append (known : List Int64) (code rest : List LoweredInstruction) :
    knownAfterAll known (code ++ rest) = knownAfterAll (knownAfterAll known code) rest :=
  List.foldl_append

theorem mem_knownAfterAll {register : Int64} (h : register ∈ known)
    (code : List LoweredInstruction) : register ∈ knownAfterAll known code := by
  induction code generalizing known with
  | nil => exact h
  | cons i rest ih => exact ih (LoweredInstruction.mem_knownAfter.mpr (Or.inr h))

theorem ReadsKnown.append (h : ReadsKnown known code) {rest : List LoweredInstruction}
    (hrest : ReadsKnown (knownAfterAll known code) rest) : ReadsKnown known (code ++ rest) := by
  induction code generalizing known with
  | nil => exact hrest
  | cons i code ih => exact ⟨h.1, ih h.2 hrest⟩

end

namespace Machine

/-! ### Agreement on known registers -/

/-- The machines differ at most in registers that are not known. -/
structure AgreesOn (known : List Int64) (m n : Machine) : Prop extends m.Agrees n where
  /-- They are at the same instruction. -/
  ip_eq : m.ip = n.ip
  /-- They have executed equally many instructions. -/
  steps_eq : m.steps = n.steps
  /-- The known registers hold the same. -/
  register_eq : ∀ register ∈ known,
    m.registers[register.toInt.toNat]? = n.registers[register.toInt.toNat]?

namespace AgreesOn

variable {known : List Int64} {m n : Machine}

theorem mono {known' : List Int64} (h : AgreesOn known' m n)
    (hsub : ∀ register ∈ known, register ∈ known') : AgreesOn known m n :=
  ⟨h.toAgrees, h.ip_eq, h.steps_eq, fun register hr => h.register_eq register (hsub register hr)⟩

/-! ### The effect of an instruction -/

section

variable (h : AgreesOn known m n)
include h

theorem resolveCell_eq (address : Int64) : m.resolveCell address = n.resolveCell address := by
  rw [resolveCell, resolveCell, h.offset, h.memory, h.ip_eq]

theorem readCell_eq (address : Int64) : m.readCell address = n.readCell address := by
  rw [Machine.readCell_eq, Machine.readCell_eq, h.offset, h.cell?, h.ip_eq]

theorem resolveRegister_eq (register : Int64) :
    m.resolveRegister register = n.resolveRegister register := by
  rw [resolveRegister, resolveRegister, h.size_registers, h.ip_eq]

theorem readRegister_eq {register : Int64} (hr : register ∈ known) :
    m.readRegister register = n.readRegister register := by
  rw [readRegister, readRegister, h.resolveRegister_eq]
  cases hl : n.resolveRegister register with
  | error fault => rfl
  | ok location =>
    obtain ⟨-, -, rfl⟩ := of_resolveRegister hl
    simp only [Except.map, value, Array.getD_eq_getD_getElem?, h.register_eq register hr]

theorem compute_eq (op : Binary) (x y : Int64) : m.compute op x y = n.compute op x y := by
  rw [compute, compute, h.ip_eq]

theorem jump_eq (target : Int64) : m.jump target = n.jump target := by
  rw [jump, jump, h.ip_eq]

/-- **An operation that reads known registers only** has the same effect. -/
theorem opEffect_eq {i : LoweredInstruction}
    (hread : ∀ register ∈ i.registersRead, register ∈ known) :
    m.opEffect .register i.op i.a i.b i.c = n.opEffect .register i.op i.a i.b i.c := by
  obtain ⟨op, a, b, c⟩ := i
  have hproceed : m.proceed = n.proceed := by rw [proceed, proceed, h.ip_eq]
  cases op with
  | binary op =>
    have hb : m.read .register b = n.read .register b := h.readRegister_eq (hread b (.head _))
    have hc : m.read .register c = n.read .register c :=
      h.readRegister_eq (hread c (.tail _ (.head _)))
    simp only [opEffect, resolve, hb, hc, h.compute_eq, h.resolveRegister_eq, hproceed]
  | not | cop =>
    have hb : m.read .register b = n.read .register b := h.readRegister_eq (hread b (.head _))
    simp only [opEffect, resolve, hb, h.resolveRegister_eq, hproceed]
  | store =>
    have hb := h.readRegister_eq (hread b (.head _))
    simp only [opEffect, hb, h.resolveCell_eq, hproceed]
  | jmf =>
    have ha : m.read .register a = n.read .register a := h.readRegister_eq (hread a (.head _))
    simp only [opEffect, ha, h.jump_eq, hproceed]
  | afc | load =>
    simp only [opEffect, resolve, h.readCell_eq, h.resolveRegister_eq, hproceed]
  | nop | jmp | pri | push | pop | call | ret =>
    simp only [opEffect, h.readCell_eq, h.resolveCell_eq, h.jump_eq, h.ip_eq, h.offset, hproceed]

end

/-! ### Changes -/

/-- A change is the same for both: a register that holds the same before it holds the same
after it. -/
theorem registers_apply (h : AgreesOn known m n) (change : Change) {q : Nat}
    (hq : m.registers[q]? = n.registers[q]?) :
    (m.apply change).registers[q]? = (n.apply change).registers[q]? := by
  cases change with
  | set location v =>
    cases location with
    | cell index => exact hq
    | register r =>
      simp only [apply, write, Array.getElem?_setIfInBounds, h.size_registers, hq]
  | none | rebase | print => exact hq

theorem apply (h : AgreesOn known m n) (change : Change) :
    AgreesOn known (m.apply change) (n.apply change) := by
  have hregister : ∀ register ∈ known, (m.apply change).registers[register.toInt.toNat]? =
      (n.apply change).registers[register.toInt.toNat]? :=
    fun register hr => h.registers_apply change (h.register_eq register hr)
  have hsize : (m.apply change).registers.size = (n.apply change).registers.size := by
    rw [size_registers_apply, size_registers_apply, h.size_registers]
  have hip : (m.apply change).ip = (n.apply change).ip := by
    rw [ip_apply, ip_apply, h.ip_eq]
  have hsteps : (m.apply change).steps = (n.apply change).steps := by
    rw [steps_apply, steps_apply, h.steps_eq]
  cases change with
  | none => exact h
  | set location v =>
    cases location with
    | cell index =>
      exact ⟨⟨congrArg (fun memory => memory.setIfInBounds index v) h.memory, h.offset, h.output,
        hsize⟩, hip, hsteps, hregister⟩
    | register r => exact ⟨⟨h.memory, h.offset, h.output, hsize⟩, hip, hsteps, hregister⟩
  | rebase offset => exact ⟨⟨h.memory, rfl, h.output, hsize⟩, hip, hsteps, hregister⟩
  | print v =>
    exact ⟨⟨h.memory, h.offset, congrArg (fun output => output.push v) h.output, hsize⟩, hip,
      hsteps, hregister⟩

end AgreesOn

/-! ### Steps -/

theorem exists_of_getElem? {code : List LoweredInstruction} {address : Nat}
    {i : SourceInstruction}
    (h : (code.map LoweredInstruction.toSource).toArray[address]? = some i) :
    ∃ j, code[address]? = some j ∧ j.toSource = i := by
  rwa [List.getElem?_toArray, List.getElem?_map, Option.map_eq_some_iff] at h

theorem drop_eq_cons {code : List LoweredInstruction} {address : Nat} {j : LoweredInstruction}
    (h : code[address]? = some j) : code.drop address = j :: code.drop (address + 1) := by
  rw [List.drop_eq_getElem?_toList_append, h]
  rfl

/-- A value that is put where an operand says is put into the register of that number. -/
theorem set_of_resolveRegister {m : Machine} {a : Int64} {destination : Location}
    (h : m.resolveRegister a = .ok destination) (v register : Int64)
    (hregister : some a = some register) :
    ∃ w, Change.set destination v = .set (.register register.toInt.toNat) w := by
  obtain ⟨-, -, rfl⟩ := of_resolveRegister h
  cases hregister
  exact ⟨v, rfl⟩

/-- Among registers, an operation that names a register to be written gives it a value. -/
theorem yields_written (m : Machine) (i : LoweredInstruction) :
    Yields (fun change _ => ∀ register, i.written? = some register →
        ∃ v, change = .set (.register register.toInt.toNat) v)
      (m.opEffect .register i.op i.a i.b i.c) := by
  obtain ⟨op, a, b, c⟩ := i
  cases op with
  | binary op =>
    exact yields_bind fun x _ => yields_bind fun y _ => yields_bind fun v _ =>
      yields_bind fun destination hd => yields_return (set_of_resolveRegister hd v)
  | not | cop | load =>
    exact yields_bind fun x _ => yields_bind fun destination hd =>
      yields_return (set_of_resolveRegister hd _)
  | afc => exact yields_bind fun destination hd => yields_return (set_of_resolveRegister hd b)
  | store | jmf | nop | jmp | pri | push | pop | call | ret =>
    exact fun _ _ _ register hwritten => by cases hwritten

/-- An effect after which the run goes on is not that of a fault. -/
theorem opEffect_of_effect_next {m : Machine} {i : LoweredInstruction} {change : Change}
    {ip : Nat} (h : m.effect .register i.toSource = ⟨change, .next ip⟩) :
    m.opEffect .register i.op i.a i.b i.c = .ok (change, .next ip) := by
  have heffect : Effect.ofExcept (m.opEffect .register i.op i.a i.b i.c) = ⟨change, .next ip⟩ := h
  cases hop : m.opEffect .register i.op i.a i.b i.c with
  | error fault =>
    rw [hop] at heffect
    cases heffect
  | ok p =>
    obtain ⟨change', verdict⟩ := p
    rw [hop] at heffect
    cases heffect
    rfl

namespace AgreesOn

variable {known : List Int64} {m n m' : Machine}

/-- **An instruction that reads known registers only** keeps the machines in agreement.  If it
does not end the run, the register that it writes is known. -/
theorem of_step (h : AgreesOn known m n) {i : LoweredInstruction}
    (hread : ∀ register ∈ i.registersRead, register ∈ known) {r : Option (Except Fault Halt)}
    (hstep : m.step .register i.toSource = (m', r)) :
    ∃ n', n.step .register i.toSource = (n', r) ∧ AgreesOn known m' n' ∧
      (r = none → AgreesOn (i.knownAfter known) m' n') := by
  have heffect : m.effect .register i.toSource = n.effect .register i.toSource :=
    congrArg Effect.ofExcept (h.opEffect_eq hread)
  have hcounted : AgreesOn known m.counted n.counted :=
    ⟨h.toAgrees.counted, h.ip_eq, congrArg (· + 1) h.steps_eq, h.register_eq⟩
  unfold step at hstep ⊢
  rw [← heffect]
  rcases he : m.effect .register i.toSource with ⟨change, verdict⟩
  rw [he] at hstep
  have happly := hcounted.apply change
  cases verdict with
  | next ip =>
    cases hstep
    have hnext : AgreesOn known { m.counted.apply change with ip }
        { n.counted.apply change with ip } :=
      ⟨⟨happly.memory, happly.offset, happly.output, happly.size_registers⟩, rfl,
        happly.steps_eq, happly.register_eq⟩
    refine ⟨_, rfl, hnext, fun _ => ⟨hnext.toAgrees, rfl, hnext.steps_eq, fun register hr => ?_⟩⟩
    rcases LoweredInstruction.mem_knownAfter.mp hr with hwritten | hknown
    · -- both machines have been given the same value
      obtain ⟨v, rfl⟩ := yields_written m i _ _ (opEffect_of_effect_next he) register hwritten
      simp only [Machine.apply, write, Array.getElem?_setIfInBounds, if_pos, h.size_registers]
    · exact hnext.register_eq register hknown
  | halt reason | fault reason =>
    cases hstep
    exact ⟨_, rfl, happly, fun hnone => by cases hnone⟩

/-- **Code that reads known registers only** runs the same, if it does not jump. -/
theorem of_run {code : List LoweredInstruction}
    (hjumps : ∀ j ∈ code, j.op.neverJumps = true) {limit : Nat} (h : AgreesOn known m n)
    (hcode : ReadsKnown known (code.drop m.ip)) :
    let program := (code.map LoweredInstruction.toSource).toArray
    (m.run program .register limit).2 = (n.run program .register limit).2 ∧
      AgreesOn known (m.run program .register limit).1 (n.run program .register limit).1 := by
  intro program
  -- along the run of the first machine; ever more registers become known to both
  induction m using run_induction program .register limit generalizing n known with
  | done m hi =>
    rw [run_of_getElem?_eq_none _ _ hi, run_of_getElem?_eq_none _ _ (h.ip_eq ▸ hi)]
    exact ⟨rfl, h⟩
  | brokenOff m i hi hle =>
    rw [run_of_limit_le _ hi hle, run_of_limit_le _ (h.ip_eq ▸ hi) (h.steps_eq ▸ hle)]
    exact ⟨rfl, h⟩
  | stop m i m' e hi hlt hstep =>
    obtain ⟨j, hj, rfl⟩ := exists_of_getElem? hi
    rw [drop_eq_cons hj] at hcode
    obtain ⟨n', hstep', hagrees, -⟩ := h.of_step hcode.1 hstep
    rw [run_of_lt_limit _ hi hlt, run_of_lt_limit _ (h.ip_eq ▸ hi) (h.steps_eq ▸ hlt), hstep,
      hstep']
    exact ⟨rfl, hagrees⟩
  | next m i m' hi hlt hstep ih =>
    obtain ⟨j, hj, rfl⟩ := exists_of_getElem? hi
    rw [drop_eq_cons hj] at hcode
    obtain ⟨n', hstep', -, hagrees⟩ := h.of_step hcode.1 hstep
    have hip : m'.ip = m.ip + 1 :=
      (of_step_of_neverJumps (hjumps j (List.mem_of_getElem? hj)) hstep).2
    rw [run_of_lt_limit _ hi hlt, run_of_lt_limit _ (h.ip_eq ▸ hi) (h.steps_eq ▸ hlt), hstep,
      hstep']
    obtain ⟨houtcome, hend⟩ := ih (hagrees rfl) (hip ▸ hcode.2)
    exact ⟨houtcome, hend.mono fun register hr =>
      LoweredInstruction.mem_knownAfter.mpr (Or.inr hr)⟩

end AgreesOn

end Machine
end CrossAssembler
