import CrossAssembler.Proofs.Machine.Outcome

/-!
# Which registers an instruction reads and writes

Executed among registers, an instruction names the registers that it reads and at most one
that it writes.  If it faults for want of a register, the register is one that it names and
that does not exist; and it changes no register but the one that it writes.  Both hold
wherever the instruction stands and however the run got there.

## Main definitions

* `LoweredInstruction.registerOperands` — the operands that name registers.
* `LoweredInstruction.written?` — the operand that names the register to be written.
* `Machine.HasRegister` — there is a register of this number.

## Main results

* `Machine.misses_of_step` — the register at fault is named, and does not exist.
* `Machine.registers_of_step` — only the written register changes.
-/

namespace CrossAssembler

namespace LoweredInstruction

/-- The operands that name registers, when the instruction is executed among registers. -/
def registerOperands (i : LoweredInstruction) : List Int64 :=
  match i.op with
  | .binary _ => [i.a, i.b, i.c]
  | .not | .cop => [i.a, i.b]
  | .afc | .jmf | .load => [i.a]
  | .store => [i.b]
  | .nop | .jmp | .pri | .push | .pop | .call | .ret => []

/-- The operand that names the register to be written, if one is written. -/
def written? (i : LoweredInstruction) : Option Int64 :=
  match i.op with
  | .binary _ | .not | .cop | .afc | .load => some i.a
  | .store | .jmf | .nop | .jmp | .pri | .push | .pop | .call | .ret => none

end LoweredInstruction

namespace Machine

/-- There is a register of this number. -/
def HasRegister (m : Machine) (register : Int64) : Prop :=
  0 ≤ register.toInt ∧ register.toInt < m.registers.size

/-! ### Registers at fault -/

/-- If a register is at fault, then it is one of those listed, and does not exist. -/
def Misses {α : Type} (m : Machine) (listed : List Int64) (e : Except Fault α) : Prop :=
  ∀ ip register, e = .error (.registerOutOfBounds ip register) →
    register ∈ listed ∧ ¬ m.HasRegister register

section

variable {α : Type} {m : Machine} {listed : List Int64} {a : Int64}

theorem misses_pure (x : α) : m.Misses listed (pure x) := by
  intro ip register h
  cases h

theorem misses_bind {β : Type} {e : Except Fault α} {f : α → Except Fault β}
    (he : m.Misses listed e) (hf : ∀ x, m.Misses listed (f x)) :
    m.Misses listed (e >>= f) := by
  cases e with
  | error fault =>
    intro ip register h
    cases h
    exact he ip register rfl
  | ok x => exact hf x

theorem misses_resolveCell : m.Misses listed (m.resolveCell a) := by
  intro ip register h
  rw [resolveCell] at h
  split at h <;> cases h

theorem misses_resolveRegister (ha : a ∈ listed) : m.Misses listed (m.resolveRegister a) := by
  intro ip register h
  rw [resolveRegister] at h
  split at h
  · cases h
  · rename_i hnone
    cases h
    exact ⟨ha, hnone⟩

theorem misses_readCell : m.Misses listed (m.readCell a) := by
  intro ip register h
  rw [readCell_eq] at h
  split at h <;> cases h

theorem misses_readRegister (ha : a ∈ listed) : m.Misses listed (m.readRegister a) := by
  intro ip register h
  rw [readRegister] at h
  cases hr : m.resolveRegister a with
  | error fault =>
    rw [hr] at h
    cases h
    exact misses_resolveRegister ha ip register hr
  | ok location =>
    rw [hr] at h
    cases h

theorem misses_compute {op : Binary} {x y : Int64} : m.Misses listed (m.compute op x y) := by
  intro ip register h
  rw [compute] at h
  split at h <;> cases h

end

/-- Among registers, an operation misses only registers that it names. -/
theorem misses_opEffect (m : Machine) (i : LoweredInstruction) :
    m.Misses i.registerOperands (m.opEffect .register i.op i.a i.b i.c) := by
  obtain ⟨op, a, b, c⟩ := i
  cases op with
  | binary op =>
    exact misses_bind (misses_readRegister (.tail _ (.tail _ (.head _)))) fun x =>
      misses_bind (misses_readRegister (.tail _ (.head _))) fun y =>
      misses_bind misses_compute fun v =>
      misses_bind (misses_resolveRegister (.head _)) fun _ => misses_pure _
  | not | cop =>
    exact misses_bind (misses_readRegister (.tail _ (.head _))) fun x =>
      misses_bind (misses_resolveRegister (.head _)) fun _ => misses_pure _
  | afc => exact misses_bind (misses_resolveRegister (.head _)) fun _ => misses_pure _
  | jmf => exact misses_bind (misses_readRegister (.head _)) fun x => misses_pure _
  | load =>
    exact misses_bind misses_readCell fun x =>
      misses_bind (misses_resolveRegister (.head _)) fun _ => misses_pure _
  | store =>
    exact misses_bind (misses_readRegister (.head _)) fun x =>
      misses_bind misses_resolveCell fun _ => misses_pure _
  | nop | jmp | push | pop => exact misses_pure _
  | pri | ret => exact misses_bind misses_readCell fun x => misses_pure _
  | call => exact misses_bind misses_resolveCell fun x => misses_pure _

/-! ### Registers that change -/

/-- If the change is one of a register, then of the one that is written. -/
def Confined (written : Option Int64) : Change → Prop
  | .set (.register q) _ => ∃ register, written = some register ∧ register.toInt = q
  | .none | .set (.cell _) _ | .rebase _ | .print _ => True

/-- No register is at fault. -/
def SparesRegisters : Verdict → Prop
  | .fault (.registerOutOfBounds _ _) => False
  | .next _ | .halt _ | .fault _ => True

section

variable {m : Machine} {written : Option Int64} {a : Int64} {location : Location}

theorem confined_register (h : m.resolveRegister a = .ok location) (v : Int64) :
    Confined (some a) (.set location v) := by
  obtain ⟨hpos, -, rfl⟩ := of_resolveRegister h
  exact ⟨a, rfl, (Int.toNat_of_nonneg hpos).symm⟩

theorem confined_cell (h : m.resolveCell a = .ok location) (v : Int64) :
    Confined written (.set location v) := by
  rw [resolveCell] at h
  split at h
  · cases h
    trivial
  · cases h

theorem sparesRegisters_jump : SparesRegisters (m.jump a) := by
  rw [jump]
  split <;> trivial

end

/-- Among registers, an operation changes no register but the one that it writes. -/
theorem yields_confined (m : Machine) (i : LoweredInstruction) :
    Yields (fun change verdict => Confined i.written? change ∧ SparesRegisters verdict)
      (m.opEffect .register i.op i.a i.b i.c) := by
  obtain ⟨op, a, b, c⟩ := i
  cases op with
  | binary op =>
    exact yields_bind fun x _ => yields_bind fun y _ => yields_bind fun v _ =>
      yields_bind fun destination hd => yields_return ⟨confined_register hd v, trivial⟩
  | not | cop | load =>
    exact yields_bind fun x _ => yields_bind fun destination hd =>
      yields_return ⟨confined_register hd _, trivial⟩
  | afc =>
    exact yields_bind fun destination hd => yields_return ⟨confined_register hd b, trivial⟩
  | store =>
    exact yields_bind fun x _ => yields_bind fun destination hd =>
      yields_return ⟨confined_cell hd x, trivial⟩
  | jmf =>
    refine yields_bind fun x _ => yields_return ⟨trivial, ?_⟩
    by_cases hx : x = 0
    · rw [if_pos hx]
      exact sparesRegisters_jump
    · rw [if_neg hx]
      trivial
  | nop | push | pop => exact yields_return ⟨trivial, trivial⟩
  | jmp => exact yields_return ⟨trivial, sparesRegisters_jump⟩
  | pri => exact yields_bind fun x _ => yields_return ⟨trivial, trivial⟩
  | call =>
    exact yields_bind fun destination hd => yields_return ⟨confined_cell hd _, sparesRegisters_jump⟩
  | ret => exact yields_bind fun x _ => yields_return ⟨trivial, sparesRegisters_jump⟩

/-! ### Steps -/

section

variable {m m' : Machine} {i : LoweredInstruction}

/-- **The register at fault** is one that the instruction names, and does not exist. -/
theorem misses_of_step {ip : Nat} {register : Int64}
    (h : m.step .register i.toSource = (m', some (.error (.registerOutOfBounds ip register)))) :
    register ∈ i.registerOperands ∧ ¬ m.HasRegister register := by
  have heffect : m.effect .register i.toSource =
      .ofExcept (m.opEffect .register i.op i.a i.b i.c) := rfl
  rw [step, heffect] at h
  cases he : m.opEffect .register i.op i.a i.b i.c with
  | error fault =>
    rw [he] at h
    cases h
    exact misses_opEffect m i ip register he
  | ok p =>
    obtain ⟨change, verdict⟩ := p
    obtain ⟨-, hspares⟩ := yields_confined m i change verdict he
    rw [he] at h
    cases verdict with
    | next | halt => cases h
    | fault reason =>
      cases h
      exact hspares.elim

theorem registers_apply_of_ne {written : Option Int64} {change : Change}
    (hchange : Confined written change) {q : Nat}
    (hq : ∀ register, written = some register → register.toInt ≠ q) :
    (m.apply change).registers[q]? = m.registers[q]? := by
  cases change with
  | set location v =>
    cases location with
    | cell index => rfl
    | register r =>
      obtain ⟨register, hwritten, hr⟩ := hchange
      refine Array.getElem?_setIfInBounds_ne fun heq => hq register hwritten ?_
      rw [hr, heq]
  | none | rebase | print => rfl

/-- **Only the written register changes.** -/
theorem registers_of_step {r : Option (Except Fault Halt)}
    (h : m.step .register i.toSource = (m', r)) {q : Nat}
    (hq : ∀ register, i.written? = some register → register.toInt ≠ q) :
    m'.registers[q]? = m.registers[q]? := by
  have hchange : Confined i.written? (m.effect .register i.toSource).change := by
    show Confined i.written? (Effect.ofExcept (m.opEffect .register i.op i.a i.b i.c)).change
    cases he : m.opEffect .register i.op i.a i.b i.c with
    | error fault => trivial
    | ok p => exact (yields_confined m i p.1 p.2 he).1
  unfold step at h
  rcases heffect : m.effect .register i.toSource with ⟨change, verdict⟩
  rw [heffect] at h hchange
  cases verdict with
  | next | halt | fault =>
    cases h
    exact registers_apply_of_ne hchange hq

end

end Machine
end CrossAssembler
