import CrossAssembler.Machine.Run

/-!
# Cells, registers, and what one instruction does to them

An instruction of straight-line code reads cells and registers, and then either
faults or changes at most one place.  Here its step is written as a case distinction
on the cells that exist, so that later proofs split on those and never open the
semantics of an instruction again.

Cells are named by their number in memory, that is, by the address of an operand
plus the frame base.

## Main definitions

* `cell?` — the value of a cell, if memory has it.
* `setCell`, `setRegister` — give a cell or a register a value.
* `counted`, `advanced` — an instruction has been counted; it has been counted and
  the next one follows.
* `Performs` — what an operation may do.
* `Holds` — a register holds the value of a cell.

## Main results

* `cell?_setCell` — a store changes one cell and no other.
* `step_load`, `step_store`, … — the step of each instruction that lowering emits.
* `step_memory_binary`, `step_memory_copy`, … — the step of each instruction that
  computes on cells.
-/

namespace CrossAssembler
namespace Machine

/-! ### Places -/

/-- The value of a cell, if memory has it. -/
def cell? (m : Machine) (cell : Int64) : Option Int64 :=
  if 0 ≤ cell.toInt then m.memory[cell.toInt.toNat]? else none

/-- Give a cell a value. -/
def setCell (m : Machine) (cell : Int64) (v : Int64) : Machine :=
  { m with memory := m.memory.setIfInBounds cell.toInt.toNat v }

/-- Give a register a value. -/
def setRegister (m : Machine) (r : Nat) (v : Int64) : Machine :=
  { m with registers := m.registers.setIfInBounds r v }

/-- An instruction has been counted. -/
def counted (m : Machine) : Machine := { m with steps := m.steps + 1 }

/-- An instruction has been counted, and the one after it is the next. -/
def advanced (m : Machine) : Machine := { m with ip := m.ip + 1, steps := m.steps + 1 }

@[simp] theorem size_registers_setRegister (m : Machine) (r : Nat) (v : Int64) :
    (m.setRegister r v).registers.size = m.registers.size := Array.size_setIfInBounds

@[simp] theorem registers_advanced (m : Machine) : m.advanced.registers = m.registers := rfl

theorem ip_advanced (m : Machine) : m.advanced.ip = m.ip + 1 := rfl

/-- A register below the size takes the value it is given. -/
theorem registers_setRegister_self {m : Machine} {r : Nat} (h : r < m.registers.size)
    (v : Int64) : (m.setRegister r v).registers[r]? = some v := by
  rw [setRegister, Array.getElem?_setIfInBounds_self, if_pos h]

theorem registers_setRegister_of_ne (m : Machine) {r q : Nat} (h : q ≠ r) (v : Int64) :
    (m.setRegister r v).registers[q]? = m.registers[q]? :=
  Array.getElem?_setIfInBounds_ne h.symm

theorem lt_size_of_cell? {m : Machine} {cell v : Int64} (h : m.cell? cell = some v) :
    0 ≤ cell.toInt ∧ cell.toInt.toNat < m.memory.size := by
  unfold cell? at h
  split at h
  · exact ⟨‹_›, (Array.getElem?_eq_some_iff.mp h).1⟩
  · cases h

/-- A store changes one cell and no other. -/
theorem cell?_setCell {m : Machine} {cell w : Int64} (h : m.cell? cell = some w) (v c : Int64) :
    (m.setCell cell v).cell? c = if c = cell then some v else m.cell? c := by
  obtain ⟨hpos, hlt⟩ := lt_size_of_cell? h
  by_cases hc : c = cell
  · subst hc
    rw [if_pos rfl, cell?, if_pos hpos]
    exact Array.getElem?_setIfInBounds_self_of_lt hlt
  · rw [if_neg hc, cell?, cell?]
    by_cases hpos' : 0 ≤ c.toInt
    · rw [if_pos hpos', if_pos hpos']
      refine Array.getElem?_setIfInBounds_ne fun heq => hc (Int64.toInt.inj ?_)
      omega
    · rw [if_neg hpos', if_neg hpos']

/-! ### Operands -/

theorem resolveCell_eq (m : Machine) (address : Int64) :
    m.resolveCell address =
      match m.cell? (address + m.offset) with
      | some _ => .ok (.cell (address + m.offset).toInt.toNat)
      | none => .error (.memoryOutOfBounds m.ip (address + m.offset)) := by
  unfold resolveCell cell?
  generalize address + m.offset = cell
  by_cases hpos : 0 ≤ cell.toInt
  · by_cases hlt : cell.toInt < m.memory.size
    · have hlt' : cell.toInt.toNat < m.memory.size := by omega
      rw [if_pos ⟨hpos, hlt⟩, if_pos hpos, Array.getElem?_eq_getElem hlt']
    · have hge : m.memory.size ≤ cell.toInt.toNat := by omega
      rw [if_neg fun h => hlt h.2, if_pos hpos, Array.getElem?_eq_none hge]
  · rw [if_neg fun h => hpos h.1, if_neg hpos]

theorem readCell_eq (m : Machine) (address : Int64) :
    m.readCell address =
      match m.cell? (address + m.offset) with
      | some v => .ok v
      | none => .error (.memoryOutOfBounds m.ip (address + m.offset)) := by
  rw [readCell, resolveCell_eq]
  generalize address + m.offset = cell
  cases h : m.cell? cell with
  | none => rfl
  | some v =>
    obtain ⟨hpos, -⟩ := lt_size_of_cell? h
    rw [cell?, if_pos hpos] at h
    show Except.ok (m.memory.getD cell.toInt.toNat 0) = Except.ok v
    rw [Array.getD_eq_getD_getElem?, h]
    rfl

/-- The registers that lowering names are found under their number. -/
theorem resolveRegister_ofNat {m : Machine} {r : Nat} (h : r < m.registers.size)
    (hr : r < RegisterFile.maxSize) : m.resolveRegister (.ofNat r) = .ok (.register r) := by
  unfold resolveRegister
  rw [RegisterFile.toInt_ofNat hr, if_pos ⟨by omega, by omega⟩]
  rfl

theorem readRegister_ofNat {m : Machine} {r : Nat} {v : Int64} (h : m.registers[r]? = some v)
    (hr : r < RegisterFile.maxSize) : m.readRegister (.ofNat r) = .ok v := by
  rw [readRegister, resolveRegister_ofNat (Array.getElem?_eq_some_iff.mp h).1 hr]
  show Except.ok (m.registers.getD r 0) = Except.ok v
  rw [Array.getD_eq_getD_getElem?, h]
  rfl

/-! ### Steps from effects -/

section

variable {m : Machine} {flavor : Flavor} {op : Opcode} {a b c : Int64}

/-- An instruction that proceeds makes its change and is counted. -/
theorem step_of_proceed {change : Change}
    (h : m.opEffect flavor op a b c = .ok (change, m.proceed)) :
    m.step flavor ⟨.known op, a, b, c⟩ = ((m.apply change).advanced, none) := by
  have heffect : m.effect flavor ⟨.known op, a, b, c⟩ = ⟨change, m.proceed⟩ := by
    show Effect.ofExcept (m.opEffect flavor op a b c) = _
    rw [h]
    rfl
  rw [step, heffect]
  cases change with
  | set location v => cases location <;> rfl
  | none | rebase | print => rfl

/-- An instruction that faults is counted, and changes nothing. -/
theorem step_of_fault {f : Fault} (h : m.opEffect flavor op a b c = .error f) :
    m.step flavor ⟨.known op, a, b, c⟩ = (m.counted, some (.error f)) := by
  have heffect : m.effect flavor ⟨.known op, a, b, c⟩ = ⟨.none, .fault f⟩ := by
    show Effect.ofExcept (m.opEffect flavor op a b c) = _
    rw [h]
    rfl
  rw [step, heffect]
  rfl

end

/-! ### Steps among registers -/

section

variable {m : Machine} {r : Nat} {v : Int64}

open LoweredInstruction (load store)

theorem step_load (flavor : Flavor) (address : Int64) (h : r < m.registers.size)
    (hr : r < RegisterFile.maxSize) :
    m.step flavor (load r address).toSource =
      match m.cell? (address + m.offset) with
      | none => (m.counted, some (.error (.memoryOutOfBounds m.ip (address + m.offset))))
      | some v => ((m.setRegister r v).advanced, none) := by
  have heffect : m.opEffect flavor .load (.ofNat r) address 0 =
      match m.cell? (address + m.offset) with
      | none => .error (.memoryOutOfBounds m.ip (address + m.offset))
      | some v => .ok (.set (.register r) v, m.proceed) := by
    rw [opEffect, readCell_eq, resolveRegister_ofNat h hr]
    cases m.cell? (address + m.offset) <;> rfl
  cases hc : m.cell? (address + m.offset) with
  | none => exact step_of_fault (heffect.trans (by rw [hc]))
  | some v => exact step_of_proceed (heffect.trans (by rw [hc]))

theorem step_store (flavor : Flavor) (address : Int64) (h : m.registers[r]? = some v)
    (hr : r < RegisterFile.maxSize) :
    m.step flavor (store address r).toSource =
      match m.cell? (address + m.offset) with
      | none => (m.counted, some (.error (.memoryOutOfBounds m.ip (address + m.offset))))
      | some _ => ((m.setCell (address + m.offset) v).advanced, none) := by
  have heffect : m.opEffect flavor .store address (.ofNat r) 0 =
      match m.cell? (address + m.offset) with
      | none => .error (.memoryOutOfBounds m.ip (address + m.offset))
      | some _ => .ok (.set (.cell (address + m.offset).toInt.toNat) v, m.proceed) := by
    rw [opEffect, resolveCell_eq, readRegister_ofNat h hr]
    cases m.cell? (address + m.offset) <;> rfl
  cases hc : m.cell? (address + m.offset) with
  | none => exact step_of_fault (heffect.trans (by rw [hc]))
  | some w => exact step_of_proceed (heffect.trans (by rw [hc]))

theorem step_register_binary (op : Binary) {rx ry : Nat} {x y : Int64}
    (hx : m.registers[rx]? = some x) (hy : m.registers[ry]? = some y)
    (h : r < m.registers.size) (hrx : rx < RegisterFile.maxSize)
    (hry : ry < RegisterFile.maxSize) (hr : r < RegisterFile.maxSize) :
    m.step .register ⟨.known (.binary op), .ofNat r, .ofNat ry, .ofNat rx⟩ =
      match op.apply? x y with
      | none => (m.counted, some (.error (.divisionByZero m.ip)))
      | some v => ((m.setRegister r v).advanced, none) := by
  have hx' : m.read .register (.ofNat rx) = .ok x := readRegister_ofNat hx hrx
  have hy' : m.read .register (.ofNat ry) = .ok y := readRegister_ofNat hy hry
  have hr' : m.resolve .register (.ofNat r) = .ok (.register r) := resolveRegister_ofNat h hr
  have heffect : m.opEffect .register (.binary op) (.ofNat r) (.ofNat ry) (.ofNat rx) =
      match op.apply? x y with
      | none => .error (.divisionByZero m.ip)
      | some v => .ok (.set (.register r) v, m.proceed) := by
    simp only [opEffect, hx', hy', hr', compute, Bind.bind, Except.bind]
    cases op.apply? x y <;> rfl
  cases hv : op.apply? x y with
  | none => exact step_of_fault (by rw [heffect, hv])
  | some v => exact step_of_proceed (by rw [heffect, hv])

theorem step_register_not {rs : Nat} {x : Int64} (hx : m.registers[rs]? = some x)
    (h : r < m.registers.size) (hrs : rs < RegisterFile.maxSize) (hr : r < RegisterFile.maxSize) :
    m.step .register ⟨.known .not, .ofNat r, .ofNat rs, 0⟩ =
      ((m.setRegister r (ofBool (x == 0))).advanced, none) := by
  have hx' : m.read .register (.ofNat rs) = .ok x := readRegister_ofNat hx hrs
  have hr' : m.resolve .register (.ofNat r) = .ok (.register r) := resolveRegister_ofNat h hr
  have heffect : m.opEffect .register .not (.ofNat r) (.ofNat rs) 0 =
      .ok (.set (.register r) (ofBool (x == 0)), m.proceed) := by
    rw [opEffect, hx', hr']
    rfl
  exact step_of_proceed heffect

theorem step_register_constant (v : Int64) (h : r < m.registers.size)
    (hr : r < RegisterFile.maxSize) :
    m.step .register ⟨.known .afc, .ofNat r, v, 0⟩ = ((m.setRegister r v).advanced, none) := by
  have hr' : m.resolve .register (.ofNat r) = .ok (.register r) := resolveRegister_ofNat h hr
  have heffect : m.opEffect .register .afc (.ofNat r) v 0 =
      .ok (.set (.register r) v, m.proceed) := by
    rw [opEffect, hr']
    rfl
  exact step_of_proceed heffect

/-- A conditional jump whose condition is not zero goes on with the next
instruction. -/
theorem step_register_branch (target : Int64) (h : m.registers[r]? = some v)
    (hr : r < RegisterFile.maxSize) (hv : v ≠ 0) :
    m.step .register ⟨.known .jmf, .ofNat r, target, 0⟩ = (m.advanced, none) := by
  have hx' : m.read .register (.ofNat r) = .ok v := readRegister_ofNat h hr
  have heffect : m.opEffect .register .jmf (.ofNat r) target 0 = .ok (.none, m.proceed) := by
    simp only [opEffect, hx', Bind.bind, Except.bind, if_neg hv]
    rfl
  exact step_of_proceed heffect

end

/-! ### Steps among cells -/

section

variable (m : Machine) (a b c : Int64)

theorem step_memory_binary (op : Binary) :
    m.step .memory ⟨.known (.binary op), a, b, c⟩ =
      match m.cell? (b + m.offset) with
      | none => (m.counted, some (.error (.memoryOutOfBounds m.ip (b + m.offset))))
      | some x =>
        match m.cell? (c + m.offset) with
        | none => (m.counted, some (.error (.memoryOutOfBounds m.ip (c + m.offset))))
        | some y =>
          match op.apply? x y with
          | none => (m.counted, some (.error (.divisionByZero m.ip)))
          | some v =>
            match m.cell? (a + m.offset) with
            | none => (m.counted, some (.error (.memoryOutOfBounds m.ip (a + m.offset))))
            | some _ => ((m.setCell (a + m.offset) v).advanced, none) := by
  have heffect : m.opEffect .memory (.binary op) a b c = (do
      let x ← m.readCell b
      let y ← m.readCell c
      let v ← m.compute op x y
      let destination ← m.resolveCell a
      return (.set destination v, m.proceed)) := rfl
  simp only [readCell_eq, resolveCell_eq, compute, Bind.bind, Except.bind] at heffect
  cases hx : m.cell? (b + m.offset) with
  | none => exact step_of_fault (by rw [heffect, hx])
  | some x =>
    cases hy : m.cell? (c + m.offset) with
    | none => exact step_of_fault (by rw [heffect, hx, hy])
    | some y =>
      simp only [hx, hy] at heffect ⊢
      cases hv : op.apply? x y with
      | none => exact step_of_fault (by rw [heffect, hv])
      | some v =>
        simp only [hv] at heffect ⊢
        cases ha : m.cell? (a + m.offset) with
        | none => exact step_of_fault (by rw [heffect, ha])
        | some w => exact step_of_proceed (by rw [heffect, ha]; rfl)

theorem step_memory_not :
    m.step .memory ⟨.known .not, a, b, c⟩ =
      match m.cell? (a + m.offset) with
      | none => (m.counted, some (.error (.memoryOutOfBounds m.ip (a + m.offset))))
      | some x => ((m.setCell (a + m.offset) (ofBool (x == 0))).advanced, none) := by
  have heffect : m.opEffect .memory .not a b c = (do
      let x ← m.readCell a
      let destination ← m.resolveCell a
      return (.set destination (ofBool (x == 0)), m.proceed)) := rfl
  rw [readCell_eq, resolveCell_eq] at heffect
  cases hx : m.cell? (a + m.offset) with
  | none => exact step_of_fault (by rw [heffect, hx]; rfl)
  | some x => exact step_of_proceed (by rw [heffect, hx]; rfl)

theorem step_memory_constant :
    m.step .memory ⟨.known .afc, a, b, c⟩ =
      match m.cell? (a + m.offset) with
      | none => (m.counted, some (.error (.memoryOutOfBounds m.ip (a + m.offset))))
      | some _ => ((m.setCell (a + m.offset) b).advanced, none) := by
  have heffect : m.opEffect .memory .afc a b c = (do
      let destination ← m.resolveCell a
      return (.set destination b, m.proceed)) := rfl
  rw [resolveCell_eq] at heffect
  cases hx : m.cell? (a + m.offset) with
  | none => exact step_of_fault (by rw [heffect, hx]; rfl)
  | some x => exact step_of_proceed (by rw [heffect, hx]; rfl)

theorem step_memory_copy :
    m.step .memory ⟨.known .cop, a, b, c⟩ =
      match m.cell? (b + m.offset) with
      | none => (m.counted, some (.error (.memoryOutOfBounds m.ip (b + m.offset))))
      | some x =>
        match m.cell? (a + m.offset) with
        | none => (m.counted, some (.error (.memoryOutOfBounds m.ip (a + m.offset))))
        | some _ => ((m.setCell (a + m.offset) x).advanced, none) := by
  have heffect : m.opEffect .memory .cop a b c = (do
      let x ← m.readCell b
      let destination ← m.resolveCell a
      return (.set destination x, m.proceed)) := rfl
  rw [readCell_eq, resolveCell_eq] at heffect
  cases hx : m.cell? (b + m.offset) with
  | none => exact step_of_fault (by rw [heffect, hx]; rfl)
  | some x =>
    cases ha : m.cell? (a + m.offset) with
    | none => exact step_of_fault (by rw [heffect, hx, ha]; rfl)
    | some w => exact step_of_proceed (by rw [heffect, hx, ha]; rfl)

/-- A conditional jump on a cell, if the cell does not make it jump. -/
theorem step_memory_branch (h : m.cell? (a + m.offset) ≠ some 0) :
    m.step .memory ⟨.known .jmf, a, b, c⟩ =
      match m.cell? (a + m.offset) with
      | none => (m.counted, some (.error (.memoryOutOfBounds m.ip (a + m.offset))))
      | some _ => (m.advanced, none) := by
  have heffect : m.opEffect .memory .jmf a b c = (do
      let condition ← m.readCell a
      return (.none, if condition = 0 then m.jump b else m.proceed)) := rfl
  rw [readCell_eq] at heffect
  cases hx : m.cell? (a + m.offset) with
  | none => exact step_of_fault (by rw [heffect, hx]; rfl)
  | some x =>
    have hne : x ≠ 0 := by
      rintro rfl
      exact h hx
    have hproceed : m.opEffect .memory .jmf a b c = .ok (.none, m.proceed) := by
      rw [heffect, hx]
      simp only [Bind.bind, Except.bind, if_neg hne]
      rfl
    exact step_of_proceed hproceed

end

/-! ### Steps that do not depend on the flavor -/

section

variable (m : Machine) (flavor : Flavor) (a b c : Int64)

theorem step_push :
    m.step flavor ⟨.known .push, a, b, c⟩ =
      ({ m with offset := m.offset + a }.advanced, none) := rfl

theorem step_pop :
    m.step flavor ⟨.known .pop, a, b, c⟩ =
      ({ m with offset := m.offset - a }.advanced, none) := rfl

theorem step_print :
    m.step flavor ⟨.known .pri, a, b, c⟩ =
      match m.cell? (a + m.offset) with
      | none => (m.counted, some (.error (.memoryOutOfBounds m.ip (a + m.offset))))
      | some v => ({ m with output := m.output.push v }.advanced, none) := by
  have heffect : m.opEffect flavor .pri a b c = (do
      let x ← m.readCell a
      return (.print x, m.proceed)) := rfl
  rw [readCell_eq] at heffect
  cases hx : m.cell? (a + m.offset) with
  | none => exact step_of_fault (by rw [heffect, hx]; rfl)
  | some x => exact step_of_proceed (by rw [heffect, hx]; rfl)

/-- A load that names any register at all: it reads the cell first. -/
theorem step_explicit_load :
    m.step flavor ⟨.known .load, a, b, c⟩ =
      match m.cell? (b + m.offset) with
      | none => (m.counted, some (.error (.memoryOutOfBounds m.ip (b + m.offset))))
      | some v =>
        if 0 ≤ a.toInt ∧ a.toInt < m.registers.size then
          ((m.setRegister a.toInt.toNat v).advanced, none)
        else (m.counted, some (.error (.registerOutOfBounds m.ip a))) := by
  have heffect : m.opEffect flavor .load a b c = (do
      let x ← m.readCell b
      let destination ← m.resolveRegister a
      return (.set destination x, m.proceed)) := rfl
  rw [readCell_eq, resolveRegister] at heffect
  cases hx : m.cell? (b + m.offset) with
  | none => exact step_of_fault (by rw [heffect, hx]; rfl)
  | some x =>
    by_cases ha : 0 ≤ a.toInt ∧ a.toInt < m.registers.size
    · simp only [if_pos ha] at heffect ⊢
      exact step_of_proceed (by rw [heffect, hx]; rfl)
    · simp only [if_neg ha] at heffect ⊢
      exact step_of_fault (by rw [heffect, hx]; rfl)

end

/-! ### Steps that go through

What has happened if an instruction did not fault, whatever its operands are. -/

/-- Whatever the effect is, unless it is a fault, it has the property `Q`. -/
def Yields (Q : Change → Verdict → Prop) (e : Except Fault (Change × Verdict)) : Prop :=
  ∀ change verdict, e = .ok (change, verdict) → Q change verdict

theorem yields_return {Q : Change → Verdict → Prop} {change : Change} {verdict : Verdict}
    (h : Q change verdict) : Yields Q (pure (change, verdict)) := by
  intro _ _ heq
  cases heq
  exact h

theorem yields_bind {α : Type} {Q : Change → Verdict → Prop} {e : Except Fault α}
    {f : α → Except Fault (Change × Verdict)} (h : ∀ x, e = .ok x → Yields Q (f x)) :
    Yields Q (e >>= f) := by
  cases e with
  | error fault =>
    intro _ _ heq
    cases heq
  | ok x => exact h x rfl

/-- What an operation may do that does not fault: at most one thing, and only a call jumps
after it. -/
inductive Performs (m : Machine) (op : Opcode) : Change → Verdict → Prop
  /-- It changes nothing, and goes on anywhere or nowhere. -/
  | steer (verdict : Verdict) : Performs m op .none verdict
  /-- It moves the frame. -/
  | rebase (offset : Int64) : Performs m op (.rebase offset) m.proceed
  /-- It prints. -/
  | print (v : Int64) : Performs m op (.print v) m.proceed
  /-- It writes where an operand says. -/
  | set (flavor : Flavor) (operand : Int64) {location : Location} (v : Int64) :
      m.resolve flavor operand = .ok location → Performs m op (.set location v) m.proceed
  /-- It writes where the frame begins, and jumps. -/
  | call {location : Location} (v : Int64) (verdict : Verdict) :
      op = .call → m.resolveCell 0 = .ok location → Performs m op (.set location v) verdict

theorem yields_performs (m : Machine) (flavor : Flavor) (op : Opcode) (a b c : Int64) :
    Yields (m.Performs op) (m.opEffect flavor op a b c) := by
  cases op with
  | binary op =>
    exact yields_bind fun x _ => yields_bind fun y _ => yields_bind fun v _ =>
      yields_bind fun destination hd => yields_return (.set flavor a v hd)
  | not | cop =>
    exact yields_bind fun x _ => yields_bind fun destination hd =>
      yields_return (.set flavor a _ hd)
  | load =>
    exact yields_bind fun x _ => yields_bind fun destination hd =>
      yields_return (.set .register a x hd)
  | store =>
    exact yields_bind fun x _ => yields_bind fun destination hd =>
      yields_return (.set .memory a x hd)
  | afc => exact yields_bind fun destination hd => yields_return (.set flavor a b hd)
  | call => exact yields_bind fun destination hd => yields_return (.call _ _ rfl hd)
  | pri => exact yields_bind fun x _ => yields_return (.print x)
  | push | pop => exact yields_return (.rebase _)
  | nop | jmp => exact yields_return (.steer _)
  | jmf | ret => exact yields_bind fun x _ => yields_return (.steer _)

section

variable {m m' : Machine} {flavor : Flavor} {op : Opcode} {a b c : Int64}

/-- An instruction that goes through and whose effects all proceed has made a change
they allow. -/
theorem of_step_eq_none {Q : Change → Prop}
    (hQ : Yields (fun change verdict => verdict = m.proceed ∧ Q change)
      (m.opEffect flavor op a b c))
    (h : m.step flavor ⟨.known op, a, b, c⟩ = (m', none)) :
    ∃ change, Q change ∧ m' = (m.apply change).advanced := by
  cases heffect : m.opEffect flavor op a b c with
  | error f =>
    rw [step_of_fault heffect] at h
    cases h
  | ok p =>
    obtain ⟨change, verdict⟩ := p
    obtain ⟨rfl, hchange⟩ := hQ change verdict heffect
    rw [step_of_proceed heffect] at h
    cases h
    exact ⟨change, hchange, rfl⟩

theorem of_resolveRegister {location : Location} (h : m.resolveRegister a = .ok location) :
    0 ≤ a.toInt ∧ a.toInt.toNat < m.registers.size ∧ location = .register a.toInt.toNat := by
  unfold resolveRegister at h
  split at h
  · cases h
    exact ⟨by omega, by omega, rfl⟩
  · cases h

theorem of_readRegister {v : Int64} (h : m.readRegister a = .ok v) :
    0 ≤ a.toInt ∧ m.registers[a.toInt.toNat]? = some v := by
  unfold readRegister at h
  cases hr : m.resolveRegister a with
  | error f =>
    rw [hr] at h
    cases h
  | ok location =>
    obtain ⟨hpos, hlt, rfl⟩ := of_resolveRegister hr
    rw [hr] at h
    cases h
    refine ⟨hpos, ?_⟩
    show _ = some (m.registers.getD a.toInt.toNat 0)
    rw [Array.getElem?_eq_getElem hlt, Array.getD_eq_getD_getElem?, Array.getElem?_eq_getElem hlt]
    rfl

theorem of_step_load (h : m.step flavor ⟨.known .load, a, b, c⟩ = (m', none)) :
    ∃ v, m.cell? (b + m.offset) = some v ∧ 0 ≤ a.toInt ∧ a.toInt.toNat < m.registers.size ∧
      m' = (m.setRegister a.toInt.toNat v).advanced := by
  rw [step_explicit_load] at h
  cases hx : m.cell? (b + m.offset) with
  | none =>
    rw [hx] at h
    cases h
  | some v =>
    simp only [hx] at h
    split at h
    · rename_i ha
      cases h
      exact ⟨v, rfl, ha.1, by omega, rfl⟩
    · cases h

theorem of_step_store (h : m.step flavor ⟨.known .store, a, b, c⟩ = (m', none)) :
    ∃ v w, 0 ≤ b.toInt ∧ m.registers[b.toInt.toNat]? = some v ∧
      m.cell? (a + m.offset) = some w ∧ m' = (m.setCell (a + m.offset) v).advanced := by
  have hQ : Yields (fun change verdict => verdict = m.proceed ∧
      ∃ v w, 0 ≤ b.toInt ∧ m.registers[b.toInt.toNat]? = some v ∧
        m.cell? (a + m.offset) = some w ∧
        change = .set (.cell (a + m.offset).toInt.toNat) v) (m.opEffect flavor .store a b c) := by
    refine yields_bind fun v hv => yields_bind fun destination hd => yields_return ⟨rfl, ?_⟩
    obtain ⟨hpos, hreg⟩ := of_readRegister hv
    rw [resolveCell_eq] at hd
    cases hcell : m.cell? (a + m.offset) with
    | none =>
      rw [hcell] at hd
      cases hd
    | some w =>
      rw [hcell] at hd
      cases hd
      exact ⟨v, w, hpos, hreg, rfl, rfl⟩
  obtain ⟨_, ⟨v, w, hpos, hreg, hcell, rfl⟩, rfl⟩ := of_step_eq_none hQ h
  exact ⟨v, w, hpos, hreg, hcell, rfl⟩

/-- The last thing a computation does is to give a register its value. -/
theorem yields_set_register (v : Int64) :
    Yields (fun change verdict => verdict = m.proceed ∧
        ∃ v, 0 ≤ a.toInt ∧ change = .set (.register a.toInt.toNat) v)
      (do let destination ← m.resolve .register a; return (.set destination v, m.proceed)) := by
  refine yields_bind fun destination hd => yields_return ⟨rfl, v, ?_⟩
  obtain ⟨hpos, -, rfl⟩ := of_resolveRegister hd
  exact ⟨hpos, rfl⟩

theorem of_step_compute
    (hop : (∃ op', op = .binary op') ∨ op = .not ∨ op = .afc ∨ op = .cop)
    (h : m.step .register ⟨.known op, a, b, c⟩ = (m', none)) :
    ∃ v, 0 ≤ a.toInt ∧ m' = (m.setRegister a.toInt.toNat v).advanced := by
  have hQ : Yields (fun change verdict => verdict = m.proceed ∧
      ∃ v, 0 ≤ a.toInt ∧ change = .set (.register a.toInt.toNat) v)
      (m.opEffect .register op a b c) := by
    rcases hop with ⟨op', rfl⟩ | rfl | rfl | rfl
    · exact yields_bind fun x _ => yields_bind fun y _ => yields_bind fun v _ =>
        yields_set_register v
    · exact yields_bind fun x _ => yields_set_register _
    · exact yields_set_register b
    · exact yields_bind fun x _ => yields_set_register x
  obtain ⟨_, ⟨v, hpos, rfl⟩, rfl⟩ := of_step_eq_none hQ h
  exact ⟨v, hpos, rfl⟩

/-- A conditional jump changes nothing but the instruction pointer, whether or not it
is taken. -/
theorem of_step_branch (h : m.step flavor ⟨.known .jmf, a, b, c⟩ = (m', none)) :
    ∃ ip, m' = { m.counted with ip := ip } := by
  have heffect : m.effect flavor ⟨.known .jmf, a, b, c⟩ = .ofExcept (do
      let condition ← m.read flavor a
      return (.none, if condition = 0 then m.jump b else m.proceed)) := rfl
  unfold step at h
  rw [heffect] at h
  cases hx : m.read flavor a with
  | error f =>
    rw [hx] at h
    cases h
  | ok x =>
    rw [hx] at h
    simp only [Bind.bind, Except.bind, Pure.pure, Except.pure, Effect.ofExcept] at h
    split at h
    · cases h
      exact ⟨_, rfl⟩
    · cases h
    · cases h

end

/-! ### Registers that hold the value of a cell -/

/-- A register holds the value of a cell, which memory has. -/
def Holds (m : Machine) (r : Nat) (cell : Int64) : Prop :=
  ∃ v, m.registers[r]? = some v ∧ m.cell? cell = some v

section

variable {m : Machine} {r q : Nat} {cell other v w : Int64}

@[simp] theorem holds_advanced : m.advanced.Holds r cell ↔ m.Holds r cell := Iff.rfl

theorem Holds.setRegister_of_ne (h : m.Holds q cell) (hq : q ≠ r) (v : Int64) :
    (m.setRegister r v).Holds q cell := by
  obtain ⟨w, hw, hcell⟩ := h
  exact ⟨w, by rw [registers_setRegister_of_ne m hq, hw], hcell⟩

theorem holds_setRegister_self (hr : r < m.registers.size) (h : m.cell? cell = some v) :
    (m.setRegister r v).Holds r cell :=
  ⟨v, registers_setRegister_self hr v, h⟩

theorem Holds.setCell_of_ne (h : m.Holds q cell) (hne : cell ≠ other)
    (hother : m.cell? other = some w) (v : Int64) : (m.setCell other v).Holds q cell := by
  obtain ⟨u, hu, hcell⟩ := h
  exact ⟨u, hu, by rw [cell?_setCell hother, if_neg hne, hcell]⟩

theorem holds_setCell_self (hcell : m.cell? cell = some w) (hr : m.registers[r]? = some v) :
    (m.setCell cell v).Holds r cell :=
  ⟨v, hr, by rw [cell?_setCell hcell, if_pos rfl]⟩

end

end Machine
end CrossAssembler
