import CrossAssembler.Proofs.Machine.Limit
import Mathlib.Control.Monad.Basic

/-!
# Runs end, and stay within bounds

A run is a loop that goes on until the program is left, the limit is reached or an instruction
ends it.  Nothing about the program makes it end; the limit does, since every turn counts.

The machine is lenient: a place that does not exist is read as zero and written nowhere, numbers
grow without bound, and every operation has an effect.  `Checked` executes the same loop
strictly.  It refuses an access to a cell, a register or an instruction that does not exist, a
step count or an instruction pointer that does not fit in a word, a difference below the least
cell value, and an operation in a place where it should not come up.  Nothing is refused in any
run, so the leniency is never made use of.

## Main definitions

* `Checked.opEffect`, `Checked.step` — the effect of an operation and of an instruction, with
  every access and every sum checked.
* `Checked.turn`, `Checked.Runs` — one turn of the loop, and the loop, which has no bound but
  what its turns say.
* `Precedes` — what the past of a machine leaves unchanged.

## Main results

* `minValue_lt_div` — a quotient that leaves a remainder is not the least value.
* `Checked.step_eq` — no instruction is refused.
* `Checked.runs_iff` — the loop ends, in one way, and this is the run.
* `runs_end_within_bounds` — so it does, and the machine keeps its size and its output.
-/

namespace CrossAssembler

/-- **A quotient that leaves a remainder is not the least value**, so that one can be taken off
it: to leave a remainder the divisor must be at least two, or zero. -/
theorem minValue_lt_div {x y : Int64} (h : x % y ≠ 0) :
    Int64.minValue.toInt < (x / y).toInt := by
  have hmod : x.toInt.tmod y.toInt ≠ 0 := by
    rw [← Int64.toInt_mod]
    exact fun heq => h (Int64.toInt_inj.mp heq)
  have hone : y.toInt.natAbs ≠ 1 := by
    intro hone
    rcases Int.natAbs_eq_iff.mp hone with hy | hy <;> rw [hy] at hmod <;> simp at hmod
  have hneg : y ≠ -1 := by
    rintro rfl
    exact hone rfl
  have hquotient : (x.toInt.tdiv y.toInt).natAbs ≤ x.toInt.natAbs / 2 := by
    rw [Int.natAbs_tdiv]
    show x.toInt.natAbs / y.toInt.natAbs ≤ _
    by_cases hzero : y.toInt.natAbs = 0
    · rw [hzero, Nat.div_zero]
      exact Nat.zero_le _
    · exact Nat.div_le_div_left (by omega) (by decide)
  have hlower := x.le_toInt
  have hupper := x.toInt_lt
  rw [Int64.toInt_div_of_ne_right x y hneg, Int64.toInt_minValue]
  omega

namespace Machine

/-! ### The checked machine -/

/-- There is such a location. -/
def Has (m : Machine) : Location → Prop
  | .cell index => index < m.memory.size
  | .register index => index < m.registers.size

instance (m : Machine) : (location : Location) → Decidable (m.Has location)
  | .cell index => inferInstanceAs (Decidable (index < m.memory.size))
  | .register index => inferInstanceAs (Decidable (index < m.registers.size))

/-- A computation that may fault, and may be refused altogether. -/
abbrev Attempt (α : Type) : Type := ExceptT Fault Option α

namespace Checked

/-- Nothing can be said about what follows. -/
def refused {α : Type} : Attempt α := ExceptT.mk none

/-- The number after `n`, if it fits in a word. -/
def succ? (n : Nat) : Option Nat := if n + 1 < UInt64.size then some (n + 1) else none

/-- The value before `q`, unless `q` is the least. -/
def pred? (q : Int64) : Option Int64 :=
  if q.toInt - 1 < Int64.minValue.toInt then none else some (q - 1)

/-- `CrossAssembler.floorDiv`, checked.  There must be something to divide by. -/
def floorDiv (x y : Int64) : Option Int64 :=
  if y = 0 then none
  else if x % y ≠ 0 ∧ (decide (x < 0) != decide (y < 0)) then pred? (x / y)
  else some (x / y)

/-- The value a location holds, if there is such a location. -/
def value (m : Machine) : Location → Option Int64
  | .cell index => m.memory[index]?
  | .register index => m.registers[index]?

/-- `Machine.read`, checked. -/
def read (m : Machine) (flavor : Flavor) (operand : Int64) : Attempt Int64 := do
  let location ← m.resolve flavor operand
  value m location

/-- `Machine.compute`, checked.  It is asked for binary operations only. -/
def compute (m : Machine) (op : Opcode) (x y : Int64) : Attempt Int64 :=
  match op with
  | .binary .div => if y = 0 then throw (.divisionByZero m.ip) else liftM (floorDiv x y)
  | .binary op => liftM (m.compute op x y)
  | _ => refused

/-- `Machine.opEffect`, checked.  The address of the next instruction is computed first, whether
or not it is needed, and a NOP does not get here. -/
def opEffect (m : Machine) (flavor : Flavor) (op : Opcode) (a b c : Int64) :
    Attempt (Change × Verdict) := do
  let next ← succ? m.ip
  match op with
  | .nop => refused
  | .binary _ =>
    let x ← read m flavor (match flavor with | .memory => b | .register => c)
    let y ← read m flavor (match flavor with | .memory => c | .register => b)
    let v ← compute m op x y
    let destination ← m.resolve flavor a
    return (.set destination v, .next next)
  | .not =>
    let x ← read m flavor (match flavor with | .memory => a | .register => b)
    let destination ← m.resolve flavor a
    return (.set destination (ofBool (x == 0)), .next next)
  | .afc =>
    let destination ← m.resolve flavor a
    return (.set destination b, .next next)
  | .cop =>
    let x ← read m flavor b
    let destination ← m.resolve flavor a
    return (.set destination x, .next next)
  | .jmf =>
    let condition ← read m flavor a
    return (.none, if condition = 0 then m.jump b else .next next)
  | .load =>
    let x ← read m .memory b
    let destination ← m.resolveRegister a
    return (.set destination x, .next next)
  | .store =>
    let x ← read m .register b
    let destination ← m.resolveCell a
    return (.set destination x, .next next)
  | .jmp => return (.none, m.jump a)
  | .pri =>
    let x ← read m .memory a
    return (.print x, .next next)
  | .push => return (.rebase (m.offset + a), .next next)
  | .pop => return (.rebase (m.offset - a), .next next)
  | .call =>
    let destination ← m.resolveCell 0
    return (.set destination (Int64.ofNat next), m.jump a)
  | .ret =>
    let target ← read m .memory 0
    return (.none, m.jump target)

/-- `Machine.apply`, checked. -/
def apply (m : Machine) (change : Change) : Option Machine :=
  match change with
  | .set location _ => if m.Has location then some (m.apply change) else none
  | .none | .rebase _ | .print _ => some (m.apply change)

/-- The step that an effect comes to on a machine that has counted it. -/
def conclude (m : Machine) : Except Fault (Change × Verdict) →
    Option (Machine × Option (Except Fault Halt))
  | .error f => some (m, some (.error f))
  | .ok (change, verdict) => do
    let m ← apply m change
    match verdict with
    | .next ip => return ({ m with ip := ip }, none)
    | .halt reason => return (m, some (.ok reason))
    | .fault reason => return (m, some (.error reason))

/-- `Machine.step`, checked.  A NOP and a word that names no operation halt the run before
anything is executed. -/
def step (m : Machine) (flavor : Flavor) (i : SourceInstruction) :
    Option (Machine × Option (Except Fault Halt)) := do
  let steps ← succ? m.steps
  let counted := { m with steps := steps }
  match i.op with
  | .unrecognized word => return (counted, some (.ok (.unknownInstruction m.ip word)))
  | .known op =>
    if op = .nop then return (counted, some (.ok (.nop m.ip)))
    else
      let effect ← (opEffect m flavor op i.a i.b i.c).run
      conclude counted effect

/-- One turn of the loop: the machine after it, and the end of the run if it ends there. -/
def turn (program : Array SourceInstruction) (flavor : Flavor) (limit : Nat) (m : Machine) :
    Option (Machine × Option (Except Fault Halt)) :=
  if m.ip < program.size then
    if limit ≤ m.steps then some (m, some (.error (.iterationLimit limit)))
    else do
      let i ← program[m.ip]?
      step m flavor i
  else some (m, some (.ok .finished))

/-- The loop ends, without a turn that is refused, in the given machine and outcome. -/
inductive Runs (program : Array SourceInstruction) (flavor : Flavor) (limit : Nat) :
    Machine → Machine × Except Fault Halt → Prop
  /-- This turn is the last. -/
  | last {m m' : Machine} {e : Except Fault Halt} :
      turn program flavor limit m = some (m', some e) → Runs program flavor limit m (m', e)
  /-- Another turn follows. -/
  | next {m m' : Machine} {r : Machine × Except Fault Halt} :
      turn program flavor limit m = some (m', none) → Runs program flavor limit m' r →
      Runs program flavor limit m r

/-! ### No instruction is refused -/

/-- The attempt is not refused, and comes to what it should. -/
def Gives {α : Type} (attempt : Attempt α) (e : Except Fault α) : Prop := attempt.run = some e

section

variable {α β : Type} {m : Machine} {flavor : Flavor} {a : Int64}

theorem gives_pure (x : α) : Gives (pure x) (pure x) := rfl

theorem gives_liftM (e : Except Fault α) : Gives (liftM e) e := rfl

theorem gives_bind {attempt : Attempt α} {e : Except Fault α} {f : α → Attempt β}
    {g : α → Except Fault β} (h : Gives attempt e) (hf : ∀ x, e = .ok x → Gives (f x) (g x)) :
    Gives (attempt >>= f) (e >>= g) := by
  have hbind : (attempt >>= f).run = attempt.run >>= fun e => ExceptT.bindCont f e := rfl
  rw [Gives, hbind, show attempt.run = some e from h]
  cases e with
  | error fault => rfl
  | ok x => exact hf x rfl

theorem has_of_resolveCell {location : Location} (h : m.resolveCell a = .ok location) :
    m.Has location := by
  rw [resolveCell] at h
  split at h
  · rename_i hin
    cases h
    show (a + m.offset).toInt.toNat < m.memory.size
    omega
  · cases h

theorem has_of_resolveRegister {location : Location} (h : m.resolveRegister a = .ok location) :
    m.Has location := by
  obtain ⟨-, hlt, rfl⟩ := of_resolveRegister h
  exact hlt

/-- A location that an operand names exists. -/
theorem has_of_resolve {location : Location} (h : m.resolve flavor a = .ok location) :
    m.Has location := by
  cases flavor with
  | memory => exact has_of_resolveCell h
  | register => exact has_of_resolveRegister h

/-- The value of a location that exists is read without looking past an end. -/
theorem value_of_has {location : Location} (h : m.Has location) :
    value m location = some (m.value location) := by
  cases location with
  | cell index =>
    have hin : index < m.memory.size := h
    simp [value, Machine.value, hin]
  | register index =>
    have hin : index < m.registers.size := h
    simp [value, Machine.value, hin]

theorem gives_read : Gives (read m flavor a) (m.read flavor a) := by
  unfold read Machine.read
  cases h : m.resolve flavor a with
  | error f => rfl
  | ok location =>
    show (value m location).map Except.ok = some (.ok (m.value location))
    rw [value_of_has (has_of_resolve h)]
    rfl

/-- To divide by something else than zero is not refused. -/
theorem floorDiv_eq {x y : Int64} (hy : y ≠ 0) :
    floorDiv x y = some (CrossAssembler.floorDiv x y) := by
  unfold floorDiv CrossAssembler.floorDiv
  rw [if_neg hy]
  split
  · rename_i hcut
    have hlt := minValue_lt_div hcut.1
    rw [pred?, if_neg (by omega)]
  · rfl

theorem gives_compute (op : Binary) (x y : Int64) :
    Gives (compute m (.binary op) x y) (m.compute op x y) := by
  cases op with
  | div =>
    by_cases hy : y = 0
    · simp only [compute, Machine.compute, Binary.apply?, if_pos hy]
      rfl
    · simp only [compute, Machine.compute, Binary.apply?, if_neg hy, floorDiv_eq hy]
      rfl
  | _ => rfl

theorem gives_opEffect {op : Opcode} (hop : op ≠ .nop) (b c : Int64)
    (hip : m.ip + 1 < UInt64.size) :
    Gives (opEffect m flavor op a b c) (m.opEffect flavor op a b c) := by
  unfold opEffect
  rw [succ?, if_pos hip]
  cases op with
  | nop => exact absurd rfl hop
  | binary op =>
    exact gives_bind gives_read fun x _ => gives_bind gives_read fun y _ =>
      gives_bind (gives_compute op x y) fun v _ =>
      gives_bind (gives_liftM _) fun destination _ => gives_pure _
  | not | cop | load | store =>
    exact gives_bind gives_read fun x _ => gives_bind (gives_liftM _) fun destination _ =>
      gives_pure _
  | afc | call => exact gives_bind (gives_liftM _) fun destination _ => gives_pure _
  | jmf | pri | ret => exact gives_bind gives_read fun x _ => gives_pure _
  | jmp | push | pop => exact gives_pure _

/-- What an operation changes exists, also on the machine that has counted it. -/
theorem apply_eq {op : Opcode} {change : Change} {verdict : Verdict}
    (h : m.Performs op change verdict) :
    apply m.counted change = some (m.counted.apply change) := by
  cases h with
  | steer | rebase | print => rfl
  | set flavor operand v hd => exact if_pos (has_of_resolve hd)
  | call v verdict _ hd => exact if_pos (has_of_resolveCell hd)

/-- Concluding from the effect of an operation is not refused. -/
theorem conclude_eq (m : Machine) (flavor : Flavor) (op : Opcode) (a b c : Int64) :
    conclude m.counted (m.opEffect flavor op a b c) =
      some (m.step flavor ⟨.known op, a, b, c⟩) := by
  have heffect : m.effect flavor ⟨.known op, a, b, c⟩ =
      .ofExcept (m.opEffect flavor op a b c) := rfl
  rw [Machine.step, heffect]
  cases he : m.opEffect flavor op a b c with
  | error f => rfl
  | ok p =>
    obtain ⟨change, verdict⟩ := p
    rw [conclude, apply_eq (yields_performs m flavor op a b c change verdict he)]
    cases verdict <;> rfl

/-- **No instruction is refused** where there is room to count it and to go on. -/
theorem step_eq (i : SourceInstruction) (hip : m.ip + 1 < UInt64.size)
    (hsteps : m.steps + 1 < UInt64.size) : step m flavor i = some (m.step flavor i) := by
  unfold step
  rw [succ?, if_pos hsteps]
  obtain ⟨op, a, b, c⟩ := i
  cases op with
  | unrecognized word => rfl
  | known op =>
    by_cases hop : op = .nop
    · subst hop
      rfl
    · have hgives : (opEffect m flavor op a b c).run = some (m.opEffect flavor op a b c) :=
        gives_opEffect hop b c hip
      simp only [hop, hgives]
      exact conclude_eq m flavor op a b c

end

/-! ### The loop -/

section

variable {program : Array SourceInstruction} {flavor : Flavor} {limit : Nat} {m : Machine}

theorem turn_of_getElem?_eq_none (hi : program[m.ip]? = none) :
    turn program flavor limit m = some (m, some (.ok .finished)) := by
  have hge : ¬ m.ip < program.size := Nat.not_lt.mpr (Array.getElem?_eq_none_iff.mp hi)
  rw [turn, if_neg hge]

theorem turn_of_limit_le {i : SourceInstruction} (hi : program[m.ip]? = some i)
    (hle : limit ≤ m.steps) :
    turn program flavor limit m = some (m, some (.error (.iterationLimit limit))) := by
  have hlt : m.ip < program.size := (Array.getElem?_eq_some_iff.mp hi).1
  rw [turn, if_pos hlt, if_pos hle]

/-- A turn that executes an instruction is not refused: the instruction pointer is below the
size of the program, and the step count below the limit. -/
theorem turn_of_lt_limit (hprogram : program.size < UInt64.size) (hlimit : limit < UInt64.size)
    {i : SourceInstruction} (hi : program[m.ip]? = some i) (hlt : m.steps < limit) :
    turn program flavor limit m = some (m.step flavor i) := by
  have hip : m.ip < program.size := (Array.getElem?_eq_some_iff.mp hi).1
  rw [turn, if_pos hip, if_neg (Nat.not_le.mpr hlt), hi]
  exact step_eq i (by omega) (by omega)

theorem runs_run (hprogram : program.size < UInt64.size) (hlimit : limit < UInt64.size) :
    Runs program flavor limit m (m.run program flavor limit) := by
  induction m using run_induction program flavor limit with
  | done m hi =>
    rw [run_of_getElem?_eq_none flavor limit hi]
    exact .last (turn_of_getElem?_eq_none hi)
  | brokenOff m i hi hle =>
    rw [run_of_limit_le flavor hi hle]
    exact .last (turn_of_limit_le hi hle)
  | stop m i m' e hi hlt hstep =>
    rw [run_of_lt_limit flavor hi hlt, hstep]
    exact .last (by rw [turn_of_lt_limit hprogram hlimit hi hlt, hstep])
  | next m i m' hi hlt hstep ih =>
    rw [run_of_lt_limit flavor hi hlt, hstep]
    exact .next (by rw [turn_of_lt_limit hprogram hlimit hi hlt, hstep]) ih

theorem Runs.unique {r r' : Machine × Except Fault Halt} (h : Runs program flavor limit m r)
    (h' : Runs program flavor limit m r') : r = r' := by
  induction h with
  | last hturn =>
    cases h' with
    | last hturn' =>
      cases hturn.symm.trans hturn'
      rfl
    | next hturn' _ => cases hturn.symm.trans hturn'
  | next hturn _ ih =>
    cases h' with
    | last hturn' => cases hturn.symm.trans hturn'
    | next hturn' hrest =>
      cases hturn.symm.trans hturn'
      exact ih hrest

/-- **The loop ends, in one way, and this is the run.** -/
theorem runs_iff (hprogram : program.size < UInt64.size) (hlimit : limit < UInt64.size)
    {r : Machine × Except Fault Halt} :
    Runs program flavor limit m r ↔ r = m.run program flavor limit := by
  constructor
  · exact fun h => h.unique (runs_run hprogram hlimit)
  · rintro rfl
    exact runs_run hprogram hlimit

end

end Checked

/-! ### What a run leaves unchanged -/

/-- `m.Precedes k` says that `k` may be a later state of the machine `m`: it has the same size,
and has printed what `m` has printed and perhaps more. -/
structure Precedes (m k : Machine) : Prop where
  size_memory : k.memory.size = m.memory.size
  size_registers : k.registers.size = m.registers.size
  output : m.output.toList <+: k.output.toList

namespace Precedes

variable {m k l : Machine}

theorem refl (m : Machine) : m.Precedes m := ⟨rfl, rfl, List.prefix_rfl⟩

theorem trans (h : m.Precedes k) (h' : k.Precedes l) : m.Precedes l where
  size_memory := h'.size_memory.trans h.size_memory
  size_registers := h'.size_registers.trans h.size_registers
  output := h.output.trans h'.output

theorem apply (m : Machine) (change : Change) : m.Precedes (m.apply change) := by
  cases change with
  | none | rebase => exact ⟨rfl, rfl, List.prefix_rfl⟩
  | set location v =>
    cases location with
    | cell index => exact ⟨Array.size_setIfInBounds, rfl, List.prefix_rfl⟩
    | register index => exact ⟨rfl, Array.size_setIfInBounds, List.prefix_rfl⟩
  | print v =>
    refine ⟨rfl, rfl, ?_⟩
    show m.output.toList <+: (m.output.push v).toList
    rw [Array.toList_push]
    exact List.prefix_append ..

/-- The step count and the instruction pointer aside, a step is its change. -/
theorem step {flavor : Flavor} {i : SourceInstruction} {r : Option (Except Fault Halt)}
    (h : m.step flavor i = (k, r)) : m.Precedes k := by
  unfold Machine.step at h
  rcases heffect : m.effect flavor i with ⟨change, verdict⟩
  rw [heffect] at h
  obtain ⟨hmemory, hregisters, houtput⟩ := apply m.counted change
  cases verdict with
  | next | halt | fault =>
    cases h
    exact ⟨hmemory, hregisters, houtput⟩

end Precedes

section

variable {program : Array SourceInstruction} {flavor : Flavor} {limit : Nat} {m m' : Machine}
variable {e : Except Fault Halt}

theorem precedes_of_run (h : m.run program flavor limit = (m', e)) : m.Precedes m' := by
  have hkeeps : Keeps program flavor fun k => m.Precedes k :=
    fun hk _ hstep => hk.trans (.step hstep)
  have hrun : m.Precedes (m.run program flavor limit).1 := invariant_of_run hkeeps (.refl m)
  rwa [h] at hrun

/-- A run does not count past its limit. -/
theorem steps_le_max_of_run (h : m.run program flavor limit = (m', e)) :
    m'.steps ≤ max m.steps limit := by
  induction m using run_induction program flavor limit with
  | done m hi =>
    rw [run_of_getElem?_eq_none flavor limit hi] at h
    cases h
    exact Nat.le_max_left ..
  | brokenOff m i hi hle =>
    rw [run_of_limit_le flavor hi hle] at h
    cases h
    exact Nat.le_max_left ..
  | stop m i m₁ e₁ hi hlt hstep =>
    rw [run_of_lt_limit flavor hi hlt, hstep] at h
    cases h
    have hsteps := steps_of_step hstep
    omega
  | next m i m₁ hi hlt hstep ih =>
    rw [run_of_lt_limit flavor hi hlt, hstep] at h
    have hsteps := steps_of_step hstep
    have hle := ih h
    omega

end

/-- **Runs end, and stay within bounds.**  Take any program whose length fits in a word, any
limit that is a word, and any machine, whatever has been run on it before.  The loop ends, in
one way, and none of its turns is refused: no cell, register or instruction is accessed that
does not exist, nothing overflows, and no operation comes up out of place.  In the end the
machine has as many cells and registers as before, has printed what it had printed and perhaps
more, and has counted no further than to the limit, unless it already had. -/
theorem runs_end_within_bounds {program : Array SourceInstruction}
    (hprogram : program.size < UInt64.size) (flavor : Flavor) (limit : UInt64) (m : Machine) :
    ∃ m' e, m.run program flavor limit.toNat = (m', e) ∧
      (∀ r, Checked.Runs program flavor limit.toNat m r ↔ r = (m', e)) ∧
      m'.memory.size = m.memory.size ∧ m'.registers.size = m.registers.size ∧
      m.output.toList <+: m'.output.toList ∧
      m.steps ≤ m'.steps ∧ m'.steps ≤ max m.steps limit.toNat := by
  rcases hrun : m.run program flavor limit.toNat with ⟨m', e⟩
  obtain ⟨hmemory, hregisters, houtput⟩ := precedes_of_run hrun
  refine ⟨m', e, rfl, fun r => ?_, hmemory, hregisters, houtput, steps_le_of_run hrun,
    steps_le_max_of_run hrun⟩
  rw [Checked.runs_iff hprogram limit.toNat_lt_size, hrun]

/-- The largest limit there is, on a machine without registers that has already printed.  The
quotient is one below that of the magnitudes, and the return address that is read is negative. -/
theorem runs_end_within_bounds_div :
    let program : Array SourceInstruction := #[⟨.known .afc, 0, -9223372036854775808, 0⟩,
      ⟨.known .afc, 1, 3, 0⟩, ⟨.known (.binary .div), 1, 0, 1⟩, ⟨.known .pri, 1, 0, 0⟩,
      ⟨.known .ret, 0, 0, 0⟩]
    let m : Machine := ⟨#[0, 0], #[], 0, 0, #[7], 2⟩
    let m' : Machine := ⟨#[-9223372036854775808, -3074457345618258603], #[], 4, 0,
      #[7, -3074457345618258603], 7⟩
    let e : Except Fault Halt := .error (.invalidJump 4 (-9223372036854775808))
    program.size < UInt64.size ∧
      Checked.Runs program .memory 18446744073709551615 m (m', e) ∧
      m.output.toList <+: m'.output.toList ∧ m'.steps ≤ max m.steps 18446744073709551615 := by
  intro program m m' e
  have hprogram : program.size < UInt64.size := by decide
  have heval : m.run program .memory 18446744073709551615 = (m', e) := by decide +kernel
  obtain ⟨m₁, e₁, hrun, hruns, -, -, houtput, -, hsteps⟩ :=
    runs_end_within_bounds hprogram .memory 18446744073709551615 m
  cases heval.symm.trans hrun
  exact ⟨hprogram, (hruns (m', e)).mpr rfl, houtput, hsteps⟩

end Machine
end CrossAssembler
