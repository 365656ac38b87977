import CrossAssembler.Isa.Instruction
import CrossAssembler.Journal
import CrossAssembler.Machine.Arithmetic
import CrossAssembler.Machine.State

/-!
# Executing one instruction

What an instruction does is settled before anything is changed: it reads its
operands, and either faults or gives at most one change of the state together
with where the run goes on.  So an instruction that faults changes nothing, with
one exception: a call saves its return address before its target is looked at,
and a refused target leaves the return address saved.

## Main definitions

* `Change`, `Verdict`, `Effect` — the change of the state, how the run goes on,
  and the two together.
* `Machine.effect` — the effect of an instruction.
* `Machine.step` — the machine after an instruction, and the end of the run if it
  ends there.
* `Machine.stepEvents` — the journal of an instruction.
-/

namespace CrossAssembler

/-- The one change that an instruction may make to memory, registers, frame base
or output. -/
inductive Change where
  /-- None. -/
  | none
  /-- A location takes a value. -/
  | set (location : Location) (value : Int64)
  /-- The frame base moves. -/
  | rebase (offset : Int64)
  /-- A value is printed. -/
  | print (value : Int64)
  deriving DecidableEq, Repr

/-- How a run goes on after an instruction. -/
inductive Verdict where
  /-- With the instruction at `ip`. -/
  | next (ip : Nat)
  /-- Not at all: it has halted. -/
  | halt (reason : Halt)
  /-- Not at all: it has faulted. -/
  | fault (reason : Fault)
  deriving DecidableEq, Repr

/-- What an instruction does. -/
structure Effect where
  /-- The change it makes. -/
  change : Change
  /-- How the run goes on. -/
  verdict : Verdict
  deriving DecidableEq, Repr

/-- The effect of an instruction whose operands may be at fault. -/
def Effect.ofExcept : Except Fault (Change × Verdict) → Effect
  | .ok (change, verdict) => ⟨change, verdict⟩
  | .error f => ⟨.none, .fault f⟩

namespace Machine

/-! ### The effect of an instruction -/

/-- Go on with the instruction after this one. -/
def proceed (m : Machine) : Verdict := .next (m.ip + 1)

/-- Go on at a jump target, which must not be negative. -/
def jump (m : Machine) (target : Int64) : Verdict :=
  if target < 0 then .fault (.invalidJump m.ip target) else .next target.toInt.toNat

/-- Compute a value, or fault on a division by zero. -/
def compute (m : Machine) (op : Binary) (x y : Int64) : Except Fault Int64 :=
  match op.apply? x y with
  | some v => .ok v
  | none => .error (.divisionByZero m.ip)

/-- The effect of an operation of the instruction set.  Among registers, the
operands of a computation stand in reverse order, and a negation names its
operand apart from its result. -/
def opEffect (m : Machine) (flavor : Flavor) (op : Opcode) (a b c : Int64) :
    Except Fault (Change × Verdict) :=
  match op with
  | .nop => return (.none, .halt (.nop m.ip))
  | .binary op => do
    let x ← m.read flavor (match flavor with | .memory => b | .register => c)
    let y ← m.read flavor (match flavor with | .memory => c | .register => b)
    let v ← m.compute op x y
    let destination ← m.resolve flavor a
    return (.set destination v, m.proceed)
  | .not => do
    let x ← m.read flavor (match flavor with | .memory => a | .register => b)
    let destination ← m.resolve flavor a
    return (.set destination (ofBool (x == 0)), m.proceed)
  | .afc => do
    let destination ← m.resolve flavor a
    return (.set destination b, m.proceed)
  | .cop => do
    let x ← m.read flavor b
    let destination ← m.resolve flavor a
    return (.set destination x, m.proceed)
  | .jmf => do
    let condition ← m.read flavor a
    return (.none, if condition = 0 then m.jump b else m.proceed)
  | .load => do
    let x ← m.readCell b
    let destination ← m.resolveRegister a
    return (.set destination x, m.proceed)
  | .store => do
    let x ← m.readRegister b
    let destination ← m.resolveCell a
    return (.set destination x, m.proceed)
  | .jmp => return (.none, m.jump a)
  | .pri => do
    let x ← m.readCell a
    return (.print x, m.proceed)
  | .push => return (.rebase (m.offset + a), m.proceed)
  | .pop => return (.rebase (m.offset - a), m.proceed)
  | .call => do
    let destination ← m.resolveCell 0
    return (.set destination (Int64.ofNat (m.ip + 1)), m.jump a)
  | .ret => do
    let target ← m.readCell 0
    return (.none, m.jump target)

/-- The effect of an instruction.  A word that names no operation halts the run. -/
def effect (m : Machine) (flavor : Flavor) (i : SourceInstruction) : Effect :=
  match i.op with
  | .known op => .ofExcept (m.opEffect flavor op i.a i.b i.c)
  | .unrecognized word => ⟨.none, .halt (.unknownInstruction m.ip word)⟩

/-! ### One step -/

/-- Make a change. -/
def apply (m : Machine) : Change → Machine
  | .none => m
  | .set location v => m.write location v
  | .rebase offset => { m with offset }
  | .print v => { m with output := m.output.push v }

/-- Execute an instruction: count it, make its change, and move on, or give the
end of the run. -/
def step (m : Machine) (flavor : Flavor) (i : SourceInstruction) :
    Machine × Option (Except Fault Halt) :=
  let ⟨change, verdict⟩ := m.effect flavor i
  let m := { m with steps := m.steps + 1 }.apply change
  match verdict with
  | .next ip => ({ m with ip }, none)
  | .halt reason => (m, some (.ok reason))
  | .fault reason => (m, some (.error reason))

@[simp] theorem steps_apply (m : Machine) (change : Change) :
    (m.apply change).steps = m.steps := by
  cases change with
  | set location v => cases location <;> rfl
  | _ => rfl

/-- Every instruction counts, also one that halts or faults. -/
theorem steps_step (m : Machine) (flavor : Flavor) (i : SourceInstruction) :
    (m.step flavor i).1.steps = m.steps + 1 := by
  unfold step
  rcases m.effect flavor i with ⟨change, verdict⟩
  cases verdict <;> simp

/-- The journal of executing an instruction: the instruction itself, and then what
it prints or why it halts. -/
def stepEvents (m : Machine) (flavor : Flavor) (i : SourceInstruction) : List Event :=
  let ip := m.ip
  let offset := m.offset
  let steps := m.steps + 1
  let consequence : List Event :=
    match m.effect flavor i with
    | ⟨.print v, _⟩ => [⟨.info, toString v⟩]
    | ⟨_, .halt (.nop ip)⟩ => [⟨.debug, s!"NOP at {ip}, halting after {steps} instructions"⟩]
    | ⟨_, .halt (.unknownInstruction _ word)⟩ => [⟨.warn, s!"Unknown instruction: {word}"⟩]
    | _ => []
  ⟨.trace, s!"ip: {ip} offset: {offset} instr: {i}"⟩ :: consequence

end Machine

end CrossAssembler
