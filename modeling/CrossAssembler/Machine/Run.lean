import CrossAssembler.Machine.Step
import CrossAssembler.Target.Config

/-!
# Running a program

A machine runs a program until it leaves it, halts or faults.  A limit bounds the
number of instructions that the machine may have executed in all its runs; it is
looked at only when there is an instruction left to execute, so a run that ends
exactly at the limit ends in good order.

## Main definitions

* `Machine.run` — a run of a machine.
* `Machine.runEvents` — its journal.
* `Execution`, `execute` — the run of a program on a fresh machine of a target.
-/

namespace CrossAssembler

namespace Machine

/-- A run of at most `fuel` further instructions.  When they are used up and there
is another to execute, the limit has been reached. -/
def runFor (program : Array SourceInstruction) (flavor : Flavor) (limit : Nat) :
    Nat → Machine → Machine × Except Fault Halt
  | 0, m =>
    match program[m.ip]? with
    | none => (m, .ok .finished)
    | some _ => (m, .error (.iterationLimit limit))
  | fuel + 1, m =>
    match program[m.ip]? with
    | none => (m, .ok .finished)
    | some i =>
      match m.step flavor i with
      | (m, some result) => (m, result)
      | (m, none) => runFor program flavor limit fuel m

/-- Run a program.  The machine may execute instructions until `limit` of them are
counted in its state. -/
def run (m : Machine) (program : Array SourceInstruction) (flavor : Flavor) (limit : Nat) :
    Machine × Except Fault Halt :=
  runFor program flavor limit (limit - m.steps) m

/-- A run that has left the program ends in good order, whatever the limit. -/
theorem run_of_getElem?_eq_none {m : Machine} {program : Array SourceInstruction}
    (flavor : Flavor) (limit : Nat) (h : program[m.ip]? = none) :
    m.run program flavor limit = (m, .ok .finished) := by
  unfold run
  cases limit - m.steps <;> simp [runFor, h]

/-- A run that has an instruction to execute but may execute none is broken off. -/
theorem run_of_limit_le {m : Machine} {program : Array SourceInstruction} {i : SourceInstruction}
    (flavor : Flavor) {limit : Nat} (h : program[m.ip]? = some i) (hl : limit ≤ m.steps) :
    m.run program flavor limit = (m, .error (.iterationLimit limit)) := by
  unfold run
  rw [Nat.sub_eq_zero_of_le hl]
  simp [runFor, h]

/-- A run below its limit executes an instruction and goes on. -/
theorem run_of_lt_limit {m : Machine} {program : Array SourceInstruction} {i : SourceInstruction}
    (flavor : Flavor) {limit : Nat} (h : program[m.ip]? = some i) (hl : m.steps < limit) :
    m.run program flavor limit =
      match m.step flavor i with
      | (m, some result) => (m, result)
      | (m, none) => m.run program flavor limit := by
  unfold run
  obtain ⟨fuel, hf⟩ : ∃ fuel, limit - m.steps = fuel + 1 := ⟨limit - m.steps - 1, by omega⟩
  have hs := steps_step m flavor i
  rw [hf]
  simp only [runFor, h]
  split
  · rfl
  · rename_i m' hm
    rw [hm] at hs
    -- the step has used up one instruction of what was left
    have hfuel : limit - m'.steps = fuel := by
      simp only at hs
      omega
    rw [hfuel]

/-- The journal of a run of at most `fuel` further instructions. -/
def runEventsFor (program : Array SourceInstruction) (flavor : Flavor) :
    Nat → Machine → List Event
  | 0, m =>
    match program[m.ip]? with
    | none => finishEvents m
    | some _ => []
  | fuel + 1, m =>
    match program[m.ip]? with
    | none => finishEvents m
    | some i =>
      m.stepEvents flavor i ++
        match m.step flavor i with
        | (_, some _) => []
        | (m, none) => runEventsFor program flavor fuel m
where
  /-- The journal of leaving the program. -/
  finishEvents (m : Machine) : List Event :=
    let steps := m.steps
    [⟨.debug, s!"Finished after {steps} instructions"⟩]

/-- The journal of a run. -/
def runEvents (m : Machine) (program : Array SourceInstruction) (flavor : Flavor) (limit : Nat) :
    List Event :=
  runEventsFor program flavor (limit - m.steps) m

end Machine

/-- A run that ended in good order. -/
structure Execution where
  /-- The machine at the end. -/
  machine : Machine
  /-- Why the run ended. -/
  halt : Halt
  deriving DecidableEq, Repr

/-- The fresh machine of a target. -/
def Target.machine (t : Target) : Machine := .fresh t.memorySize.toNat t.registers.toNat

/-- Run a program on the fresh machine of a target. -/
def execute (program : List SourceInstruction) (flavor : Flavor) (t : Target) :
    Except Fault Execution :=
  match t.machine.run program.toArray flavor t.maxIterations.toNat with
  | (m, .ok halt) => .ok ⟨m, halt⟩
  | (_, .error fault) => .error fault

/-- The journal of running a program on the fresh machine of a target. -/
def executeEvents (program : List SourceInstruction) (flavor : Flavor) (t : Target) :
    List Event :=
  t.machine.runEvents program.toArray flavor t.maxIterations.toNat

end CrossAssembler
