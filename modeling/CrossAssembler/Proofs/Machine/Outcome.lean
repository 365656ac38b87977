import CrossAssembler.Proofs.Machine.Sequence

/-!
# Comparing the outcomes of two runs

Two machines agree if they cannot be told apart by their memories, their frames, what
they have printed and how many registers they have.  The registers themselves may
differ, and so may the instruction pointers: an outcome names the instruction that
ended the run, and one program's instruction is found at another place in the other
program.

## Main definitions

* `Machine.Agrees` — two machines agree but for registers and instruction pointers.
* `Halt.ip?`, `Fault.ip?` — the instruction that an outcome names.
* `outcomeAt` — the same outcome at another instruction.
* `Execution.Corresponds` — two executions are the same but for where the
  instructions stand.

## Main results

* `Machine.names_of_step` — an instruction that ends a run is the one its outcome
  names.
-/

namespace CrossAssembler

/-! ### Agreement -/

namespace Machine

/-- The machines agree in everything but the values of their registers and their
instruction pointers. -/
structure Agrees (s m : Machine) : Prop where
  /-- They have the same memory. -/
  memory : s.memory = m.memory
  /-- They are in the same frame. -/
  offset : s.offset = m.offset
  /-- They have printed the same. -/
  output : s.output = m.output
  /-- They have equally many registers. -/
  size_registers : s.registers.size = m.registers.size

namespace Agrees

variable {s m : Machine}

theorem refl (m : Machine) : m.Agrees m := ⟨rfl, rfl, rfl, rfl⟩

theorem cell? (h : s.Agrees m) (cell : Int64) : s.cell? cell = m.cell? cell := by
  rw [Machine.cell?, Machine.cell?, h.memory]

theorem counted (h : s.Agrees m) : s.counted.Agrees m.counted :=
  ⟨h.memory, h.offset, h.output, h.size_registers⟩

theorem advanced (h : s.Agrees m) : s.advanced.Agrees m.advanced :=
  ⟨h.memory, h.offset, h.output, h.size_registers⟩

/-- Registers do not count. -/
theorem setRegister (h : s.Agrees m) (r : Nat) (v : Int64) :
    s.Agrees (m.setRegister r v).advanced :=
  ⟨h.memory, h.offset, h.output, by simpa using h.size_registers⟩

theorem setCell (h : s.Agrees m) (cell v : Int64) :
    (s.setCell cell v).advanced.Agrees (m.setCell cell v).advanced :=
  ⟨congrArg (fun memory => memory.setIfInBounds cell.toInt.toNat v) h.memory, h.offset,
    h.output, h.size_registers⟩

end Agrees
end Machine

/-! ### Where a run ended -/

/-- The instruction at which a run has halted, if it did not simply come to its end. -/
def Halt.ip? : Halt → Option Nat
  | .finished => none
  | .nop ip | .unknownInstruction ip _ => some ip

/-- The instruction at fault, if a run has not just taken too long. -/
def Fault.ip? : Fault → Option Nat
  | .memoryOutOfBounds ip _ | .registerOutOfBounds ip _ | .divisionByZero ip
  | .invalidJump ip _ => some ip
  | .iterationLimit _ => none

/-- A halt of the same kind at another instruction. -/
def Halt.at (ip : Nat) : Halt → Halt
  | .finished => .finished
  | .nop _ => .nop ip
  | .unknownInstruction _ word => .unknownInstruction ip word

/-- A fault of the same kind, with the same payload, at another instruction. -/
def Fault.at (ip : Nat) : Fault → Fault
  | .memoryOutOfBounds _ address => .memoryOutOfBounds ip address
  | .registerOutOfBounds _ register => .registerOutOfBounds ip register
  | .divisionByZero _ => .divisionByZero ip
  | .invalidJump _ target => .invalidJump ip target
  | .iterationLimit limit => .iterationLimit limit

/-- The instruction that an outcome names. -/
def outcomeIp? : Except Fault Halt → Option Nat
  | .ok h => h.ip?
  | .error f => f.ip?

/-- The same outcome at another instruction. -/
def outcomeAt (ip : Nat) : Except Fault Halt → Except Fault Halt
  | .ok h => .ok (h.at ip)
  | .error f => .error (f.at ip)

namespace Machine

/-- Whatever fault there is, it is that of the instruction at `ip`. -/
def Blames {α : Type} (ip : Nat) (e : Except Fault α) : Prop :=
  ∀ f, e = .error f → f.ip? = some ip

/-- If this verdict ends a run, it names the instruction at `ip`. -/
def NamedBy (ip : Nat) : Verdict → Prop
  | .next _ => True
  | .halt h => h.ip? = some ip
  | .fault f => f.ip? = some ip

/-- If this effect ends a run, it names the instruction at `ip`. -/
def Names (ip : Nat) (e : Except Fault (Change × Verdict)) : Prop :=
  NamedBy ip (Effect.ofExcept e).verdict

theorem names_bind {α : Type} {ip : Nat} {e : Except Fault α}
    {f : α → Except Fault (Change × Verdict)} (he : Blames ip e) (hf : ∀ x, Names ip (f x)) :
    Names ip (e >>= f) := by
  cases e with
  | error fault => exact he fault rfl
  | ok x => exact hf x

section

variable {m : Machine} {flavor : Flavor} {a : Int64}

theorem blames_resolveCell : Blames m.ip (m.resolveCell a) := by
  intro f hf
  rw [resolveCell] at hf
  split at hf
  · cases hf
  · cases hf
    rfl

theorem blames_resolveRegister : Blames m.ip (m.resolveRegister a) := by
  intro f hf
  rw [resolveRegister] at hf
  split at hf
  · cases hf
  · cases hf
    rfl

theorem blames_resolve : Blames m.ip (m.resolve flavor a) := by
  cases flavor with
  | memory => exact blames_resolveCell
  | register => exact blames_resolveRegister

theorem blames_read : Blames m.ip (m.read flavor a) := by
  intro f hf
  rw [read] at hf
  cases h : m.resolve flavor a with
  | error f' =>
    rw [h] at hf
    cases hf
    exact blames_resolve f h
  | ok location =>
    rw [h] at hf
    cases hf

theorem blames_readCell : Blames m.ip (m.readCell a) := @blames_read m .memory a

theorem blames_readRegister : Blames m.ip (m.readRegister a) := @blames_read m .register a

theorem blames_compute {op : Binary} {x y : Int64} : Blames m.ip (m.compute op x y) := by
  intro f hf
  rw [compute] at hf
  cases h : op.apply? x y with
  | none =>
    rw [h] at hf
    cases hf
    rfl
  | some v =>
    rw [h] at hf
    cases hf

theorem names_jump {change : Change} {target : Int64} :
    Names m.ip (pure (change, m.jump target)) := by
  unfold jump
  split
  · rfl
  · trivial

theorem names_opEffect (op : Opcode) (b c : Int64) :
    Names m.ip (m.opEffect flavor op a b c) := by
  cases op with
  | nop => rfl
  | binary op =>
    exact names_bind blames_read fun x => names_bind blames_read fun y =>
      names_bind blames_compute fun v => names_bind blames_resolve fun _ => trivial
  | not | cop =>
    exact names_bind blames_read fun x => names_bind blames_resolve fun _ => trivial
  | afc => exact names_bind blames_resolve fun _ => trivial
  | jmf =>
    refine names_bind blames_read fun x => ?_
    by_cases hx : x = 0
    · rw [if_pos hx]
      exact names_jump
    · rw [if_neg hx]
      trivial
  | load =>
    exact names_bind blames_readCell fun x => names_bind blames_resolveRegister fun _ => trivial
  | store =>
    exact names_bind blames_readRegister fun x => names_bind blames_resolveCell fun _ => trivial
  | jmp => exact names_jump
  | pri => exact names_bind blames_readCell fun _ => trivial
  | push | pop => trivial
  | call => exact names_bind blames_resolveCell fun _ => names_jump
  | ret => exact names_bind blames_readCell fun _ => names_jump

end

/-- **An instruction that ends a run is the one that the outcome names.** -/
theorem names_of_step {m m' : Machine} {flavor : Flavor} {i : SourceInstruction}
    {e : Except Fault Halt} (h : m.step flavor i = (m', some e)) : outcomeIp? e = some m.ip := by
  have hnames : NamedBy m.ip (m.effect flavor i).verdict := by
    rw [effect]
    cases i.op with
    | known op => exact names_opEffect op i.b i.c
    | unrecognized word => rfl
  -- a step ends a run with what its verdict says
  revert h hnames
  unfold step
  rcases m.effect flavor i with ⟨change, verdict⟩
  cases verdict with
  | next ip =>
    intro h
    cases h
  | halt reason | fault reason =>
    intro h hnames
    cases h
    exact hnames

/-- Two runs ended alike: in machines that agree, with the same outcome, and unless both
came to their ends, at instructions of which one is the origin of the other.  The second
has taken at least as many steps as the first, and at most four times as many. -/
structure EndAlike (origin : Nat → Option Nat) (x y : Machine × Except Fault Halt) : Prop where
  agrees : x.1.Agrees y.1
  outcome : y.2 = outcomeAt y.1.ip x.2
  origin : x.2 = .ok .finished ∨
    outcomeIp? x.2 = some x.1.ip ∧ origin y.1.ip = some x.1.ip
  steps_le : x.1.steps ≤ y.1.steps
  le_steps : y.1.steps ≤ 4 * x.1.steps

end Machine

/-! ### Corresponding executions -/

/-- Both runs came to their ends, or both were halted for the same reason, the first at
the origin of the instruction that halted the second. -/
def Halt.Corresponds (origin : Nat → Option Nat) (h h' : Halt) : Prop :=
  h = .finished ∧ h' = .finished ∨
    ∃ ip ip', h.ip? = some ip ∧ origin ip' = some ip ∧ h' = h.at ip'

/-- The faults are of the same kind and have the same payload, and the first is at the
origin of the instruction that is at fault in the second. -/
def Fault.Corresponds (origin : Nat → Option Nat) (f f' : Fault) : Prop :=
  ∃ ip ip', f.ip? = some ip ∧ origin ip' = some ip ∧ f' = f.at ip'

/-- Two executions have left the same memory, have printed the same and were halted for
the same reason; the second took at least as many steps as the first, and at most four
times as many. -/
structure Execution.Corresponds (origin : Nat → Option Nat) (x y : Execution) : Prop where
  memory : x.machine.memory = y.machine.memory
  output : x.machine.output = y.machine.output
  halt : x.halt.Corresponds origin y.halt
  steps_le : x.machine.steps ≤ y.machine.steps
  le_steps : y.machine.steps ≤ 4 * x.machine.steps

/-- Both programs halt, or both fault, and they do so alike. -/
def ExecuteAlike (origin : Nat → Option Nat) :
    Except Fault Execution → Except Fault Execution → Prop
  | .ok x, .ok y => x.Corresponds origin y
  | .error f, .error g => f.Corresponds origin g
  | _, _ => False

/-- Programs whose runs end alike on the machine of a target execute alike. -/
theorem executeAlike_of_endAlike {origin : Nat → Option Nat} {t : Target}
    {source lowered : List SourceInstruction}
    (h : Machine.EndAlike origin
      (t.machine.run source.toArray .memory t.maxIterations.toNat)
      (t.machine.run lowered.toArray .register t.maxIterations.toNat)) :
    ExecuteAlike origin (execute source .memory t) (execute lowered .register t) := by
  unfold execute
  generalize t.machine.run source.toArray .memory t.maxIterations.toNat = x at h
  generalize t.machine.run lowered.toArray .register t.maxIterations.toNat = y at h
  obtain ⟨s, e⟩ := x
  obtain ⟨m, e'⟩ := y
  obtain ⟨hagrees, (houtcome : e' = outcomeAt m.ip e), horigin, hle, hle'⟩ := h
  subst houtcome
  cases e with
  | ok halt =>
    refine ⟨hagrees.memory, hagrees.output, ?_, hle, hle'⟩
    rcases horigin with hfinished | ⟨hip, horigin⟩
    · cases hfinished
      exact Or.inl ⟨rfl, rfl⟩
    · exact Or.inr ⟨s.ip, m.ip, hip, horigin, rfl⟩
  | error fault =>
    rcases horigin with hfinished | ⟨hip, horigin⟩
    · cases hfinished
    · exact ⟨s.ip, m.ip, hip, horigin, rfl⟩

end CrossAssembler
