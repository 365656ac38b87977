import CrossAssembler.Proofs.Machine.Cells

/-!
# Executing code from top to bottom

A lowering emits code in blocks, one for each source instruction, and what a block
does is best said of the block alone.  `Follows` executes a list of instructions
from top to bottom, wherever they stand; `run_of_follows` puts the result into a run
of any program in which they stand at the instruction pointer.

The other way round, a run that leaves a program at its end without ever jumping has
executed it from top to bottom (`follows_of_run`).

## Main definitions

* `Follows` — code executed from top to bottom among registers, to its end or to
  the instruction that ends the run.
* `Segment` — code stands in a program at an address.
* `visits`, `NeverBranches` — the machines at which a run executes an instruction,
  and that none of them finds the condition of a jump to be zero.
-/

namespace CrossAssembler
namespace Machine

/-- `Follows code m m' r` says that executing `code` from top to bottom among
registers takes `m` to `m'`: to its end if `r` is `none`, and otherwise to an
instruction that ends the run with `r`. -/
inductive Follows : List LoweredInstruction → Machine → Machine →
    Option (Except Fault Halt) → Prop
  /-- There is nothing to execute. -/
  | nil (m : Machine) : Follows [] m m none
  /-- An instruction ends the run. -/
  | stop {i : LoweredInstruction} {rest : List LoweredInstruction} {m m' : Machine}
      {r : Except Fault Halt} :
      m.step .register i.toSource = (m', some r) → Follows (i :: rest) m m' (some r)
  /-- An instruction goes on with the one after it. -/
  | next {i : LoweredInstruction} {rest : List LoweredInstruction} {m m₁ m' : Machine}
      {r : Option (Except Fault Halt)} :
      m.step .register i.toSource = (m₁, none) → m₁.ip = m.ip + 1 → Follows rest m₁ m' r →
      Follows (i :: rest) m m' r

namespace Follows

variable {i : LoweredInstruction} {code rest : List LoweredInstruction} {m m₁ m' : Machine}
variable {r : Option (Except Fault Halt)}

/-- An instruction that proceeds. -/
theorem single (h : m.step .register i.toSource = (m₁.advanced, none)) (hip : m₁.ip = m.ip) :
    Follows [i] m m₁.advanced none :=
  .next h (by rw [ip_advanced, hip]) (.nil _)

theorem append (h : Follows code m m₁ none) (h' : Follows rest m₁ m' r) :
    Follows (code ++ rest) m m' r := by
  generalize hr : (none : Option (Except Fault Halt)) = r₁ at h
  induction h with
  | nil m => exact h'
  | stop hstep => cases hr
  | next hstep hip _ ih => exact .next hstep hip (ih h' hr)

theorem of_cons (h : Follows (i :: rest) m m' none) :
    ∃ m₁, m.step .register i.toSource = (m₁, none) ∧ Follows rest m₁ m' none := by
  cases h with
  | next hstep _ hrest => exact ⟨_, hstep, hrest⟩

end Follows

/-! ### Counting -/

@[simp] theorem ip_apply (m : Machine) (change : Change) : (m.apply change).ip = m.ip := by
  cases change with
  | set location v => cases location <;> rfl
  | none | rebase | print => rfl

/-- An instruction that ends the run leaves the instruction pointer on itself. -/
theorem ip_of_step_eq_some {m m' : Machine} {flavor : Flavor} {i : SourceInstruction}
    {r : Except Fault Halt} (h : m.step flavor i = (m', some r)) : m'.ip = m.ip := by
  revert h
  unfold step
  rcases m.effect flavor i with ⟨change, verdict⟩
  cases verdict with
  | next ip =>
    intro h
    cases h
  | halt reason =>
    intro h
    cases h
    exact ip_apply _ change
  | fault reason =>
    intro h
    cases h
    exact ip_apply _ change

theorem size_registers_apply (m : Machine) (change : Change) :
    (m.apply change).registers.size = m.registers.size := by
  cases change with
  | set location v =>
    cases location with
    | cell index => rfl
    | register index => exact Array.size_setIfInBounds
  | none | rebase | print => rfl

/-- No instruction changes the size of the register file. -/
theorem size_registers_of_step {m m' : Machine} {flavor : Flavor} {i : SourceInstruction}
    {r : Option (Except Fault Halt)} (h : m.step flavor i = (m', r)) :
    m'.registers.size = m.registers.size := by
  unfold step at h
  rcases heffect : m.effect flavor i with ⟨change, verdict⟩
  rw [heffect] at h
  cases verdict with
  | next | halt | fault =>
    cases h
    exact size_registers_apply _ change

theorem steps_of_step {m m' : Machine} {flavor : Flavor} {i : SourceInstruction}
    {r : Option (Except Fault Halt)} (h : m.step flavor i = (m', r)) : m'.steps = m.steps + 1 := by
  rw [← steps_step m flavor i, h]

namespace Follows

variable {code : List LoweredInstruction} {m m' : Machine}

/-- Code that is executed to its end has been counted and left behind. -/
theorem ip_steps_of_none (h : Follows code m m' none) :
    m'.ip = m.ip + code.length ∧ m'.steps = m.steps + code.length := by
  generalize hr : (none : Option (Except Fault Halt)) = r at h
  induction h with
  | nil m => exact ⟨rfl, rfl⟩
  | stop hstep => cases hr
  | next hstep hip _ ih =>
    have hsteps := steps_of_step hstep
    obtain ⟨hip', hsteps'⟩ := ih hr
    rw [List.length_cons]
    omega

/-- Code that ends the run ends it at one of its instructions, which counts too. -/
theorem ip_steps_of_some {e : Except Fault Halt} (h : Follows code m m' (some e)) :
    m.ip ≤ m'.ip ∧ m'.ip < m.ip + code.length ∧ m'.steps = m.steps + (m'.ip - m.ip) + 1 := by
  generalize hr : some e = r at h
  induction h with
  | nil m => cases hr
  | stop hstep =>
    have hip := ip_of_step_eq_some hstep
    have hsteps := steps_of_step hstep
    rw [List.length_cons]
    omega
  | next hstep hip _ ih =>
    have hsteps := steps_of_step hstep
    obtain ⟨hle, hlt, hsteps'⟩ := ih hr
    rw [List.length_cons]
    omega

end Follows

/-! ### Code in a program -/

/-- The code stands in the program at an address. -/
def Segment (program : Array SourceInstruction) (address : Nat)
    (code : List LoweredInstruction) : Prop :=
  ∀ k i, code[k]? = some i → program[address + k]? = some i.toSource

theorem Segment.head {program : Array SourceInstruction} {address : Nat}
    {i : LoweredInstruction} {code : List LoweredInstruction}
    (h : Segment program address (i :: code)) : program[address]? = some i.toSource :=
  h 0 i rfl

theorem Segment.tail {program : Array SourceInstruction} {address : Nat}
    {i : LoweredInstruction} {code : List LoweredInstruction}
    (h : Segment program address (i :: code)) : Segment program (address + 1) code := by
  intro k j hj
  have := h (k + 1) j hj
  rwa [Nat.add_assoc, Nat.add_comm 1 k]

/-- A part of a program stands in it after what comes before it. -/
theorem segment_of_eq_append {instructions before code after : List LoweredInstruction}
    (h : instructions = before ++ (code ++ after)) :
    Segment (instructions.map LoweredInstruction.toSource).toArray before.length code := by
  intro k i hi
  have hk := (List.getElem?_eq_some_iff.mp hi).1
  rw [List.getElem?_toArray, List.getElem?_map, h,
    List.getElem?_append_right (Nat.le_add_right ..), Nat.add_sub_cancel_left,
    List.getElem?_append_left hk, hi]
  rfl

/-- **Executing code that stands at the instruction pointer.**  If the limit leaves
room for it, a run either ends where the code ends it, or goes on after the code. -/
theorem run_of_follows {program : Array SourceInstruction} {code : List LoweredInstruction}
    {m m' : Machine} {r : Option (Except Fault Halt)} {limit : Nat}
    (hcode : Follows code m m' r) (hsegment : Segment program m.ip code)
    (hlimit : m.steps + code.length ≤ limit) :
    m.run program .register limit =
      r.elim (m'.run program .register limit) fun e => (m', e) := by
  induction hcode with
  | nil m => rfl
  | stop hstep =>
    rw [List.length_cons] at hlimit
    rw [run_of_lt_limit .register hsegment.head (by omega), hstep]
    rfl
  | next hstep hip _ ih =>
    -- the rest of the code stands one further, where the instruction pointer now is
    have hsteps := steps_of_step hstep
    rw [List.length_cons] at hlimit
    rw [run_of_lt_limit .register hsegment.head (by omega), hstep]
    exact ih (hip ▸ hsegment.tail) (by omega)

/-- A run that is seen to halt ends in good order. -/
theorem eq_ok_of_toOption {r : Machine × Except Fault Halt} {h : Halt}
    (hr : r.2.toOption = some h) : r = (r.1, .ok h) := by
  obtain ⟨m, e⟩ := r
  cases e with
  | error f => nomatch hr
  | ok h' => rw [Option.some.inj hr]

/-! ### What a run visits -/

/-- The machines at which a run of at most `fuel` further instructions executes one. -/
def visitsFor (program : Array SourceInstruction) (flavor : Flavor) :
    Nat → Machine → List Machine
  | 0, _ => []
  | fuel + 1, m =>
    match program[m.ip]? with
    | none => []
    | some i =>
      m :: match m.step flavor i with
        | (_, some _) => []
        | (m, none) => visitsFor program flavor fuel m

/-- The machines at which a run executes an instruction, in order. -/
def visits (m : Machine) (program : Array SourceInstruction) (flavor : Flavor) (limit : Nat) :
    List Machine :=
  visitsFor program flavor (limit - m.steps) m

/-- Whether the instruction to be executed is a conditional jump whose condition is
zero. -/
def branches (m : Machine) (program : Array SourceInstruction) (flavor : Flavor) : Bool :=
  match program[m.ip]? with
  | some ⟨.known .jmf, a, _, _⟩ => (m.read flavor a).toOption == some 0
  | _ => false

/-- No conditional jump that the run executes finds its condition to be zero. -/
def NeverBranches (m : Machine) (program : Array SourceInstruction) (flavor : Flavor)
    (limit : Nat) : Prop :=
  ∀ k ∈ m.visits program flavor limit, k.branches program flavor = false

instance (m : Machine) (program : Array SourceInstruction) (flavor : Flavor) (limit : Nat) :
    Decidable (m.NeverBranches program flavor limit) :=
  inferInstanceAs (Decidable (∀ k ∈ m.visits program flavor limit,
    k.branches program flavor = false))

section

variable {m m' : Machine} {program : Array SourceInstruction} {flavor : Flavor} {limit : Nat}
variable {i : SourceInstruction}

theorem visits_of_lt_limit (h : program[m.ip]? = some i) (hlimit : m.steps < limit) :
    m.visits program flavor limit =
      m :: match m.step flavor i with
        | (_, some _) => []
        | (m, none) => m.visits program flavor limit := by
  unfold visits
  -- fuel is what the limit leaves, and an instruction takes one off both
  obtain ⟨fuel, hfuel⟩ : ∃ fuel, limit - m.steps = fuel + 1 := ⟨limit - m.steps - 1, by omega⟩
  have hsteps := steps_step m flavor i
  rw [hfuel]
  simp only [visitsFor, h]
  split
  · rfl
  · rename_i m' hm
    rw [hm] at hsteps
    have hfuel' : limit - m'.steps = fuel := by
      simp only at hsteps
      omega
    rw [hfuel']

/-- The condition of a jump that is executed is not zero. -/
theorem NeverBranches.read_ne {a b c : Int64} (h : m.NeverBranches program flavor limit)
    (hi : program[m.ip]? = some ⟨.known .jmf, a, b, c⟩) (hlimit : m.steps < limit) :
    m.read flavor a ≠ .ok 0 := by
  have hmem : m ∈ m.visits program flavor limit := by
    rw [visits_of_lt_limit hi hlimit]
    exact List.mem_cons_self
  have hbranches : ((m.read flavor a).toOption == some 0) = false := by
    have := h m hmem
    rw [branches, hi] at this
    exact this
  intro hread
  rw [hread] at hbranches
  cases hbranches

/-- What holds of a run holds of what is left of it after an instruction. -/
theorem NeverBranches.of_step (h : m.NeverBranches program flavor limit)
    (hi : program[m.ip]? = some i) (hlimit : m.steps < limit)
    (hstep : m.step flavor i = (m', none)) : m'.NeverBranches program flavor limit := by
  intro k hk
  refine h k ?_
  rw [visits_of_lt_limit hi hlimit, hstep]
  exact List.mem_cons_of_mem m hk

end

end Machine

/-! ### Code that does not jump -/

/-- The operation goes on with the next instruction, if it goes on at all.  A
conditional jump does so unless it is taken. -/
def Opcode.FallsThrough (op : Opcode) : Prop :=
  op ≠ .nop ∧ op ≠ .jmp ∧ op ≠ .call ∧ op ≠ .ret

instance (op : Opcode) : Decidable op.FallsThrough :=
  inferInstanceAs (Decidable (op ≠ .nop ∧ op ≠ .jmp ∧ op ≠ .call ∧ op ≠ .ret))

namespace Machine

/-- An operation that does not jump proceeds, unless it faults. -/
theorem yields_proceed {m : Machine} {flavor : Flavor} {op : Opcode} {a b c : Int64}
    (hop : op.FallsThrough) (hjmf : op = .jmf → m.read flavor a ≠ .ok 0) :
    Yields (fun _ verdict => verdict = m.proceed) (m.opEffect flavor op a b c) := by
  obtain ⟨hnop, hjmp, hcall, hret⟩ := hop
  cases op with
  | nop => exact absurd rfl hnop
  | jmp => exact absurd rfl hjmp
  | call => exact absurd rfl hcall
  | ret => exact absurd rfl hret
  | binary op =>
    exact yields_bind fun x _ => yields_bind fun y _ => yields_bind fun v _ =>
      yields_bind fun destination _ => yields_return rfl
  | not | cop | load | store =>
    exact yields_bind fun x _ => yields_bind fun destination _ => yields_return rfl
  | afc => exact yields_bind fun destination _ => yields_return rfl
  | pri => exact yields_bind fun x _ => yields_return rfl
  | push | pop => exact yields_return rfl
  | jmf =>
    refine yields_bind fun x hx => yields_return ?_
    rw [if_neg]
    -- the condition is zero only in a jump that is taken
    rintro rfl
    exact hjmf rfl hx

/-- The step of an operation that does not jump: it faults, or the next instruction
follows. -/
theorem step_of_fallsThrough {m : Machine} {flavor : Flavor} {op : Opcode} {a b c : Int64}
    (hop : op.FallsThrough) (hjmf : op = .jmf → m.read flavor a ≠ .ok 0) :
    (∃ f, m.step flavor ⟨.known op, a, b, c⟩ = (m.counted, some (.error f))) ∨
      ∃ change, m.step flavor ⟨.known op, a, b, c⟩ = ((m.apply change).advanced, none) := by
  cases h : m.opEffect flavor op a b c with
  | error f => exact Or.inl ⟨f, step_of_fault h⟩
  | ok p =>
    obtain ⟨change, verdict⟩ := p
    have hverdict := yields_proceed hop hjmf change verdict h
    rw [hverdict] at h
    exact Or.inr ⟨change, step_of_proceed h⟩

/-- **A run that leaves a program at its end without a jump** has executed it from top
to bottom. -/
theorem follows_of_run {program : Array SourceInstruction} {code : List LoweredInstruction}
    {m m' : Machine} {limit : Nat} (hsegment : Segment program m.ip code)
    (hend : program.size = m.ip + code.length) (hcode : ∀ i ∈ code, i.op.FallsThrough)
    (hbranch : m.NeverBranches program .register limit)
    (hrun : m.run program .register limit = (m', .ok .finished)) :
    Follows code m m' none := by
  induction code generalizing m with
  | nil =>
    have hnone : program[m.ip]? = none := by
      rw [Array.getElem?_eq_none_iff]
      exact Nat.le_of_eq hend
    rw [run_of_getElem?_eq_none .register limit hnone] at hrun
    cases hrun
    exact .nil _
  | cons i code ih =>
    have hi := hsegment.head
    -- the limit has not been reached, or else the run had been broken off
    have hlimit : m.steps < limit := by
      refine Nat.lt_of_not_le fun hle => ?_
      rw [run_of_limit_le .register hi hle] at hrun
      cases hrun
    rw [run_of_lt_limit .register hi hlimit] at hrun
    have hfalls := hcode i List.mem_cons_self
    have hjmf : i.op = .jmf → m.read .register i.a ≠ .ok 0 := by
      intro hop
      refine hbranch.read_ne (b := i.b) (c := i.c) ?_ hlimit
      rw [hi, ← hop]
      rfl
    rcases step_of_fallsThrough (b := i.b) (c := i.c) hfalls hjmf with
      ⟨f, hstep⟩ | ⟨change, hstep⟩
    · rw [LoweredInstruction.toSource, hstep] at hrun
      cases hrun
    · have hip : (m.apply change).advanced.ip = m.ip + 1 := by rw [ip_advanced, ip_apply]
      rw [LoweredInstruction.toSource, hstep] at hrun
      refine .next hstep hip (ih ?_ ?_ ?_ ?_ hrun)
      · rw [hip]
        exact hsegment.tail
      · rw [hend, hip, List.length_cons]
        omega
      · exact fun j hj => hcode j (List.mem_cons_of_mem i hj)
      · exact hbranch.of_step hi hlimit hstep

end Machine
end CrossAssembler
