import CrossAssembler.Proofs.Machine.Sequence

/-!
# Runs under a limit

A run is a sequence of steps, and the limit says only where it is broken off.  So what every
step keeps, a run keeps; a run that ends, ends in its last step; and two runs that differ in
their limits are the same as far as both go.

Each of this is shown along the run, and `run_induction` is the one induction for all.

## Main definitions

* `Keeps` — the instructions of a program keep a property of machines.
* `Opcode.neverJumps` — operations that leave the order of execution alone.
* `lengthToNop` — the instructions of a program up to its first NOP.

## Main results

* `run_induction` — a run is done, broken off, ended by an instruction, or goes on after one.
* `forall_mem_visits`, `invariant_of_run` — what the instructions keep holds at every machine
  that a run visits, and at the one that it ends in.
* `outcome_of_run` — a run leaves the program, is broken off, or is ended by an instruction
  that it executes.
* `run_eq_of_steps_le`, `run_of_lt_steps` — what a run comes to under a smaller limit.
* `steps_of_run_eq_ok` — how many instructions a run executes if none of them jumps.
-/

namespace CrossAssembler

/-- The operation leaves the order of execution alone: the next instruction follows, or the
run ends. -/
def Opcode.neverJumps : Opcode → Bool
  | .jmf | .jmp | .call | .ret => false
  | _ => true

namespace Machine

variable {program : Array SourceInstruction} {flavor : Flavor} {limit : Nat} {m m' : Machine}
variable {e : Except Fault Halt}

/-! ### Along a run -/

/-- **Induction along a run.**  Where it has nothing to execute or may execute nothing, and
where an instruction ends it, the run is at its end; elsewhere it goes on after an
instruction. -/
@[elab_as_elim]
theorem run_induction (program : Array SourceInstruction) (flavor : Flavor) (limit : Nat)
    {motive : Machine → Prop}
    (done : ∀ m, program[m.ip]? = none → motive m)
    (brokenOff : ∀ m i, program[m.ip]? = some i → limit ≤ m.steps → motive m)
    (stop : ∀ m i m' e, program[m.ip]? = some i → m.steps < limit →
      m.step flavor i = (m', some e) → motive m)
    (next : ∀ m i m', program[m.ip]? = some i → m.steps < limit →
      m.step flavor i = (m', none) → motive m' → motive m)
    (m : Machine) : motive m := by
  -- every instruction uses up one of those that the limit leaves
  induction hfuel : limit - m.steps generalizing m with
  | zero =>
    cases hi : program[m.ip]? with
    | none => exact done m hi
    | some i => exact brokenOff m i hi (by omega)
  | succ fuel ih =>
    cases hi : program[m.ip]? with
    | none => exact done m hi
    | some i =>
      rcases hstep : m.step flavor i with ⟨m', _ | e⟩
      · have hsteps := steps_of_step hstep
        exact next m i m' hi (by omega) hstep (ih m' (by omega))
      · exact stop m i m' e hi (by omega) hstep

theorem visits_of_getElem?_eq_none (h : program[m.ip]? = none) :
    m.visits program flavor limit = [] := by
  unfold visits
  cases limit - m.steps <;> simp [visitsFor, h]

theorem visits_of_limit_le (h : limit ≤ m.steps) : m.visits program flavor limit = [] := by
  rw [visits, Nat.sub_eq_zero_of_le h]
  rfl

/-! ### What a run keeps -/

/-- The instructions of a program keep a property of machines. -/
def Keeps (program : Array SourceInstruction) (flavor : Flavor) (P : Machine → Prop) : Prop :=
  ∀ {k k' : Machine} {i : SourceInstruction} {r : Option (Except Fault Halt)},
    P k → program[k.ip]? = some i → k.step flavor i = (k', r) → P k'

theorem forall_mem_visits {P : Machine → Prop} (hP : Keeps program flavor P) (hm : P m) :
    ∀ k ∈ m.visits program flavor limit, P k := by
  induction m using run_induction program flavor limit with
  | done m hi =>
    rw [visits_of_getElem?_eq_none hi]
    exact fun k hk => by cases hk
  | brokenOff m i hi hle =>
    rw [visits_of_limit_le hle]
    exact fun k hk => by cases hk
  | stop m i m' e hi hlt hstep =>
    rw [visits_of_lt_limit hi hlt, hstep]
    exact fun k hk => List.mem_singleton.mp hk ▸ hm
  | next m i m' hi hlt hstep ih =>
    rw [visits_of_lt_limit hi hlt, hstep]
    exact List.forall_mem_cons.mpr ⟨hm, ih (hP hm hi hstep)⟩

theorem invariant_of_run {P : Machine → Prop} (hP : Keeps program flavor P) (hm : P m) :
    P (m.run program flavor limit).1 := by
  induction m using run_induction program flavor limit with
  | done m hi => rwa [run_of_getElem?_eq_none flavor limit hi]
  | brokenOff m i hi hle => rwa [run_of_limit_le flavor hi hle]
  | stop m i m' e hi hlt hstep =>
    rw [run_of_lt_limit flavor hi hlt, hstep]
    exact hP hm hi hstep
  | next m i m' hi hlt hstep ih =>
    rw [run_of_lt_limit flavor hi hlt, hstep]
    exact ih (hP hm hi hstep)

/-! ### How a run ends -/

/-- **The end of a run.** -/
theorem outcome_of_run (h : m.run program flavor limit = (m', e)) :
    e = .ok .finished ∨ e = .error (.iterationLimit limit) ∨
      ∃ k ∈ m.visits program flavor limit, ∃ i, program[k.ip]? = some i ∧
        k.step flavor i = (m', some e) := by
  induction m using run_induction program flavor limit with
  | done m hi =>
    rw [run_of_getElem?_eq_none flavor limit hi] at h
    cases h
    exact Or.inl rfl
  | brokenOff m i hi hle =>
    rw [run_of_limit_le flavor hi hle] at h
    cases h
    exact Or.inr (Or.inl rfl)
  | stop m i m' e hi hlt hstep =>
    rw [run_of_lt_limit flavor hi hlt, hstep] at h
    cases h
    rw [visits_of_lt_limit hi hlt]
    exact Or.inr (Or.inr ⟨m, List.mem_cons_self, i, hi, hstep⟩)
  | next m i m₁ hi hlt hstep ih =>
    rw [run_of_lt_limit flavor hi hlt, hstep] at h
    rw [visits_of_lt_limit hi hlt, hstep]
    refine (ih h).imp_right (Or.imp_right ?_)
    rintro ⟨k, hk, hend⟩
    exact ⟨k, List.mem_cons_of_mem m hk, hend⟩

theorem steps_le_of_run (h : m.run program flavor limit = (m', e)) : m.steps ≤ m'.steps := by
  have hkeeps : Keeps program flavor fun k => m.steps ≤ k.steps := fun hk _ hstep => by
    have := steps_of_step hstep
    omega
  have hrun : m.steps ≤ (m.run program flavor limit).1.steps :=
    invariant_of_run hkeeps (Nat.le_refl m.steps)
  rwa [h] at hrun

/-! ### Two limits -/

/-- **Under a smaller limit, a run ends as before** if the limit leaves room for all that it
executes. -/
theorem run_eq_of_steps_le {limit' : Nat} (h : m.run program flavor limit = (m', e))
    (hlimit : e ≠ .error (.iterationLimit limit)) (hle : m'.steps ≤ limit') :
    m.run program flavor limit' = (m', e) := by
  induction m using run_induction program flavor limit with
  | done m hi =>
    rw [run_of_getElem?_eq_none flavor limit hi] at h
    rw [run_of_getElem?_eq_none flavor limit' hi, h]
  | brokenOff m i hi hlimit' =>
    rw [run_of_limit_le flavor hi hlimit'] at h
    cases h
    exact absurd rfl hlimit
  | stop m i m₁ e' hi hlt hstep =>
    rw [run_of_lt_limit flavor hi hlt, hstep] at h
    cases h
    have hsteps := steps_of_step hstep
    rw [run_of_lt_limit flavor hi (by omega), hstep]
  | next m i m₁ hi hlt hstep ih =>
    rw [run_of_lt_limit flavor hi hlt, hstep] at h
    have hsteps := steps_of_step hstep
    have hrun := steps_le_of_run h
    rw [run_of_lt_limit flavor hi (by omega), hstep]
    exact ih h

/-- **Under a smaller limit, a run is broken off** if the limit leaves no room. -/
theorem run_of_lt_steps {limit' : Nat} (h : m.run program flavor limit = (m', e))
    (hm : m.steps ≤ limit') (hlt : limit' < m'.steps) :
    (m.run program flavor limit').2 = .error (.iterationLimit limit') := by
  induction m using run_induction program flavor limit with
  | done m hi =>
    rw [run_of_getElem?_eq_none flavor limit hi] at h
    cases h
    omega
  | brokenOff m i hi hlimit =>
    rw [run_of_limit_le flavor hi hlimit] at h
    cases h
    omega
  | stop m i m₁ e' hi hlimit hstep =>
    rw [run_of_lt_limit flavor hi hlimit, hstep] at h
    cases h
    -- the one step that is left is too many
    have hsteps := steps_of_step hstep
    rw [run_of_limit_le flavor hi (by omega)]
  | next m i m₁ hi hlimit hstep ih =>
    rw [run_of_lt_limit flavor hi hlimit, hstep] at h
    have hsteps := steps_of_step hstep
    by_cases hend : limit' ≤ m.steps
    · rw [run_of_limit_le flavor hi hend]
    · rw [run_of_lt_limit flavor hi (by omega), hstep]
      exact ih h (by omega)

/-! ### Programs without jumps -/

/-- The number of instructions up to the first NOP, which counts. -/
def lengthToNop : List SourceInstruction → Nat
  | [] => 0
  | i :: rest => if i.op = .known .nop then 1 else lengthToNop rest + 1

/-- The step of an operation that does not jump: it halts the run if it is a NOP; otherwise
it faults, or the next instruction follows. -/
theorem step_of_neverJumps {op : Opcode} {a b c : Int64} (hop : op.neverJumps = true) :
    op = .nop ∧ m.step flavor ⟨.known op, a, b, c⟩ = (m.counted, some (.ok (.nop m.ip))) ∨
      op ≠ .nop ∧ ((∃ f, m.step flavor ⟨.known op, a, b, c⟩ = (m.counted, some (.error f))) ∨
        ∃ change, m.step flavor ⟨.known op, a, b, c⟩ = ((m.apply change).advanced, none)) := by
  by_cases hnop : op = .nop
  · subst hnop
    exact Or.inl ⟨rfl, rfl⟩
  · have hfalls : op.FallsThrough := by
      refine ⟨hnop, ?_, ?_, ?_⟩ <;> · rintro rfl; cases hop
    exact Or.inr ⟨hnop, step_of_fallsThrough hfalls fun hjmf => by subst hjmf; cases hop⟩

/-- If such an operation does not end the run, the next instruction follows. -/
theorem of_step_of_neverJumps {op : Opcode} {a b c : Int64} (hop : op.neverJumps = true)
    (h : m.step flavor ⟨.known op, a, b, c⟩ = (m', none)) : op ≠ .nop ∧ m'.ip = m.ip + 1 := by
  rcases step_of_neverJumps hop with ⟨-, heq⟩ | ⟨hnop, ⟨f, heq⟩ | ⟨change, heq⟩⟩
  · rw [heq] at h
    cases h
  · rw [heq] at h
    cases h
  · rw [heq] at h
    cases h
    exact ⟨hnop, congrArg (· + 1) (ip_apply m change)⟩

theorem lengthToNop_drop {program : List SourceInstruction} {ip : Nat} {i : SourceInstruction}
    (hi : program[ip]? = some i) :
    lengthToNop (program.drop ip) =
      if i.op = .known .nop then 1 else lengthToNop (program.drop (ip + 1)) + 1 := by
  rw [List.drop_eq_getElem?_toList_append, hi]
  rfl

/-- **A run without jumps that halts** has executed the program up to its first NOP. -/
theorem steps_of_run_eq_ok {program : List SourceInstruction} {halt : Halt}
    (hprogram : ∀ i ∈ program, ∃ op, i.op = .known op ∧ op.neverJumps = true)
    (h : m.run program.toArray flavor limit = (m', .ok halt)) :
    m'.steps = m.steps + lengthToNop (program.drop m.ip) := by
  induction m using run_induction program.toArray flavor limit with
  | done m hi =>
    rw [run_of_getElem?_eq_none flavor limit hi] at h
    cases h
    rw [List.getElem?_toArray, List.getElem?_eq_none_iff] at hi
    rw [List.drop_eq_nil_of_le hi]
    rfl
  | brokenOff m i hi hle =>
    rw [run_of_limit_le flavor hi hle] at h
    cases h
  | stop m i m₁ e hi hlt hstep =>
    rw [run_of_lt_limit flavor hi hlt, hstep] at h
    cases h
    have hsteps := steps_of_step hstep
    rw [List.getElem?_toArray] at hi
    obtain ⟨op, hknown, hop⟩ := hprogram i (List.mem_of_getElem? hi)
    obtain ⟨_, a, b, c⟩ := i
    cases hknown
    -- only a NOP halts the run
    rcases step_of_neverJumps (m := m) (a := a) (b := b) (c := c) hop with
      ⟨rfl, -⟩ | ⟨-, ⟨f, heq⟩ | ⟨change, heq⟩⟩
    · rw [hsteps, lengthToNop_drop hi, if_pos rfl]
    · rw [heq] at hstep
      cases hstep
    · rw [heq] at hstep
      cases hstep
  | next m i m₁ hi hlt hstep ih =>
    rw [run_of_lt_limit flavor hi hlt, hstep] at h
    have hsteps := steps_of_step hstep
    rw [List.getElem?_toArray] at hi
    obtain ⟨op, hknown, hop⟩ := hprogram i (List.mem_of_getElem? hi)
    obtain ⟨_, a, b, c⟩ := i
    cases hknown
    obtain ⟨hnop, hip⟩ := of_step_of_neverJumps hop hstep
    rw [ih h, hsteps, hip, lengthToNop_drop hi, if_neg fun hop => hnop (Operation.known.inj hop)]
    omega

end Machine
end CrossAssembler
