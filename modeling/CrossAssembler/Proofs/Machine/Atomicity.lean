import CrossAssembler.Proofs.Machine.Truncation

/-!
# What a run leaves where it ends

An instruction that faults does so before it changes anything, so a run that faults leaves the
machine as it was when the instruction at fault was reached, with the instruction counted.
There is one exception.  A call saves its return address before its target is looked at, and a
negative target leaves the return address saved.

The instruction pointer stays on the instruction that has ended the run.  To run the machine
again is thus to execute this instruction again, on a machine that differs from the one before
it at most in the saved return address, which the second call saves once more.  So the second
run ends like the first.

## Main definitions

* `Reaches` — instructions of a program lead from one machine to another.
* `Ending` — how a run ends at the machine that it has reached.
* `RefusesCall` — the instruction is a call that has its return address saved and its target
  refused.

## Main results

* `exists_ending` — every run reaches a machine and ends there.
* `of_step_eq_some` — what an instruction leaves that ends a run.
* `step_again` — executed again, it ends the run again.
* `faults_leave_machine` — what a run leaves if it faults, and that running again changes
  nothing.
-/

namespace CrossAssembler
namespace Machine

variable {program : Array SourceInstruction} {flavor : Flavor} {limit : Nat}
variable {m m' : Machine} {e : Except Fault Halt}

/-! ### Where a run ends -/

/-- Executing instructions of the program, none of which ends the run, leads from one machine
to the other. -/
inductive Reaches (program : Array SourceInstruction) (flavor : Flavor) : Machine → Machine → Prop
  /-- Nothing is executed. -/
  | refl (m : Machine) : Reaches program flavor m m
  /-- An instruction is executed first. -/
  | next {m m' k : Machine} {i : SourceInstruction} :
      program[m.ip]? = some i → m.step flavor i = (m', none) → Reaches program flavor m' k →
      Reaches program flavor m k

/-- How a run ends at the machine `k`: the machine that it leaves, and its outcome. -/
inductive Ending (program : Array SourceInstruction) (flavor : Flavor) (limit : Nat)
    (k : Machine) : Machine → Except Fault Halt → Prop
  /-- There is nothing left to execute. -/
  | finished : program[k.ip]? = none → Ending program flavor limit k k (.ok .finished)
  /-- There is, but the limit has been reached. -/
  | brokenOff {i : SourceInstruction} : program[k.ip]? = some i → limit ≤ k.steps →
      Ending program flavor limit k k (.error (.iterationLimit limit))
  /-- An instruction ends the run. -/
  | stopped {i : SourceInstruction} {m' : Machine} {e : Except Fault Halt} :
      program[k.ip]? = some i → k.steps < limit → k.step flavor i = (m', some e) →
      Ending program flavor limit k m' e

/-- **Every run reaches a machine and ends there.** -/
theorem exists_ending (program : Array SourceInstruction) (flavor : Flavor) (limit : Nat)
    (m : Machine) :
    ∃ k, Reaches program flavor m k ∧
      Ending program flavor limit k (m.run program flavor limit).1
        (m.run program flavor limit).2 := by
  induction m using run_induction program flavor limit with
  | done m hi =>
    rw [run_of_getElem?_eq_none flavor limit hi]
    exact ⟨m, .refl m, .finished hi⟩
  | brokenOff m i hi hlimit =>
    rw [run_of_limit_le flavor hi hlimit]
    exact ⟨m, .refl m, .brokenOff hi hlimit⟩
  | stop m i m' e hi hlt hstep =>
    rw [run_of_lt_limit flavor hi hlt, hstep]
    exact ⟨m, .refl m, .stopped hi hlt hstep⟩
  | next m i m' hi hlt hstep ih =>
    rw [run_of_lt_limit flavor hi hlt, hstep]
    obtain ⟨k, hreaches, hending⟩ := ih
    exact ⟨k, .next hi hstep hreaches, hending⟩

/-! ### Calls -/

/-- The instruction is a call whose return address can be saved, and whose target is
negative. -/
def RefusesCall (m : Machine) (i : SourceInstruction) : Prop :=
  i.op = .known .call ∧ i.a < 0 ∧ m.cell? m.offset ≠ none

/-- Save the return address of a call: it goes where the frame begins. -/
def saveReturn (m : Machine) : Machine := m.setCell m.offset (.ofNat (m.ip + 1))

/-- A call saves the return address first, and looks at its target then. -/
theorem step_call (m : Machine) (flavor : Flavor) (a b c : Int64) :
    m.step flavor ⟨.known .call, a, b, c⟩ =
      match m.cell? m.offset with
      | none => (m.counted, some (.error (.memoryOutOfBounds m.ip m.offset)))
      | some _ =>
        if a < 0 then (m.saveReturn.counted, some (.error (.invalidJump m.ip a)))
        else ({ m.saveReturn.counted with ip := a.toInt.toNat }, none) := by
  have heffect : m.effect flavor ⟨.known .call, a, b, c⟩ = .ofExcept (do
      let destination ← m.resolveCell 0
      return (.set destination (Int64.ofNat (m.ip + 1)), m.jump a)) := rfl
  rw [resolveCell_eq, Int64.zero_add] at heffect
  rw [step, heffect]
  cases m.cell? m.offset with
  | none => rfl
  | some w =>
    simp only [Bind.bind, Except.bind, Pure.pure, Except.pure, Effect.ofExcept, jump]
    by_cases ha : a < 0
    · rw [if_pos ha, if_pos ha]
      rfl
    · rw [if_neg ha, if_neg ha]
      rfl

/-- A call that ends a run has nowhere to save its return address, or has saved it and been
refused its target. -/
theorem of_step_call {a b c : Int64}
    (h : m.step flavor ⟨.known .call, a, b, c⟩ = (m', some e)) :
    m.cell? m.offset = none ∧ e = .error (.memoryOutOfBounds m.ip m.offset) ∧ m' = m.counted ∨
      a < 0 ∧ (∃ w, m.cell? m.offset = some w) ∧ e = .error (.invalidJump m.ip a) ∧
        m' = m.saveReturn.counted := by
  rw [step_call] at h
  cases hcell : m.cell? m.offset with
  | none =>
    rw [hcell] at h
    cases h
    exact Or.inl ⟨rfl, rfl, rfl⟩
  | some w =>
    simp only [hcell] at h
    by_cases ha : a < 0
    · rw [if_pos ha] at h
      cases h
      exact Or.inr ⟨ha, ⟨w, rfl⟩, rfl, rfl⟩
    · rw [if_neg ha] at h
      cases h

/-- Saved once more, the return address is the same. -/
theorem saveReturn_saveReturn (m : Machine) :
    m.saveReturn.counted.saveReturn = m.saveReturn.counted := by
  simp only [saveReturn, setCell, counted, Array.setIfInBounds_setIfInBounds]

/-! ### Instructions that end a run -/

/-- How often the machine has counted does not matter to an instruction. -/
theorem effect_counted (m : Machine) (flavor : Flavor) (i : SourceInstruction) :
    m.counted.effect flavor i = m.effect flavor i := by
  obtain ⟨op, a, b, c⟩ := i
  cases op with
  | unrecognized word => rfl
  | known op => cases op <;> cases flavor <;> rfl

/-- Unless it is a call, an instruction that changes something goes on. -/
theorem change_eq_none_or_next (m : Machine) (flavor : Flavor) {i : SourceInstruction}
    (hi : i.op ≠ .known .call) :
    (m.effect flavor i).change = .none ∨ ∃ ip, (m.effect flavor i).verdict = .next ip := by
  obtain ⟨op, a, b, c⟩ := i
  cases op with
  | unrecognized word => exact Or.inl rfl
  | known op =>
    have hop : op ≠ .call := fun heq => hi (congrArg Operation.known heq)
    show (Effect.ofExcept (m.opEffect flavor op a b c)).change = .none ∨
      ∃ ip, (Effect.ofExcept (m.opEffect flavor op a b c)).verdict = .next ip
    cases heffect : m.opEffect flavor op a b c with
    | error f => exact Or.inl rfl
    | ok p =>
      obtain ⟨change, verdict⟩ := p
      cases yields_performs m flavor op a b c change verdict heffect with
      | steer => exact Or.inl rfl
      | rebase | print | set => exact Or.inr ⟨_, rfl⟩
      | call _ _ hcall => exact absurd hcall hop

/-- Unless it is a call, an instruction that ends the run only counts, and does the same when
it is executed again. -/
theorem step_of_not_call {i : SourceInstruction} (hi : i.op ≠ .known .call)
    (h : m.step flavor i = (m', some e)) :
    m' = m.counted ∧ m.counted.step flavor i = (m.counted.counted, some e) := by
  have hchange := change_eq_none_or_next m flavor hi
  unfold step at h ⊢
  rw [effect_counted]
  rcases heffect : m.effect flavor i with ⟨change, verdict⟩
  rw [heffect] at h hchange
  cases verdict with
  | next ip => cases h
  | halt reason | fault reason =>
    rcases hchange with hnone | ⟨ip, hnext⟩
    · cases hnone
      cases h
      exact ⟨rfl, rfl⟩
    · cases hnext

/-- **What an instruction leaves that ends a run**: the machine before it, and that it has
counted.  A call with a negative target has saved its return address besides. -/
theorem of_step_eq_some {i : SourceInstruction} (h : m.step flavor i = (m', some e)) :
    ¬ m.RefusesCall i ∧ m' = m.counted ∨
      m.RefusesCall i ∧ e = .error (.invalidJump m.ip i.a) ∧ m' = m.saveReturn.counted := by
  by_cases hcall : i.op = .known .call
  · obtain ⟨op, a, b, c⟩ := i
    cases hcall
    rcases of_step_call h with ⟨hcell, -, hleft⟩ | ⟨ha, ⟨w, hcell⟩, herror, hleft⟩
    · exact Or.inl ⟨fun hrefuses => hrefuses.2.2 hcell, hleft⟩
    · have hsome : m.cell? m.offset ≠ none := by
        rw [hcell]
        exact Option.some_ne_none w
      exact Or.inr ⟨⟨rfl, ha, hsome⟩, herror, hleft⟩
  · exact Or.inl ⟨fun hrefuses => hcall hrefuses.1, (step_of_not_call hcall h).1⟩

/-- **Executed again, an instruction that has ended a run ends it again**, and changes nothing
more. -/
theorem step_again {i : SourceInstruction} (h : m.step flavor i = (m', some e)) :
    m'.step flavor i = (m'.counted, some e) := by
  by_cases hcall : i.op = .known .call
  · obtain ⟨op, a, b, c⟩ := i
    cases hcall
    rcases of_step_call h with ⟨hcell, rfl, rfl⟩ | ⟨ha, ⟨w, hcell⟩, rfl, rfl⟩
    · have hcell' : m.counted.cell? m.counted.offset = none := hcell
      rw [step_call, hcell']
      rfl
    · -- the cell of the return address is still there, and holds it already
      have hcell' : m.saveReturn.counted.cell? m.saveReturn.counted.offset =
          some (.ofNat (m.ip + 1)) := by
        show (m.setCell m.offset (.ofNat (m.ip + 1))).cell? m.offset = _
        rw [cell?_setCell hcell, if_pos rfl]
      rw [step_call, hcell', saveReturn_saveReturn]
      simp only [if_pos ha]
      rfl
  · obtain ⟨rfl, hagain⟩ := step_of_not_call hcall h
    exact hagain

/-! ### Runs -/

/-- A run that has come to its end comes to the same end when it is started again. -/
theorem run_again {k : Machine} (h : Ending program flavor limit k m' e)
    (hend : brokenOff e = false) {limit' : Nat} (hlt : m'.steps < limit') :
    ∃ steps, m'.run program flavor limit' = ({ m' with steps := steps }, e) := by
  cases h with
  | finished hi => exact ⟨m'.steps, run_of_getElem?_eq_none flavor limit' hi⟩
  | brokenOff => cases hend
  | stopped hi _ hstep =>
    rw [← ip_of_step_eq_some hstep] at hi
    refine ⟨m'.steps + 1, ?_⟩
    rw [run_of_lt_limit flavor hi hlt, step_again hstep]
    rfl

/-- **A run that faults leaves the machine as it was** when it reached the instruction at
fault, on which the instruction pointer stays.  The instruction has been counted, and unless it
is a call with a negative target, which has saved its return address, nothing else has
happened.  If the limit was reached, nothing at all has.

So if a run has come to its end, in whatever way, running the machine again ends in the same
way and changes nothing but the number of steps. -/
theorem faults_leave_machine (program : Array SourceInstruction) (flavor : Flavor) (limit : Nat)
    (m : Machine) :
    let r := m.run program flavor limit
    (∀ f, r.2 = .error f →
      ∃ k i, Reaches program flavor m k ∧ program[k.ip]? = some i ∧
        (f = .iterationLimit limit ∧ r.1 = k ∨
          f.ip? = some k.ip ∧ k.step flavor i = (r.1, some (.error f)) ∧
            (¬ k.RefusesCall i ∧ r.1 = k.counted ∨
              k.RefusesCall i ∧ f = .invalidJump k.ip i.a ∧
                r.1 = (k.setCell k.offset (.ofNat (k.ip + 1))).counted))) ∧
    (brokenOff r.2 = false → ∀ limit', r.1.steps < limit' →
      ∃ steps, r.1.run program flavor limit' = ({ r.1 with steps := steps }, r.2)) := by
  intro r
  obtain ⟨k, hreaches, hending⟩ := exists_ending program flavor limit m
  refine ⟨fun f hf => ?_, fun hend limit' hlt => run_again hending hend hlt⟩
  rw [hf] at hending
  cases hending with
  | brokenOff hi _ => exact ⟨_, _, hreaches, hi, Or.inl ⟨rfl, rfl⟩⟩
  | stopped hi _ hstep =>
    refine ⟨k, _, hreaches, hi, Or.inr ⟨names_of_step hstep, hstep, ?_⟩⟩
    refine (of_step_eq_some hstep).imp_right ?_
    rintro ⟨hrefuses, herror, hleft⟩
    exact ⟨hrefuses, Except.error.inj herror, hleft⟩

/-- A call into the negative, in a frame that begins at cell 1.  Its return address 3 has
overwritten what the cell held, and does so again in the second run. -/
theorem faults_leave_machine_call :
    let program : Array SourceInstruction := #[⟨.known .afc, 1, 7, 0⟩, ⟨.known .push, 1, 0, 0⟩,
      ⟨.known .call, -3, 0, 0⟩]
    let start := fresh 3 0
    let final : Machine := ⟨#[0, 3, 0], #[], 2, 1, #[], 3⟩
    start.run program .memory 9 = (final, .error (.invalidJump 2 (-3))) ∧
      (∃ k i, Reaches program .memory start k ∧ program[k.ip]? = some i ∧ k.RefusesCall i ∧
        final = (k.setCell k.offset (.ofNat (k.ip + 1))).counted) ∧
      ∃ steps, final.run program .memory 9 =
        ({ final with steps := steps }, .error (.invalidJump 2 (-3))) := by
  intro program start final
  have hrun : start.run program .memory 9 = (final, .error (.invalidJump 2 (-3))) := by rfl
  obtain ⟨hfaults, hagain⟩ := faults_leave_machine program .memory 9 start
  rw [hrun] at hfaults hagain
  refine ⟨hrun, ?_, hagain rfl 9 (by decide)⟩
  obtain ⟨k, i, hreaches, hi, hlimit | ⟨hip, -, hleft⟩⟩ := hfaults _ rfl
  · cases hlimit.1
  rcases hleft with ⟨hnot, hcounted⟩ | ⟨hrefuses, -, hsaved⟩
  · -- were the call not refused, the cell of its return address would be missing
    have hip : k.ip = 2 := (Option.some.inj hip).symm
    have hoffset : k.offset = 1 := (congrArg Machine.offset hcounted).symm
    have hmemory : k.memory = #[0, 3, 0] := (congrArg Machine.memory hcounted).symm
    rw [hip] at hi
    cases hi
    refine absurd ⟨rfl, by decide, ?_⟩ hnot
    rw [cell?, hoffset, hmemory]
    decide
  · exact ⟨k, i, hreaches, hi, hrefuses, hsaved⟩

end Machine
end CrossAssembler
