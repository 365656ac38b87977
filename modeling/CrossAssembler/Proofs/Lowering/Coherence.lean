import CrossAssembler.Proofs.Lowering.Trail

/-!
# Coherence of the residency table

As long as the frame does not move, different addresses are those of different cells, and
every address keeps naming the cell that it named when it was last used.  The trail of
the addresses is current, and so each register that is recorded as caching an address
does hold what the cell at this address holds.

Nothing is assumed of the registers themselves.  So this also covers a register file with
one usable register, where the operands of a computation push each other out, and
explicit loads and stores of any register whatever.

## Main definitions

* `Operation.staysInFrame` — operations that go from one instruction to the next and
  leave the frame where it is.
* `Trail.Current` — every address that has been used names the cell that it named then.
* `lastTable` — the residency table after some steps.
* `Program.executable` — a lowered program, as a machine executes it.

## Main results

* `covers_steps` — in one frame, a current trail covers the residency table.
* `sound_of_run` — a run of emitted code makes the copies that its ledger says.
* `run_leaves_table_coherent` — every register that is recorded as caching an address
  equals its cell after a run.
-/

namespace CrossAssembler

/-- The operation, if it goes on at all and no jump is taken, goes on with the next
instruction and in the same frame.  An unrecognized word is left out of the code. -/
def Operation.staysInFrame : Operation → Bool
  | .unrecognized _ => true
  | .known op =>
    match op with
    | .binary _ | .not | .cop | .afc | .pri | .load | .store | .jmf => true
    | .nop | .jmp | .push | .pop | .call | .ret => false

theorem Opcode.fallsThrough_of_staysInFrame {op : Opcode}
    (h : (Operation.known op).staysInFrame = true) : op.FallsThrough := by
  refine ⟨?_, ?_, ?_, ?_⟩ <;> · rintro rfl; cases h

theorem Operation.ne_of_staysInFrame {op : Operation} (h : op.staysInFrame = true) :
    op ≠ .known .push ∧ op ≠ .known .pop := by
  refine ⟨?_, ?_⟩ <;> · rintro rfl; cases h

theorem Ledger.base_afterAll {l : Ledger} {code : List LoweredInstruction}
    (h : ∀ i ∈ code, (Operation.known i.op).staysInFrame = true) :
    (l.afterAll code).base = l.base := by
  induction code generalizing l with
  | nil => rfl
  | cons i code ih =>
    have hafter : (l.after i).base = l.base := by
      have hi := h i List.mem_cons_self
      unfold after
      cases hop : i.op with
      | push | pop =>
        rw [hop] at hi
        cases hi
      | _ => rfl
    rw [afterAll_cons, ih fun j hj => h j (List.mem_cons_of_mem i hj), hafter]

namespace Lowering

open Residency (Table)
open Residency.Table (mem_usable)
open LoweredInstruction (load store)

/-! ### Trails in one frame -/

/-- Every address that has been used names the cell that it named then. -/
def Trail.Current (τ : Trail) : Prop :=
  ∀ address ∈ τ.used, (address, address + τ.ledger.base) ∈ τ.ledger.copies

namespace Trail.Current

theorem start (base : Int64) : (Trail.start base).Current := fun _ h => by cases h

variable {τ : Trail} (h : τ.Current)
include h

theorem keeps (address : Int64) : τ.keeps address = true := by
  rw [Trail.keeps, Ledger.knows, Bool.or_eq_true, decide_eq_true_eq, decide_eq_true_eq]
  by_cases hused : address ∈ τ.used
  · exact Or.inr (h address hused)
  · exact Or.inl hused

theorem read (address : Int64) : (τ.read address).Current := by
  intro other hused
  rw [Trail.mem_read]
  by_cases hne : other = address
  · subst hne
    exact Or.inl ⟨rfl, rfl⟩
  · exact Or.inr ⟨h other ((List.mem_cons.mp hused).resolve_left hne), hne⟩

theorem assign (address : Int64) : (τ.assign address).Current := by
  intro other hused
  rw [Trail.mem_assign]
  by_cases hne : other = address
  · subst hne
    exact Or.inl ⟨rfl, rfl⟩
  · refine Or.inr ⟨⟨h other ((List.mem_cons.mp hused).resolve_left hne), hne⟩, ?_⟩
    -- in one frame, different addresses are those of different cells
    exact fun heq => hne ((Int64.add_left_inj τ.ledger.base).mp heq)

theorem keepsAll (xs : List Int64) : τ.keepsAll xs = true := by
  induction xs generalizing τ with
  | nil => rfl
  | cons x rest ih => exact Bool.and_eq_true_iff.mpr ⟨h.keeps x, ih (h.read x)⟩

theorem permits (i : SourceInstruction) : τ.permits i = true :=
  Bool.and_eq_true_iff.mpr
    ⟨h.keepsAll (operands i), Bool.or_eq_true_iff.mpr (Or.inr (h.keeps i.b))⟩

/-- As long as the frame does not move, a trail stays current. -/
theorem after {i : SourceInstruction} (hpush : i.op ≠ .known .push)
    (hpop : i.op ≠ .known .pop) : (τ.after i).Current := by
  obtain ⟨op, a, b, c⟩ := i
  cases op with
  | unrecognized word => exact h
  | known op =>
    cases op with
    | binary op => exact ((h.read b).read c).assign a
    | not => exact (h.read a).assign a
    | cop => exact (h.read b).assign a
    | afc | store => exact h.assign a
    | load => exact h.read b
    | jmf => exact h.read a
    | push => exact absurd rfl hpush
    | pop => exact absurd rfl hpop
    | jmp | pri | ret | nop | call => exact h

end Trail.Current

/-! ### Steps -/

/-- The residency table after some steps that started from `t`. -/
def lastTable (t : Table) (ss : List Step) : Table := (ss.getLast?.map Step.table).getD t

@[simp] theorem lastTable_nil (t : Table) : lastTable t [] = t := rfl

@[simp] theorem lastTable_cons (t : Table) (s : Step) (ss : List Step) :
    lastTable t (s :: ss) = lastTable s.table ss := by
  cases ss with
  | nil => rfl
  | cons s' ss =>
    rw [lastTable, lastTable, List.getLast?_cons_cons]
    cases h : (s' :: ss).getLast? with
    | none => simp at h
    | some last => rfl

theorem size_lastTable_steps (t : Table) (calls : List (SourceInstruction × Nat)) :
    (lastTable t (steps t calls)).size = t.size := by
  induction calls generalizing t with
  | nil => rfl
  | cons call rest ih => rw [steps, lastTable_cons, ih, size_step]

/-- The instructions of the program that steps give are those that they emit. -/
theorem instructions_ofSteps (ss : List Step) :
    (Lowered.ofSteps ss).program.instructions = ss.flatMap Step.code := by
  simp [Lowered.program_ofSteps, Program.instructions, Step.entries, List.map_flatMap,
    Function.comp_def]

/-- As long as the frame does not move, a current trail covers the residency table. -/
theorem covers_steps {registers : Nat} {τ : Trail} {t : Table} {l : Ledger}
    (hN : RegisterFile.Supported registers) (ht : t.Valid registers) (h : Covers τ t l)
    (hcurrent : τ.Current) {calls : List (SourceInstruction × Nat)}
    (hcalls : ∀ call ∈ calls, call.1.op ≠ .known .push ∧ call.1.op ≠ .known .pop) :
    ∃ τ' : Trail, τ'.Current ∧ Covers τ' (lastTable t (steps t calls))
      (l.afterAll ((steps t calls).flatMap Step.code)) := by
  -- the trail of the source goes along: it says that the next instruction is permitted
  induction calls generalizing τ t l with
  | nil => exact ⟨τ, hcurrent, h⟩
  | cons call rest ih =>
    obtain ⟨i, index⟩ := call
    obtain ⟨hpush, hpop⟩ := hcalls _ List.mem_cons_self
    have hcovers := covers_lowerInstruction hN ht h (hcurrent.permits i)
    rw [steps, lastTable_cons, List.flatMap_cons, Ledger.afterAll_append]
    refine ih ?_ (hcovers.congr (Table.resident?_tick _)) (hcurrent.after hpush hpop) ?_
    · exact (valid_lowerInstruction ht (one_lt_size hN ht) i).tick.toValid
    · exact fun call hcall => hcalls call (List.mem_cons_of_mem _ hcall)

/-! ### The code of a step -/

theorem op_of_mem_fetch {t : Table} {address : Int64} {j : LoweredInstruction}
    (hj : j ∈ (fetch t address).2.code) : j.op = .load := by
  cases hl : t.locate address with
  | some r =>
    rw [fetch_of_locate_eq_some hl] at hj
    cases hj
  | none =>
    rw [fetch_of_locate_eq_none hl] at hj
    rw [List.mem_singleton.mp hj]
    rfl

/-- Besides the operation itself, only loads and stores are emitted. -/
theorem op_of_mem_lowerInstruction {t : Table} {i : SourceInstruction} {j : LoweredInstruction}
    (hj : j ∈ (lowerInstruction t i).code) :
    j.op = .load ∨ j.op = .store ∨ .known j.op = i.op := by
  obtain ⟨op, a, b, c⟩ := i
  cases op with
  | unrecognized word => cases hj
  | known op =>
    cases op with
    | binary op =>
      simp only [lowerInstruction, lowerOp, lowerBinary, writeBack, List.mem_append,
        List.mem_cons, List.not_mem_nil, or_false] at hj
      rcases hj with (hj | hj) | rfl | rfl
      · exact Or.inl (op_of_mem_fetch hj)
      · exact Or.inl (op_of_mem_fetch hj)
      · exact Or.inr (Or.inr rfl)
      · exact Or.inr (Or.inl rfl)
    | not =>
      simp only [lowerInstruction, lowerOp, lowerNot, writeBack, List.mem_append,
        List.mem_cons, List.not_mem_nil, or_false] at hj
      rcases hj with hj | rfl | rfl
      · exact Or.inl (op_of_mem_fetch hj)
      · exact Or.inr (Or.inr rfl)
      · exact Or.inr (Or.inl rfl)
    | cop =>
      simp only [lowerInstruction, lowerOp, lowerCopy, writeBack, List.mem_append,
        List.mem_cons, List.not_mem_nil, or_false] at hj
      rcases hj with hj | rfl
      · exact Or.inl (op_of_mem_fetch hj)
      · exact Or.inr (Or.inl rfl)
    | afc =>
      simp only [lowerInstruction, lowerOp, lowerConstant, writeBack, List.mem_cons,
        List.not_mem_nil, or_false] at hj
      rcases hj with rfl | rfl
      · exact Or.inr (Or.inr rfl)
      · exact Or.inr (Or.inl rfl)
    | jmf =>
      simp only [lowerInstruction, lowerOp, lowerBranch, List.mem_cons, List.not_mem_nil,
        or_false] at hj
      rcases hj with rfl | rfl
      · exact Or.inl rfl
      · exact Or.inr (Or.inr rfl)
    | load | store | jmp | pri | ret | nop | call | push | pop =>
      rw [List.mem_singleton.mp hj]
      exact Or.inr (Or.inr rfl)

/-- What loads, stores and the operations of the source have in common, all emitted
operations have. -/
theorem op_of_mem_steps {P : Operation → Prop} (hload : P (.known .load))
    (hstore : P (.known .store)) {t : Table} {calls : List (SourceInstruction × Nat)}
    (hcalls : ∀ call ∈ calls, P call.1.op) {j : LoweredInstruction}
    (hj : j ∈ (steps t calls).flatMap Step.code) : P (.known j.op) := by
  induction calls generalizing t with
  | nil => cases hj
  | cons call rest ih =>
    rw [steps, List.flatMap_cons, List.mem_append] at hj
    rcases hj with hj | hj
    · rcases op_of_mem_lowerInstruction hj with hop | hop | hop
      · exact hop ▸ hload
      · exact hop ▸ hstore
      · exact hop ▸ hcalls call List.mem_cons_self
    · exact ih (fun call hcall => hcalls call (List.mem_cons_of_mem _ hcall)) hj

/-- What is emitted for operations that stay in their frame does so too. -/
theorem staysInFrame_of_mem_steps {t : Table} {calls : List (SourceInstruction × Nat)}
    (hcalls : ∀ call ∈ calls, call.1.op.staysInFrame = true) {j : LoweredInstruction}
    (hj : j ∈ (steps t calls).flatMap Step.code) :
    (Operation.known j.op).staysInFrame = true :=
  op_of_mem_steps (P := fun op => op.staysInFrame = true) rfl rfl hcalls hj

/-! ### Runs of lowered code -/

/-- The instructions of a lowered program, as a machine executes them. -/
def Program.executable (p : Program) : List SourceInstruction :=
  p.instructions.map LoweredInstruction.toSource

/-- What the emitted code is known to make copies of are copies at the end of a run. -/
theorem sound_of_run {code : List LoweredInstruction} {m m' : Machine} {limit : Nat}
    (hcode : ∀ i ∈ code, (Operation.known i.op).staysInFrame = true) (hip : m.ip = 0)
    (hbranch : m.NeverBranches (code.map LoweredInstruction.toSource).toArray .register limit)
    (hrun : m.run (code.map LoweredInstruction.toSource).toArray .register limit =
      (m', .ok .finished)) :
    ((Ledger.blank m.offset).afterAll code).Sound m' := by
  have hsegment : Machine.Segment (code.map LoweredInstruction.toSource).toArray m.ip code := by
    rw [hip]
    exact @Machine.segment_of_eq_append code [] code [] (List.append_nil code).symm
  have hfalls : ∀ i ∈ code, i.op.FallsThrough := fun i hi =>
    Opcode.fallsThrough_of_staysInFrame (hcode i hi)
  have hfollows := Machine.follows_of_run hsegment (by simp [hip]) hfalls hbranch hrun
  exact (Ledger.sound_blank m).of_follows hfalls hfollows

/-- A register that caches an address has the value of its cell, if the trail that covers
the table is current and the ledger is true of the machine. -/
theorem Covers.registers_eq {τ : Trail} {t : Table} {l : Ledger} {m : Machine}
    (h : Covers τ t l) (hcurrent : τ.Current) (hsound : l.Sound m) {r : Nat} {address : Int64}
    (hr : t.resident? r = some address) (hmax : r < RegisterFile.maxSize) :
    ∃ v, m.readCell address = .ok v ∧ m.registers[r]? = some v := by
  obtain ⟨-, v, hreg, hcell⟩ :=
    hsound.holds _ (h.copies hr (hcurrent address (h.used hr)))
  rw [h.base_eq, hsound.base_eq] at hcell
  rw [RegisterFile.toInt_ofNat hmax, Int.toNat_natCast] at hreg
  exact ⟨v, by rw [Machine.readCell_eq, hcell], hreg⟩

/-- **Coherence of the residency table.**  Take code that was lowered onto any register
file from instructions that stay in their frame, and any machine at its start.  If the
machine runs to the end of the code, and no jump is taken on the way, then it is still in
the frame in which it started, and each register that is recorded as caching an address
has the value of the cell at that address. -/
theorem run_leaves_table_coherent {registers : Nat} (h : RegisterFile.Supported registers)
    {source : List SourceInstruction} (hsource : ∀ i ∈ source, i.op.staysInFrame = true) :
    ∃ t lowered, start registers = .ok t ∧ lower source registers = .ok lowered ∧
      ∀ (m m' : Machine) (limit : Nat), m.ip = 0 →
        m.NeverBranches lowered.program.executable.toArray .register limit →
        m.run lowered.program.executable.toArray .register limit = (m', .ok .finished) →
        m'.offset = m.offset ∧
          ∀ r address, (lastTable t (programSteps t source)).resident? r = some address →
            ∃ v, m'.readCell address = .ok v ∧ m'.registers[r]? = some v := by
  have hcalls : ∀ call ∈ source.zipIdx, call.1.op.staysInFrame = true := fun call hcall =>
    hsource call.1 (List.fst_mem_of_mem_zipIdx hcall)
  have hcode : ∀ i ∈ (programSteps (.empty registers) source).flatMap Step.code,
      (Operation.known i.op).staysInFrame = true := fun i hi => staysInFrame_of_mem_steps hcalls hi
  refine ⟨_, _, start_eq h, lower_eq h source, ?_⟩
  intro m m' limit hip hbranch hrun
  rw [Program.executable, instructions_ofSteps] at hbranch hrun
  have hsound := sound_of_run hcode hip hbranch hrun
  -- the ledger of the run is the one that the trail of the source covers
  obtain ⟨τ, hcurrent, hcovers⟩ := covers_steps h (settled_start h).toValid
    (covers_start m.offset registers) (.start m.offset) fun call hcall =>
      Operation.ne_of_staysInFrame (hcalls call hcall)
  refine ⟨?_, fun r address hr => ?_⟩
  · rw [← hsound.base_eq, Ledger.base_afterAll hcode]
    rfl
  · have hlt : r < registers := by
      have := Table.lt_size_of_resident? hr
      rwa [programSteps, size_lastTable_steps, Table.size_empty] at this
    exact hcovers.registers_eq hcurrent hsound hr (Nat.lt_of_lt_of_le hlt h.2)

/-- One usable register: the operands of the addition push each other out, its result is
loaded into the reserved register, and the scratch register is what the table has left. -/
theorem run_leaves_table_coherent_two :
    let source : List SourceInstruction := [⟨.known (.binary .add), 2, 3, 4⟩,
      ⟨.known .store, 3, 0, 0⟩, ⟨.known .load, 0, 2, 0⟩, ⟨.known .jmf, 3, 0, 0⟩]
    let m : Machine := ⟨#[0, 0, 0, 0, 6, 7], #[9, 9], 0, 1, #[], 0⟩
    (∀ i ∈ source, i.op.staysInFrame = true) ∧
      ∃ t lowered m', start 2 = .ok t ∧ lower source 2 = .ok lowered ∧
        m.NeverBranches lowered.program.executable.toArray .register 9 ∧
        m.run lowered.program.executable.toArray .register 9 = (m', .ok .finished) ∧
        (lastTable t (programSteps t source)).resident? 1 = some 3 ∧
        ∃ v, m'.readCell 3 = .ok v ∧ m'.registers[1]? = some v := by
  intro source m
  have hsource : ∀ i ∈ source, i.op.staysInFrame = true := by decide
  obtain ⟨t, lowered, hstart, hlower, hcoherent⟩ :=
    @run_leaves_table_coherent 2 (by decide) source hsource
  cases hstart
  cases hlower
  have hbranch : m.NeverBranches (Lowered.ofSteps (programSteps (.empty 2)
      source)).program.executable.toArray .register 9 := by decide +kernel
  have hrun := Machine.eq_ok_of_toOption (r := m.run (Lowered.ofSteps (programSteps (.empty 2)
    source)).program.executable.toArray .register 9) (h := .finished) (by decide +kernel)
  have hr : (lastTable (.empty 2) (programSteps (.empty 2) source)).resident? 1 = some 3 := by
    decide +kernel
  exact ⟨hsource, _, _, _, rfl, rfl, hbranch, hrun, hr,
    (hcoherent m _ 9 rfl hbranch hrun).2 1 3 hr⟩

end Lowering
end CrossAssembler
