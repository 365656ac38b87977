import CrossAssembler.Proofs.Lists
import CrossAssembler.Proofs.Lowering.Emission
import CrossAssembler.Proofs.Lowering.Simulation
import Mathlib.Data.List.Sort

/-!
# Origins

Every instruction of a lowered program remembers the source instruction it was emitted for.
A pass goes through its source once and from top to bottom, so the origins never go back,
and the program falls into consecutive pieces: what became of the first source instruction,
what became of the second, and so on.  Only an unrecognized word leaves its piece empty.

That the pieces fit together follows from the order of the origins alone, so it is said of
any program whose origins are in order.

## Main definitions

* `Program.DividedAmong` — a program is divided among its source instructions.
* `problem?` — what is reported about an instruction, said without a residency table.

## Main results

* `Program.dividedAmong_of_sorted` — a program whose origins never go back is divided among
  its source instructions.
* `lower_divides_program` — so is every lowered program, each piece has the length it should
  have, and nothing is reported but what should be.
-/

namespace CrossAssembler
namespace Lowering

open Residency (Table)

/-! ### Programs in pieces -/

namespace Program

variable {p : Program} {source address : Nat}

/-- The instructions of a program are divided among the source instructions below `n`, in
their order. -/
structure DividedAmong (p : Program) (n : Nat) : Prop where
  /-- Every instruction has an origin. -/
  length_origins : p.origins.length = p.instructions.length
  /-- Origins never go back. -/
  sorted : p.origins.Pairwise (· ≤ ·)
  /-- They are indices of source instructions. -/
  lt : ∀ origin ∈ p.origins, origin < n
  /-- What the source instructions became, one after the other, is the whole program. -/
  flatMap_targetsOf : (List.range n).flatMap p.targetsOf = List.range p.instructions.length
  /-- Targets and origins say the same. -/
  mem_targetsOf : ∀ source address,
    address ∈ p.targetsOf source ↔ p.originOf? address = some source

theorem mem_targetsOf : address ∈ p.targetsOf source ↔ p.originOf? address = some source := by
  rw [targetsOf, List.mem_filterMap]
  constructor
  · rintro ⟨⟨origin, address'⟩, hmem, hsome⟩
    obtain ⟨rfl, rfl⟩ : origin = source ∧ address' = address := by simpa using hsome
    exact List.mem_zipIdx_iff_getElem?.mp hmem
  · intro horigin
    exact ⟨(source, address), List.mem_zipIdx_iff_getElem?.mpr horigin, if_pos rfl⟩

theorem pairwise_targetsOf (p : Program) (source : Nat) :
    (p.targetsOf source).Pairwise (· < ·) := by
  refine List.pairwise_filterMap.mpr ((pairwise_zipIdx p.origins 0).imp ?_)
  intro x y hlt a ha b hb
  obtain ⟨-, rfl⟩ : x.1 = source ∧ x.2 = a := by simpa using ha
  obtain ⟨-, rfl⟩ : y.1 = source ∧ y.2 = b := by simpa using hb
  exact hlt

theorem length_targetsOf (p : Program) (source : Nat) :
    (p.targetsOf source).length = p.origins.count source := by
  rw [targetsOf, List.length_filterMap_eq_countP, List.count]
  conv_rhs => rw [← List.zipIdx_map_fst 0 p.origins, List.countP_map]
  refine List.countP_congr fun x _ => ?_
  by_cases h : x.1 = source <;> simp [h]

theorem lt_of_originOf?_lt (hsorted : p.origins.Pairwise (· ≤ ·)) {x y i j : Nat}
    (hx : p.originOf? x = some i) (hy : p.originOf? y = some j) (hlt : i < j) : x < y := by
  obtain ⟨hxlt, rfl⟩ := List.getElem?_eq_some_iff.mp hx
  obtain ⟨hylt, rfl⟩ := List.getElem?_eq_some_iff.mp hy
  rcases Nat.lt_trichotomy x y with h | rfl | h
  · exact h
  · exact absurd hlt (Nat.lt_irrefl _)
  · have hle := List.pairwise_iff_getElem.mp hsorted y x hylt hxlt h
    exact absurd hlt (Nat.not_lt.mpr hle)

/-- **A program whose origins never go back is divided among its source instructions.** -/
theorem dividedAmong_of_sorted {n : Nat} (hsorted : p.origins.Pairwise (· ≤ ·))
    (hlt : ∀ origin ∈ p.origins, origin < n) : p.DividedAmong n where
  length_origins := p.length_origins
  sorted := hsorted
  lt := hlt
  mem_targetsOf := fun _ _ => mem_targetsOf
  flatMap_targetsOf := by
    -- both lists are increasing, so it is enough that they have the same members
    have hincreasing : ((List.range n).flatMap p.targetsOf).Pairwise (· < ·) := by
      refine List.pairwise_flatMap.mpr ⟨fun i _ => p.pairwise_targetsOf i, ?_⟩
      refine List.pairwise_lt_range.imp fun hij x hx y hy => ?_
      exact lt_of_originOf?_lt hsorted (mem_targetsOf.mp hx) (mem_targetsOf.mp hy) hij
    refine hincreasing.eq_of_mem_iff List.pairwise_lt_range fun address => ?_
    rw [List.mem_flatMap, List.mem_range, ← p.length_origins]
    constructor
    · rintro ⟨source, -, haddress⟩
      exact (List.getElem?_eq_some_iff.mp (mem_targetsOf.mp haddress)).1
    · intro haddress
      refine ⟨p.origins[address], ?_, mem_targetsOf.mpr (List.getElem?_eq_getElem haddress)⟩
      exact List.mem_range.mpr (hlt _ (List.getElem_mem haddress))

end Program

/-! ### The origins of a pass -/

theorem index_steps (t : Table) (calls : List (SourceInstruction × Nat)) :
    (steps t calls).map Step.index = calls.map Prod.snd := by
  induction calls generalizing t with
  | nil => rfl
  | cons call rest ih => exact congrArg (call.2 :: ·) (ih _)

/-- Every instruction of a step has the index of the step for its origin. -/
theorem origins_ofSteps (ss : List Step) :
    (Lowered.ofSteps ss).program.origins =
      ss.flatMap fun s => List.replicate s.code.length s.index := by
  simp [Lowered.program_ofSteps, Program.origins, Step.entries, List.map_flatMap, Function.comp_def]

section

variable {ss : List Step} (h : ss.Pairwise fun s s' => s.index < s'.index)
include h

theorem pairwise_origins : (Lowered.ofSteps ss).program.origins.Pairwise (· ≤ ·) := by
  rw [origins_ofSteps, List.pairwise_flatMap]
  refine ⟨fun s _ => List.pairwise_replicate.mpr (Or.inr (Nat.le_refl _)), h.imp ?_⟩
  intro s s' hlt x hx y hy
  rw [List.eq_of_mem_replicate hx, List.eq_of_mem_replicate hy]
  exact Nat.le_of_lt hlt

/-- A step is the origin of as many instructions as it emits. -/
theorem count_origins {s : Step} (hs : s ∈ ss) :
    (Lowered.ofSteps ss).program.origins.count s.index = s.code.length := by
  rw [origins_ofSteps]
  induction ss with
  | nil => cases hs
  | cons first rest ih =>
    obtain ⟨hfirst, hrest⟩ := List.pairwise_cons.mp h
    rw [List.flatMap_cons, List.count_append, List.count_replicate]
    rcases List.mem_cons.mp hs with rfl | hs
    · -- no later step has the index of this one
      rw [List.count_eq_zero.mpr]
      · simp
      · intro hmem
        obtain ⟨s', hs', hindex⟩ := List.mem_flatMap.mp hmem
        exact Nat.ne_of_lt (hfirst s' hs') (List.eq_of_mem_replicate hindex)
    · rw [ih hrest hs]
      simp [Nat.ne_of_lt (hfirst s hs)]

end

/-! ### Reports -/

/-- What is wrong with an instruction, on a register file of the given size: a word that
names no operation, or a load of a register that is not allocatable. -/
def problem? (registers index : Nat) (i : SourceInstruction) : Option Diagnostic :=
  match i.op with
  | .unrecognized word => some (.unrecognized index word)
  | .known .load =>
    if i.a.toInt ≤ 0 ∨ registers ≤ i.a.toInt then some (.untrackedRegister index i.a) else none
  | .known _ => none

/-- Of the residency table, only its size matters for what is reported.  A conditional jump
is never reported, because the scratch register is tracked. -/
theorem diagnose_eq {t : Table} (h : 1 < t.size) (index : Nat) (i : SourceInstruction) :
    diagnose t index i = problem? t.size index i := by
  obtain ⟨op, a, b, c⟩ := i
  cases op with
  | unrecognized word => rfl
  | known op =>
    cases op with
    | load =>
      have hreserved : (RegisterFile.reserved : Int) = 0 := rfl
      by_cases htracked : 0 < a.toInt ∧ a.toInt < t.size
      · have hproblem : ¬ (a.toInt ≤ 0 ∨ t.size ≤ a.toInt) := by omega
        simp [diagnose, untracked?, problem?, tracked?, hreserved, htracked, hproblem]
      · have hproblem : a.toInt ≤ 0 ∨ t.size ≤ a.toInt := by omega
        simp [diagnose, untracked?, problem?, tracked?, hreserved, htracked, hproblem]
    | jmf => simp [diagnose, untracked?, problem?, tracked?_scratch h]
    | _ => rfl

theorem diagnostics_steps {t : Table} (h : 1 < t.size) (calls : List (SourceInstruction × Nat)) :
    (steps t calls).filterMap Step.diagnostic =
      calls.filterMap fun call => problem? t.size call.2 call.1 := by
  induction calls generalizing t with
  | nil => rfl
  | cons call rest ih =>
    have hfirst : (step t call.2 call.1).diagnostic = problem? t.size call.2 call.1 :=
      diagnose_eq h call.2 call.1
    have hsize : 1 < (step t call.2 call.1).table.size := by rwa [size_step]
    rw [steps, List.filterMap_cons, List.filterMap_cons, hfirst, ih hsize, size_step]

/-! ### Lowered programs -/

theorem length_lowerInstruction_of_known (t : Table) {i : SourceInstruction} {op : Opcode}
    (hop : i.op = .known op) :
    1 ≤ (lowerInstruction t i).code.length ∧ (lowerInstruction t i).code.length ≤ 4 := by
  rw [lowerInstruction, hop]
  exact length_lowerOp t op i.a i.b i.c

/-- Only an unrecognized word becomes nothing. -/
theorem length_lowerInstruction_eq_zero_iff (t : Table) (i : SourceInstruction) :
    (lowerInstruction t i).code.length = 0 ↔ ∃ word, i.op = .unrecognized word := by
  cases hop : i.op with
  | unrecognized word => simp [lowerInstruction, hop]
  | known op =>
    have hlength := length_lowerInstruction_of_known t hop
    simp only [reduceCtorEq, exists_false, iff_false]
    omega

/-- **A lowered program is divided among the instructions of its source.**  The origins never
go back, and the pieces that the source instructions became make up the program without a
gap.  The piece of an unrecognized instruction is empty, any other has one to four
instructions.  Reported are, in source order, the unrecognized words and the loads of
registers that are not allocatable, and nothing else. -/
theorem lower_divides_program {registers : Nat} (h : RegisterFile.Supported registers)
    (source : List SourceInstruction) :
    ∃ lowered, lower source registers = .ok lowered ∧
      lowered.program.DividedAmong source.length ∧
      (∀ k i, source[k]? = some i →
        (lowered.program.targetsOf k = [] ↔ ∃ word, i.op = .unrecognized word) ∧
        ((∃ op, i.op = .known op) →
          1 ≤ (lowered.program.targetsOf k).length ∧
            (lowered.program.targetsOf k).length ≤ 4)) ∧
      lowered.diagnostics =
        source.zipIdx.filterMap fun call => problem? registers call.2 call.1 := by
  have hindex : (programSteps (.empty registers) source).map Step.index =
      List.range' 0 source.length := by
    rw [programSteps, index_steps, List.zipIdx_map_snd]
  have hincreasing : (programSteps (.empty registers) source).Pairwise
      fun s s' => s.index < s'.index := by
    rw [← List.pairwise_map (R := (· < ·)), hindex]
    exact List.pairwise_lt_range'
  refine ⟨_, lower_eq h source, ?_, fun k i hk => ?_, ?_⟩
  · refine Program.dividedAmong_of_sorted (pairwise_origins hincreasing) fun origin horigin => ?_
    rw [origins_ofSteps] at horigin
    obtain ⟨s, hs, hmem⟩ := List.mem_flatMap.mp horigin
    have hs' : s.index ∈ List.range' 0 source.length := hindex ▸ List.mem_map_of_mem hs
    rw [List.eq_of_mem_replicate hmem]
    simpa using hs'
  · obtain ⟨t, hs⟩ := exists_mem_steps (.empty registers) (List.mem_zipIdx_iff_getElem?.mpr hk)
    have hlength := (Program.length_targetsOf _ k).trans (count_origins hincreasing hs)
    rw [← List.length_eq_zero_iff, hlength]
    refine ⟨length_lowerInstruction_eq_zero_iff t i, ?_⟩
    rintro ⟨op, hop⟩
    exact length_lowerInstruction_of_known t hop
  · have hdiagnostics := diagnostics_steps (one_lt_size_start h) source.zipIdx
    rw [Table.size_empty] at hdiagnostics
    exact hdiagnostics

/-- With one usable register, an addition takes all four instructions.  A word is skipped, and
two loads name registers that are not allocatable, of which one does not exist. -/
theorem lower_divides_program_two :
    let source : List SourceInstruction := [⟨.known (.binary .add), 2, 3, 4⟩,
      ⟨.unrecognized "HALT", 0, 0, 0⟩, ⟨.known .load, 2, 3, 0⟩, ⟨.known .jmf, 2, 0, 0⟩,
      ⟨.known .load, 0, 2, 0⟩]
    RegisterFile.Supported 2 ∧ ∃ lowered, lower source 2 = .ok lowered ∧
      lowered.program.DividedAmong 5 ∧ lowered.program.origins = [0, 0, 0, 0, 2, 3, 3, 4] ∧
      lowered.program.targetsOf 1 = [] ∧ (lowered.program.targetsOf 0).length ≤ 4 ∧
      lowered.diagnostics = [.unrecognized 1 "HALT", .untrackedRegister 2 2,
        .untrackedRegister 4 0] := by
  intro source
  obtain ⟨lowered, hlower, hdivided, hpieces, hdiagnostics⟩ :=
    @lower_divides_program 2 (by decide) source
  cases hlower
  exact ⟨by decide, _, rfl, hdivided, by decide +kernel, (hpieces 1 _ rfl).1.mpr ⟨_, rfl⟩,
    ((hpieces 0 _ rfl).2 ⟨_, rfl⟩).2, hdiagnostics.trans (by decide +kernel)⟩

end Lowering
end CrossAssembler
