import CrossAssembler.Proofs.Lowering.Transparency
import CrossAssembler.Proofs.Residency.Ranking
import Mathlib.Algebra.GroupWithZero.Nat
import Mathlib.Algebra.Order.BigOperators.Group.List
import Mathlib.Algebra.Order.Group.Nat
import Mathlib.Data.List.Infix

/-!
# More registers never cost more loads

Give lowering one more register, and every choice of a register may come out differently.  What is
cached does not: as long as every instruction fetches at most one operand, no two copies have
the same age, so that both tables rank their addresses, and the ranking of the smaller
table stays a front part of the ranking of the larger.  Whatever the smaller table caches, the
larger one caches too, and spares the load.

To see this, the rules are read as rules for rankings.  There an eviction is a cut and a write back
moves an address to the front, and it is plain that front parts stay front parts.

## Main definitions

* `Operation.fetchesAtMostOne` — the operations that fetch no two operands.
* `Ranking.fetch`, `Ranking.compute`, `Ranking.copy`, `Ranking.after` — the rules for rankings.
* `Program.loadsFor` — the number of loads that a source instruction became.
* `Includes` — the ranking of one table is a front part of that of another, with one more register.

## Main results

* `ranks_lowerInstruction` — the rules for rankings say what lowering does.
* `Ranking.prefix_after` — they keep front parts.
* `Includes.step` — so the tables stay related, and the larger one costs no more.
* `more_registers_load_no_more` — hence a program becomes no longer by it.
-/

namespace CrossAssembler

/-- Lowering the operation fetches one operand or none, and names no register in the source. -/
def Operation.fetchesAtMostOne : Operation → Bool
  | .unrecognized _ => true
  | .known op =>
    match op with
    | .afc | .cop | .not | .jmp | .pri | .ret | .nop | .call | .push | .pop => true
    | .binary _ | .load | .store | .jmf => false

namespace Lowering

open Residency (Table)
open Residency.Table (Alike)

variable {registers ticks : Nat} {t u : Table} {ranking ranking' : List Int64}

/-! ### Rules for rankings -/

namespace Ranking

/-- Bring an address to the front.  If it is not there yet, room is made for it. -/
def fetch (registers : Nat) (ranking : List Int64) (address : Int64) : List Int64 :=
  address :: if address ∈ ranking then ranking.filter (· ≠ address)
    else ranking.take (registers - 2)

/-- Make room, and put the destination there. -/
def compute (registers : Nat) (ranking : List Int64) (destination : Int64) : List Int64 :=
  destination :: (ranking.take (registers - 2)).filter (· ≠ destination)

/-- Let the destination take the place of the source. -/
def copy (ranking : List Int64) (destination source : Int64) : List Int64 :=
  destination :: (ranking.filter (· ≠ destination)).filter (· ≠ source)

/-- The ranking after an instruction that fetches at most one operand. -/
def after (registers : Nat) (ranking : List Int64) (i : SourceInstruction) : List Int64 :=
  match i.op with
  | .known .not => compute registers (fetch registers ranking i.a) i.a
  | .known .cop => copy (fetch registers ranking i.b) i.a i.b
  | .known .afc => compute registers ranking i.a
  | _ => ranking

section

variable (h : ranking <+: ranking')
include h

/-- With one more register, a cut keeps at least as much. -/
theorem prefix_take : ranking.take (registers - 2) <+: ranking'.take (registers + 1 - 2) :=
  (h.take _).trans (List.take_prefix_take_left (by omega))

theorem prefix_fetch (address : Int64) :
    fetch registers ranking address <+: fetch (registers + 1) ranking' address := by
  rw [fetch, fetch, List.prefix_cons_inj]
  by_cases hmem : address ∈ ranking
  · rw [if_pos hmem, if_pos (h.mem hmem)]
    exact h.filter _
  · rw [if_neg hmem]
    by_cases hmem' : address ∈ ranking'
    · -- only the smaller table has to make room
      have hfilter : ranking.filter (· ≠ address) = ranking := by
        refine List.filter_eq_self.mpr fun other hother => ?_
        simpa using ne_of_mem_of_not_mem hother hmem
      rw [if_pos hmem']
      have hfiltered := h.filter (· ≠ address)
      rw [hfilter] at hfiltered
      have hcut : ranking.take (registers - 2) <+: ranking := List.take_prefix _ _
      exact hcut.trans hfiltered
    · rw [if_neg hmem']
      exact prefix_take h

theorem prefix_compute (destination : Int64) :
    compute registers ranking destination <+: compute (registers + 1) ranking' destination := by
  rw [compute, compute, List.prefix_cons_inj]
  exact (prefix_take h).filter _

theorem prefix_copy (destination source : Int64) :
    copy ranking destination source <+: copy ranking' destination source := by
  rw [copy, copy, List.prefix_cons_inj]
  exact (h.filter _).filter _

/-- **A front part stays a front part**, whatever the instruction. -/
theorem prefix_after (i : SourceInstruction) :
    after registers ranking i <+: after (registers + 1) ranking' i := by
  unfold after
  split
  · exact prefix_compute (prefix_fetch h i.a) i.a
  · exact prefix_copy (prefix_fetch h i.b) i.a i.b
  · exact prefix_compute h i.a
  · exact h

end

end Ranking

/-! ### Lowering follows the rules -/

/-- After a fetch, every copy of another address is at least one instruction old. -/
theorem agedBut_fetch (h : t.Settled registers) (hsize : 1 < t.size) (address : Int64) :
    (fetch t address).2.table.AgedBut address := by
  intro r other hr hne
  have hr' : r ≠ (fetch t address).1 := by
    rintro rfl
    rw [resident?_fetch_self hsize] at hr
    exact hne (Option.some.inj hr).symm
  rw [Table.resident?, slot?_fetch_of_ne hr'] at hr
  rw [Table.age, slot?_fetch_of_ne hr']
  exact h.one_le_age_of_resident? hr

section

variable (h : t.Ranks registers ranking)
include h

theorem ranks_fetch (hs : t.Settled registers) (hsize : 1 < t.size) (address : Int64) :
    (fetch t address).2.table.Ranks registers (Ranking.fetch registers ranking address) := by
  cases hl : t.locate address with
  | some r =>
    obtain ⟨hmem, hr⟩ := Table.of_locate hl
    have hranked : address ∈ ranking := (h.mem_iff address).mpr ⟨r, hr⟩
    have hfill := h.fill hmem (fun q hq => h.unique hq hr)
      fun q other _ hq => hs.one_le_age_of_resident? hq
    rw [fetch_of_locate_eq_some hl, Ranking.fetch, if_pos hranked]
    simpa [hr, eq_comm] using hfill
  | none =>
    have hnone := h.toValid.resident?_ne_of_locate_eq_none hl
    have hranked : address ∉ ranking := by
      rw [h.mem_iff]
      rintro ⟨r, hr⟩
      exact hnone r hr
    have hmem : t.evict.1 ∈ t.evict.2.usable := by
      rw [Table.usable_evict]
      exact Table.evict_mem_usable hsize
    have honly : ∀ q, t.evict.2.resident? q = some address → q = t.evict.1 := fun q hq =>
      absurd (Table.of_resident?_evict hsize hq).2 (hnone q)
    have hfill := (h.evict hsize).fill hmem honly fun q other hne hq => by
      rw [Table.age_evict_of_ne hne]
      exact hs.one_le_age_of_resident? (Table.of_resident?_evict hsize hq).2
    rw [fetch_of_locate_eq_none hl, Ranking.fetch, if_neg hranked]
    simpa [Table.resident?_evict_self hsize] using hfill

theorem ranks_compute (hsize : 1 < t.size) {destination : Int64} (haged : t.AgedBut destination)
    (i : Nat → LoweredInstruction) :
    (compute t i destination).table.Ranks registers
      (Ranking.compute registers ranking destination) := by
  have hevict := h.evict hsize
  have hmem : t.evict.1 ∈ (t.evict.2.dropAddress destination).usable := by
    rw [Table.usable_dropAddress, Table.usable_evict]
    exact Table.evict_mem_usable hsize
  have hempty : (t.evict.2.dropAddress destination).resident? t.evict.1 = none := by
    rw [Table.resident?_dropAddress, Table.resident?_evict_self hsize]
    simp
  -- what is left has been there before, and the destination is not among it
  have haged' : ∀ q other, q ≠ t.evict.1 →
      (t.evict.2.dropAddress destination).resident? q = some other →
      1 ≤ (t.evict.2.dropAddress destination).age q := by
    intro q other hne hq
    obtain ⟨hq', hother⟩ := hevict.toValid.resident?_dropAddress_eq_some_iff.mp hq
    rw [Table.age_dropAddress_of_resident? hq' hother, Table.age_evict_of_ne hne]
    exact haged q other (Table.of_resident?_evict hsize hq').2 hother
  have hfill := (hevict.dropAddress destination).fill hmem
    (fun q hq => absurd hq (hevict.toValid.resident?_dropAddress_ne destination q)) haged'
  have hfilter : ((ranking.take (registers - 2)).filter (· ≠ destination)).filter
        (fun other => (t.evict.2.dropAddress destination).resident? t.evict.1 ≠ some other) =
      (ranking.take (registers - 2)).filter (· ≠ destination) :=
    List.filter_eq_self.mpr fun other _ => by simp [hempty]
  rw [hfilter] at hfill
  exact hfill

theorem ranks_writeBack {r : Nat} {source : Int64} (hr : t.resident? r = some source)
    (haged : t.AgedBut source) (destination : Int64) :
    (writeBack t r destination).table.Ranks registers
      (Ranking.copy ranking destination source) := by
  have hmem : r ∈ (t.dropAddress destination).usable := by
    rw [Table.usable_dropAddress]
    exact h.mem_usable_of_resident? hr
  have haged' : ∀ q other, q ≠ r → (t.dropAddress destination).resident? q = some other →
      1 ≤ (t.dropAddress destination).age q := by
    intro q other hne hq
    obtain ⟨hq', hother⟩ := h.toValid.resident?_dropAddress_eq_some_iff.mp hq
    rw [Table.age_dropAddress_of_resident? hq' hother]
    refine haged q other hq' ?_
    rintro rfl
    exact hne (h.unique hq' hr)
  have hfill := (h.dropAddress destination).fill hmem
    (fun q hq => absurd hq (h.toValid.resident?_dropAddress_ne destination q)) haged'
  -- the register still caches the source, unless this was the destination
  have hfilter : (ranking.filter (· ≠ destination)).filter
        (fun other => (t.dropAddress destination).resident? r ≠ some other) =
      (ranking.filter (· ≠ destination)).filter (· ≠ source) := by
    refine List.filter_congr fun other hother => ?_
    have hne : other ≠ destination := by simpa using (List.mem_filter.mp hother).2
    by_cases hsource : other = source
    · have hkept : (t.dropAddress destination).resident? r = some other :=
        h.toValid.resident?_dropAddress_eq_some_iff.mpr ⟨by rw [hr, hsource], hne⟩
      simp [hkept, hsource]
    · have hgone : (t.dropAddress destination).resident? r ≠ some other := by
        intro hcached
        have hcached' := (h.toValid.resident?_dropAddress_eq_some_iff.mp hcached).1
        exact hsource (Option.some.inj (hcached'.symm.trans hr))
      simp [hgone, hsource]
  rw [hfilter] at hfill
  exact hfill

/-- **Lowering follows the rules for rankings.** -/
theorem ranks_lowerInstruction (hs : t.Settled registers) (hsize : 1 < t.size)
    {i : SourceInstruction} (hi : i.op.fetchesAtMostOne = true) :
    (lowerInstruction t i).table.Ranks registers (Ranking.after registers ranking i) := by
  obtain ⟨op, a, b, c⟩ := i
  cases op with
  | unrecognized word => exact h
  | known op =>
    cases op with
    | binary | load | store | jmf => cases hi
    | not =>
      have hfetch := ranks_fetch h hs hsize a
      have hsize' : 1 < (fetch t a).2.table.size := by rwa [size_fetch]
      simp only [lowerInstruction, lowerOp, lowerNot_eq]
      exact ranks_compute hfetch hsize' (agedBut_fetch hs hsize a) _
    | cop =>
      have hfetch := ranks_fetch h hs hsize b
      simp only [lowerInstruction, lowerOp, lowerCopy_eq]
      exact ranks_writeBack hfetch (resident?_fetch_self hsize b) (agedBut_fetch hs hsize b) a
    | afc =>
      simp only [lowerInstruction, lowerOp, lowerConstant_eq]
      exact ranks_compute h hsize (hs.agedBut a) _
    | jmp | pri | ret | nop | call | push | pop => exact h

end

/-! ### Loads -/

/-- The number of loads among some instructions. -/
def loads (code : List LoweredInstruction) : Nat := code.countP fun j => j.op = .load

@[simp] theorem loads_append (code code' : List LoweredInstruction) :
    loads (code ++ code') = loads code + loads code' := List.countP_append

/-- All the code of a fetch is a load. -/
theorem loads_fetch (t : Table) (address : Int64) :
    loads (fetch t address).2.code = (fetch t address).2.code.length := by
  refine List.countP_eq_length.mpr fun j hj => ?_
  simpa using op_of_mem_fetch hj

/-- There is one exactly if the address is not ranked. -/
theorem length_fetch (h : t.Ranks registers ranking) (address : Int64) :
    (fetch t address).2.code.length = if address ∈ ranking then 0 else 1 := by
  cases hl : t.locate address with
  | some r =>
    rw [fetch_of_locate_eq_some hl, if_pos ((h.mem_iff address).mpr ⟨r, (Table.of_locate hl).2⟩)]
    rfl
  | none =>
    rw [fetch_of_locate_eq_none hl, if_neg]
    · rfl
    · rw [h.mem_iff]
      rintro ⟨r, hr⟩
      exact h.toValid.resident?_ne_of_locate_eq_none hl r hr

/-- How many instructions an instruction becomes, loads aside. -/
def ownLength (i : SourceInstruction) : Nat :=
  match i.op with
  | .known .not | .known .afc => 2
  | .known _ => 1
  | .unrecognized _ => 0

/-- **An instruction is charged a load for each operand that is not ranked**, and its own code. -/
theorem loads_lowerInstruction (h : t.Ranks registers ranking) {i : SourceInstruction}
    (hi : i.op.fetchesAtMostOne = true) :
    loads (lowerInstruction t i).code = (operands i).countP (· ∉ ranking) ∧
      (lowerInstruction t i).code.length = loads (lowerInstruction t i).code + ownLength i := by
  obtain ⟨op, a, b, c⟩ := i
  cases op with
  | unrecognized word => exact ⟨rfl, rfl⟩
  | known op =>
    cases op with
    | binary | load | store | jmf => cases hi
    | not =>
      have hlength := length_fetch h a
      have hloads := loads_fetch t a
      simp only [lowerInstruction, lowerOp, lowerNot_eq, compute, writeBack, loads_append,
        List.length_append, hloads, hlength]
      by_cases ha : a ∈ ranking <;> simp [loads, operands, ownLength, ha, LoweredInstruction.store]
    | cop =>
      have hlength := length_fetch h b
      have hloads := loads_fetch t b
      simp only [lowerInstruction, lowerOp, lowerCopy_eq, writeBack, loads_append,
        List.length_append, hloads, hlength]
      by_cases hb : b ∈ ranking <;> simp [loads, operands, ownLength, hb, LoweredInstruction.store]
    | afc => exact ⟨rfl, rfl⟩
    | jmp | pri | ret | nop | call | push | pop => exact ⟨rfl, rfl⟩

/-! ### Two tables -/

/-- The step costs no more than the other, which is of the same index. -/
structure Step.CostsNoMore (s s' : Step) : Prop where
  index_eq : s.index = s'.index
  loads_le : loads s.code ≤ loads s'.code
  length_le : s.code.length ≤ s'.code.length

/-- The table `t` of a register file and the table `u` of one with one more register are both
settled and not older than the clock, and the ranking of the first is a front part of that of the
second. -/
structure Includes (registers ticks : Nat) (t u : Table) : Prop where
  settled : t.Settled registers
  settled' : u.Settled (registers + 1)
  age_le : ∀ r, t.age r ≤ ticks
  age_le' : ∀ r, u.age r ≤ ticks
  rankings : ∃ ranking ranking', t.Ranks registers ranking ∧ u.Ranks (registers + 1) ranking' ∧
    ranking <+: ranking'

theorem includes_empty (h : 0 < registers) :
    Includes registers 0 (.empty registers) (.empty (registers + 1)) where
  settled := Table.settled_empty h
  settled' := Table.settled_empty (Nat.succ_pos registers)
  age_le := by simp
  age_le' := by simp
  rankings := ⟨[], [], .empty h, .empty (Nat.succ_pos registers), List.prefix_refl []⟩

/-- A step makes no register older than the clock: it is a special case of lowering from tables
that are alike. -/
theorem age_step_le (h : t.Settled registers) (hsize : 1 < t.size) (hage : ∀ r, t.age r ≤ ticks)
    (hmax : ticks < Residency.Slot.maxAge) (index : Nat) (i : SourceInstruction) :
    (∀ r, (lowerInstruction t i).table.age r ≤ ticks) ∧
      ∀ r, (step t index i).table.age r ≤ ticks + 1 := by
  have hself : Alike ticks t t := ⟨rfl, fun _ => rfl, fun _ _ => Iff.rfl, hage, hage⟩
  have halike := (alike_lowerInstruction hself i).table
  exact ⟨halike.age_le, halike.age_tick_le (valid_lowerInstruction h.toValid hsize i) hmax⟩

/-- A step from a table that ranks its addresses. -/
theorem ranks_step (h : t.Ranks registers ranking) (hs : t.Settled registers) (hsize : 1 < t.size)
    (hage : ∀ r, t.age r ≤ ticks) (hmax : ticks < Residency.Slot.maxAge) (index : Nat)
    {i : SourceInstruction} (hi : i.op.fetchesAtMostOne = true) :
    (step t index i).table.Ranks registers (Ranking.after registers ranking i) :=
  (ranks_lowerInstruction h hs hsize hi).tick fun r =>
    Nat.lt_of_le_of_lt ((age_step_le hs hsize hage hmax index i).1 r) hmax

/-- **A step keeps two tables related**, and costs no more from the larger one. -/
theorem Includes.step (h : Includes registers ticks t u) (hsize : 1 < registers)
    (hmax : ticks < Residency.Slot.maxAge) (index : Nat) {i : SourceInstruction}
    (hi : i.op.fetchesAtMostOne = true) :
    Includes registers (ticks + 1) (step t index i).table (step u index i).table ∧
      (step u index i).CostsNoMore (step t index i) := by
  obtain ⟨ranking, ranking', ht, hu, hfront⟩ := h.rankings
  have hsizet : 1 < t.size := by rwa [h.settled.size_eq]
  have hsizeu : 1 < u.size := by
    rw [h.settled'.size_eq]
    omega
  constructor
  · exact
      { settled := settled_step h.settled hsizet index i
        settled' := settled_step h.settled' hsizeu index i
        age_le := (age_step_le h.settled hsizet h.age_le hmax index i).2
        age_le' := (age_step_le h.settled' hsizeu h.age_le' hmax index i).2
        rankings := ⟨_, _, ranks_step ht h.settled hsizet h.age_le hmax index hi,
          ranks_step hu h.settled' hsizeu h.age_le' hmax index hi,
          Ranking.prefix_after hfront i⟩ }
  · -- what the smaller table ranks, the larger one ranks too
    obtain ⟨hloads, hlength⟩ := loads_lowerInstruction ht hi
    obtain ⟨hloads', hlength'⟩ := loads_lowerInstruction hu hi
    have hle : (operands i).countP (· ∉ ranking') ≤ (operands i).countP (· ∉ ranking) := by
      refine List.countP_mono_left fun address _ hmem => ?_
      have hnot : address ∉ ranking' := by simpa using hmem
      simpa using fun hranked => hnot (hfront.mem hranked)
    have hfewer : loads (lowerInstruction u i).code ≤ loads (lowerInstruction t i).code := by
      rw [hloads, hloads']
      exact hle
    exact ⟨rfl, hfewer, by
      show (lowerInstruction u i).code.length ≤ (lowerInstruction t i).code.length
      omega⟩

/-- **Every step of a pass costs no more from the larger table.** -/
theorem Includes.steps (h : Includes registers ticks t u) (hsize : 1 < registers)
    {calls : List (SourceInstruction × Nat)}
    (hcalls : ∀ call ∈ calls, call.1.op.fetchesAtMostOne = true)
    (hlimit : ticks + calls.length ≤ Residency.Slot.maxAge) :
    List.Forall₂ Step.CostsNoMore (steps u calls) (steps t calls) := by
  induction calls generalizing t u ticks with
  | nil => exact .nil
  | cons call rest ih =>
    rw [List.length_cons] at hlimit
    obtain ⟨hnext, hcost⟩ :=
      h.step hsize (by omega) call.2 (hcalls call List.mem_cons_self)
    refine .cons hcost (ih hnext (fun c hc => hcalls c (List.mem_cons_of_mem call hc)) ?_)
    omega

/-! ### Programs -/

/-- The number of loads that a source instruction became. -/
def Program.loadsFor (p : Program) (source : Nat) : Nat :=
  p.entries.countP fun e => e.origin = source ∧ e.instruction.op = .load

theorem loadsFor_ofSteps (ss : List Step) (source : Nat) :
    (Lowered.ofSteps ss).program.loadsFor source =
      (ss.map fun s => if s.index = source then loads s.code else 0).sum := by
  rw [Program.loadsFor, Lowered.program_ofSteps, List.countP_flatMap]
  congr 1
  refine List.map_congr_left fun s _ => ?_
  show s.entries.countP _ = _
  rw [Step.entries, List.countP_map]
  by_cases hindex : s.index = source
  · rw [if_pos hindex]
    refine List.countP_congr fun j _ => ?_
    simp [hindex]
  · rw [if_neg hindex, List.countP_eq_zero]
    simp [hindex]

section

variable {ss ss' : List Step} (h : List.Forall₂ Step.CostsNoMore ss ss')
include h

theorem loadsFor_le (source : Nat) :
    (Lowered.ofSteps ss).program.loadsFor source ≤
      (Lowered.ofSteps ss').program.loadsFor source := by
  rw [loadsFor_ofSteps, loadsFor_ofSteps]
  refine List.Forall₂.sum_le_sum ?_
  rw [List.forall₂_map_left_iff, List.forall₂_map_right_iff]
  refine h.imp fun s s' hcost => ?_
  rw [hcost.index_eq]
  split
  · exact hcost.loads_le
  · exact Nat.le_refl 0

theorem length_instructions_le :
    (Lowered.ofSteps ss).program.instructions.length ≤
      (Lowered.ofSteps ss').program.instructions.length := by
  simp only [Lowered.program_ofSteps, Program.instructions, List.length_map, List.length_flatMap,
    Step.entries]
  refine List.Forall₂.sum_le_sum ?_
  rw [List.forall₂_map_left_iff, List.forall₂_map_right_iff]
  exact h.imp fun s s' hcost => hcost.length_le

end

/-- **One more register never costs a load.**  Take a program whose instructions fetch at most one
operand each, short enough that no clock stops, and lower it onto a register file and onto one with
one more register.  What takes no load on the first takes none on the second, so that the program
does not become longer. -/
theorem more_registers_load_no_more (h : RegisterFile.minSize ≤ registers)
    (h' : registers < RegisterFile.maxSize) {source : List SourceInstruction}
    (hsource : ∀ i ∈ source, i.op.fetchesAtMostOne = true)
    (hlength : source.length < UInt32.size) :
    ∃ small large, lower source registers = .ok small ∧
      lower source (registers + 1) = .ok large ∧
      (∀ k, small.program.loadsFor k = 0 → large.program.loadsFor k = 0) ∧
      large.program.instructions.length ≤ small.program.instructions.length := by
  have hsupported : RegisterFile.Supported registers := ⟨h, Nat.le_of_lt h'⟩
  have hsupported' : RegisterFile.Supported (registers + 1) := ⟨Nat.le_succ_of_le h, h'⟩
  have hcalls : ∀ call ∈ source.zipIdx, call.1.op.fetchesAtMostOne = true := fun call hcall =>
    hsource call.1 (List.fst_mem_of_mem_zipIdx hcall)
  have hlimit : 0 + source.zipIdx.length ≤ Residency.Slot.maxAge := by
    rw [List.length_zipIdx, Nat.zero_add]
    exact Nat.le_sub_one_of_lt hlength
  have hcost := (includes_empty (Nat.lt_of_lt_of_le Nat.zero_lt_two h)).steps h hcalls hlimit
  refine ⟨_, _, lower_eq hsupported source, lower_eq hsupported' source, fun k hk => ?_,
    length_instructions_le hcost⟩
  exact Nat.le_zero.mp (hk ▸ loadsFor_le hcost k)

/-- Two registers against three.  The negation is spared a load on the larger file.  It uses up both
registers there, so that the last copy is not. -/
theorem more_registers_load_no_more_two :
    let source : List SourceInstruction := [⟨.known .afc, 0, 5, 0⟩, ⟨.known .afc, 1, 6, 0⟩,
      ⟨.known .not, 0, 0, 0⟩, ⟨.known .push, 1, 0, 0⟩, ⟨.known .cop, 2, 0, 0⟩,
      ⟨.unrecognized "HALT", 0, 0, 0⟩, ⟨.known .cop, 0, 1, 0⟩]
    (RegisterFile.minSize ≤ 2 ∧ 2 < RegisterFile.maxSize ∧
        (∀ i ∈ source, i.op.fetchesAtMostOne = true) ∧ source.length < UInt32.size) ∧
      ∃ small large, lower source 2 = .ok small ∧ lower source 3 = .ok large ∧
        small.program.loadsFor 4 = 0 ∧ large.program.loadsFor 4 = 0 ∧
        small.program.loadsFor 2 = 1 ∧ large.program.loadsFor 2 = 0 ∧
        large.program.instructions.length ≤ small.program.instructions.length := by
  intro source
  have hsource : ∀ i ∈ source, i.op.fetchesAtMostOne = true := by decide
  have hlength : source.length < UInt32.size := by decide
  obtain ⟨small, large, hsmall, hlarge, hloads, hshorter⟩ :=
    @more_registers_load_no_more 2 (by decide) (by decide) source hsource hlength
  cases hsmall
  cases hlarge
  have hnone : (Lowered.ofSteps (programSteps (.empty 2) source)).program.loadsFor 4 = 0 := by
    decide +kernel
  exact ⟨⟨by decide, by decide, hsource, hlength⟩, _, _, rfl, rfl, hnone, hloads 4 hnone,
    by decide +kernel, by decide +kernel, hshorter⟩

end Lowering
end CrossAssembler
