import CrossAssembler.Proofs.Lowering.Coherence
import CrossAssembler.Proofs.Machine.Outcome

/-!
# Lowered code simulates its source

A source program computes on cells, the lowered one on registers.  Step for step the
two machines agree in memory, frame and output, provided that an operand which is taken
from a register without being loaded is there: the register has to be a copy of the
cell that the operand names.  `reusesLive` says so in terms of the ledger of the
emitted code, so it can be checked before anything runs.

With two usable registers or more, the second operand of a computation does not push
out the first.  The result may take the place of either, for it is written only when
both have been read.

## Main definitions

* `live`, `reusesLive` — what is taken from registers is there.
* `Matches` — executing code from a machine ends as a step of the source does.
* `InStep` — two runs have got equally far, and nothing tells their machines apart.

## Main results

* `matches_lowerInstruction` — the code of an instruction ends as the instruction does.
* `InStep.halt`, `InStep.next` — an instruction ends two runs that are in step alike, or
  both are in step after it.
* `InStep.endAlike` — two runs that are in step end alike.
* `endAlike_of_reusesLive` — a program runs like the program lowered from it.
* `executeAlike_of_reusesLive` — a program executes like the program lowered from it.
-/

namespace CrossAssembler

/-- The operation does the same in a source program and in the program lowered from it:
it does not jump, or only if its condition is zero, and it does not read a register that
the source may have used otherwise. -/
def Operation.isStraight : Operation → Bool
  | .unrecognized _ => false
  | .known op =>
    match op with
    | .binary _ | .not | .cop | .afc | .pri | .nop | .load | .jmf | .push | .pop => true
    | .store | .jmp | .call | .ret => false

namespace Lowering

open Residency (Table)
open Residency.Table (mem_usable)
open LoweredInstruction (load store)
open Machine (Follows)

/-! ### Operands -/

/-- If the operand is taken from a register as it is, then the register is known to be
a copy of the cell that the operand names. -/
def live (t : Table) (l : Ledger) (x : Int64) : Bool :=
  (t.locate x).all fun r => l.knows (.ofNat r) x

/-- The operands that are fetched one after the other are live when their turn comes. -/
def fetchesLive (t : Table) (l : Ledger) : List Int64 → Bool
  | [] => true
  | x :: rest =>
    live t l x && fetchesLive (fetch t x).2.table (l.afterAll (fetch t x).2.code) rest

/-- All that a program takes from registers is there, up to where a NOP halts it. -/
def reusesLive (t : Table) (l : Ledger) : List SourceInstruction → Bool
  | [] => true
  | i :: rest =>
    fetchesLive t l (operands i) &&
      (decide (i.op = .known .nop) ||
        reusesLive (lowerInstruction t i).table.tick (l.afterAll (lowerInstruction t i).code) rest)

theorem mem_of_live {t : Table} {l : Ledger} {x : Int64} (h : live t l x = true) {r : Nat}
    (hr : t.locate x = some r) : (Int64.ofNat r, x + l.base) ∈ l.copies := by
  rw [live, hr] at h
  exact of_decide_eq_true h

/-! ### Safe programs -/

section

variable {registers : Nat} {τ : Trail} {t : Table} {l : Ledger}

theorem Covers.live (h : Covers τ t l) {x : Int64} (hx : τ.keeps x = true) :
    live t l x = true := by
  rw [Lowering.live]
  cases hr : t.locate x with
  | none => rfl
  | some r =>
    have hresident := (Table.of_locate hr).2
    have hmem := h.copies hresident (Trail.mem_of_keeps hx (h.used hresident))
    rw [h.base_eq] at hmem
    exact decide_eq_true hmem

theorem Covers.fetchesLive (h : Covers τ t l) (hN : RegisterFile.Supported registers)
    (ht : t.Valid registers) {xs : List Int64} (hxs : τ.keepsAll xs = true) :
    fetchesLive t l xs = true := by
  induction xs generalizing τ t l with
  | nil => rfl
  | cons x rest ih =>
    obtain ⟨hx, hrest⟩ := Bool.and_eq_true_iff.mp hxs
    have hfetch := ih (covers_fetch hN ht h hx) (valid_fetch ht x) hrest
    exact Bool.and_eq_true_iff.mpr ⟨h.live hx, hfetch⟩

/-- What a program that rereads safely takes from registers is there, on every register
file. -/
theorem reusesLive_of_rereadsSafely (hN : RegisterFile.Supported registers)
    (ht : t.Valid registers) (h : Covers τ t l) {source : List SourceInstruction}
    (hsource : rereadsSafely τ source = true) : reusesLive t l source = true := by
  induction source generalizing τ t l with
  | nil => rfl
  | cons i rest ih =>
    obtain ⟨hi, hrest⟩ := Bool.and_eq_true_iff.mp hsource
    have hfetches := h.fetchesLive hN ht (Bool.and_eq_true_iff.mp hi).1
    refine Bool.and_eq_true_iff.mpr ⟨hfetches, Bool.or_eq_true_iff.mpr ?_⟩
    refine (Bool.or_eq_true_iff.mp hrest).imp_right fun hrest => ?_
    have hcovers := covers_lowerInstruction hN ht h hi
    refine ih ?_ (hcovers.congr (Table.resident?_tick _)) hrest
    exact (valid_lowerInstruction ht (one_lt_size hN ht) i).tick.toValid

end

/-! ### Code that ends as a step does -/

/-- Executing the code from `m` ends as `p` says, in a machine that agrees with it: if
`p` has an outcome then in this outcome, though at an instruction of the code. -/
def Matches (code : List LoweredInstruction) (m : Machine)
    (p : Machine × Option (Except Fault Halt)) : Prop :=
  ∃ m', p.1.Agrees m' ∧ Follows code m m' (p.2.map (outcomeAt m'.ip))

namespace Matches

variable {i : LoweredInstruction} {code rest : List LoweredInstruction} {s m m₁ : Machine}
variable {p : Machine × Option (Except Fault Halt)}

theorem done (h : s.Agrees m) : Matches [] m (s, none) := ⟨m, h, .nil m⟩

theorem stop {e : Except Fault Halt} (h : s.Agrees m)
    (hstep : m.step .register i.toSource = (m.counted, some (outcomeAt m.ip e))) :
    Matches (i :: rest) m (s.counted, some e) :=
  ⟨m.counted, h.counted, .stop hstep⟩

theorem next (hstep : m.step .register i.toSource = (m₁.advanced, none)) (hip : m₁.ip = m.ip)
    (h : Matches rest m₁.advanced p) : Matches (i :: rest) m p := by
  obtain ⟨m', hagrees, hfollows⟩ := h
  exact ⟨m', hagrees, .next hstep (by rw [Machine.ip_advanced, hip]) hfollows⟩

theorem append (hcode : Follows code m m₁ none) (h : Matches rest m₁ p) :
    Matches (code ++ rest) m p := by
  obtain ⟨m', hagrees, hfollows⟩ := h
  exact ⟨m', hagrees, hcode.append hfollows⟩

end Matches

/-- What fetching the operand `x` from `t` has done when it took `m` to `m₁`. -/
structure Fetched (t : Table) (x : Int64) (s m m₁ : Machine) (v : Int64) : Prop where
  /-- The operand has the value `v` in the source. -/
  cell : s.cell? (x + s.offset) = some v
  /-- The machines still agree. -/
  agrees : s.Agrees m₁
  follows : Follows (fetch t x).2.code m m₁ none
  /-- The register has the value. -/
  self : m₁.registers[(fetch t x).1]? = some v
  /-- No other register has changed. -/
  others : ∀ q, q ≠ (fetch t x).1 → m₁.registers[q]? = m.registers[q]?

section

variable {registers : Nat} {t : Table} {l : Ledger} {s m : Machine} (h : s.Agrees m)
include h

/-- A register has been written back. -/
theorem matches_writeBack {r : Nat} {v : Int64} (hv : m.registers[r]? = some v)
    (hr : r < RegisterFile.maxSize) (t : Table) (destination : Int64) :
    Matches (writeBack t r destination).code m
      (match s.cell? (destination + s.offset) with
      | none =>
        (s.counted, some (.error (.memoryOutOfBounds s.ip (destination + s.offset))))
      | some _ => ((s.setCell (destination + s.offset) v).advanced, none)) := by
  have hstep := Machine.step_store .register destination hv hr
  rw [← h.cell?, ← h.offset] at hstep
  cases hcell : s.cell? (destination + s.offset) with
  | none =>
    rw [hcell] at hstep
    exact .stop h hstep
  | some w =>
    rw [hcell] at hstep
    exact .next hstep rfl (.done (h.setCell (destination + s.offset) v))

variable (hN : RegisterFile.Supported registers) (ht : t.Valid registers)
variable (hs : registers ≤ s.registers.size)
include hN ht hs

/-- The machine has the usable registers, and their numbers are operands. -/
theorem lt_of_mem_usable {r : Nat} (hr : r ∈ t.usable) :
    r < m.registers.size ∧ r < RegisterFile.maxSize := by
  have hlt := (mem_usable.mp hr).2
  have hmax : registers ≤ RegisterFile.maxSize := hN.2
  rw [ht.size_eq] at hlt
  rw [← h.size_registers]
  omega

/-- A computation into a victim, which is then written back. -/
theorem matches_compute {i : Nat → LoweredInstruction} {v : Int64}
    (hstep : m.step .register (i t.evict.1).toSource =
      ((m.setRegister t.evict.1 v).advanced, none)) (destination : Int64) :
    Matches (compute t i destination).code m
      (match s.cell? (destination + s.offset) with
      | none =>
        (s.counted, some (.error (.memoryOutOfBounds s.ip (destination + s.offset))))
      | some _ => ((s.setCell (destination + s.offset) v).advanced, none)) := by
  obtain ⟨hlt, hr⟩ := lt_of_mem_usable h hN ht hs (Table.evict_mem_usable (one_lt_size hN ht))
  have hv : (m.setRegister t.evict.1 v).advanced.registers[t.evict.1]? = some v :=
    Machine.registers_setRegister_self hlt v
  exact .next hstep rfl (matches_writeBack (h.setRegister t.evict.1 v) hv hr t.evict.2 destination)

/-- A live operand is fetched, or its cell does not exist and both machines say so. -/
theorem fetched_or_fault (hl : l.Sound m) {x : Int64} (hlive : live t l x = true) :
    (s.cell? (x + s.offset) = none ∧ ∀ rest, Matches ((fetch t x).2.code ++ rest) m
      (s.counted, some (.error (.memoryOutOfBounds s.ip (x + s.offset))))) ∨
      ∃ v m₁, Fetched t x s m m₁ v := by
  cases hlocate : t.locate x with
  | some r =>
    -- nothing is emitted, and the ledger knows the register
    have hr := (Table.of_locate hlocate).1
    obtain ⟨-, v, hreg, hcell⟩ := hl.holds _ (mem_of_live hlive hlocate)
    rw [RegisterFile.toInt_ofNat (lt_of_mem_usable h hN ht hs hr).2, Int.toNat_natCast] at hreg
    rw [hl.base_eq, ← h.offset, ← h.cell?] at hcell
    have hfetch := fetch_of_locate_eq_some hlocate
    refine Or.inr ⟨v, m, hcell, h, ?_, ?_, fun q _ => rfl⟩
    · rw [hfetch]
      exact .nil m
    · rw [hfetch]
      exact hreg
  | none =>
    -- the operand is loaded, from the cell that the source reads
    have hmem := fetch_mem_usable (one_lt_size hN ht) x
    have hfetch := fetch_of_locate_eq_none hlocate
    rw [hfetch] at hmem
    obtain ⟨hlt, hr⟩ := lt_of_mem_usable h hN ht hs hmem
    have hstep := Machine.step_load .register x hlt hr
    rw [← h.cell?, ← h.offset] at hstep
    cases hcell : s.cell? (x + s.offset) with
    | none =>
      rw [hcell] at hstep
      refine Or.inl ⟨rfl, fun rest => ?_⟩
      rw [hfetch]
      exact .stop h hstep
    | some v =>
      rw [hcell] at hstep
      refine Or.inr ⟨v, _, hcell, h.setRegister t.evict.1 v, ?_, ?_, fun q hq => ?_⟩
      · rw [hfetch]
        exact .single hstep rfl
      · rw [hfetch]
        exact Machine.registers_setRegister_self hlt v
      · rw [hfetch] at hq
        exact Machine.registers_setRegister_of_ne m hq v

/-! ### The rules -/

theorem matches_lowerNot (hl : l.Sound m) {cell b c : Int64} (hlive : live t l cell = true) :
    Matches (lowerNot t cell).code m (s.step .memory ⟨.known .not, cell, b, c⟩) := by
  have hvalid := valid_fetch ht cell
  simp only [Machine.step_memory_not, lowerNot_eq]
  rcases fetched_or_fault h hN ht hs hl hlive with ⟨hnone, hfault⟩ | ⟨x, m₁, hx⟩
  · rw [hnone]
    exact hfault _
  have hrs := lt_of_mem_usable h hN ht hs (fetch_mem_usable (one_lt_size hN ht) cell)
  have hrd := lt_of_mem_usable hx.agrees hN hvalid hs
    (Table.evict_mem_usable (one_lt_size hN hvalid))
  have hstep := Machine.step_register_not hx.self hrd.1 hrs.2 hrd.2
  have hmatches := matches_compute (i := fun r => ⟨.not, .ofNat r, .ofNat (fetch t cell).1, 0⟩)
    hx.agrees hN hvalid hs hstep cell
  rw [hx.cell] at hmatches ⊢
  exact .append hx.follows hmatches

theorem matches_lowerCopy (hl : l.Sound m) {destination source c : Int64}
    (hlive : live t l source = true) :
    Matches (lowerCopy t destination source).code m
      (s.step .memory ⟨.known .cop, destination, source, c⟩) := by
  simp only [Machine.step_memory_copy, lowerCopy_eq]
  rcases fetched_or_fault h hN ht hs hl hlive with ⟨hnone, hfault⟩ | ⟨x, m₁, hx⟩
  · rw [hnone]
    exact hfault _
  have hr := lt_of_mem_usable h hN ht hs (fetch_mem_usable (one_lt_size hN ht) source)
  have hmatches := matches_writeBack hx.agrees hx.self hr.2 (fetch t source).2.table destination
  rw [hx.cell]
  exact .append hx.follows hmatches

theorem matches_lowerConstant {destination value c : Int64} :
    Matches (lowerConstant t destination value).code m
      (s.step .memory ⟨.known .afc, destination, value, c⟩) := by
  have hr := lt_of_mem_usable h hN ht hs (Table.evict_mem_usable (one_lt_size hN ht))
  rw [Machine.step_memory_constant, lowerConstant_eq]
  refine matches_compute h hN ht hs ?_ destination
  exact Machine.step_register_constant value hr.1 hr.2

/-- The condition has just been loaded when it is looked at. -/
theorem matches_lowerBranch {condition target c : Int64}
    (hcondition : s.cell? (condition + s.offset) ≠ some 0) :
    Matches (lowerBranch t condition target).code m
      (s.step .memory ⟨.known .jmf, condition, target, c⟩) := by
  have hmem : RegisterFile.scratch ∈ t.usable :=
    mem_usable.mpr ⟨Nat.zero_lt_one, one_lt_size hN ht⟩
  obtain ⟨hlt, hr⟩ := lt_of_mem_usable h hN ht hs hmem
  have hload := Machine.step_load .register condition hlt hr
  rw [Machine.step_memory_branch s condition target c hcondition]
  rw [← h.cell?, ← h.offset] at hload
  cases hcell : s.cell? (condition + s.offset) with
  | none =>
    rw [hcell] at hload
    exact .stop h hload
  | some v =>
    rw [hcell] at hload hcondition
    have hv : v ≠ 0 := fun hzero => hcondition (congrArg some hzero)
    have hreg : (m.setRegister RegisterFile.scratch v).advanced.registers[RegisterFile.scratch]? =
        some v := Machine.registers_setRegister_self hlt v
    refine .next hload rfl (.next (Machine.step_register_branch target hreg hr hv) rfl (.done ?_))
    exact (h.setRegister RegisterFile.scratch v).advanced

omit h hN ht hs in
/-- The ledger after fetching an operand is true. -/
theorem Fetched.sound {x v : Int64} {m₁ : Machine} (hx : Fetched t x s m m₁ v)
    (hl : l.Sound m) : (l.afterAll (fetch t x).2.code).Sound m₁ := by
  refine hl.of_follows (fun i hi => ?_) hx.follows
  rw [op_of_mem_fetch hi]
  decide

end

/-- Both operands are there when they are computed with: the second has not pushed out
the first, unless it is the same. -/
theorem matches_lowerBinary {registers : Nat} {t : Table} {l : Ledger} {s m : Machine}
    (h : s.Agrees m) (hN : RegisterFile.Supported registers) (ht : t.Settled registers)
    (hs : registers ≤ s.registers.size) (hthree : 3 ≤ registers) (hl : l.Sound m) (op : Binary)
    {destination x y : Int64} (hlive : fetchesLive t l [x, y] = true) :
    Matches (lowerBinary t op destination x y).code m
      (s.step .memory ⟨.known (.binary op), destination, x, y⟩) := by
  obtain ⟨hlivex, hlive⟩ := Bool.and_eq_true_iff.mp hlive
  obtain ⟨hlivey, -⟩ := Bool.and_eq_true_iff.mp hlive
  have htx := valid_fetch ht.toValid x
  have hty := valid_fetch htx y
  simp only [Machine.step_memory_binary, lowerBinary_eq, List.append_assoc]
  rcases fetched_or_fault h hN ht.toValid hs hl hlivex with ⟨hnone, hfault⟩ | ⟨u, m₁, hx⟩
  · rw [hnone]
    exact hfault _
  simp only [hx.cell]
  refine .append hx.follows ?_
  rcases fetched_or_fault hx.agrees hN htx hs (hx.sound hl) hlivey with
    ⟨hnone, hfault⟩ | ⟨w, m₂, hy⟩
  · rw [hnone]
    exact hfault _
  simp only [hy.cell]
  refine .append hy.follows ?_
  -- the first operand is still there, also if the second was fetched into its register
  have hfirst : m₂.registers[(fetch t x).1]? = some u := by
    by_cases hreg : (fetch (fetch t x).2.table y).1 = (fetch t x).1
    · have hsame : y = x := Decidable.byContradiction fun hne =>
        fetch_fetch_ne ht (by rw [ht.size_eq]; exact hthree) hne hreg
      have hvalue : u = w := by
        rw [hsame] at hy
        exact Option.some.inj (hx.cell.symm.trans hy.cell)
      rw [hvalue, ← hreg]
      exact hy.self
    · rw [hy.others _ (Ne.symm hreg)]
      exact hx.self
  have hrx := lt_of_mem_usable h hN ht.toValid hs
    (fetch_mem_usable (one_lt_size hN ht.toValid) x)
  have hry := lt_of_mem_usable hx.agrees hN htx hs (fetch_mem_usable (one_lt_size hN htx) y)
  have hrd := lt_of_mem_usable hy.agrees hN hty hs
    (Table.evict_mem_usable (one_lt_size hN hty))
  have hstep := Machine.step_register_binary op hfirst hy.self hrd.1 hrx.2 hry.2 hrd.2
  cases hv : op.apply? u w with
  | none =>
    -- a division by zero, of the same values
    rw [hv] at hstep
    exact .stop hy.agrees hstep
  | some v =>
    rw [hv] at hstep
    refine matches_compute hy.agrees hN hty hs ?_ destination
    exact hstep

/-! ### Instructions -/

/-- An instruction that prints is kept. -/
theorem matches_print {s m : Machine} (h : s.Agrees m) (a b c : Int64) :
    Matches [⟨.pri, a, b, c⟩] m (s.step .memory ⟨.known .pri, a, b, c⟩) := by
  have hstep := Machine.step_print m .register a b c
  rw [Machine.step_print]
  rw [← h.cell?, ← h.offset] at hstep
  cases hcell : s.cell? (a + s.offset) with
  | none =>
    rw [hcell] at hstep
    exact .stop h hstep
  | some v =>
    rw [hcell] at hstep
    refine .next hstep rfl (.done ?_)
    exact ⟨h.memory, rfl, congrArg (·.push v) h.output, h.size_registers⟩

/-- An explicit load is kept: the register file of the source is not the one that is
computed with, but it is as large. -/
theorem matches_load {s m : Machine} (h : s.Agrees m) (a b c : Int64) :
    Matches [⟨.load, a, b, 0⟩] m (s.step .memory ⟨.known .load, a, b, c⟩) := by
  have hstep := Machine.step_explicit_load m .register a b 0
  rw [Machine.step_explicit_load]
  rw [← h.cell?, ← h.offset, ← h.size_registers] at hstep
  cases hcell : s.cell? (b + s.offset) with
  | none =>
    rw [hcell] at hstep
    exact .stop h hstep
  | some v =>
    simp only [hcell] at hstep ⊢
    by_cases ha : 0 ≤ a.toInt ∧ a.toInt < s.registers.size
    · rw [if_pos ha] at hstep ⊢
      refine .next hstep rfl (.done ?_)
      exact ⟨h.memory, h.offset, h.output, by simpa using h.size_registers⟩
    · rw [if_neg ha] at hstep ⊢
      exact .stop h hstep

/-- **The code that is emitted for an instruction ends as the instruction does.** -/
theorem matches_lowerInstruction {registers : Nat} {t : Table} {l : Ledger} {s m : Machine}
    (h : s.Agrees m) (hN : RegisterFile.Supported registers) (ht : t.Settled registers)
    (hs : registers ≤ s.registers.size) (hthree : 3 ≤ registers) (hl : l.Sound m)
    {i : SourceInstruction} (hi : i.op.isStraight = true)
    (hlive : fetchesLive t l (operands i) = true)
    (hjmf : i.op = .known .jmf → s.cell? (i.a + s.offset) ≠ some 0) :
    Matches (lowerInstruction t i).code m (s.step .memory i) := by
  obtain ⟨op, a, b, c⟩ := i
  cases op with
  | unrecognized word => cases hi
  | known op =>
    cases op with
    | store | jmp | call | ret => cases hi
    | binary op => exact matches_lowerBinary h hN ht hs hthree hl op hlive
    | not => exact matches_lowerNot h hN ht.toValid hs hl (Bool.and_eq_true_iff.mp hlive).1
    | cop => exact matches_lowerCopy h hN ht.toValid hs hl (Bool.and_eq_true_iff.mp hlive).1
    | afc => exact matches_lowerConstant h hN ht.toValid hs
    | jmf => exact matches_lowerBranch h hN ht.toValid hs (hjmf rfl)
    | nop => exact .stop h rfl
    | push =>
      refine .next (Machine.step_push m .register a b c) rfl (.done ?_)
      exact ⟨h.memory, congrArg (· + a) h.offset, h.output, h.size_registers⟩
    | pop =>
      refine .next (Machine.step_pop m .register a b c) rfl (.done ?_)
      exact ⟨h.memory, congrArg (· - a) h.offset, h.output, h.size_registers⟩
    | pri => exact matches_print h a b c
    | load => exact matches_load h a b c

theorem length_fetch_le (t : Table) (address : Int64) : (fetch t address).2.code.length ≤ 1 := by
  cases hl : t.locate address with
  | some r =>
    rw [fetch_of_locate_eq_some hl]
    exact Nat.zero_le 1
  | none =>
    rw [fetch_of_locate_eq_none hl]
    exact Nat.le_refl 1

/-- An operation becomes at least one instruction, and at most four. -/
theorem length_lowerOp (t : Table) (op : Opcode) (a b c : Int64) :
    1 ≤ (lowerOp t op a b c).code.length ∧ (lowerOp t op a b c).code.length ≤ 4 := by
  cases op with
  | binary op =>
    have hx := length_fetch_le t b
    have hy := length_fetch_le (fetch t b).2.table c
    simp only [lowerOp, lowerBinary, writeBack, List.length_append, List.length_cons,
      List.length_nil]
    omega
  | not =>
    have hx := length_fetch_le t a
    simp only [lowerOp, lowerNot, writeBack, List.length_append, List.length_cons,
      List.length_nil]
    omega
  | cop =>
    have hx := length_fetch_le t b
    simp only [lowerOp, lowerCopy, writeBack, List.length_append, List.length_cons,
      List.length_nil]
    omega
  | _ => simp [lowerOp, lowerConstant, lowerLoad, lowerStore, lowerBranch, writeBack]

theorem length_lowerInstruction (t : Table) {i : SourceInstruction} (hi : i.op.isStraight = true) :
    1 ≤ (lowerInstruction t i).code.length ∧ (lowerInstruction t i).code.length ≤ 4 := by
  unfold lowerInstruction
  cases hop : i.op with
  | unrecognized word =>
    rw [hop] at hi
    cases hi
  | known op => exact length_lowerOp t op i.a i.b i.c

/-! ### Places in a program -/

theorem instructions_entries (s : Step) : s.entries.map Entry.instruction = s.code := by
  simp [Step.entries, Function.comp_def]

/-- The code of a step stands in the program where its entries do. -/
theorem segment_of_entries {p : Program} {before after : List Entry} {s : Step}
    (h : p.entries = before ++ (s.entries ++ after)) :
    Machine.Segment p.executable.toArray before.length s.code := by
  have hinstructions : p.instructions =
      before.map Entry.instruction ++ (s.code ++ after.map Entry.instruction) := by
    rw [Program.instructions, h, List.map_append, List.map_append, instructions_entries]
  have := Machine.segment_of_eq_append hinstructions
  rwa [List.length_map] at this

/-- The origin of an instruction of a step is the index of the step. -/
theorem originOf?_of_entries {p : Program} {before after : List Entry} {s : Step} {address : Nat}
    (h : p.entries = before ++ (s.entries ++ after)) (hle : before.length ≤ address)
    (hlt : address < before.length + s.code.length) : p.originOf? address = some s.index := by
  have hlt' : address - before.length < s.code.length := by omega
  rw [Program.originOf?, Program.origins, h, List.map_append, List.map_append,
    List.getElem?_append_right (by simpa using hle), List.length_map,
    List.getElem?_append_left (by simpa [Step.entries] using hlt')]
  simp [Step.entries, hlt']

/-! ### Runs -/

/-- An instruction of the source that does not end the run goes on with the next one. -/
theorem ip_of_straight {s s' : Machine} {i : SourceInstruction} (hi : i.op.isStraight = true)
    (hjmf : i.op = .known .jmf → s.read .memory i.a ≠ .ok 0)
    (hstep : s.step .memory i = (s', none)) :
    s'.ip = s.ip + 1 ∧ ∃ op, i.op = .known op ∧ op.FallsThrough := by
  obtain ⟨op, a, b, c⟩ := i
  cases op with
  | unrecognized word => cases hi
  | known op =>
    have hfalls : op.FallsThrough := by
      refine ⟨?_, ?_, ?_, ?_⟩ <;> rintro rfl
      · cases hstep
      all_goals cases hi
    rcases Machine.step_of_fallsThrough (b := b) (c := c) hfalls
      (fun hop => hjmf (congrArg Operation.known hop)) with ⟨f, hfault⟩ | ⟨change, hproceed⟩
    · rw [hfault] at hstep
      cases hstep
    · rw [hproceed] at hstep
      cases hstep
      exact ⟨congrArg (· + 1) (Machine.ip_apply s change), op, rfl, hfalls⟩

/-- If an operation falls through, then so does all that is emitted for it. -/
theorem fallsThrough_of_mem {t : Table} {i : SourceInstruction} {op : Opcode}
    (hknown : i.op = .known op) (hfalls : op.FallsThrough) :
    ∀ j ∈ (lowerInstruction t i).code, j.op.FallsThrough := by
  intro j hj
  rcases op_of_mem_lowerInstruction hj with hop | hop | hop
  · rw [hop]
    decide
  · rw [hop]
    decide
  · cases hop.trans hknown
    exact hfalls

/-- The two runs are in step: the source has `rest` left, and the code for it, lowered
from the residency table `t`, is what the lowered program has left. -/
structure InStep (registers limit : Nat) (source : Array SourceInstruction) (program : Program)
    (rest : List SourceInstruction) (t : Table) (l : Ledger) (s m : Machine) : Prop where
  left : ∀ j, source[s.ip + j]? = rest[j]?
  place : ∃ before : List Entry, m.ip = before.length ∧
    program.entries = before ++ (steps t (rest.zipIdx s.ip)).flatMap Step.entries
  agrees : s.Agrees m
  registers_le : registers ≤ s.registers.size
  settled : t.Settled registers
  sound : l.Sound m
  straight : ∀ i ∈ rest, i.op.isStraight = true
  live : reusesLive t l rest = true
  neverBranches : s.NeverBranches source .memory limit
  steps_le : s.steps ≤ m.steps
  le_steps : m.steps ≤ 4 * s.steps
  limit_le : 4 * (s.steps + rest.length) ≤ limit

section

variable {registers limit : Nat} {source : Array SourceInstruction} {program : Program}
variable {i : SourceInstruction} {rest : List SourceInstruction} {t : Table} {l : Ledger}
variable {s m : Machine}

theorem InStep.read_ne (h : InStep registers limit source program (i :: rest) t l s m) :
    i.op = .known .jmf → s.read .memory i.a ≠ .ok 0 := by
  intro hop
  have hlimit := h.limit_le
  rw [List.length_cons] at hlimit
  refine h.neverBranches.read_ne (b := i.b) (c := i.c) ?_ (by omega)
  rw [show source[s.ip]? = some i from h.left 0, ← hop]

/-- The code of the next instruction comes next in the lowered program. -/
theorem InStep.entries_eq (h : InStep registers limit source program (i :: rest) t l s m) :
    ∃ before : List Entry, m.ip = before.length ∧
      program.entries = before ++ ((Lowering.step t s.ip i).entries ++
        (steps (Lowering.step t s.ip i).table (rest.zipIdx (s.ip + 1))).flatMap Step.entries) := by
  obtain ⟨before, hip, hprogram⟩ := h.place
  rw [List.zipIdx_cons, steps, List.flatMap_cons] at hprogram
  exact ⟨before, hip, hprogram⟩

/-- The code of the next instruction ends as the instruction does. -/
theorem InStep.matches_step (h : InStep registers limit source program (i :: rest) t l s m)
    (hN : RegisterFile.Supported registers) (hthree : 3 ≤ registers) :
    Matches (lowerInstruction t i).code m (s.step .memory i) := by
  have hcondition : i.op = .known .jmf → s.cell? (i.a + s.offset) ≠ some 0 := by
    intro hjmf hcell
    refine h.read_ne hjmf ?_
    show s.readCell i.a = .ok 0
    rw [Machine.readCell_eq, hcell]
  exact matches_lowerInstruction h.agrees hN h.settled h.registers_le hthree h.sound
    (h.straight i List.mem_cons_self) (Bool.and_eq_true_iff.mp h.live).1 hcondition

/-- If the next instruction ends the run of the source, then its code ends the other run
alike. -/
theorem InStep.halt (h : InStep registers limit source program (i :: rest) t l s m)
    {s' m' : Machine} {e : Except Fault Halt} (hstep : s.step .memory i = (s', some e))
    (hagrees : s'.Agrees m')
    (hfollows : Follows (lowerInstruction t i).code m m' (some (outcomeAt m'.ip e))) :
    Machine.EndAlike program.originOf? (s', e) (m', outcomeAt m'.ip e) := by
  obtain ⟨before, hip, hprogram⟩ := h.entries_eq
  obtain ⟨hge, hbelow, hcount⟩ := hfollows.ip_steps_of_some
  have horigin := originOf?_of_entries hprogram (hip ▸ hge) (hip ▸ hbelow)
  have hlength := length_lowerInstruction t (h.straight i List.mem_cons_self)
  have hsteps := Machine.steps_of_step hstep
  have hip' := Machine.ip_of_step_eq_some hstep
  have hle := h.steps_le
  have hle' := h.le_steps
  refine ⟨hagrees, rfl, Or.inr ⟨?_, ?_⟩, ?_, ?_⟩
  · exact (Machine.names_of_step hstep).trans (congrArg some hip'.symm)
  · exact horigin.trans (congrArg some hip'.symm)
  · show s'.steps ≤ m'.steps
    omega
  · show m'.steps ≤ 4 * s'.steps
    omega

/-- If the next instruction does not end the run of the source, then both runs are in step
after it. -/
theorem InStep.next (h : InStep registers limit source program (i :: rest) t l s m)
    (hN : RegisterFile.Supported registers) {s' m' : Machine}
    (hstep : s.step .memory i = (s', none)) (hagrees : s'.Agrees m')
    (hfollows : Follows (lowerInstruction t i).code m m' none) :
    InStep registers limit source program rest (Lowering.step t s.ip i).table
      (l.afterAll (lowerInstruction t i).code) s' m' := by
  have hop := h.straight i List.mem_cons_self
  obtain ⟨before, hip, hprogram⟩ := h.entries_eq
  obtain ⟨hip', op, hknown, hfalls⟩ := ip_of_straight hop h.read_ne hstep
  obtain ⟨hmip, hmsteps⟩ := hfollows.ip_steps_of_none
  have hlength := length_lowerInstruction t hop
  have hsteps := Machine.steps_of_step hstep
  have hle := h.steps_le
  have hle' := h.le_steps
  have hlimit := h.limit_le
  rw [List.length_cons] at hlimit
  exact {
    left := fun j => by
      rw [hip', Nat.add_assoc, Nat.add_comm 1 j]
      exact h.left (j + 1)
    place := by
      refine ⟨before ++ (Lowering.step t s.ip i).entries, ?_, ?_⟩
      · rw [hmip, hip, List.length_append, Step.entries, List.length_map]
        rfl
      · rw [hip', hprogram, List.append_assoc]
    agrees := hagrees
    registers_le := by
      rw [Machine.size_registers_of_step hstep]
      exact h.registers_le
    settled := settled_step h.settled (one_lt_size hN h.settled.toValid) s.ip i
    sound := h.sound.of_follows (fallsThrough_of_mem hknown hfalls) hfollows
    straight := fun j hj => h.straight j (List.mem_cons_of_mem i hj)
    -- the instruction is no NOP, so what comes after it counts
    live := (Bool.or_eq_true_iff.mp (Bool.and_eq_true_iff.mp h.live).2).resolve_left fun hnop =>
      hfalls.1 (Operation.known.inj (hknown.symm.trans (of_decide_eq_true hnop)))
    neverBranches := h.neverBranches.of_step (h.left 0) (by omega) hstep
    steps_le := by omega
    le_steps := by omega
    limit_le := by omega }

/-- **One instruction.**  It ends both runs alike, or both are in step after it. -/
theorem InStep.step (h : InStep registers limit source program (i :: rest) t l s m)
    (hN : RegisterFile.Supported registers) (hthree : 3 ≤ registers) :
    Machine.EndAlike program.originOf? (s.run source .memory limit)
        (m.run program.executable.toArray .register limit) ∨
      ∃ t' l' s' m', s.run source .memory limit = s'.run source .memory limit ∧
        m.run program.executable.toArray .register limit =
          m'.run program.executable.toArray .register limit ∧
        InStep registers limit source program rest t' l' s' m' := by
  obtain ⟨before, hip, hprogram⟩ := h.entries_eq
  obtain ⟨m', hagrees, hfollows⟩ := h.matches_step hN hthree
  have hsegment := segment_of_entries hprogram
  have hlength := length_lowerInstruction t (h.straight i List.mem_cons_self)
  have hle' := h.le_steps
  have hlimit := h.limit_le
  rw [List.length_cons] at hlimit
  rw [← hip] at hsegment
  -- four instructions for each that is left fit in the limit
  rw [Machine.run_of_lt_limit .memory (h.left 0) (by omega),
    Machine.run_of_follows hfollows hsegment (by omega)]
  rcases hstep : s.step .memory i with ⟨s', r⟩
  rw [hstep] at hagrees hfollows
  cases r with
  | some e => exact Or.inl (h.halt hstep hagrees hfollows)
  | none => exact Or.inr ⟨_, _, s', m', rfl, rfl, h.next hN hstep hagrees hfollows⟩

/-- **Runs that are in step end alike.** -/
theorem InStep.endAlike (h : InStep registers limit source program rest t l s m)
    (hN : RegisterFile.Supported registers) (hthree : 3 ≤ registers) :
    Machine.EndAlike program.originOf? (s.run source .memory limit)
      (m.run program.executable.toArray .register limit) := by
  induction rest generalizing t l s m with
  | nil =>
    obtain ⟨before, hip, hprogram⟩ := h.place
    have hend : source[s.ip]? = none := h.left 0
    have hend' : program.executable.toArray[m.ip]? = none := by
      simp [Program.executable, Program.instructions, hprogram, hip, steps]
    rw [Machine.run_of_getElem?_eq_none _ _ hend, Machine.run_of_getElem?_eq_none _ _ hend']
    exact ⟨h.agrees, rfl, Or.inl rfl, h.steps_le, h.le_steps⟩
  | cons i rest ih =>
    rcases h.step hN hthree with hend | ⟨t', l', s', m', hrun, hrun', hnext⟩
    · exact hend
    · rw [hrun, hrun']
      exact ih hnext

end

/-! ### Executions -/

/-- **A program runs like the program lowered from it**, if all that is taken from registers
is there and there is room for four times its instructions. -/
theorem endAlike_of_reusesLive {target : Target} {source : List SourceInstruction}
    {lowered : Lowered} {limit : Nat} (hN : RegisterFile.Supported target.registers.toNat)
    (hthree : 3 ≤ target.registers.toNat)
    (hlower : lower source target.registers.toNat = .ok lowered)
    (hlimit : 4 * source.length ≤ limit) (hstraight : ∀ i ∈ source, i.op.isStraight = true)
    (hlive : reusesLive (.empty target.registers.toNat) (.blank 0) source = true)
    (hbranch : target.machine.NeverBranches source.toArray .memory limit) :
    Machine.EndAlike lowered.program.originOf?
      (target.machine.run source.toArray .memory limit)
      (target.machine.run lowered.program.executable.toArray .register limit) := by
  rw [lower_eq hN] at hlower
  cases hlower
  have hstart : InStep target.registers.toNat limit source.toArray
      (Lowered.ofSteps (programSteps (.empty target.registers.toNat) source)).program source
      (.empty target.registers.toNat) (.blank 0) target.machine target.machine := {
    left := fun j => by simp [Target.machine, Machine.fresh]
    place := ⟨[], rfl, congrArg Program.entries (Lowered.program_ofSteps _)⟩
    agrees := .refl _
    registers_le := by simp [Target.machine, Machine.fresh]
    settled := settled_start hN
    sound := Ledger.sound_blank target.machine
    straight := hstraight
    live := hlive
    neverBranches := hbranch
    steps_le := Nat.le_refl _
    le_steps := Nat.zero_le _
    limit_le := by simpa [Target.machine, Machine.fresh] using hlimit }
  exact hstart.endAlike hN hthree

/-- **A program executes like the program lowered from it**, if all that is taken from
registers is there. -/
theorem executeAlike_of_reusesLive {target : Target} {source : List SourceInstruction}
    (hthree : 3 ≤ target.registers.toNat) (hmax : target.registers.toNat ≤ RegisterFile.maxSize)
    (hlimit : 4 * source.length ≤ target.maxIterations.toNat)
    (hstraight : ∀ i ∈ source, i.op.isStraight = true)
    (hlive : reusesLive (.empty target.registers.toNat) (.blank 0) source = true)
    (hbranch : target.machine.NeverBranches source.toArray .memory target.maxIterations.toNat) :
    ∃ lowered, lower source target.registers.toNat = .ok lowered ∧
      ExecuteAlike lowered.program.originOf? (execute source .memory target)
        (execute lowered.program.executable .register target) := by
  have hN : RegisterFile.Supported target.registers.toNat := ⟨Nat.le_of_succ_le hthree, hmax⟩
  have hlower := lower_eq hN source
  exact ⟨_, hlower, executeAlike_of_endAlike
    (endAlike_of_reusesLive hN hthree hlower hlimit hstraight hlive hbranch)⟩

end Lowering
end CrossAssembler
