import CrossAssembler.Proofs.Lowering.Bounds

/-!
# The residency invariant of lowering

Whatever is lowered, in whatever order and under whatever index, the residency
table stays settled between two instructions.  That an address never gets a second
copy is due to the rules and not to the table: each of them gives up the old copy
of an address before it records a new one.

Four of the rules end alike, in a write back of the register that holds the result.
`Block.WritesBack` says so once, and what these rules do to the table is read off
it.  In three of them the result is computed into a victim; `compute` is what they
have in common.

## Main definitions

* `Operation.Assigns` — the operations that give a cell a value.
* `compute` — compute into a victim, and write it back.
* `Block.WritesBack` — the block ends in a write back.
* `Step.Placed` — where the address that an instruction names is cached after it.

## Main results

* `settled_step` — a step keeps the table settled.
* `placed_step` — a step leaves the address it names where it should be.
* `steps_keep_residency` — so does every step of any sequence, and none of them goes
  beyond the register file.
-/

namespace CrossAssembler

/-- The operation gives the cell that it names first a new value. -/
def Operation.Assigns (op : Operation) : Prop :=
  (∃ op', op = .known (.binary op')) ∨ op = .known .not ∨ op = .known .cop ∨ op = .known .afc

namespace Lowering

open Residency (Table)
open Residency.Table (mem_usable)
open LoweredInstruction (load store)

variable {registers : Nat} {t : Table}

/-! ### Fetching an operand -/

/-- The register that an operand is fetched into counts as just filled with it. -/
theorem slot?_fetch_self (h : 1 < t.size) (address : Int64) :
    (fetch t address).2.table.slot? (fetch t address).1 = some (.fresh address) := by
  obtain ⟨hpos, hlt⟩ := mem_usable.mp (fetch_mem_usable h address)
  cases hl : t.locate address with
  | none =>
    rw [fetch_of_locate_eq_none hl] at hpos hlt ⊢
    have hlt' : t.evict.1 < t.evict.2.size := by rwa [Table.size_evict]
    rw [Table.fill, Table.slot?_put, if_pos ⟨Nat.ne_of_gt hpos, rfl, hlt'⟩]
  | some r =>
    rw [fetch_of_locate_eq_some hl] at hpos hlt ⊢
    rw [Table.fill, Table.slot?_put, if_pos ⟨Nat.ne_of_gt hpos, rfl, hlt⟩]

theorem resident?_fetch_self (h : 1 < t.size) (address : Int64) :
    (fetch t address).2.table.resident? (fetch t address).1 = some address :=
  Table.resident?_of_slot? (slot?_fetch_self h address)

/-- Fetching an operand leaves every other register as it was. -/
theorem slot?_fetch_of_ne {address : Int64} {q : Nat} (hq : q ≠ (fetch t address).1) :
    (fetch t address).2.table.slot? q = t.slot? q := by
  cases hl : t.locate address with
  | none =>
    rw [fetch_of_locate_eq_none hl] at hq ⊢
    rw [Table.fill, Table.slot?_put, if_neg fun h => hq h.2.1, Table.slot?_evict_of_ne hq]
  | some r =>
    rw [fetch_of_locate_eq_some hl] at hq ⊢
    rw [Table.fill, Table.slot?_put, if_neg fun h => hq h.2.1]

/-- **Two operands end up in two registers**, if there are two usable ones: what has
been fetched first is younger than all else. -/
theorem fetch_fetch_ne (h : t.Settled registers) (hsize : 2 < t.size) {x y : Int64}
    (hne : y ≠ x) : (fetch (fetch t x).2.table y).1 ≠ (fetch t x).1 := by
  have hself := slot?_fetch_self (Nat.lt_of_succ_lt hsize) x
  have hresident := resident?_fetch_self (Nat.lt_of_succ_lt hsize) x
  cases hl : (fetch t x).2.table.locate y with
  | some r =>
    rw [fetch_of_locate_eq_some hl]
    rintro rfl
    rw [(Table.of_locate hl).2] at hresident
    exact hne (Option.some.inj hresident)
  | none =>
    rw [fetch_of_locate_eq_none hl]
    -- there is another usable register; it is empty, or it has been filled before
    obtain ⟨q, hq, hmem⟩ : ∃ q, q ≠ (fetch t x).1 ∧ q ∈ (fetch t x).2.table.usable := by
      by_cases hone : (fetch t x).1 = 1
      · exact ⟨2, by omega, mem_usable.mpr ⟨Nat.zero_lt_two, by rwa [size_fetch]⟩⟩
      · exact ⟨1, fun heq => hone heq.symm,
          mem_usable.mpr ⟨Nat.zero_lt_one, by rw [size_fetch]; omega⟩⟩
    refine Table.evict_ne (by rw [hresident]; exact Option.some_ne_none x) hmem ?_
    rw [Table.resident?, Table.age, Table.age, hself, slot?_fetch_of_ne hq]
    cases hslot : t.slot? q with
    | none => exact Or.inl rfl
    | some s =>
      by_cases hs : s.resident = none
      · exact Or.inl hs
      · -- a copy from before this instruction has an age, the first operand has none yet
        exact Or.inr (h.one_le_age hslot hs)

theorem valid_fetch (h : t.Valid registers) (address : Int64) :
    (fetch t address).2.table.Valid registers := by
  cases hl : t.locate address with
  | none =>
    -- a victim is filled, and the address had no copy before
    rw [fetch_of_locate_eq_none hl]
    refine h.evict.fill fun q hq => ?_
    by_cases hne : q = t.evict.1
    · exact hne
    · rw [Table.resident?_evict_of_ne hne] at hq
      exact absurd hq (h.resident?_ne_of_locate_eq_none hl q)
  | some r =>
    rw [fetch_of_locate_eq_some hl]
    exact h.fill fun q hq => h.unique hq (Table.of_locate hl).2

/-! ### Recording a new copy -/

theorem valid_writeBack (h : t.Valid registers) (r : Nat) (destination : Int64) :
    (writeBack t r destination).table.Valid registers :=
  (h.dropAddress destination).fill fun q hq =>
    absurd hq (h.resident?_dropAddress_ne destination q)

theorem valid_refill (h : t.Valid registers) (register address : Int64) :
    (refill t register address).Valid registers := by
  unfold refill
  cases tracked? t register with
  | none => exact h
  | some r =>
    exact ((h.clear r).dropAddress address).fill fun q hq =>
      absurd hq ((h.clear r).resident?_dropAddress_ne address q)

/-- Filling a register with an address that is cached nowhere makes it the only
copy. -/
theorem onlyAt_fill {r : Nat} {address : Int64} (hr : r ∈ t.usable)
    (hnone : ∀ q, t.resident? q ≠ some address) : (t.fill r address).OnlyAt address r := by
  intro q
  constructor
  · intro hq
    by_cases hne : q = r
    · exact hne
    · rw [Table.resident?_fill_of_ne address hne] at hq
      exact absurd hq (hnone q)
  · rintro rfl
    exact Table.resident?_fill_self address hr

theorem onlyAt_writeBack (h : t.Valid registers) {r : Nat} (hr : r ∈ t.usable)
    (destination : Int64) : (writeBack t r destination).table.OnlyAt destination r := by
  refine onlyAt_fill (mem_usable.mpr ?_) (h.resident?_dropAddress_ne destination)
  rw [Table.size_dropAddress]
  exact mem_usable.mp hr

theorem onlyAt_refill (h : t.Valid registers) {register : Int64} {r : Nat}
    (hr : tracked? t register = some r) (address : Int64) :
    (refill t register address).OnlyAt address r := by
  rw [refill_of_tracked? hr]
  refine onlyAt_fill (mem_usable.mpr ?_) ((h.clear r).resident?_dropAddress_ne address)
  rw [Table.size_dropAddress, Table.size_clear]
  exact mem_usable.mp (mem_usable_of_tracked? hr)

/-! ### The rules -/

/-- Compute into a victim with the instruction `i`, and write it back.  Three of the
rules are this once their operands have been fetched. -/
def compute (t : Table) (i : Nat → LoweredInstruction) (destination : Int64) : Block :=
  let result := writeBack t.evict.2 t.evict.1 destination
  ⟨i t.evict.1 :: result.code, result.table⟩

theorem lowerBinary_eq (t : Table) (op : Binary) (destination x y : Int64) :
    lowerBinary t op destination x y =
      let fx := fetch t x
      let fy := fetch fx.2.table y
      let result := compute fy.2.table
        (fun r => ⟨.binary op, .ofNat r, .ofNat fy.1, .ofNat fx.1⟩) destination
      ⟨fx.2.code ++ fy.2.code ++ result.code, result.table⟩ := by
  simp only [lowerBinary, compute]

theorem lowerNot_eq (t : Table) (cell : Int64) :
    lowerNot t cell =
      let f := fetch t cell
      let result := compute f.2.table (fun r => ⟨.not, .ofNat r, .ofNat f.1, 0⟩) cell
      ⟨f.2.code ++ result.code, result.table⟩ := by
  simp only [lowerNot, compute]

theorem lowerCopy_eq (t : Table) (destination source : Int64) :
    lowerCopy t destination source =
      let f := fetch t source
      let result := writeBack f.2.table f.1 destination
      ⟨f.2.code ++ result.code, result.table⟩ := by
  simp only [lowerCopy]

theorem lowerConstant_eq (t : Table) (destination value : Int64) :
    lowerConstant t destination value =
      compute t (fun r => ⟨.afc, .ofNat r, value, 0⟩) destination := by
  simp only [lowerConstant, compute]

/-- The block ends by storing a usable register into `destination`, of which the
register becomes the only copy. -/
def Block.WritesBack (registers : Nat) (destination : Int64) (b : Block) : Prop :=
  ∃ code t r, t.Valid registers ∧ r ∈ t.usable ∧
    b = ⟨code ++ [store destination r], (writeBack t r destination).table⟩

/-- It does so whatever is executed before it. -/
theorem Block.WritesBack.prepend {destination : Int64} {b : Block}
    (h : b.WritesBack registers destination) (code : List LoweredInstruction) :
    Block.WritesBack registers destination ⟨code ++ b.code, b.table⟩ := by
  obtain ⟨rest, t, r, ht, hr, rfl⟩ := h
  exact ⟨code ++ rest, t, r, ht, hr, by rw [List.append_assoc]⟩

theorem writesBack_compute (h : t.Valid registers) (hsize : 1 < t.size)
    (i : Nat → LoweredInstruction) (destination : Int64) :
    (compute t i destination).WritesBack registers destination := by
  refine ⟨[i t.evict.1], t.evict.2, t.evict.1, h.evict, mem_usable.mpr ?_, rfl⟩
  rw [Table.size_evict]
  exact mem_usable.mp (Table.evict_mem_usable hsize)

theorem writesBack_lowerBinary (h : t.Valid registers) (hsize : 1 < t.size) (op : Binary)
    (destination x y : Int64) :
    (lowerBinary t op destination x y).WritesBack registers destination := by
  have hy := valid_fetch (valid_fetch h x) y
  rw [lowerBinary_eq]
  exact (writesBack_compute hy (by simpa using hsize) _ destination).prepend _

theorem writesBack_lowerNot (h : t.Valid registers) (hsize : 1 < t.size) (cell : Int64) :
    (lowerNot t cell).WritesBack registers cell := by
  rw [lowerNot_eq]
  exact (writesBack_compute (valid_fetch h cell) (by simpa using hsize) _ cell).prepend _

theorem writesBack_lowerCopy (h : t.Valid registers) (hsize : 1 < t.size)
    (destination source : Int64) :
    (lowerCopy t destination source).WritesBack registers destination := by
  refine ⟨(fetch t source).2.code, (fetch t source).2.table, (fetch t source).1,
    valid_fetch h source, mem_usable.mpr ?_, rfl⟩
  rw [size_fetch]
  exact mem_usable.mp (fetch_mem_usable hsize source)

theorem writesBack_lowerConstant (h : t.Valid registers) (hsize : 1 < t.size)
    (destination value : Int64) :
    (lowerConstant t destination value).WritesBack registers destination := by
  rw [lowerConstant_eq]
  exact writesBack_compute h hsize _ destination

/-- The rules for the operations that assign a cell all write back. -/
theorem writesBack_lowerInstruction (h : t.Valid registers) (hsize : 1 < t.size)
    {i : SourceInstruction} (hi : i.op.Assigns) :
    (lowerInstruction t i).WritesBack registers i.a := by
  obtain ⟨op, a, b, c⟩ := i
  rcases hi with ⟨op, rfl⟩ | rfl | rfl | rfl
  · exact writesBack_lowerBinary h hsize op a b c
  · exact writesBack_lowerNot h hsize a
  · exact writesBack_lowerCopy h hsize a b
  · exact writesBack_lowerConstant h hsize a b

theorem Block.WritesBack.valid {destination : Int64} {b : Block}
    (h : b.WritesBack registers destination) : b.table.Valid registers := by
  obtain ⟨code, t, r, ht, -, rfl⟩ := h
  exact valid_writeBack ht r destination

/-- Every rule keeps the invariant. -/
theorem valid_lowerInstruction (h : t.Valid registers) (hsize : 1 < t.size)
    (i : SourceInstruction) : (lowerInstruction t i).table.Valid registers := by
  unfold lowerInstruction
  cases i.op with
  | unrecognized word => exact h
  | known op =>
    cases op with
    | binary op => exact (writesBack_lowerBinary h hsize op i.a i.b i.c).valid
    | not => exact (writesBack_lowerNot h hsize i.a).valid
    | cop => exact (writesBack_lowerCopy h hsize i.a i.b).valid
    | afc => exact (writesBack_lowerConstant h hsize i.a i.b).valid
    | load => exact valid_refill h i.a i.b
    | store => exact h.dropAddress i.a
    | jmf => exact valid_refill h (.ofNat RegisterFile.scratch) i.a
    | jmp | pri | ret | nop | call | push | pop => exact h

/-! ### Steps -/

theorem settled_step (h : t.Settled registers) (hsize : 1 < t.size) (index : Nat)
    (i : SourceInstruction) : (step t index i).table.Settled registers :=
  (valid_lowerInstruction h.toValid hsize i).tick

/-- Where the address that an instruction names is cached after its step.  The
result of a computation is cached by the register that the last emitted store
takes it from, and by no other. -/
def Step.Placed (registers : Nat) (s : Step) : Prop :=
  match s.source.op with
  | .known (.binary _) | .known .not | .known .cop | .known .afc =>
    ∃ r, s.code.getLast? = some (store s.source.a r) ∧ s.table.OnlyAt s.source.a r
  | .known .store => ∀ r, s.table.resident? r ≠ some s.source.a
  | .known .jmf => s.table.OnlyAt s.source.a RegisterFile.scratch
  | .known .load =>
    1 ≤ s.source.a.toInt → s.source.a.toInt < registers →
      s.table.OnlyAt s.source.b s.source.a.toInt.toNat
  | _ => True

theorem onlyAt_tick {r : Nat} {address : Int64} (h : t.OnlyAt address r) :
    t.tick.OnlyAt address r := by
  intro q
  rw [Table.resident?_tick]
  exact h q

/-- A block that writes back ends in the store of the one register that caches its
destination. -/
theorem Block.WritesBack.placed {destination : Int64} {b : Block}
    (h : b.WritesBack registers destination) :
    ∃ r, b.code.getLast? = some (store destination r) ∧ b.table.tick.OnlyAt destination r := by
  obtain ⟨code, t, r, ht, hr, rfl⟩ := h
  exact ⟨r, List.getLast?_concat .., onlyAt_tick (onlyAt_writeBack ht hr destination)⟩

theorem Step.placed_of_assigns {i : SourceInstruction} (hi : i.op.Assigns)
    (h : (lowerInstruction t i).WritesBack registers i.a) (index : Nat) :
    (step t index i).Placed registers := by
  have hplaced : ∃ r, (step t index i).code.getLast? = some (store i.a r) ∧
      (step t index i).table.OnlyAt i.a r := h.placed
  unfold Step.Placed
  -- `Placed` says the same for all four
  rcases hi with ⟨op, hop⟩ | hop | hop | hop
  all_goals
    simp only [show (step t index i).source = i from rfl, hop]
    exact hplaced

/-- Every step leaves the address it names where it should be. -/
theorem placed_step (h : t.Valid registers) (hsize : 1 < t.size) (index : Nat)
    (i : SourceInstruction) : (step t index i).Placed registers := by
  have hassigns : i.op.Assigns → (step t index i).Placed registers := fun hi =>
    Step.placed_of_assigns hi (writesBack_lowerInstruction h hsize hi) index
  obtain ⟨op, a, b, c⟩ := i
  cases op with
  | unrecognized word => trivial
  | known op =>
    cases op with
    | binary op => exact hassigns (Or.inl ⟨op, rfl⟩)
    | not => exact hassigns (Or.inr (Or.inl rfl))
    | cop => exact hassigns (Or.inr (Or.inr (Or.inl rfl)))
    | afc => exact hassigns (Or.inr (Or.inr (Or.inr rfl)))
    | load =>
      intro (hpos : 1 ≤ a.toInt) (hlt : a.toInt < registers)
      have hreserved : (RegisterFile.reserved : Int) < a.toInt := by
        show ((0 : Nat) : Int) < a.toInt
        omega
      have htracked : tracked? t a = some a.toInt.toNat := by
        rw [tracked?_eq_some_iff, h.size_eq]
        exact ⟨hreserved, hlt, rfl⟩
      exact onlyAt_tick (onlyAt_refill h htracked b)
    | store =>
      intro r
      rw [step, Table.resident?_tick]
      exact h.resident?_dropAddress_ne a r
    | jmf => exact onlyAt_tick (onlyAt_refill h (tracked?_scratch hsize) a)
    | jmp | pri | ret | nop | call | push | pop => trivial

/-- What holds after a step from a settled table holds after every step of a
sequence that starts with one. -/
theorem forall_mem_steps {P : Step → Prop} (h : t.Settled registers) (hsize : 1 < t.size)
    (hP : ∀ t index i, t.Settled registers → 1 < t.size → P (step t index i))
    (calls : List (SourceInstruction × Nat)) : ∀ s ∈ steps t calls, P s := by
  induction calls generalizing t with
  | nil => simp [steps]
  | cons call rest ih =>
    obtain ⟨i, index⟩ := call
    intro s hs
    rcases List.mem_cons.mp hs with rfl | hs
    · exact hP t index i h hsize
    · exact ih (settled_step h hsize index i) (by rwa [size_step]) s hs

/-! ### From the start -/

theorem start_eq (h : RegisterFile.Supported registers) :
    start registers = .ok (.empty registers) := if_pos h

theorem lower_eq (h : RegisterFile.Supported registers) (source : List SourceInstruction) :
    lower source registers = .ok (.ofSteps (programSteps (.empty registers) source)) := by
  rw [lower, start_eq h]
  rfl

/-- A pass that gives anything is on a register file that can be lowered onto, and gives
what its steps emitted and reported. -/
theorem of_lower {source : List SourceInstruction} {lowered : Lowered}
    (h : lower source registers = .ok lowered) :
    RegisterFile.Supported registers ∧
      lowered = .ofSteps (programSteps (.empty registers) source) := by
  by_cases hN : RegisterFile.Supported registers
  · rw [lower_eq hN] at h
    exact ⟨hN, (Except.ok.inj h).symm⟩
  · rw [lower, start, if_neg hN] at h
    cases h

theorem one_lt_size_start (h : RegisterFile.Supported registers) :
    1 < (Table.empty registers).size := by
  rw [Table.size_empty]
  exact h.1

theorem settled_start (h : RegisterFile.Supported registers) :
    (Table.empty registers).Settled registers :=
  Table.settled_empty (Nat.lt_of_lt_of_le Nat.zero_lt_two h.1)

/-- **The residency invariant of lowering.**  On every register file that can be
lowered onto, no sequence of steps accesses a slot that does not exist; after each of
them the table is settled, and the address that the instruction names is cached where
it should be. -/
theorem steps_keep_residency (h : RegisterFile.Supported registers)
    (calls : List (SourceInstruction × Nat)) :
    ∃ t, start registers = .ok t ∧ Checked.steps t calls = some (steps t calls) ∧
      ∀ s ∈ steps t calls, s.table.Settled registers ∧ s.Placed registers := by
  have hsize := one_lt_size_start h
  refine ⟨Table.empty registers, start_eq h, Checked.steps_eq hsize calls, ?_⟩
  refine forall_mem_steps (settled_start h) hsize (fun t index i ht ht' => ?_) calls
  exact ⟨settled_step ht ht' index i, placed_step ht.toValid ht' index i⟩

/-- The smallest register file, on which all that is fetched and computed goes through
one register. -/
theorem steps_keep_residency_two :
    RegisterFile.Supported 2 ∧ ∃ t, start 2 = .ok t ∧
      let calls := [(⟨.known .cop, 5, 5, 0⟩, 7), (⟨.known (.binary .add), 5, 5, 6⟩, 7),
        (⟨.known .load, 1, 5, 0⟩, 0), (⟨.known .jmf, 4, 0, 0⟩, 3),
        (⟨.known .store, 4, 1, 0⟩, 1), (⟨.unrecognized "HALT", 0, 0, 0⟩, 2)]
      Checked.steps t calls = some (steps t calls) ∧
        ∀ s ∈ steps t calls, s.table.Settled 2 ∧ s.Placed 2 :=
  ⟨by decide, steps_keep_residency (by decide) _⟩

end Lowering
end CrossAssembler
