import CrossAssembler.Proofs.Lowering.Invariant

/-!
# What an instruction leaves at hand

A binary operation touches three cells: it fetches two and writes back the third.  On a register
file with three usable registers all of them are cached afterwards.  The two operands count as just
used when a register for the result is picked, every other register is empty or has been left
alone for at least an instruction, and there is such a register.  So the operands are
spared, and the write back takes a copy away only from the cell that it gives a new one.

The next instruction finds what it needs if it works on these cells alone.

## Main results

* `evict_fetch_fetch_ne` — the result of a binary operation does not replace its operands.
* `exists_resident?_lowerBinary` — all three cells are cached after the operation.
* `code_lowerBinary_of_resident?`, `code_lowerCopy_of_resident?` — the code for an instruction whose
  operands are cached.
* `touched_cells_stay_available` — both together, in whatever state lowering is.
-/

namespace CrossAssembler
namespace Lowering

open Residency (Table)
open Residency.Table (mem_usable)
open LoweredInstruction (store)

variable {registers : Nat} {t : Table}

/-! ### Operands that are cached -/

/-- An address is located where it is cached. -/
theorem locate_of_resident? (h : t.Valid registers) {r : Nat} {address : Int64}
    (hr : t.resident? r = some address) : t.locate address = some r := by
  cases hl : t.locate address with
  | none => exact absurd hr (h.resident?_ne_of_locate_eq_none hl r)
  | some q => rw [h.unique (Table.of_locate hl).2 hr]

/-- An operand that is cached is taken from where it is. -/
theorem fetch_of_resident? (h : t.Valid registers) {r : Nat} {address : Int64}
    (hr : t.resident? r = some address) : fetch t address = (r, ⟨[], t.fill r address⟩) :=
  fetch_of_locate_eq_some (locate_of_resident? h hr)

/-- To use a copy once more changes none. -/
theorem resident?_fill_of_resident? {r q : Nat} {address : Int64}
    (hr : t.resident? r = some address) : (t.fill r address).resident? q = t.resident? q := by
  by_cases hq : q = r
  · subst hq
    rw [Table.resident?_fill, hr]
    split <;> rfl
  · exact Table.resident?_fill_of_ne address hq

/-- The rule for a binary operation, as an equation to rewrite with. -/
theorem lowerInstruction_binary (t : Table) (op : Binary) (destination x y : Int64) :
    lowerInstruction t ⟨.known (.binary op), destination, x, y⟩ =
      lowerBinary t op destination x y := rfl

/-- **Two operands that are cached** take no loads. -/
theorem code_lowerBinary_of_resident? (h : t.Valid registers) {rx ry : Nat} {x y : Int64}
    (hx : t.resident? rx = some x) (hy : t.resident? ry = some y) (op : Binary)
    (destination : Int64) :
    ∃ rd, (lowerBinary t op destination x y).code =
      [⟨.binary op, .ofNat rd, .ofNat ry, .ofNat rx⟩, store destination rd] := by
  have hvalid : (t.fill rx x).Valid registers := h.fill fun q hq => h.unique hq hx
  have hy' : (t.fill rx x).resident? ry = some y := by rw [resident?_fill_of_resident? hx, hy]
  rw [lowerBinary_eq]
  simp only [fetch_of_resident? h hx, fetch_of_resident? hvalid hy']
  exact ⟨_, rfl⟩

/-- Nor does a copy of a cell that is cached. -/
theorem code_lowerCopy_of_resident? (h : t.Valid registers) {r : Nat} {source : Int64}
    (hr : t.resident? r = some source) (destination : Int64) :
    (lowerCopy t destination source).code = [store destination r] := by
  rw [lowerCopy_eq]
  simp only [fetch_of_resident? h hr]
  rfl

/-! ### Cells that have been touched -/

/-- The first operand is still as it was fetched when the second one has been fetched too. -/
theorem slot?_fetch_fetch (h : t.Settled registers) (hsize : 2 < t.size) (x y : Int64) :
    (fetch (fetch t x).2.table y).2.table.slot? (fetch t x).1 = some (.fresh x) := by
  have hself := slot?_fetch_self (Nat.lt_of_succ_lt hsize) x
  by_cases hne : y = x
  · -- the one copy is used twice
    subst hne
    have hresident := resident?_fetch_self (Nat.lt_of_succ_lt hsize) y
    have hagain := slot?_fetch_self (t := (fetch t y).2.table) (by rw [size_fetch]; omega) y
    rwa [fetch_of_resident? (valid_fetch h.toValid y) hresident] at hagain ⊢
  · rw [slot?_fetch_of_ne (fetch_fetch_ne h hsize hne).symm, hself]

/-- **The result does not replace an operand**, if there is a third register that may be used. -/
theorem evict_fetch_fetch_ne (h : t.Settled registers) (hsize : 3 < t.size) (x y : Int64) :
    let fx := fetch t x
    let fy := fetch fx.2.table y
    fy.2.table.evict.1 ≠ fx.1 ∧ fy.2.table.evict.1 ≠ fy.1 := by
  intro fx fy
  have hx : fy.2.table.slot? fx.1 = some (.fresh x) := slot?_fetch_fetch h (by omega) x y
  have hy : fy.2.table.slot? fy.1 = some (.fresh y) :=
    slot?_fetch_self (by rw [size_fetch]; omega) y
  -- of the first three usable registers, one is neither of the two
  obtain ⟨q, hq, hqx, hqy⟩ : ∃ q, (1 ≤ q ∧ q ≤ 3) ∧ q ≠ fx.1 ∧ q ≠ fy.1 := by
    by_cases hone : fx.1 = 1 ∨ fy.1 = 1
    · by_cases htwo : fx.1 = 2 ∨ fy.1 = 2
      · exact ⟨3, by omega⟩
      · exact ⟨2, by omega⟩
    · exact ⟨1, by omega⟩
  have hmem : q ∈ fy.2.table.usable := by
    refine mem_usable.mpr ⟨hq.1, ?_⟩
    rw [size_fetch, size_fetch]
    omega
  have hkept : fy.2.table.slot? q = t.slot? q := by
    rw [slot?_fetch_of_ne hqy, slot?_fetch_of_ne hqx]
  -- it is empty, or older than what has just been fetched
  have hspare : ∀ {r : Nat} {address : Int64}, fy.2.table.slot? r = some (.fresh address) →
      fy.2.table.evict.1 ≠ r := by
    intro r address hr
    refine Table.evict_ne (by simp [Table.resident?, hr, Residency.Slot.fresh]) hmem ?_
    rw [Table.resident?, Table.age, Table.age, hr, hkept]
    cases hs : t.slot? q with
    | none => exact Or.inl rfl
    | some s =>
      by_cases hnone : s.resident = none
      · exact Or.inl hnone
      · exact Or.inr (h.one_le_age hs hnone)
  exact ⟨hspare hx, hspare hy⟩

/-- A computation takes copies from its destination only, and overwrites its register. -/
theorem resident?_compute {i : Nat → LoweredInstruction} {destination address : Int64} {r : Nat}
    (hr : t.resident? r = some address) (hspared : t.evict.1 ≠ r) (hne : address ≠ destination) :
    (compute t i destination).table.resident? r = some address := by
  show ((t.evict.2.dropAddress destination).fill t.evict.1 destination).resident? r = some address
  rw [Table.resident?_fill_of_ne destination hspared.symm, Table.resident?_dropAddress,
    Table.resident?_evict_of_ne hspared.symm, hr]
  simp [hne]

/-- **All that a binary operation touches is cached after it.** -/
theorem exists_resident?_lowerBinary (h : t.Settled registers) (hsize : 3 < t.size) (op : Binary)
    {destination x y address : Int64} (haddress : address ∈ [destination, x, y]) :
    ∃ r, (lowerBinary t op destination x y).table.resident? r = some address := by
  by_cases hne : address = destination
  · -- the cell that is written back
    subst hne
    obtain ⟨r, -, hr⟩ := (writesBack_lowerBinary h.toValid (by omega) op address x y).placed
    exact ⟨r, (Table.resident?_tick ..).symm.trans ((hr r).mpr rfl)⟩
  · -- an operand, which the result spares
    obtain ⟨hx, hy⟩ := evict_fetch_fetch_ne h hsize x y
    simp only [lowerBinary_eq]
    simp only [List.mem_cons, hne, List.not_mem_nil, or_false, false_or] at haddress
    rcases haddress with rfl | rfl
    · have hfirst := Table.resident?_of_slot? (slot?_fetch_fetch h (by omega) address y)
      exact ⟨_, resident?_compute hfirst hx hne⟩
    · have hsecond := resident?_fetch_self (t := (fetch t x).2.table) (by rw [size_fetch]; omega)
        address
      exact ⟨_, resident?_compute hsecond hy hne⟩

/-- **What an instruction touches is at hand for the next.**  On a register file with at least three
usable registers, and whatever has been lowered before, a binary operation leaves its
destination and both operands cached.  If the next instruction is a binary operation on these
cells, its operands are taken from where they are, and it becomes two instructions, the
computation and a store; if it is a copy of one of them, it becomes one store. -/
theorem touched_cells_stay_available (h : RegisterFile.Supported registers) (hfour : 4 ≤ registers)
    (calls : List (SourceInstruction × Nat)) :
    ∃ t, start registers = .ok t ∧
      ∀ s ∈ steps t calls, ∀ op destination x y,
        s.source = ⟨.known (.binary op), destination, x, y⟩ →
        (∀ address ∈ [destination, x, y], ∃ r, s.table.locate address = some r) ∧
        (∀ index op' destination' x' y',
          x' ∈ [destination, x, y] → y' ∈ [destination, x, y] →
          ∃ rx ry rd, s.table.locate x' = some rx ∧ s.table.locate y' = some ry ∧
            (step s.table index ⟨.known (.binary op'), destination', x', y'⟩).code =
              [⟨.binary op', .ofNat rd, .ofNat ry, .ofNat rx⟩, store destination' rd]) ∧
        ∀ index destination' x' c, x' ∈ [destination, x, y] →
          ∃ r, s.table.locate x' = some r ∧
            (step s.table index ⟨.known .cop, destination', x', c⟩).code =
              [store destination' r] := by
  have hsize := one_lt_size_start h
  refine ⟨Table.empty registers, start_eq h, ?_⟩
  refine forall_mem_steps (settled_start h) hsize (fun t index i ht ht' => ?_) calls
  intro op destination x y hsource
  cases (show i = _ from hsource)
  have hvalid := (settled_step ht ht' index ⟨.known (.binary op), destination, x, y⟩).toValid
  have hcached : ∀ address ∈ [destination, x, y], ∃ r,
      (step t index ⟨.known (.binary op), destination, x, y⟩).table.resident? r =
        some address := by
    intro address haddress
    obtain ⟨r, hr⟩ := exists_resident?_lowerBinary ht (by rw [ht.size_eq]; omega) op haddress
    refine ⟨r, (Table.resident?_tick (lowerInstruction t _).table r).trans ?_⟩
    rw [lowerInstruction_binary, hr]
  -- from here on, only that the table is valid and caches the three cells matters
  generalize (step t index ⟨.known (.binary op), destination, x, y⟩).table = u at hvalid hcached ⊢
  refine ⟨fun address haddress => ?_, fun index' op' destination' x' y' hx hy => ?_,
    fun index' destination' x' c hx => ?_⟩
  · obtain ⟨r, hr⟩ := hcached address haddress
    exact ⟨r, locate_of_resident? hvalid hr⟩
  · obtain ⟨rx, hrx⟩ := hcached x' hx
    obtain ⟨ry, hry⟩ := hcached y' hy
    obtain ⟨rd, hcode⟩ := code_lowerBinary_of_resident? hvalid hrx hry op' destination'
    refine ⟨rx, ry, rd, locate_of_resident? hvalid hrx, locate_of_resident? hvalid hry, ?_⟩
    show (lowerInstruction u _).code = _
    rw [lowerInstruction_binary, hcode]
  · obtain ⟨r, hr⟩ := hcached x' hx
    exact ⟨r, locate_of_resident? hvalid hr, code_lowerCopy_of_resident? hvalid hr destination'⟩

/-- Three usable registers, which all cache other cells before the subtraction.  It fetches both
operands, and the copy and the sum after it fetch nothing. -/
theorem touched_cells_stay_available_four :
    RegisterFile.Supported 4 ∧ 4 ≤ 4 ∧ ∃ t, start 4 = .ok t ∧
      let i : SourceInstruction := ⟨.known (.binary .sou), 4, 0, 1⟩
      let calls := [(⟨.known .afc, 5, 7, 0⟩, 0), (⟨.known .afc, 6, 8, 0⟩, 1),
        (⟨.known .afc, 7, 9, 0⟩, 2), (i, 3)]
      ∃ s ∈ steps t calls, s.source = i ∧
        s.code = [⟨.load, 1, 0, 0⟩, ⟨.load, 2, 1, 0⟩, ⟨.binary .sou, 3, 2, 1⟩, store 4 3] ∧
        (∃ r, (step s.table 4 ⟨.known .cop, 9, 4, 0⟩).code = [store 9 r]) ∧
        ∃ rx ry rd, (step s.table 4 ⟨.known (.binary .add), 0, 1, 4⟩).code =
          [⟨.binary .add, .ofNat rd, .ofNat ry, .ofNat rx⟩, store 0 rd] := by
  have h : RegisterFile.Supported 4 := by decide
  refine ⟨h, Nat.le_refl 4, .empty 4, start_eq h, ?_⟩
  intro i calls
  obtain ⟨t, ht, hsteps⟩ := touched_cells_stay_available h (Nat.le_refl 4) calls
  cases (start_eq h).symm.trans ht
  obtain ⟨s, hs, hsource, hcode⟩ : ∃ s ∈ steps (.empty 4) calls, s.source = i ∧
      s.code = [⟨.load, 1, 0, 0⟩, ⟨.load, 2, 1, 0⟩, ⟨.binary .sou, 3, 2, 1⟩, store 4 3] := by
    decide +kernel
  obtain ⟨-, hbinary, hcopy⟩ := hsteps s hs .sou 4 0 1 hsource
  obtain ⟨r, -, hr⟩ := hcopy 4 9 4 0 (by decide)
  obtain ⟨rx, ry, rd, -, -, hrd⟩ := hbinary 4 .add 0 1 4 (by decide) (by decide)
  exact ⟨s, hs, hsource, hcode, ⟨r, hr⟩, rx, ry, rd, hrd⟩

end Lowering
end CrossAssembler
