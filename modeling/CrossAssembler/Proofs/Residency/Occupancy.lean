import CrossAssembler.Residency.Table

/-!
# Occupancy of a residency table

What each operation of a table does to the address a register caches, which
register an eviction picks, and the invariant that the operations keep among
themselves.

The table does not enforce that an address has at most one copy: `fill` alone can
give it a second one.  So the invariant comes in two strengths.  `Valid` is what
holds at every moment of lowering an instruction, when registers that were just
touched have age zero; `Settled` is what holds between two instructions, when the
clock has advanced and every occupied register has an age of at least one.

## Main definitions

* `Table.Valid`, `Table.Settled` — the invariant within and between instructions.
* `Table.OnlyAt` — exactly one register caches an address.

## Main results

* `resident?_evict_self`, `age_le_age_oldest` — the register an eviction gives is
  empty afterwards, and was the oldest if no register was empty before.
* `Valid.fill`, `Valid.clear`, `Valid.dropAddress`, `Valid.evict` — the invariant
  within an instruction; filling a register keeps it if no other register caches
  the address.
* `Valid.tick` — advancing the clock settles a table.
-/

namespace CrossAssembler
namespace Residency

/-! ### The clock of a slot -/

namespace Slot

@[simp] theorem resident_tick (s : Slot) : s.tick.resident = s.resident := by
  unfold tick
  split <;> rfl

theorem tick_of_empty {s : Slot} (h : s.resident = none) : s.tick = s := by
  unfold tick
  rw [h]
  rfl

theorem one_le_age_tick {s : Slot} (h : s.resident ≠ none) : 1 ≤ s.tick.age := by
  unfold tick
  rw [if_pos (Option.isSome_iff_ne_none.mpr h)]
  exact Nat.le_min.mpr ⟨Nat.le_add_left 1 s.age, by decide⟩

end Slot

namespace Table

open RegisterFile (reserved)

/-- Two tables with the same slots are equal. -/
theorem ext_slot? {t u : Table} (h : ∀ r, t.slot? r = u.slot? r) : t = u := by
  obtain ⟨slots⟩ := t
  obtain ⟨slots'⟩ := u
  rw [Table.mk.injEq]
  exact Array.ext_getElem? fun r => h r

/-! ### Residents -/

theorem lt_size_of_slot? {t : Table} {r : Nat} {s : Slot} (h : t.slot? r = some s) :
    r < t.size := by
  refine Nat.lt_of_not_le fun hr => ?_
  rw [(slot?_eq_none_iff t r).mpr hr] at h
  cases h

theorem resident?_of_slot? {t : Table} {r : Nat} {s : Slot} (h : t.slot? r = some s) :
    t.resident? r = s.resident := by
  rw [resident?, h]
  rfl

theorem resident?_eq_some_iff {t : Table} {r : Nat} {address : Int64} :
    t.resident? r = some address ↔ ∃ s, t.slot? r = some s ∧ s.resident = some address := by
  simp [resident?, Option.bind_eq_some_iff]

theorem lt_size_of_resident? {t : Table} {r : Nat} {address : Int64}
    (h : t.resident? r = some address) : r < t.size := by
  obtain ⟨s, hs, -⟩ := resident?_eq_some_iff.mp h
  exact lt_size_of_slot? hs

@[simp] theorem resident?_empty (registers r : Nat) : (empty registers).resident? r = none := by
  rw [resident?, slot?_empty]
  split <;> rfl

theorem resident?_put (t : Table) (r q : Nat) (s : Slot) :
    (t.put r s).resident? q =
      if r ≠ reserved ∧ q = r ∧ r < t.size then s.resident else t.resident? q := by
  rw [resident?, slot?_put]
  split <;> rfl

theorem resident?_fill (t : Table) (r q : Nat) (address : Int64) :
    (t.fill r address).resident? q =
      if r ≠ reserved ∧ q = r ∧ r < t.size then some address else t.resident? q :=
  resident?_put ..

theorem resident?_clear (t : Table) (r q : Nat) :
    (t.clear r).resident? q =
      if r ≠ reserved ∧ q = r ∧ r < t.size then none else t.resident? q :=
  resident?_put ..

theorem resident?_dropAddress (t : Table) (address : Int64) (q : Nat) :
    (t.dropAddress address).resident? q =
      if q ≠ reserved ∧ t.resident? q = some address then none else t.resident? q := by
  rw [resident?, resident?, slot?_dropAddress]
  cases t.slot? q with
  | none => simp
  | some s =>
    by_cases h : q ≠ reserved ∧ s.resident = some address
    · simp [h, Slot.empty]
    · simp [h]

@[simp] theorem resident?_tick (t : Table) (q : Nat) : t.tick.resident? q = t.resident? q := by
  rw [resident?, resident?, slot?_tick]
  cases t.slot? q with
  | none => rfl
  | some s =>
    show (if q = reserved then s else s.tick).resident = s.resident
    split
    · rfl
    · exact s.resident_tick

/-- A register that was filled caches the address. -/
theorem resident?_fill_self {t : Table} {r : Nat} (address : Int64) (hr : r ∈ t.usable) :
    (t.fill r address).resident? r = some address := by
  rw [mem_usable] at hr
  rw [resident?_fill, if_pos ⟨by omega, rfl, hr.2⟩]

theorem resident?_fill_of_ne {t : Table} {r q : Nat} (address : Int64) (hq : q ≠ r) :
    (t.fill r address).resident? q = t.resident? q := by
  rw [resident?_fill, if_neg fun h => hq h.2.1]

/-- The cleared registers aside, dropping an address changes nothing. -/
theorem of_resident?_dropAddress {t : Table} {address other : Int64} {q : Nat}
    (hz : t.resident? reserved = none)
    (h : (t.dropAddress address).resident? q = some other) :
    other ≠ address ∧ t.resident? q = some other := by
  rw [resident?_dropAddress] at h
  split at h
  · cases h
  · rename_i hq
    refine ⟨fun heq => hq ⟨fun h0 => ?_, by rw [h, heq]⟩, h⟩
    rw [h0, hz] at h
    cases h

/-- An address that is not located is cached by no usable register. -/
theorem resident?_ne_of_locate_eq_none {t : Table} {address : Int64}
    (h : t.locate address = none) {r : Nat} (hr : r ∈ t.usable) :
    t.resident? r ≠ some address := by
  have := List.find?_eq_none.mp h r hr
  simpa using this

/-! ### Choosing a register -/

/-- The fold that looks for the oldest register, from any register it may start
with: it ends at the start or at a register of the list, and nothing on the way is
older. -/
theorem foldl_oldest_spec (t : Table) (rs : List Nat) (start : Nat) :
    let best := rs.foldl (fun best r => if t.age best < t.age r then r else best) start
    (best = start ∨ best ∈ rs) ∧ t.age start ≤ t.age best ∧ ∀ r ∈ rs, t.age r ≤ t.age best := by
  -- the register found so far is the start for the rest of the list
  induction rs generalizing start with
  | nil => simp
  | cons r rs ih =>
    simp only [List.foldl_cons]
    by_cases h : t.age start < t.age r
    · rw [if_pos h]
      obtain ⟨hmem, hstart, hall⟩ := ih r
      refine ⟨Or.inr (by rw [List.mem_cons]; exact hmem), by omega, fun q hq => ?_⟩
      rcases List.mem_cons.mp hq with rfl | hq
      · exact hstart
      · exact hall q hq
    · rw [if_neg h]
      obtain ⟨hmem, hstart, hall⟩ := ih start
      refine ⟨hmem.imp_right (List.mem_cons_of_mem r), hstart, fun q hq => ?_⟩
      rcases List.mem_cons.mp hq with rfl | hq
      · omega
      · exact hall q hq

theorem oldest_mem_usable {t : Table} (h : 1 < t.size) : t.oldest ∈ t.usable := by
  rcases (foldl_oldest_spec t t.usable (reserved + 1)).1 with hstart | hmem
  · rw [mem_usable]
    have : t.oldest = reserved + 1 := hstart
    rw [this, reserved]
    omega
  · exact hmem

/-- No usable register is older than the oldest. -/
theorem age_le_age_oldest {t : Table} {r : Nat} (hr : r ∈ t.usable) :
    t.age r ≤ t.age t.oldest :=
  (foldl_oldest_spec t t.usable (reserved + 1)).2.2 r hr

/-- An eviction gives a usable register. -/
theorem evict_mem_usable {t : Table} (h : 1 < t.size) : t.evict.1 ∈ t.usable := by
  unfold evict
  split
  · exact List.mem_of_find?_eq_some ‹_›
  · exact oldest_mem_usable h

/-- An eviction leaves every other register as it was. -/
theorem slot?_evict_of_ne {t : Table} {q : Nat} (hq : q ≠ t.evict.1) :
    t.evict.2.slot? q = t.slot? q := by
  unfold evict at hq ⊢
  split at hq
  · rfl
  · rw [clear, slot?_put, if_neg fun h => hq h.2.1]

/-- The register that an eviction gives is empty afterwards. -/
theorem resident?_evict_self {t : Table} (h : 1 < t.size) :
    t.evict.2.resident? t.evict.1 = none := by
  have hmem := mem_usable.mp (evict_mem_usable h)
  unfold evict at hmem ⊢
  split at hmem
  · rename_i hempty
    simpa using List.find?_some hempty
  · rw [resident?_clear, if_pos ⟨by omega, rfl, hmem.2⟩]

theorem resident?_evict_of_ne {t : Table} {q : Nat} (hq : q ≠ t.evict.1) :
    t.evict.2.resident? q = t.resident? q := by
  rw [resident?, slot?_evict_of_ne hq, resident?]

theorem of_resident?_evict {t : Table} {q : Nat} {address : Int64} (h : 1 < t.size)
    (hq : t.evict.2.resident? q = some address) :
    q ≠ t.evict.1 ∧ t.resident? q = some address := by
  have hne : q ≠ t.evict.1 := by
    rintro rfl
    rw [resident?_evict_self h] at hq
    cases hq
  exact ⟨hne, by rw [← resident?_evict_of_ne hne, hq]⟩

/-- An eviction spares a register that caches an address if another usable one is empty
or older. -/
theorem evict_ne {t : Table} {r q : Nat} (hr : t.resident? r ≠ none) (hq : q ∈ t.usable)
    (h : t.resident? q = none ∨ t.age r < t.age q) : t.evict.1 ≠ r := by
  unfold evict
  cases hempty : t.firstEmpty? with
  | some e =>
    rintro rfl
    exact hr (by simpa using List.find?_some hempty)
  | none =>
    -- no usable register is empty, so the oldest one is given up
    intro (heq : t.oldest = r)
    have hoccupied := List.find?_eq_none.mp hempty q hq
    have hage := age_le_age_oldest hq
    rw [heq] at hage
    rcases h with hnone | hlt
    · rw [hnone] at hoccupied
      exact hoccupied rfl
    · omega

/-! ### The invariant -/

/-- What holds of a table of a register file at every moment of lowering. -/
structure Valid (registers : Nat) (t : Table) : Prop where
  /-- There is one slot for each register. -/
  size_eq : t.size = registers
  /-- The reserved register has never been touched. -/
  reserved_slot : t.slot? reserved = some .empty
  /-- An address has at most one copy. -/
  unique : ∀ {r q : Nat} {address : Int64},
    t.resident? r = some address → t.resident? q = some address → r = q
  /-- An empty register has no age. -/
  age_of_empty : ∀ {r : Nat} {s : Slot}, t.slot? r = some s → s.resident = none → s.age = 0

/-- What holds of a table between two instructions: besides, every copy is at least
one instruction old. -/
structure Settled (registers : Nat) (t : Table) : Prop extends Valid registers t where
  /-- A register that caches an address has an age. -/
  one_le_age : ∀ {r : Nat} {s : Slot}, t.slot? r = some s → s.resident ≠ none → 1 ≤ s.age

/-- Exactly the register `r` caches `address`. -/
def OnlyAt (t : Table) (address : Int64) (r : Nat) : Prop :=
  ∀ q, t.resident? q = some address ↔ q = r

section

variable {registers : Nat} {t : Table}

theorem Valid.resident?_reserved (h : t.Valid registers) : t.resident? reserved = none := by
  rw [resident?, h.reserved_slot]
  rfl

/-- Whatever a register caches, it is a usable one. -/
theorem Valid.mem_usable_of_resident? (h : t.Valid registers) {r : Nat} {address : Int64}
    (hr : t.resident? r = some address) : r ∈ t.usable := by
  refine mem_usable.mpr ⟨Nat.pos_of_ne_zero ?_, lt_size_of_resident? hr⟩
  rintro rfl
  rw [show (0 : Nat) = reserved from rfl, h.resident?_reserved] at hr
  cases hr

/-- An address is not located exactly if no register caches it. -/
theorem Valid.resident?_ne_of_locate_eq_none (h : t.Valid registers) {address : Int64}
    (hl : t.locate address = none) (r : Nat) : t.resident? r ≠ some address := fun hr =>
  Table.resident?_ne_of_locate_eq_none hl (h.mem_usable_of_resident? hr) hr

theorem settled_empty (h : 0 < registers) : (empty registers).Settled registers where
  size_eq := size_empty registers
  reserved_slot := by
    rw [slot?_empty]
    exact if_pos h
  unique := fun hr _ => by rw [resident?_empty] at hr; cases hr
  age_of_empty := fun hs _ => by
    rw [slot?_empty] at hs
    split at hs
    · cases hs
      rfl
    · cases hs
  one_le_age := fun hs hres => by
    rw [slot?_empty] at hs
    split at hs
    · cases hs
      exact absurd rfl hres
    · cases hs

/-- Putting a slot keeps the invariant if the slot is well-formed and no other
register caches its address. -/
theorem Valid.put (h : t.Valid registers) {r : Nat} {s : Slot}
    (hs : s.resident = none → s.age = 0)
    (hq : ∀ address q, s.resident = some address → t.resident? q = some address → q = r) :
    (t.put r s).Valid registers where
  size_eq := by rw [size_put, h.size_eq]
  reserved_slot := by
    rw [slot?_put, if_neg fun hr => hr.1 hr.2.1.symm]
    exact h.reserved_slot
  unique := by
    intro p q address hp hq'
    rw [resident?_put] at hp hq'
    -- each of the two is the register that was put, or one that was there before
    split at hp <;> split at hq'
    · omega
    · rename_i hpr _
      rw [hq address q hp hq', hpr.2.1]
    · rename_i hqr
      rw [hq address p hq' hp, hqr.2.1]
    · exact h.unique hp hq'
  age_of_empty := by
    intro q u hu hres
    rw [slot?_put] at hu
    split at hu
    · cases hu
      exact hs hres
    · exact h.age_of_empty hu hres

/-- Filling a register keeps the invariant if no other register caches the
address. -/
theorem Valid.fill (h : t.Valid registers) {r : Nat} {address : Int64}
    (hq : ∀ q, t.resident? q = some address → q = r) : (t.fill r address).Valid registers := by
  refine h.put (fun hres => by cases hres) fun other q hres hother => ?_
  cases hres
  exact hq q hother

theorem Valid.clear (h : t.Valid registers) (r : Nat) : (t.clear r).Valid registers :=
  h.put (fun _ => rfl) fun _ _ hres => by cases hres

theorem Valid.evict (h : t.Valid registers) : t.evict.2.Valid registers := by
  unfold Table.evict
  split
  · exact h
  · exact h.clear _

theorem Valid.dropAddress (h : t.Valid registers) (address : Int64) :
    (t.dropAddress address).Valid registers where
  size_eq := by rw [size_dropAddress, h.size_eq]
  reserved_slot := by
    rw [slot?_dropAddress, h.reserved_slot]
    rfl
  unique := fun hr hq =>
    h.unique (of_resident?_dropAddress h.resident?_reserved hr).2
      (of_resident?_dropAddress h.resident?_reserved hq).2
  age_of_empty := by
    intro r s hs hres
    rw [slot?_dropAddress, Option.map_eq_some_iff] at hs
    obtain ⟨u, hu, rfl⟩ := hs
    split at hres
    · rw [if_pos ‹_›]
      rfl
    · rw [if_neg ‹_›]
      exact h.age_of_empty hu hres

/-- After an address has been dropped, no register caches it. -/
theorem Valid.resident?_dropAddress_ne (h : t.Valid registers) (address : Int64) (r : Nat) :
    (t.dropAddress address).resident? r ≠ some address := fun hr =>
  (of_resident?_dropAddress h.resident?_reserved hr).1 rfl

/-- Advancing the clock settles a table. -/
theorem Valid.tick (h : t.Valid registers) : t.tick.Settled registers where
  size_eq := by rw [size_tick, h.size_eq]
  reserved_slot := by
    rw [slot?_tick, h.reserved_slot]
    rfl
  unique := fun hr hq => by
    rw [resident?_tick] at hr hq
    exact h.unique hr hq
  age_of_empty := by
    intro r s hs hres
    rw [slot?_tick, Option.map_eq_some_iff] at hs
    obtain ⟨u, hu, rfl⟩ := hs
    split at hres
    · rw [if_pos ‹_›]
      exact h.age_of_empty hu hres
    · rw [Slot.resident_tick] at hres
      rw [if_neg ‹_›, Slot.tick_of_empty hres]
      exact h.age_of_empty hu hres
  one_le_age := by
    intro r s hs hres
    rw [slot?_tick, Option.map_eq_some_iff] at hs
    obtain ⟨u, hu, rfl⟩ := hs
    split at hres
    · -- the reserved register caches nothing
      rename_i hr
      rw [hr, h.reserved_slot] at hu
      cases hu
      exact absurd rfl hres
    · rw [Slot.resident_tick] at hres
      rw [if_neg ‹_›]
      exact Slot.one_le_age_tick hres

end

end Table
end Residency
end CrossAssembler
