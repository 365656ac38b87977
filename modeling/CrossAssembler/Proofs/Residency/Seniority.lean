import CrossAssembler.Proofs.Residency.Occupancy

/-!
# Tables that differ in their ages only

An eviction compares ages and does not look at them otherwise.  So what matters of two tables
that cache the same addresses is whether they put their registers in the same order of
seniority.  Such tables are alike: they locate the same registers, give up the same ones,
and are still alike after the same change.

They are also alike after a tick that only one of them sees.  A tick keeps the order among
the occupied registers, and between two instructions these are all senior to the empty ones.
This needs ages that have not reached their maximum, where the order would be lost; so `Alike`
counts the ticks that have gone by.

## Main definitions

* `Table.Alike` — two tables cache the same, in the same order of seniority.

## Main results

* `Alike.locate_eq`, `Alike.evict_eq` — alike tables choose the same registers.
* `Alike.fill`, `Alike.clear`, `Alike.dropAddress`, `Alike.evict` — the same change keeps tables
  alike.
* `Alike.tick`, `Alike.tick_left` — so does a tick of both, or of one.
-/

namespace CrossAssembler
namespace Residency
namespace Table

open RegisterFile (reserved)

/-! ### Ages -/

section

variable {registers : Nat} {t : Table}

theorem age_of_slot? {q : Nat} {s : Slot} (h : t.slot? q = some s) : t.age q = s.age := by
  rw [age, h]
  rfl

/-- There is no age where there is no register. -/
theorem age_of_size_le {q : Nat} (h : t.size ≤ q) : t.age q = 0 := by
  rw [age, (slot?_eq_none_iff t q).mpr h]
  rfl

@[simp] theorem age_empty (q : Nat) : (empty registers).age q = 0 := by
  rw [age, slot?_empty]
  split <;> rfl

theorem age_put (t : Table) (r q : Nat) (s : Slot) :
    (t.put r s).age q = if r ≠ reserved ∧ q = r ∧ r < t.size then s.age else t.age q := by
  rw [age, slot?_put]
  split <;> rfl

theorem age_dropAddress (t : Table) (address : Int64) (q : Nat) :
    (t.dropAddress address).age q =
      if q ≠ reserved ∧ t.resident? q = some address then 0 else t.age q := by
  rw [age, slot?_dropAddress, age, resident?]
  cases t.slot? q with
  | none => simp
  | some s =>
    by_cases h : q ≠ reserved ∧ s.resident = some address
    · simp [h, Slot.empty]
    · simp [h]

theorem Valid.age_of_resident?_eq_none (h : t.Valid registers) {q : Nat}
    (hq : t.resident? q = none) : t.age q = 0 := by
  cases hs : t.slot? q with
  | none => exact age_of_size_le ((slot?_eq_none_iff t q).mp hs)
  | some s =>
    rw [resident?, hs] at hq
    rw [age_of_slot? hs]
    exact h.age_of_empty hs hq

theorem Settled.one_le_age_of_resident? (h : t.Settled registers) {q : Nat} {address : Int64}
    (hq : t.resident? q = some address) : 1 ≤ t.age q := by
  obtain ⟨s, hs, hres⟩ := resident?_eq_some_iff.mp hq
  rw [age_of_slot? hs]
  exact h.one_le_age hs (by rw [hres]; exact Option.some_ne_none address)

/-- A tick makes an occupied register one older, as long as its clock has not stopped. -/
theorem Valid.age_tick_of_resident? (h : t.Valid registers) {q : Nat} {address : Int64}
    (hq : t.resident? q = some address) (hmax : t.age q < Slot.maxAge) :
    t.tick.age q = t.age q + 1 := by
  obtain ⟨hpos, -⟩ := mem_usable.mp (h.mem_usable_of_resident? hq)
  obtain ⟨s, hs, hres⟩ := resident?_eq_some_iff.mp hq
  have htick : t.tick.slot? q = some s.tick := by
    rw [slot?_tick, hs]
    exact congrArg some (if_neg (Nat.ne_of_gt hpos))
  have hsome : s.resident.isSome = true := by rw [hres]; rfl
  rw [age_of_slot? hs] at hmax ⊢
  rw [age_of_slot? htick, Slot.tick, if_pos hsome]
  exact Nat.min_eq_left hmax

theorem Valid.age_tick_of_resident?_eq_none (h : t.Valid registers) {q : Nat}
    (hq : t.resident? q = none) : t.tick.age q = 0 :=
  h.tick.toValid.age_of_resident?_eq_none (by rw [resident?_tick, hq])

/-- Seniority after a tick: an occupied register is senior to an empty one, and to an occupied
one if it was so before. -/
theorem Valid.age_tick_lt_iff (h : t.Valid registers) {r q : Nat} (hr : t.age r < Slot.maxAge)
    (hq : t.age q < Slot.maxAge) :
    t.tick.age r < t.tick.age q ↔
      t.resident? q ≠ none ∧ (t.resident? r = none ∨ t.age r < t.age q) := by
  cases hq' : t.resident? q with
  | none =>
    rw [h.age_tick_of_resident?_eq_none hq']
    simp
  | some y =>
    rw [h.age_tick_of_resident? hq' hq]
    cases hr' : t.resident? r with
    | none =>
      rw [h.age_tick_of_resident?_eq_none hr']
      simp
    | some x =>
      rw [h.age_tick_of_resident? hr' hr]
      simp

/-- Between two instructions, seniority is like that after a tick. -/
theorem Settled.age_lt_iff (h : t.Settled registers) (r q : Nat) :
    t.age r < t.age q ↔ t.resident? q ≠ none ∧ (t.resident? r = none ∨ t.age r < t.age q) := by
  cases hq : t.resident? q with
  | none =>
    rw [h.age_of_resident?_eq_none hq]
    simp
  | some y =>
    have hpos := h.one_le_age_of_resident? hq
    cases hr : t.resident? r with
    | none =>
      rw [h.age_of_resident?_eq_none hr]
      simp only [ne_eq, reduceCtorEq, not_false_eq_true, true_or, and_self, iff_true]
      exact hpos
    | some x => simp

end

/-! ### Tables that are alike -/

/-- The tables cache the same addresses in the same registers, and have these in the same order
of seniority.  No register has seen more ticks than those that have gone by. -/
structure Alike (ticks : Nat) (t u : Table) : Prop where
  /-- They have equally many registers. -/
  size_eq : t.size = u.size
  /-- They cache the same. -/
  resident?_eq : ∀ r, t.resident? r = u.resident? r
  /-- A register is senior to another in both or in neither. -/
  age_lt_iff : ∀ r q, t.age r < t.age q ↔ u.age r < u.age q
  /-- The first table is not older than the clock. -/
  age_le : ∀ r, t.age r ≤ ticks
  /-- Nor is the second. -/
  age_le' : ∀ r, u.age r ≤ ticks

namespace Alike

variable {registers ticks : Nat} {t u : Table}

theorem refl_empty (registers : Nat) : Alike 0 (empty registers) (empty registers) :=
  ⟨rfl, fun _ => rfl, fun _ _ => Iff.rfl, fun _ => by simp, fun _ => by simp⟩

section

variable (h : Alike ticks t u)
include h

theorem symm : Alike ticks u t :=
  ⟨h.size_eq.symm, fun r => (h.resident?_eq r).symm, fun r q => (h.age_lt_iff r q).symm, h.age_le',
    h.age_le⟩

/-- A register has an age in both tables or in neither. -/
theorem age_pos_iff (q : Nat) : 0 < t.age q ↔ 0 < u.age q := by
  -- a register that does not exist has no age in either
  have hlt := h.age_lt_iff t.size q
  rwa [age_of_size_le (Nat.le_refl _), age_of_size_le (Nat.le_of_eq h.size_eq.symm)] at hlt

/-! ### Choices -/

theorem usable_eq : t.usable = u.usable := by rw [usable, usable, h.size_eq]

theorem locate_eq (address : Int64) : t.locate address = u.locate address := by
  simp only [locate, h.usable_eq, h.resident?_eq]

theorem firstEmpty?_eq : t.firstEmpty? = u.firstEmpty? := by
  simp only [firstEmpty?, h.usable_eq, h.resident?_eq]

theorem oldest_eq : t.oldest = u.oldest := by simp only [oldest, h.usable_eq, h.age_lt_iff]

/-- **Alike tables give up the same register.** -/
theorem evict_eq : t.evict.1 = u.evict.1 := by
  rw [evict, evict, h.firstEmpty?_eq]
  cases u.firstEmpty? with
  | some r => rfl
  | none => exact h.oldest_eq

/-! ### Changes -/

/-- Tables stay alike if the same registers lose their ages in both, and they go on to cache the
same. -/
theorem rejuvenated {t' u' : Table} {P : Nat → Prop} [DecidablePred P]
    (hsize : t'.size = t.size) (hsize' : u'.size = u.size)
    (hresident : ∀ r, t'.resident? r = u'.resident? r)
    (hage : ∀ r, t'.age r = if P r then 0 else t.age r)
    (hage' : ∀ r, u'.age r = if P r then 0 else u.age r) : Alike ticks t' u' where
  size_eq := by rw [hsize, hsize', h.size_eq]
  resident?_eq := hresident
  age_lt_iff := by
    intro r q
    have hpos := h.age_pos_iff q
    have hlt := h.age_lt_iff r q
    rw [hage, hage, hage', hage']
    by_cases hr : P r <;> by_cases hq : P q <;> simp [hr, hq, hpos, hlt]
  age_le := by
    intro r
    have hle := h.age_le r
    rw [hage]
    split <;> omega
  age_le' := by
    intro r
    have hle := h.age_le' r
    rw [hage']
    split <;> omega

theorem put (r : Nat) {s : Slot} (hs : s.age = 0) : Alike ticks (t.put r s) (u.put r s) := by
  refine h.rejuvenated (P := fun q => r ≠ reserved ∧ q = r ∧ r < t.size) (size_put ..)
    (size_put ..) (fun q => ?_) (fun q => ?_) fun q => ?_
  · rw [resident?_put, resident?_put, h.size_eq, h.resident?_eq]
  · rw [age_put, hs]
  · rw [age_put, hs, h.size_eq]

theorem fill (r : Nat) (address : Int64) : Alike ticks (t.fill r address) (u.fill r address) :=
  h.put r rfl

theorem clear (r : Nat) : Alike ticks (t.clear r) (u.clear r) := h.put r rfl

theorem dropAddress (address : Int64) :
    Alike ticks (t.dropAddress address) (u.dropAddress address) := by
  refine h.rejuvenated (P := fun q => q ≠ reserved ∧ t.resident? q = some address)
    (size_dropAddress ..) (size_dropAddress ..) (fun q => ?_) (fun q => ?_) fun q => ?_
  · rw [resident?_dropAddress, resident?_dropAddress, h.resident?_eq]
  · exact age_dropAddress t address q
  · rw [age_dropAddress, h.resident?_eq]

theorem evict : Alike ticks t.evict.2 u.evict.2 := by
  rw [Table.evict, Table.evict, h.firstEmpty?_eq]
  cases u.firstEmpty? with
  | some r => exact h
  | none =>
    show Alike ticks (t.clear t.oldest) (u.clear u.oldest)
    rw [h.oldest_eq]
    exact h.clear u.oldest

/-! ### Ticks -/

theorem age_tick_le (ht : t.Valid registers) (hmax : ticks < Slot.maxAge) (r : Nat) :
    t.tick.age r ≤ ticks + 1 := by
  have hle := h.age_le r
  cases hr : t.resident? r with
  | none =>
    rw [ht.age_tick_of_resident?_eq_none hr]
    exact Nat.zero_le _
  | some address =>
    rw [ht.age_tick_of_resident? hr (by omega)]
    omega

/-- **A tick keeps tables alike.** -/
theorem tick (ht : t.Valid registers) (hu : u.Valid registers) (hmax : ticks < Slot.maxAge) :
    Alike (ticks + 1) t.tick u.tick where
  size_eq := by rw [size_tick, size_tick, h.size_eq]
  resident?_eq := fun r => by rw [resident?_tick, resident?_tick, h.resident?_eq]
  age_lt_iff := by
    intro r q
    have hle := h.age_le
    have hle' := h.age_le'
    rw [ht.age_tick_lt_iff (Nat.lt_of_le_of_lt (hle r) hmax) (Nat.lt_of_le_of_lt (hle q) hmax),
      hu.age_tick_lt_iff (Nat.lt_of_le_of_lt (hle' r) hmax) (Nat.lt_of_le_of_lt (hle' q) hmax),
      h.resident?_eq, h.resident?_eq, h.age_lt_iff]
  age_le := h.age_tick_le ht hmax
  age_le' := h.symm.age_tick_le hu hmax

/-- **A tick that only one table sees keeps them alike**, if every copy that the other has is at
least one instruction old. -/
theorem tick_left (ht : t.Valid registers) (hu : u.Settled registers)
    (hmax : ticks < Slot.maxAge) : Alike (ticks + 1) t.tick u where
  size_eq := by rw [size_tick, h.size_eq]
  resident?_eq := fun r => by rw [resident?_tick, h.resident?_eq]
  age_lt_iff := by
    intro r q
    have hle := h.age_le
    rw [ht.age_tick_lt_iff (Nat.lt_of_le_of_lt (hle r) hmax) (Nat.lt_of_le_of_lt (hle q) hmax),
      hu.age_lt_iff r q, h.resident?_eq, h.resident?_eq, h.age_lt_iff]
  age_le := h.age_tick_le ht hmax
  age_le' := fun r => Nat.le_succ_of_le (h.age_le' r)

end

end Alike
end Table
end Residency
end CrossAssembler
