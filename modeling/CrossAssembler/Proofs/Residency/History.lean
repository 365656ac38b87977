import CrossAssembler.Proofs.Residency.Seniority
import Mathlib.Data.List.DropRight
import Mathlib.Order.Bounds.Defs

/-!
# The history of a residency table

A table keeps one number for each register, which tells how long ago the register was filled.
Whether it tells the truth can only be said with all that the table has been asked to do, from
the time when it was empty.  The history is enough to reconstruct what a register would hold if
nothing but time had passed since its last fill.  Each slot of the table is this record, or it is
empty, whatever was filled, cleared, dropped and evicted in between.

So the register that an eviction gives up can be described by the history alone.  The clocks of
slots stop at `Slot.maxAge`, where registers can no longer be told apart; up to then, it is the one
that was filled longest ago.

## Main definitions

* `Request` — what a table of a given size can be asked to do.
* `tableAfter` — the table that a history leaves.
* `lastGiven?`, `ticksSinceFill` — the last fill of a register, and the time since then.
* `recordOf?` — what a register would hold if it had kept its last fill.

## Main results

* `follows_tableAfter` — each slot is empty or the record of the last fill of its register.
* `Table.isLeast_evict_of_empty`, `Table.evict_eq_oldest`, `Table.isLeast_oldest` — which register
  an eviction gives.
* `evictions_follow_history` — the table after any history, and what it gives up next.
-/

namespace CrossAssembler
namespace Residency

open RegisterFile (reserved)
open Table (mem_usable)

variable {registers : Nat}

/-- What the table of a register file can be asked to do. -/
inductive Request (registers : Nat) where
  /-- Record that a register now holds the value of an address. -/
  | fill (register : Fin registers) (address : Int64)
  /-- Forget what a register holds. -/
  | clear (register : Fin registers)
  /-- Forget every copy of an address. -/
  | dropAddress (address : Int64)
  /-- Choose a register to fill next, and empty it. -/
  | evict
  /-- Advance the clock. -/
  | tick
  deriving DecidableEq, Repr

/-- Do what is asked. -/
def Table.perform (t : Table) : Request registers → Table
  | .fill register address => t.fill register address
  | .clear register => t.clear register
  | .dropAddress address => t.dropAddress address
  | .evict => t.evict.2
  | .tick => t.tick

/-- The table after a history, which begins with the empty table. -/
def tableAfter (history : List (Request registers)) : Table :=
  history.foldl Table.perform (.empty registers)

theorem tableAfter_concat (history : List (Request registers)) (request : Request registers) :
    tableAfter (history ++ [request]) = (tableAfter history).perform request := by
  simp [tableAfter]

/-! ### The last fill of a register -/

/-- The address that the request gives to a register, if it fills this one. -/
def Request.given? (r : Nat) : Request registers → Option Int64
  | .fill register address => if register = r then some address else none
  | _ => none

/-- The address that a register was last filled with. -/
def lastGiven? (history : List (Request registers)) (r : Nat) : Option Int64 :=
  (history.filterMap (Request.given? r)).getLast?

/-- How often the clock has advanced since a register was last filled. -/
def ticksSinceFill (history : List (Request registers)) (r : Nat) : Nat :=
  (history.rtakeWhile fun request => (request.given? r).isNone).count .tick

/-- The slot of a register that has kept its last fill. -/
def recordOf? (history : List (Request registers)) (r : Nat) : Option Slot :=
  (lastGiven? history r).map fun address =>
    ⟨some address, min (ticksSinceFill history r) Slot.maxAge⟩

section

variable {history : List (Request registers)} {request : Request registers} {r : Nat}

theorem lastGiven?_concat_of_some {address : Int64} (h : request.given? r = some address) :
    lastGiven? (history ++ [request]) r = some address := by
  simp [lastGiven?, h]

theorem lastGiven?_concat_of_none (h : request.given? r = none) :
    lastGiven? (history ++ [request]) r = lastGiven? history r := by
  simp [lastGiven?, h]

theorem ticksSinceFill_concat_of_some {address : Int64} (h : request.given? r = some address) :
    ticksSinceFill (history ++ [request]) r = 0 := by
  rw [ticksSinceFill, List.rtakeWhile_concat_neg _ _ _ (by simp [h])]
  rfl

theorem ticksSinceFill_concat_of_none (h : request.given? r = none) :
    ticksSinceFill (history ++ [request]) r =
      ticksSinceFill history r + if request = .tick then 1 else 0 := by
  rw [ticksSinceFill, List.rtakeWhile_concat_pos _ _ _ (by simp [h]), List.count_append,
    List.count_singleton, ticksSinceFill]
  simp

/-- The last fill of a register is not further back than the beginning. -/
theorem ticksSinceFill_le (history : List (Request registers)) (r : Nat) :
    ticksSinceFill history r ≤ history.count .tick :=
  (List.rtakeWhile_suffix _ _).sublist.count_le _

/-! ### Records -/

/-- A register that has just been filled is recorded as fresh. -/
theorem recordOf?_concat_of_some {address : Int64} (h : request.given? r = some address) :
    recordOf? (history ++ [request]) r = some (.fresh address) := by
  simp [recordOf?, lastGiven?_concat_of_some h, ticksSinceFill_concat_of_some h, Slot.fresh]

/-- What neither fills the register nor advances the clock keeps its record. -/
theorem recordOf?_concat_of_none (h : request.given? r = none) (htick : request ≠ .tick) :
    recordOf? (history ++ [request]) r = recordOf? history r := by
  simp [recordOf?, lastGiven?_concat_of_none h, ticksSinceFill_concat_of_none h, htick]

/-- Records grow older as slots do. -/
theorem recordOf?_concat_tick :
    recordOf? (history ++ [.tick]) r = (recordOf? history r).map Slot.tick := by
  have hgiven : (Request.tick : Request registers).given? r = none := rfl
  rw [recordOf?, recordOf?, lastGiven?_concat_of_none hgiven, ticksSinceFill_concat_of_none hgiven]
  cases lastGiven? history r with
  | none => rfl
  | some address =>
    simp only [Option.map_some, Option.some.injEq, Slot.tick, Option.isSome_some, if_true]
    congr 1
    omega

end

/-! ### Tables that follow their history -/

theorem Table.slot?_clear_reserved (t : Table) (r : Nat) :
    (t.clear r).slot? reserved = t.slot? reserved := by
  rw [Table.clear, Table.slot?_put, if_neg fun h => h.1 h.2.1.symm]

theorem Table.of_slot?_clear {t : Table} {r q : Nat} {s : Slot}
    (h : (t.clear r).slot? q = some s) : s = .empty ∨ t.slot? q = some s := by
  rw [Table.clear, Table.slot?_put] at h
  split at h
  · exact Or.inl (Option.some.inj h).symm
  · exact Or.inr h

/-- Each slot of the table is the record of the last fill of its register, or it is empty. -/
structure Table.Follows (history : List (Request registers)) (t : Table) : Prop where
  /-- There is one slot for each register. -/
  size_eq : t.size = registers
  /-- The reserved register has never been touched. -/
  reserved_slot : t.slot? reserved = some .empty
  /-- What is in a slot was put there by the last fill. -/
  slot : ∀ {r : Nat} {s : Slot}, t.slot? r = some s → s = .empty ∨ recordOf? history r = some s

namespace Table.Follows

variable {history : List (Request registers)} {t : Table}

theorem empty (h : 0 < registers) :
    (Table.empty registers).Follows ([] : List (Request registers)) where
  size_eq := Table.size_empty registers
  reserved_slot := by
    rw [Table.slot?_empty]
    exact if_pos h
  slot := by
    intro r s hs
    rw [Table.slot?_empty] at hs
    split at hs
    · exact Or.inl (Option.some.inj hs).symm
    · cases hs

/-- A request that gives nothing to any register and leaves the clock alone can only keep a slot
or empty it. -/
theorem of_keeps (h : t.Follows history) {request : Request registers}
    (hgiven : ∀ r, request.given? r = none) (htick : request ≠ .tick)
    (hsize : (t.perform request).size = t.size)
    (hreserved : (t.perform request).slot? reserved = t.slot? reserved)
    (hslot : ∀ r s, (t.perform request).slot? r = some s → s = .empty ∨ t.slot? r = some s) :
    (t.perform request).Follows (history ++ [request]) where
  size_eq := hsize.trans h.size_eq
  reserved_slot := hreserved.trans h.reserved_slot
  slot := by
    intro r s hs
    rw [recordOf?_concat_of_none (hgiven r) htick]
    rcases hslot r s hs with hempty | hkept
    · exact Or.inl hempty
    · exact h.slot hkept

theorem fill (h : t.Follows history) (register : Fin registers) (address : Int64) :
    (t.fill register address).Follows (history ++ [.fill register address]) where
  size_eq := (Table.size_fill ..).trans h.size_eq
  reserved_slot := by
    rw [Table.fill, Table.slot?_put, if_neg fun hr => hr.1 hr.2.1.symm]
    exact h.reserved_slot
  slot := by
    intro r s hs
    rw [Table.fill, Table.slot?_put] at hs
    split at hs
    · -- the register that was filled
      rename_i hr
      cases hs
      refine Or.inr (recordOf?_concat_of_some ?_)
      simp [Request.given?, hr.2.1]
    · by_cases hr : register = r
      · -- the fill was without effect, so this is the reserved register
        rename_i hfilled
        have hlt : (register : Nat) < t.size := by
          rw [h.size_eq]
          exact register.isLt
        have hzero : r = reserved := by
          by_contra hne
          exact hfilled ⟨by omega, hr.symm, hlt⟩
        rw [hzero, h.reserved_slot] at hs
        exact Or.inl (Option.some.inj hs).symm
      · rw [recordOf?_concat_of_none (by simp [Request.given?, hr]) (by simp)]
        exact h.slot hs

theorem tick (h : t.Follows history) : t.tick.Follows (history ++ [.tick]) where
  size_eq := (Table.size_tick t).trans h.size_eq
  reserved_slot := by
    rw [Table.slot?_tick, h.reserved_slot]
    rfl
  slot := by
    intro r s hs
    rw [Table.slot?_tick, Option.map_eq_some_iff] at hs
    obtain ⟨u, hu, rfl⟩ := hs
    by_cases hr : r = reserved
    · rw [hr, h.reserved_slot] at hu
      rw [if_pos hr]
      exact Or.inl (Option.some.inj hu).symm
    · rw [if_neg hr, recordOf?_concat_tick]
      rcases h.slot hu with rfl | hrecord
      · exact Or.inl (Slot.tick_of_empty rfl)
      · exact Or.inr (by rw [hrecord]; rfl)

/-- **One request** keeps a table with its history. -/
theorem perform (h : t.Follows history) (request : Request registers) :
    (t.perform request).Follows (history ++ [request]) := by
  cases request with
  | fill register address => exact h.fill register address
  | tick => exact h.tick
  | clear register =>
    exact h.of_keeps (fun _ => rfl) (by simp) (Table.size_clear ..) (Table.slot?_clear_reserved ..)
      fun _ _ => Table.of_slot?_clear
  | dropAddress address =>
    refine h.of_keeps (fun _ => rfl) (by simp) (Table.size_dropAddress ..) ?_ ?_
    · show (t.dropAddress address).slot? reserved = t.slot? reserved
      rw [Table.slot?_dropAddress, h.reserved_slot]
      rfl
    · intro r s (hs : (t.dropAddress address).slot? r = some s)
      rw [Table.slot?_dropAddress, Option.map_eq_some_iff] at hs
      obtain ⟨u, hu, rfl⟩ := hs
      split
      · exact Or.inl rfl
      · exact Or.inr hu
  | evict =>
    -- the table stays as it is, or its oldest register is cleared
    cases hempty : t.firstEmpty? with
    | some r =>
      have hevict : t.evict.2 = t := by rw [Table.evict, hempty]
      refine h.of_keeps (fun _ => rfl) (by simp) (Table.size_evict t) ?_ ?_
      · exact congrArg (Table.slot? · reserved) hevict
      · intro q s (hs : t.evict.2.slot? q = some s)
        rw [hevict] at hs
        exact Or.inr hs
    | none =>
      have hevict : t.evict.2 = t.clear t.oldest := by rw [Table.evict, hempty]
      refine h.of_keeps (fun _ => rfl) (by simp) (Table.size_evict t) ?_ ?_
      · exact (congrArg (Table.slot? · reserved) hevict).trans (Table.slot?_clear_reserved ..)
      · intro q s (hs : t.evict.2.slot? q = some s)
        rw [hevict] at hs
        exact Table.of_slot?_clear hs

/-- What an occupied slot tells: the address of the last fill of its register, and the time since
then. -/
theorem of_resident (h : t.Follows history) {r : Nat} {s : Slot} (hs : t.slot? r = some s)
    {address : Int64} (hresident : s.resident = some address) :
    lastGiven? history r = some address ∧
      s.age = min (ticksSinceFill history r) Slot.maxAge := by
  rcases h.slot hs with rfl | hrecord
  · cases hresident
  · rw [recordOf?, Option.map_eq_some_iff] at hrecord
    obtain ⟨given, hgiven, rfl⟩ := hrecord
    exact ⟨hgiven.trans hresident, rfl⟩

theorem age_of_empty (h : t.Follows history) {r : Nat} {s : Slot} (hs : t.slot? r = some s)
    (hresident : s.resident = none) : s.age = 0 := by
  rcases h.slot hs with rfl | hrecord
  · rfl
  · rw [recordOf?, Option.map_eq_some_iff] at hrecord
    obtain ⟨given, -, rfl⟩ := hrecord
    cases hresident

end Table.Follows

/-- **A table follows its history**, whatever it was asked to do. -/
theorem follows_tableAfter (h : 0 < registers) (history : List (Request registers)) :
    (tableAfter history).Follows history := by
  induction history using List.reverseRecOn with
  | nil => exact .empty h
  | append_singleton history request ih =>
    rw [tableAfter_concat]
    exact ih.perform request

/-! ### Evictions -/

namespace Table

variable {t : Table}

/-- The search for the oldest register, if it goes upwards, ends at the first one of its age. -/
theorem foldl_oldest_le (t : Table) {rs : List Nat} {start : Nat}
    (hsorted : (start :: rs).Pairwise (· ≤ ·)) :
    let best := rs.foldl (fun best r => if t.age best < t.age r then r else best) start
    ∀ r ∈ start :: rs, t.age r = t.age best → best ≤ r := by
  induction rs generalizing start with
  | nil => simp
  | cons x rs ih =>
    intro best r hr hage
    obtain ⟨hstart, hrest⟩ := List.pairwise_cons.mp hsorted
    by_cases hlt : t.age start < t.age x
    · have hbest : best = rs.foldl (fun best r => if t.age best < t.age r then r else best) x := by
        simp only [best, List.foldl_cons, if_pos hlt]
      rw [hbest] at hage ⊢
      rcases List.mem_cons.mp hr with rfl | hr
      · -- the start has been given up for something older
        have hx := (foldl_oldest_spec t rs x).2.1
        omega
      · exact ih hrest r hr hage
    · have hbest :
          best = rs.foldl (fun best r => if t.age best < t.age r then r else best) start := by
        simp only [best, List.foldl_cons, if_neg hlt]
      have hsorted' : (start :: rs).Pairwise (· ≤ ·) :=
        hsorted.sublist (by simp)
      rw [hbest] at hage ⊢
      by_cases hx : r = x
      · -- no older than the start, which comes before it
        subst hx
        have hge := (foldl_oldest_spec t rs start).2.1
        have hle := ih hsorted' start List.mem_cons_self (by omega)
        exact Nat.le_trans hle (hstart r List.mem_cons_self)
      · have hr' : r ∈ start :: rs := by
          simp only [List.mem_cons] at hr ⊢
          tauto
        exact ih hsorted' r hr' hage

/-- **The oldest register** is the lowest of those that no usable one is older than. -/
theorem isLeast_oldest (h : 1 < t.size) :
    IsLeast {r | r ∈ t.usable ∧ ∀ q ∈ t.usable, t.age q ≤ t.age r} t.oldest := by
  refine ⟨⟨oldest_mem_usable h, fun q => age_le_age_oldest⟩, ?_⟩
  rintro r ⟨hr, hmax⟩
  have hsorted : ((reserved + 1) :: t.usable).Pairwise (· ≤ ·) := by
    refine List.pairwise_cons.mpr ⟨fun q hq => (mem_usable.mp hq).1, ?_⟩
    exact List.pairwise_le_range'
  have hage : t.age r = t.age t.oldest :=
    Nat.le_antisymm (age_le_age_oldest hr) (hmax t.oldest (oldest_mem_usable h))
  exact foldl_oldest_le t hsorted r (List.mem_cons_of_mem _ hr) hage

/-- **With a register to spare**, an eviction gives the lowest empty one. -/
theorem isLeast_evict_of_empty (h : ∃ r ∈ t.usable, t.resident? r = none) :
    IsLeast {r | r ∈ t.usable ∧ t.resident? r = none} t.evict.1 := by
  cases hempty : t.firstEmpty? with
  | none =>
    obtain ⟨r, hr, hnone⟩ := h
    have hoccupied := List.find?_eq_none.mp hempty r hr
    simp [hnone] at hoccupied
  | some e =>
    have hevict : t.evict.1 = e := by rw [evict, hempty]
    rw [hevict]
    rw [firstEmpty?, usable, List.find?_range'_eq_some] at hempty
    obtain ⟨hnone, hmem, hbefore⟩ := hempty
    refine ⟨⟨hmem, by simpa using hnone⟩, ?_⟩
    rintro r ⟨hr, hr'⟩
    by_contra hlt
    have hoccupied := hbefore r (mem_usable.mp hr).1 (by omega)
    simp [hr'] at hoccupied

/-- **With all registers in use**, an eviction gives the oldest one. -/
theorem evict_eq_oldest (h : ∀ r ∈ t.usable, t.resident? r ≠ none) : t.evict.1 = t.oldest := by
  have hempty : t.firstEmpty? = none := by
    refine List.find?_eq_none.mpr fun r hr => ?_
    simpa [Option.isNone_iff_eq_none] using h r hr
  rw [evict, hempty]

end Table

/-- What an eviction from a table with the given history does. -/
structure Table.EvictsByHistory (history : List (Request registers)) (t : Table) : Prop where
  /-- The register that is given may be allocated. -/
  allocatable : reserved < t.evict.1 ∧ t.evict.1 < registers
  /-- It is empty afterwards. -/
  slot?_self : t.evict.2.slot? t.evict.1 = some .empty
  /-- Every other slot is left alone. -/
  slot?_of_ne : ∀ q, q ≠ t.evict.1 → t.evict.2.slot? q = t.slot? q
  /-- If registers are empty, it is the lowest of these. -/
  of_empty : (∃ r, (reserved < r ∧ r < registers) ∧ t.resident? r = none) →
    IsLeast {r | (reserved < r ∧ r < registers) ∧ t.resident? r = none} t.evict.1
  /-- If none is, and no clock has stopped, it is the lowest of those that were filled longest
  ago. -/
  of_full : (∀ r, reserved < r ∧ r < registers → t.resident? r ≠ none) →
    history.count .tick < UInt32.size →
    IsLeast {r | (reserved < r ∧ r < registers) ∧ ∀ q, reserved < q ∧ q < registers →
      ticksSinceFill history q ≤ ticksSinceFill history r} t.evict.1

section

variable {history : List (Request registers)} {t : Table}

/-- As long as no clock has stopped, the age of an occupied register is the time since its last
fill. -/
theorem Table.Follows.age_eq (h : t.Follows history) (hticks : history.count .tick < UInt32.size)
    {r : Nat} (hr : t.resident? r ≠ none) : t.age r = ticksSinceFill history r := by
  obtain ⟨address, haddress⟩ := Option.ne_none_iff_exists'.mp hr
  obtain ⟨s, hs, hresident⟩ := Table.resident?_eq_some_iff.mp haddress
  have hage := (h.of_resident hs hresident).2
  have hle := ticksSinceFill_le history r
  rw [Table.age_of_slot? hs, hage]
  refine Nat.min_eq_left ?_
  rw [Slot.maxAge]
  omega

theorem Table.Follows.mem_usable_iff (h : t.Follows history) (r : Nat) :
    r ∈ t.usable ↔ reserved < r ∧ r < registers := by
  rw [mem_usable, h.size_eq]

theorem Table.Follows.evictsByHistory (h : t.Follows history) (hsize : 1 < t.size) :
    t.EvictsByHistory history where
  allocatable := (h.mem_usable_iff _).mp (Table.evict_mem_usable hsize)
  slot?_self := by
    have hnone := Table.resident?_evict_self hsize
    cases hs : t.evict.2.slot? t.evict.1 with
    | none =>
      have hlt := (mem_usable.mp (Table.evict_mem_usable hsize)).2
      have hle := (Table.slot?_eq_none_iff ..).mp hs
      rw [Table.size_evict] at hle
      omega
    | some s =>
      -- an eviction is a request too, so what it leaves is empty or has been filled
      rcases (h.perform .evict).slot hs with rfl | hrecord
      · rfl
      · obtain ⟨address, -, rfl⟩ := Option.map_eq_some_iff.mp hrecord
        rw [Table.resident?_of_slot? hs] at hnone
        cases hnone
  slot?_of_ne := fun q => Table.slot?_evict_of_ne
  of_empty := by
    simp only [← h.mem_usable_iff]
    exact Table.isLeast_evict_of_empty
  of_full := by
    simp only [← h.mem_usable_iff]
    intro hfull hticks
    have hage := fun r hr => h.age_eq hticks (hfull r hr)
    have holdest := Table.isLeast_oldest hsize
    rw [← Table.evict_eq_oldest hfull] at holdest
    obtain ⟨⟨hmem, hmax⟩, hleast⟩ := holdest
    refine ⟨⟨hmem, fun q hq => ?_⟩, ?_⟩
    · rw [← hage q hq, ← hage _ hmem]
      exact hmax q hq
    · rintro r ⟨hr, hr'⟩
      refine hleast ⟨hr, fun q hq => ?_⟩
      rw [hage q hq, hage r hr]
      exact hr' q hq

end

/-- **A table follows its history.**  Whatever it was asked to do since it was empty, the reserved
register has kept its slot, an empty slot has no age, and an occupied one tells what its register
was last filled with and for how many ticks it has kept it, up to the age at which clocks stop.
An eviction gives an allocatable register, empties it and leaves the others alone; it takes
the lowest empty register, and if there is none, the lowest of those whose last fill is the most
ticks ago. -/
theorem evictions_follow_history (h : 2 ≤ registers) (history : List (Request registers)) :
    let t := tableAfter history
    t.slot? reserved = some .empty ∧
      (∀ r s, t.slot? r = some s →
        (s.resident = none → s.age = 0) ∧
        ∀ address, s.resident = some address →
          lastGiven? history r = some address ∧
            s.age = min (ticksSinceFill history r) (UInt32.size - 1)) ∧
      t.EvictsByHistory history := by
  intro t
  have hfollows : t.Follows history := follows_tableAfter (by omega) history
  have hsize : 1 < t.size := by
    rw [hfollows.size_eq]
    omega
  refine ⟨hfollows.reserved_slot, fun r s hs => ?_, hfollows.evictsByHistory hsize⟩
  exact ⟨hfollows.age_of_empty hs, fun address => hfollows.of_resident hs⟩

/-- Three usable registers, all in use.  The first was dropped and filled again, and the other two
were filled at the same time, the higher one first. -/
theorem evictions_follow_history_four :
    let history : List (Request 4) := [.fill 1 10, .tick, .fill 3 12, .fill 2 11, .tick,
      .dropAddress 10, .fill 0 9, .evict, .fill 1 13, .tick]
    let t := tableAfter history
    (2 ≤ 4 ∧ (∀ r, reserved < r ∧ r < 4 → t.resident? r ≠ none) ∧
        history.count .tick < UInt32.size) ∧
      t.evict.1 = 2 ∧ t.evict.2.slot? 2 = some .empty ∧ t.evict.2.slot? 3 = some ⟨some 12, 2⟩ ∧
      ∀ q, reserved < q ∧ q < 4 → ticksSinceFill history q ≤ ticksSinceFill history 2 := by
  intro history t
  have hfull : ∀ r, reserved < r ∧ r < 4 → t.resident? r ≠ none := by
    have hbelow : ∀ r < 4, reserved < r → t.resident? r ≠ none := by decide
    exact fun r hr => hbelow r hr.2 hr.1
  have hticks : history.count .tick < UInt32.size := by decide
  obtain ⟨-, -, hevicts⟩ := evictions_follow_history (by decide : 2 ≤ 4) history
  have hvictim : t.evict.1 = 2 := by decide
  have hself := hevicts.slot?_self
  have hother := hevicts.slot?_of_ne 3
  have hlongest := (hevicts.of_full hfull hticks).1.2
  rw [hvictim] at hself hother hlongest
  exact ⟨⟨by decide, hfull, hticks⟩, hvictim, hself, (hother (by decide)).trans (by decide),
    hlongest⟩

end Residency
end CrossAssembler
