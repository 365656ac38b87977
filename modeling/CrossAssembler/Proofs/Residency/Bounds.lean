import CrossAssembler.Proofs.Lists
import CrossAssembler.Proofs.Residency.Occupancy
import CrossAssembler.Residency.Checked

/-!
# Slot accesses of a residency table stay in range

The operations of a residency table are lenient where the checked ones refuse an
access past the end of the slots.  A table with a usable register refuses nothing
but registers that do not exist, so for all others the two are the same.

## Main results

* `Checked.locate_eq`, `Checked.evict_eq`, `Checked.dropAddress_eq` — what goes over
  the usable registers only never leaves the slots.
* `Checked.fill_eq`, `Checked.clear_eq` — what names a register does not leave them
  if the register exists.
-/

namespace CrossAssembler
namespace Residency
namespace Checked

open RegisterFile (reserved)
open Table (mem_usable)

variable {t : Table}

/-- A register below the size has a slot, which says what it caches and its age. -/
theorem exists_slot? {r : Nat} (h : r < t.size) :
    ∃ s, t.slot? r = some s ∧ t.resident? r = s.resident ∧ t.age r = s.age := by
  cases hs : t.slot? r with
  | none => exact absurd ((Table.slot?_eq_none_iff t r).mp hs) (by omega)
  | some s => exact ⟨s, rfl, by rw [Table.resident?, hs]; rfl, by rw [Table.age, hs]; rfl⟩

theorem locate_eq (t : Table) (address : Int64) : locate t address = some (t.locate address) := by
  refine findM?_eq_some_find? fun r hr => ?_
  obtain ⟨s, hs, hres, -⟩ := exists_slot? (mem_usable.mp hr).2
  rw [hs, hres]
  rfl

theorem put_eq {r : Nat} (h : r < t.size) (s : Slot) : put t r s = some (t.put r s) := by
  unfold put
  by_cases hr : r = reserved
  · rw [if_pos hr, Table.put, if_pos hr]
  · rw [if_neg hr, if_pos h]

theorem fill_eq {r : Nat} (h : r < t.size) (address : Int64) :
    fill t r address = some (t.fill r address) := put_eq h _

theorem clear_eq {r : Nat} (h : r < t.size) : clear t r = some (t.clear r) := put_eq h _

theorem oldest_eq (h : 1 < t.size) : oldest t = some t.oldest := by
  -- the candidate is a register of the file all the way through
  refine foldlM_eq_some_foldl (P := fun best => best < t.size) h fun best hbest r hr => ?_
  have hr' := (mem_usable.mp hr).2
  obtain ⟨s, hs, -, hage⟩ := exists_slot? hbest
  obtain ⟨u, hu, -, hage'⟩ := exists_slot? hr'
  constructor
  · rw [hs, hu, hage, hage']
    rfl
  · split <;> omega

theorem evict_eq (h : 1 < t.size) : evict t = some t.evict := by
  have hfind : find? t (fun s => s.resident.isNone) = some t.firstEmpty? := by
    refine findM?_eq_some_find? fun r hr => ?_
    obtain ⟨s, hs, hres, -⟩ := exists_slot? (mem_usable.mp hr).2
    rw [hs, hres]
    rfl
  have holdest := (mem_usable.mp (Table.oldest_mem_usable h)).2
  rw [evict, hfind, Table.evict]
  cases t.firstEmpty? with
  | some r => rfl
  | none => simp [oldest_eq h, clear_eq holdest]

/-- What the loop over some registers leaves at a register. -/
theorem slot?_foldl_clear (address : Int64) (rs : List Nat) (t : Table) (q : Nat) :
    (rs.foldl (fun t r => if t.resident? r = some address then t.clear r else t) t).slot? q =
      if q ≠ reserved ∧ q ∈ rs ∧ t.resident? q = some address then some .empty
      else t.slot? q := by
  induction rs generalizing t with
  | nil => simp
  | cons r rs ih =>
    rw [List.foldl_cons, ih]
    by_cases hr : t.resident? r = some address
    · have hsize := Table.lt_size_of_resident? hr
      rw [if_pos hr, Table.resident?_clear, Table.clear, Table.slot?_put]
      by_cases hq : q = r
      · subst hq
        by_cases h0 : q = reserved <;> simp [h0, hr, hsize]
      · simp [hq]
    · rw [if_neg hr]
      by_cases hq : q = r
      · subst hq
        simp [hr]
      · simp [hq]

theorem dropAddress_eq (t : Table) (address : Int64) :
    dropAddress t address = some (t.dropAddress address) := by
  have hloop : dropAddress t address = some (t.usable.foldl
      (fun t r => if t.resident? r = some address then t.clear r else t) t) := by
    -- clearing a register keeps the number of slots
    refine foldlM_eq_some_foldl (P := fun u => u.size = t.size) rfl fun u hu r hr => ?_
    have hr' : r < u.size := by rw [hu]; exact (mem_usable.mp hr).2
    obtain ⟨s, hs, hres, -⟩ := exists_slot? hr'
    rw [hs, hres]
    by_cases h : s.resident = some address
    · simp [h, clear_eq hr', hu]
    · simp [h, hu]
  rw [hloop]
  refine congrArg some (Table.ext_slot? fun q => ?_)
  rw [slot?_foldl_clear, Table.slot?_dropAddress]
  by_cases hq : q < t.size
  · obtain ⟨s, hs, hres, -⟩ := exists_slot? hq
    by_cases h0 : q = reserved
    · rw [if_neg fun h => h.1 h0, hs]
      simp [h0]
    · have hmem : q ∈ t.usable := mem_usable.mpr ⟨Nat.pos_of_ne_zero h0, hq⟩
      by_cases h : s.resident = some address <;> simp [h0, hs, hres, h, hmem]
  · have hnone := (Table.slot?_eq_none_iff t q).mpr (by omega)
    have hmem : q ∉ t.usable := fun h => hq (mem_usable.mp h).2
    simp [hnone, hmem]

end Checked
end Residency
end CrossAssembler
