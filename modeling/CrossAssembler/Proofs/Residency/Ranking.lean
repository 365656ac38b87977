import CrossAssembler.Proofs.Residency.Seniority
import Mathlib.Data.List.Count
import Mathlib.Data.List.Nodup

/-!
# The addresses of a table in order of recency

Which register caches an address matters little; what a table will give up next depends on the
order in which its addresses were used.  A table in which no two copies have the same age ranks
its addresses, the youngest first.  Seen in this way, an eviction is a cut: it keeps the
front of the ranking, as much as leaves one register free.  It may keep all of it, if a register
was free already.  That the cut comes at the right place is a matter of counting, since an
address has one copy and each register holds one address.

## Main definitions

* `Table.Ranks` — the addresses that a table caches are the given ones, youngest first.
* `Table.AgedBut` — every copy has an age, those of one address aside.

## Main results

* `Ranks.length_eq` — a ranking is as long as there are occupied registers.
* `Ranks.evict` — an eviction cuts the ranking.
* `Ranks.dropAddress`, `Ranks.fill`, `Ranks.tick` — what the other operations do to it.
-/

namespace CrossAssembler
namespace Residency
namespace Table

open RegisterFile (reserved)

variable {registers : Nat} {t : Table} {ranking : List Int64}

/-- Every copy of `x` is younger than every copy of `y`. -/
def Younger (t : Table) (x y : Int64) : Prop :=
  ∀ r q, t.resident? r = some x → t.resident? q = some y → t.age r < t.age q

/-- The table caches the addresses of the list and no others.  Those that come first are younger. -/
structure Ranks (registers : Nat) (t : Table) (ranking : List Int64) : Prop
    extends Valid registers t where
  /-- These are the addresses with a copy. -/
  mem_iff : ∀ address, address ∈ ranking ↔ ∃ r, t.resident? r = some address
  /-- They are in order of recency. -/
  sorted : ranking.Pairwise t.Younger

/-- Every copy of another address is at least one instruction old. -/
def AgedBut (t : Table) (address : Int64) : Prop :=
  ∀ r other, t.resident? r = some other → other ≠ address → 1 ≤ t.age r

theorem Settled.agedBut (h : t.Settled registers) (address : Int64) : t.AgedBut address :=
  fun _ _ hr _ => h.one_le_age_of_resident? hr

theorem Valid.resident?_dropAddress_eq_some_iff (h : t.Valid registers) {address other : Int64}
    {r : Nat} : (t.dropAddress address).resident? r = some other ↔
      t.resident? r = some other ∧ other ≠ address := by
  constructor
  · intro hr
    exact (of_resident?_dropAddress h.resident?_reserved hr).symm
  · rintro ⟨hr, hne⟩
    rw [resident?_dropAddress, if_neg, hr]
    rintro ⟨-, hdropped⟩
    exact hne (Option.some.inj (hr.symm.trans hdropped))

theorem resident?_clear_eq_some_iff {r q : Nat} (hr : r ∈ t.usable) {address : Int64} :
    (t.clear r).resident? q = some address ↔ t.resident? q = some address ∧ q ≠ r := by
  obtain ⟨hpos, hlt⟩ := mem_usable.mp hr
  rw [resident?_clear]
  by_cases hq : q = r
  · simp [hq, Nat.ne_of_gt hpos, hlt]
  · simp [hq]

theorem resident?_fill_eq_some_iff {r q : Nat} (hr : r ∈ t.usable) {address other : Int64} :
    (t.fill r address).resident? q = some other ↔
      (q = r ∧ other = address) ∨ (q ≠ r ∧ t.resident? q = some other) := by
  by_cases hq : q = r
  · subst hq
    simp [resident?_fill_self address hr, eq_comm]
  · simp [resident?_fill_of_ne address hq, hq]

theorem age_fill_self {r : Nat} (hr : r ∈ t.usable) {address : Int64} :
    (t.fill r address).age r = 0 := by
  obtain ⟨hpos, hlt⟩ := mem_usable.mp hr
  rw [fill, age_put, if_pos ⟨Nat.ne_of_gt hpos, rfl, hlt⟩]
  rfl

theorem age_fill_of_ne {r q : Nat} (hq : q ≠ r) {address : Int64} :
    (t.fill r address).age q = t.age q := by
  rw [fill, age_put, if_neg fun hput => hq hput.2.1]

theorem age_evict_of_ne {q : Nat} (hq : q ≠ t.evict.1) : t.evict.2.age q = t.age q := by
  rw [age, slot?_evict_of_ne hq, age]

/-- What is not dropped keeps its age. -/
theorem age_dropAddress_of_resident? {r : Nat} {address other : Int64}
    (hr : t.resident? r = some other) (hne : other ≠ address) :
    (t.dropAddress address).age r = t.age r := by
  rw [age_dropAddress, if_neg]
  rintro ⟨-, hdropped⟩
  exact hne (Option.some.inj (hr.symm.trans hdropped))

theorem usable_evict (t : Table) : t.evict.2.usable = t.usable := by
  rw [usable, size_evict, usable]

theorem usable_dropAddress (t : Table) (address : Int64) :
    (t.dropAddress address).usable = t.usable := by
  rw [usable, size_dropAddress, usable]

/-! ### Lengths -/

namespace Ranks

theorem empty (h : 0 < registers) : (empty registers).Ranks registers [] where
  toValid := (settled_empty h).toValid
  mem_iff := by simp
  sorted := .nil

theorem nodup (h : t.Ranks registers ranking) : ranking.Nodup := by
  refine h.sorted.imp_of_mem ?_
  rintro x y hx - hyounger rfl
  -- a copy is not younger than itself
  obtain ⟨r, hr⟩ := (h.mem_iff x).mp hx
  exact Nat.lt_irrefl _ (hyounger r r hr hr)

/-- **A ranking is as long as there are occupied registers.** -/
theorem length_eq (h : t.Ranks registers ranking) :
    ranking.length = t.usable.countP fun r => (t.resident? r).isSome := by
  have hnodup : (t.usable.filterMap t.resident?).Nodup :=
    List.Nodup.filterMap (fun r q _ hr hq => h.unique hr hq) List.nodup_range'
  have hperm : ranking.Perm (t.usable.filterMap t.resident?) := by
    refine (List.perm_ext_iff_of_nodup h.nodup hnodup).mpr fun address => ?_
    rw [h.mem_iff, List.mem_filterMap]
    constructor
    · rintro ⟨r, hr⟩
      exact ⟨r, h.mem_usable_of_resident? hr, hr⟩
    · rintro ⟨r, -, hr⟩
      exact ⟨r, hr⟩
  rw [hperm.length_eq, List.length_filterMap_eq_countP]

theorem length_usable (h : t.Ranks registers ranking) : t.usable.length = registers - 1 := by
  rw [usable, List.length_range', h.size_eq]

/-! ### Changes -/

/-- A table that has lost some copies ranks what it still caches. -/
theorem shrink (h : t.Ranks registers ranking) {t' : Table} (hvalid : t'.Valid registers)
    {ranking' : List Int64} (hsublist : ranking'.Sublist ranking)
    (hmem : ∀ address, address ∈ ranking' ↔ ∃ r, t'.resident? r = some address)
    (hkept : ∀ r address, t'.resident? r = some address →
      t.resident? r = some address ∧ t'.age r = t.age r) : t'.Ranks registers ranking' where
  toValid := hvalid
  mem_iff := hmem
  sorted := by
    refine (h.sorted.sublist hsublist).imp ?_
    intro x y hyounger r q hr hq
    obtain ⟨hr', hage⟩ := hkept r x hr
    obtain ⟨hq', hage'⟩ := hkept q y hq
    rw [hage, hage']
    exact hyounger r q hr' hq'

/-- Dropping an address takes it out of the ranking. -/
theorem dropAddress (h : t.Ranks registers ranking) (address : Int64) :
    (t.dropAddress address).Ranks registers (ranking.filter (· ≠ address)) := by
  refine h.shrink (h.toValid.dropAddress address) List.filter_sublist (fun other => ?_) ?_
  · simp only [List.mem_filter, h.mem_iff, h.toValid.resident?_dropAddress_eq_some_iff,
      decide_eq_true_eq, exists_and_right]
  · intro r other hr
    obtain ⟨hr', hne⟩ := h.toValid.resident?_dropAddress_eq_some_iff.mp hr
    exact ⟨hr', age_dropAddress_of_resident? hr' hne⟩

/-- Clearing the register of the last address takes it from the end of the ranking. -/
theorem clear_last {front : List Int64} {last : Int64} (h : t.Ranks registers (front ++ [last]))
    {r : Nat} (hr : t.resident? r = some last) : (t.clear r).Ranks registers front := by
  have hcleared : ∀ {q : Nat} {address : Int64}, (t.clear r).resident? q = some address ↔
      t.resident? q = some address ∧ q ≠ r :=
    resident?_clear_eq_some_iff (h.mem_usable_of_resident? hr)
  have hlast : last ∉ front := by
    intro hmem
    exact (List.nodup_append.mp h.nodup).2.2 last hmem last (by simp) rfl
  refine h.shrink (h.toValid.clear r) (List.sublist_append_left ..) (fun address => ?_) ?_
  · simp only [hcleared]
    constructor
    · intro hfront
      obtain ⟨q, hq⟩ := (h.mem_iff address).mp (List.mem_append_left _ hfront)
      refine ⟨q, hq, ?_⟩
      rintro rfl
      cases hr.symm.trans hq
      exact hlast hfront
    · rintro ⟨q, hq, hne⟩
      rcases List.mem_append.mp ((h.mem_iff address).mpr ⟨q, hq⟩) with hfront | hmem
      · exact hfront
      · rw [List.mem_singleton.mp hmem] at hq
        exact absurd (h.unique hq hr) hne
  · intro q address hq
    obtain ⟨hq', hne⟩ := hcleared.mp hq
    exact ⟨hq', by rw [clear, age_put, if_neg fun hput => hne hput.2.1]⟩

/-- The last address of a ranking is that of the oldest register, if all registers are in use. -/
theorem resident?_oldest {front : List Int64} {last : Int64}
    (h : t.Ranks registers (front ++ [last])) (hfull : t.resident? t.oldest ≠ none) :
    t.resident? t.oldest = some last := by
  obtain ⟨r, hr⟩ := (h.mem_iff last).mp (by simp)
  obtain ⟨address, haddress⟩ := Option.ne_none_iff_exists'.mp hfull
  have hmem := (h.mem_iff address).mpr ⟨_, haddress⟩
  rcases List.mem_append.mp hmem with hfront | hlast
  · -- the last address would be older still
    have hyounger := (List.pairwise_append.mp h.sorted).2.2 address hfront last (by simp)
    have hlt := hyounger _ r haddress hr
    have hle := age_le_age_oldest (h.mem_usable_of_resident? hr)
    omega
  · rw [haddress, List.mem_singleton.mp hlast]

/-- **An eviction cuts the ranking**, so that it leaves a register free. -/
theorem evict (h : t.Ranks registers ranking) (hsize : 1 < t.size) :
    t.evict.2.Ranks registers (ranking.take (registers - 2)) := by
  have hlength := h.length_eq
  have husable := h.length_usable
  have hregisters := h.size_eq
  rw [Table.evict]
  cases hempty : t.firstEmpty? with
  | some e =>
    -- one register is free already, so there is nothing to cut
    have hlt : (t.usable.countP fun r => (t.resident? r).isSome) < t.usable.length := by
      refine List.countP_lt_length_iff.mpr ⟨e, List.mem_of_find?_eq_some hempty, ?_⟩
      simpa using List.find?_some hempty
    rw [List.take_of_length_le (by omega)]
    exact h
  | none =>
    -- all are in use, and the oldest one caches the last address
    have hoccupied : ∀ r ∈ t.usable, (t.resident? r).isSome = true := by
      intro r hr
      simpa [Option.isSome_iff_ne_none] using List.find?_eq_none.mp hempty r hr
    have hfull : (t.usable.countP fun r => (t.resident? r).isSome) = t.usable.length :=
      List.countP_eq_length.mpr hoccupied
    rcases List.eq_nil_or_concat' ranking with rfl | ⟨front, last, rfl⟩
    · simp only [List.length_nil] at hlength
      omega
    · have holdest := h.resident?_oldest
        (Option.isSome_iff_ne_none.mp (hoccupied _ (oldest_mem_usable hsize)))
      rw [List.length_append, List.length_singleton] at hlength
      rw [List.take_left' (by omega)]
      exact h.clear_last holdest

/-- Filling a register puts its address in front, and takes out what the register cached before. -/
theorem fill (h : t.Ranks registers ranking) {r : Nat} (hr : r ∈ t.usable) {address : Int64}
    (honly : ∀ q, t.resident? q = some address → q = r)
    (haged : ∀ q other, q ≠ r → t.resident? q = some other → 1 ≤ t.age q) :
    (t.fill r address).Ranks registers
      (address :: ranking.filter fun other => t.resident? r ≠ some other) := by
  have hfilled : ∀ {q : Nat} {other : Int64}, (t.fill r address).resident? q = some other ↔
      (q = r ∧ other = address) ∨ (q ≠ r ∧ t.resident? q = some other) :=
    resident?_fill_eq_some_iff hr
  -- what stays in the ranking has its copy in another register
  have hother : ∀ {q : Nat} {other : Int64},
      other ∈ ranking.filter (fun other => t.resident? r ≠ some other) →
      (t.fill r address).resident? q = some other → q ≠ r ∧ t.resident? q = some other := by
    intro q other hmem hq
    obtain ⟨hranked, hne⟩ := List.mem_filter.mp hmem
    rcases hfilled.mp hq with ⟨-, rfl⟩ | hkept
    · obtain ⟨p, hp⟩ := (h.mem_iff other).mp hranked
      have hcached : t.resident? r = some other := honly p hp ▸ hp
      simp [hcached] at hne
    · exact hkept
  refine ⟨h.toValid.fill honly, fun other => ?_, List.pairwise_cons.mpr ⟨?_, ?_⟩⟩
  · simp only [List.mem_cons, List.mem_filter, h.mem_iff, hfilled, decide_eq_true_eq]
    constructor
    · rintro (rfl | ⟨⟨q, hq⟩, hne⟩)
      · exact ⟨r, Or.inl ⟨rfl, rfl⟩⟩
      · exact ⟨q, Or.inr ⟨fun hqr => hne (hqr ▸ hq), hq⟩⟩
    · rintro ⟨q, ⟨-, rfl⟩ | ⟨hne, hq⟩⟩
      · exact Or.inl rfl
      · exact Or.inr ⟨⟨q, hq⟩, fun hcached => hne (h.unique hq hcached)⟩
  · intro other hmem p q hp hq
    obtain ⟨hne, hq'⟩ := hother hmem hq
    have hpr : p = r := by
      rcases hfilled.mp hp with ⟨hpr, -⟩ | ⟨-, hp'⟩
      · exact hpr
      · exact honly p hp'
    rw [hpr, age_fill_self hr, age_fill_of_ne hne]
    exact haged q other hne hq'
  · refine (h.sorted.filter _).imp_of_mem ?_
    intro x y hx hy hyounger p q hp hq
    obtain ⟨hpr, hp'⟩ := hother hx hp
    obtain ⟨hqr, hq'⟩ := hother hy hq
    rw [age_fill_of_ne hpr, age_fill_of_ne hqr]
    exact hyounger p q hp' hq'

/-- A tick leaves the ranking as it is, as long as no clock stops. -/
theorem tick (h : t.Ranks registers ranking) (hmax : ∀ r, t.age r < Slot.maxAge) :
    t.tick.Ranks registers ranking where
  toValid := h.toValid.tick.toValid
  mem_iff := by simpa using h.mem_iff
  sorted := by
    refine h.sorted.imp ?_
    intro x y hyounger r q hr hq
    rw [resident?_tick] at hr hq
    rw [h.age_tick_of_resident? hr (hmax r), h.age_tick_of_resident? hq (hmax q)]
    exact Nat.succ_lt_succ (hyounger r q hr hq)

end Ranks
end Table
end Residency
end CrossAssembler
