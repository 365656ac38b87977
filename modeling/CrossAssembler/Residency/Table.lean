import CrossAssembler.Isa.RegisterFile

/-!
# The residency table

Lowering keeps copies of memory cells in registers.  The residency table records
which address each register holds a copy of, and for how many source
instructions it has done so.  Register 0 has a slot, so that slots are numbered
like registers, but it is never handed out, filled or cleared.

Ages are a clock that advances once for each source instruction.  Registers
filled by the same instruction share an age, so that age alone does not order
them; among equal ages the lowest register comes first.

## Main definitions

* `Slot`, `Table` — what is known of one register, and of all.
* `Table.locate` — the register that caches an address.
* `Table.evict` — a register to fill next: an empty one, or else the one that has
  been untouched longest, which is emptied.
* `Table.fill`, `Table.clear`, `Table.dropAddress` — record a copy, forget a
  register, forget an address.
* `Table.tick` — one source instruction has gone by.
-/

namespace CrossAssembler
namespace Residency

/-- What is known of one register. -/
structure Slot where
  /-- The address whose value the register holds. -/
  resident : Option Int64
  /-- The number of ticks since the register was filled, up to `Slot.maxAge`. -/
  age : Nat
  deriving DecidableEq, Repr, Inhabited

namespace Slot

/-- A register that caches nothing. -/
def empty : Slot := ⟨none, 0⟩

/-- A register that has just been given the value of `address`. -/
def fresh (address : Int64) : Slot := ⟨some address, 0⟩

/-- The age at which the clock of a slot stops. -/
def maxAge : Nat := UInt32.size - 1

/-- One tick: an occupied register grows older, an empty one does not. -/
def tick (s : Slot) : Slot :=
  if s.resident.isSome then { s with age := min (s.age + 1) maxAge } else s

end Slot

/-- The slots of a register file, by register number. -/
structure Table where
  /-- One slot for each register, the reserved one included. -/
  slots : Array Slot
  deriving DecidableEq, Repr

namespace Table

open RegisterFile (reserved)

/-- The table of a register file that caches nothing. -/
def empty (registers : Nat) : Table := ⟨Array.replicate registers .empty⟩

/-- The number of registers, the reserved one included. -/
def size (t : Table) : Nat := t.slots.size

/-- The slot of a register, if there is such a register. -/
def slot? (t : Table) (register : Nat) : Option Slot := t.slots[register]?

/-- The address a register caches, if it caches one. -/
def resident? (t : Table) (register : Nat) : Option Int64 :=
  (t.slot? register).bind Slot.resident

/-- The age of a register. -/
def age (t : Table) (register : Nat) : Nat := ((t.slot? register).map Slot.age).getD 0

/-- The registers that may be allocated, in order. -/
def usable (t : Table) : List Nat := List.range' (reserved + 1) (t.size - 1)

/-! ### Queries -/

/-- The lowest usable register that caches `address`. -/
def locate (t : Table) (address : Int64) : Option Nat :=
  t.usable.find? fun r => t.resident? r = some address

/-- The lowest usable register that caches nothing. -/
def firstEmpty? (t : Table) : Option Nat := t.usable.find? fun r => (t.resident? r).isNone

/-- The usable register of the greatest age, the lowest one among equals. -/
def oldest (t : Table) : Nat :=
  t.usable.foldl (fun best r => if t.age best < t.age r then r else best) (reserved + 1)

/-! ### Changes -/

/-- Put a slot at a register.  The reserved register keeps its slot. -/
def put (t : Table) (register : Nat) (s : Slot) : Table :=
  if register = reserved then t else ⟨t.slots.setIfInBounds register s⟩

/-- Record that a register now holds the value of `address`. -/
def fill (t : Table) (register : Nat) (address : Int64) : Table := t.put register (.fresh address)

/-- Forget what a register holds. -/
def clear (t : Table) (register : Nat) : Table := t.put register .empty

/-- Forget every copy of `address`. -/
def dropAddress (t : Table) (address : Int64) : Table :=
  ⟨t.slots.mapIdx fun r s => if r ≠ reserved ∧ s.resident = some address then .empty else s⟩

/-- A register to fill next, and the table in which it is empty: the lowest empty
register, or else the oldest one, which loses its copy. -/
def evict (t : Table) : Nat × Table :=
  match t.firstEmpty? with
  | some r => (r, t)
  | none => (t.oldest, t.clear t.oldest)

/-- Advance the clock by one source instruction. -/
def tick (t : Table) : Table := ⟨t.slots.mapIdx fun r s => if r = reserved then s else s.tick⟩

/-! ### What the changes do to a slot -/

@[simp] theorem size_empty (registers : Nat) : (empty registers).size = registers := by
  simp [empty, size]

@[simp] theorem size_put (t : Table) (r : Nat) (s : Slot) : (t.put r s).size = t.size := by
  unfold put
  split <;> simp [size]

@[simp] theorem size_fill (t : Table) (r : Nat) (address : Int64) :
    (t.fill r address).size = t.size := size_put ..

@[simp] theorem size_clear (t : Table) (r : Nat) : (t.clear r).size = t.size := size_put ..

@[simp] theorem size_dropAddress (t : Table) (address : Int64) :
    (t.dropAddress address).size = t.size := by
  simp [dropAddress, size]

@[simp] theorem size_tick (t : Table) : t.tick.size = t.size := by simp [tick, size]

@[simp] theorem size_evict (t : Table) : t.evict.2.size = t.size := by
  unfold evict
  split <;> simp

theorem slot?_eq_none_iff (t : Table) (r : Nat) : t.slot? r = none ↔ t.size ≤ r := by
  simp [slot?, size]

theorem slot?_empty (registers r : Nat) :
    (empty registers).slot? r = if r < registers then some .empty else none := by
  simp [empty, slot?, Array.getElem?_replicate]

/-- Only the slot that is put changes, and only if there is such a register. -/
theorem slot?_put (t : Table) (r q : Nat) (s : Slot) :
    (t.put r s).slot? q = if r ≠ reserved ∧ q = r ∧ r < t.size then some s else t.slot? q := by
  unfold put
  by_cases hr : r = reserved
  · simp [hr]
  · by_cases hq : q = r
    · subst hq
      by_cases hs : q < t.size
      · have hs' : q < t.slots.size := hs
        simp [hr, slot?, size, hs']
      · have hs' : t.slots.size ≤ q := Nat.not_lt.mp hs
        simp [hr, slot?, hs', hs]
    · have hq' : r ≠ q := fun h => hq h.symm
      simp [hr, hq, slot?, Array.getElem?_setIfInBounds_ne hq']

theorem slot?_dropAddress (t : Table) (address : Int64) (q : Nat) :
    (t.dropAddress address).slot? q = (t.slot? q).map fun s =>
      if q ≠ reserved ∧ s.resident = some address then .empty else s := by
  simp [dropAddress, slot?, Array.getElem?_mapIdx]

theorem slot?_tick (t : Table) (q : Nat) :
    t.tick.slot? q = (t.slot? q).map fun s => if q = reserved then s else s.tick := by
  simp [tick, slot?, Array.getElem?_mapIdx]

theorem mem_usable {t : Table} {r : Nat} : r ∈ t.usable ↔ reserved < r ∧ r < t.size := by
  simp only [usable, reserved, List.mem_range'_1]
  omega

/-- A located register is usable and caches the address. -/
theorem of_locate {t : Table} {address : Int64} {r : Nat} (h : t.locate address = some r) :
    r ∈ t.usable ∧ t.resident? r = some address :=
  ⟨List.mem_of_find?_eq_some h, by simpa using List.find?_some h⟩

/-! ### Text -/

/-- The text of a table: the address each usable register caches, `-` for none. -/
def text (t : Table) : String :=
  let cells := t.usable.map fun r =>
    match t.resident? r with
    | some address => toString address
    | none => "-"
  "[" ++ ",".intercalate cells ++ "]"

instance : ToString Table := ⟨text⟩

end Table

end Residency
end CrossAssembler
