import CrossAssembler.Residency.Table

/-!
# The residency table, checked

The operations of a residency table are lenient: the slot of a register that does
not exist is read as missing and put nowhere.  Here are the same operations with
every access spelled out, the loops included, and an access past the end of the
slots is refused.

## Main definitions

* `Checked.locate`, `Checked.evict`, `Checked.fill`, `Checked.clear`,
  `Checked.dropAddress` — the operations of a table, or `none` if one of them
  accesses a slot that does not exist.
-/

namespace CrossAssembler
namespace Residency
namespace Checked

open RegisterFile (reserved)

/-- The first usable register whose slot passes a test. -/
def find? (t : Table) (p : Slot → Bool) : Option (Option Nat) :=
  t.usable.findM? fun r => (t.slot? r).map p

/-- The lowest usable register that caches `address`. -/
def locate (t : Table) (address : Int64) : Option (Option Nat) :=
  find? t fun s => s.resident = some address

/-- The usable register of the greatest age, the lowest one among equals. -/
def oldest (t : Table) : Option Nat :=
  t.usable.foldlM (fun best r => do
    let oldestSlot ← t.slot? best
    let s ← t.slot? r
    return if oldestSlot.age < s.age then r else best) (reserved + 1)

/-- Put a slot at a register.  The reserved register keeps its slot. -/
def put (t : Table) (register : Nat) (s : Slot) : Option Table :=
  if register = reserved then some t
  else if register < t.size then some (t.put register s)
  else none

/-- Record that a register now holds the value of `address`. -/
def fill (t : Table) (register : Nat) (address : Int64) : Option Table :=
  put t register (.fresh address)

/-- Forget what a register holds. -/
def clear (t : Table) (register : Nat) : Option Table := put t register .empty

/-- Forget every copy of `address`, one register after the other. -/
def dropAddress (t : Table) (address : Int64) : Option Table :=
  t.usable.foldlM (fun t r => do
    let s ← t.slot? r
    if s.resident = some address then clear t r else some t) t

/-- A register to fill next, and the table in which it is empty. -/
def evict (t : Table) : Option (Nat × Table) := do
  match ← find? t fun s => s.resident.isNone with
  | some r => return (r, t)
  | none =>
    let r ← oldest t
    return (r, ← clear t r)

end Checked
end Residency
end CrossAssembler
