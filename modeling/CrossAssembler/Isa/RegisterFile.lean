/-!
# The register file

The sizes a register file may have, and the two registers with a role of their
own.

## Main definitions

* `RegisterFile.reserved`, `RegisterFile.scratch` — the register of the hardware,
  and the one that conditional jumps use.
* `RegisterFile.Supported` — the sizes that leave a register to allocate and
  whose register numbers fit in a byte.
-/

namespace CrossAssembler
namespace RegisterFile

/-- The register that belongs to the hardware and is never allocated. -/
def reserved : Nat := 0

/-- The register that conditional jumps load their condition into. -/
def scratch : Nat := 1

/-- The smallest register file that leaves a register to allocate. -/
def minSize : Nat := 2

/-- The largest register file whose register numbers fit in a byte. -/
def maxSize : Nat := 256

/-- A register file of this size can be lowered onto. -/
def Supported (size : Nat) : Prop := minSize ≤ size ∧ size ≤ maxSize

instance (size : Nat) : Decidable (Supported size) :=
  inferInstanceAs (Decidable (minSize ≤ size ∧ size ≤ maxSize))

/-- The number of a register fits in an operand. -/
theorem toInt_ofNat {r : Nat} (hr : r < maxSize) : (Int64.ofNat r).toInt = r := by
  have hbyte : r < 256 := hr
  exact Int64.toInt_ofNat_of_lt (by omega)

end RegisterFile
end CrossAssembler
