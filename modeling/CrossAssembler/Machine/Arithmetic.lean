import CrossAssembler.Isa.Opcode

/-!
# Arithmetic on cells

Cells hold 64-bit integers and arithmetic on them wraps.  Tests give one or
zero, and every value but zero counts as true.

## Main definitions

* `floorDiv` — division that rounds towards negative infinity.
* `Binary.apply?` — the value of an operation, if it has one.
-/

namespace CrossAssembler

/-- A truth value as a cell. -/
def ofBool (b : Bool) : Int64 := if b then 1 else 0

/-- Division that rounds towards negative infinity: the quotient rounded towards
zero, less one when something was cut off and the signs differ. -/
def floorDiv (x y : Int64) : Int64 :=
  let q := x / y
  if x % y ≠ 0 ∧ (decide (x < 0) != decide (y < 0)) then q - 1 else q

/-- The value of an operation.  Only a division by zero has none. -/
def Binary.apply? (op : Binary) (x y : Int64) : Option Int64 :=
  match op with
  | add => some (x + y)
  | sou => some (x - y)
  | mul => some (x * y)
  | div => if y = 0 then none else some (floorDiv x y)
  | equ => some (ofBool (x == y))
  | neq => some (ofBool (x != y))
  | lt => some (ofBool (x < y))
  | le => some (ofBool (x ≤ y))
  | gt => some (ofBool (x > y))
  | ge => some (ofBool (x ≥ y))
  | and => some (ofBool (x != 0 && y != 0))
  | or => some (ofBool (x != 0 || y != 0))

end CrossAssembler
