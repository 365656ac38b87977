/-!
# Numerals

Decimal numerals as they stand in source text, on the command line and in
target files: an optional sign and one or more ASCII digits.  A numeral outside
the range of the type asked for is not a numeral of that type.

## Main definitions

* `nat?` — digits alone, in a base up to ten.
* `hex?` — hexadecimal digits of either case.
* `int64?` — an optional sign, then digits, in the range of `Int64`.
* `uint64?` — an optional `+`, then digits, in the range of `UInt64`.
* `hexDigits` — a number as lowercase hexadecimal digits, padded with zeros.
-/

namespace CrossAssembler
namespace Numeral

/-! ### Reading -/

/-- Whether the character is a digit of the base, which is at most ten. -/
def isDigitBelow (base : Nat) (c : Char) : Bool := c.isDigit && c.toNat < '0'.toNat + base

/-- The number that one or more digits denote in a base up to ten. -/
def nat? (base : Nat) (digits : List Char) : Option Nat :=
  if !digits.isEmpty && digits.all (isDigitBelow base) then
    some (Nat.ofDigitChars base digits 0)
  else none

/-- The value of a hexadecimal digit. -/
def hexDigit? (c : Char) : Option Nat :=
  if c.isDigit then some (c.toNat - '0'.toNat)
  else if 'a' ≤ c && c ≤ 'f' then some (c.toNat - 'a'.toNat + 10)
  else if 'A' ≤ c && c ≤ 'F' then some (c.toNat - 'A'.toNat + 10)
  else none

/-- The number that one or more hexadecimal digits denote. -/
def hex? (digits : List Char) : Option Nat :=
  if digits.isEmpty then none
  else digits.foldl (fun value c => return (← value) * 16 + (← hexDigit? c)) (some 0)

/-- A number as an `Int64`, if it is in range. -/
def inInt64? (i : Int) : Option Int64 :=
  if Int64.minValue.toInt ≤ i ∧ i ≤ Int64.maxValue.toInt then some (Int64.ofInt i) else none

/-- A number as a `UInt64`, if it is in range. -/
def inUInt64? (n : Nat) : Option UInt64 :=
  if n < UInt64.size then some (UInt64.ofNat n) else none

/-- A signed decimal numeral in the range of `Int64`. -/
def int64? : List Char → Option Int64
  | '+' :: digits => (nat? 10 digits).bind fun n => inInt64? n
  | '-' :: digits => (nat? 10 digits).bind fun n => inInt64? (-n)
  | digits => (nat? 10 digits).bind fun n => inInt64? n

/-- An unsigned decimal numeral in the range of `UInt64`; a `+` may precede it. -/
def uint64? : List Char → Option UInt64
  | '+' :: digits => (nat? 10 digits).bind inUInt64?
  | digits => (nat? 10 digits).bind inUInt64?

/-! ### Printing -/

/-- A number as hexadecimal digits in lowercase, with zeros in front up to
`width` digits. -/
def hexDigits (width n : Nat) : List Char :=
  let digits := Nat.toDigits 16 n
  List.replicate (width - digits.length) '0' ++ digits

end Numeral
end CrossAssembler
