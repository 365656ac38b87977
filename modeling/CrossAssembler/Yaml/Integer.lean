import CrossAssembler.Text.Numeral
import CrossAssembler.Yaml.Node

/-!
# Integers in a YAML document

A plain scalar is an integer if it is a decimal, hexadecimal, octal or binary
numeral.  A decimal numeral with a superfluous leading zero is text, and so is
everything between quotes.  A scalar with the tag of integers is one if it is a
signed decimal numeral, however it is written; any other tag makes it something
else.

## Main definitions

* `unsigned?` — the unsigned integer that a plain scalar denotes.
* `Node.uint64?` — the unsigned integer that a node denotes.
-/

namespace CrossAssembler
namespace Yaml

/-- The number that digits behind a base mark denote. -/
def based? : List Char → Option Nat
  | '0' :: 'x' :: digits => Numeral.hex? digits
  | '0' :: 'o' :: digits => Numeral.nat? 8 digits
  | '0' :: 'b' :: digits => Numeral.nat? 2 digits
  | _ => none

/-- The text without a plus sign between its base mark and its digits. -/
def dropInnerPlus : List Char → List Char
  | '0' :: b :: '+' :: digits => '0' :: b :: digits
  | text => text

/-- A numeral of several digits that begins with zero. -/
def hasLeadingZero : List Char → Bool
  | '0' :: c :: rest => (c :: rest).all Char.isDigit
  | _ => false

/-- The number that a decimal numeral without superfluous zeros denotes. -/
def decimal? (text : List Char) : Option Nat :=
  if hasLeadingZero text then none else Numeral.nat? 10 text

/-- The number that a numeral denotes behind its sign, if it has one. -/
def magnitude? (text : List Char) : Option Nat := (based? (dropInnerPlus text)).or (decimal? text)

/-- The unsigned integer that a plain scalar denotes.  Zero may be negative. -/
def unsigned? : List Char → Option UInt64
  | '+' :: text => (magnitude? text).bind Numeral.inUInt64?
  | '-' :: text => if (based? text).or (decimal? text) = some 0 then some 0 else none
  | text => (magnitude? text).bind Numeral.inUInt64?

/-- The tag of integers. -/
def Tag.integer : Tag := ⟨"!!".toList, "int".toList⟩

/-- The unsigned integer that a scalar denotes. -/
def Scalar.uint64? (s : Scalar) : Option UInt64 :=
  match s.tag with
  | some tag =>
    if tag = .integer then
      (Numeral.int64? s.text).bind fun i => if 0 ≤ i.toInt then some i.toUInt64 else none
    else none
  | none => if s.style = .plain then unsigned? s.text else none

/-- The unsigned integer that a node denotes. -/
def Node.uint64? : Node → Option UInt64
  | .scalar s => s.uint64?
  | _ => none

end Yaml
end CrossAssembler
