import CrossAssembler.Isa.Instruction
import CrossAssembler.Journal

/-!
# ROM images

A lowered program is stored as one 32-bit word for each instruction: the
encoding of the operation, then the three operands, one byte each.  An operand
that does not fit in a byte is cut to its lowest eight bits, and reported, so
that no operand is cut silently.

## Main definitions

* `lowByte`, `word` — the byte written for an operand, the word written for an
  instruction.
* `Overflow` — a report of an operand that did not fit.
* `Image`, `Image.ofCode` — the words and the reports of a program.
* `decodeWord?` — the instruction a word spells.
-/

namespace CrossAssembler
namespace Rom

/-! ### Words -/

/-- The byte written for an operand: its lowest eight bits. -/
def lowByte (operand : Int64) : UInt8 := operand.toUInt64.toUInt8

/-- The operand that a byte of a word spells. -/
def ofByte (byte : UInt8) : Int64 := Int64.ofNat byte.toNat

/-- A word moved up to make room for a byte, with the byte behind it. -/
def shiftIn (w : UInt32) (byte : UInt8) : UInt32 := (w <<< 8) ||| byte.toUInt32

/-- The word written for an instruction: the encoding of its operation, with a byte for each
operand shifted in. -/
def word (i : LoweredInstruction) : UInt32 :=
  i.operands.foldl (fun w operand => shiftIn w (lowByte operand)) (.ofNat i.op.encoding)

/-- The instruction a word spells, if its leading byte encodes an operation. -/
def decodeWord? (w : UInt32) : Option LoweredInstruction :=
  let n := w.toNat
  let byte (k : Nat) : Int64 := Int64.ofNat (n >>> (8 * k) % 256)
  (Opcode.ofEncoding? (n >>> 24)).map fun op => ⟨op, byte 2, byte 1, byte 0⟩

/-! ### Operands that do not fit -/

/-- A report of an operand that did not fit in its byte. -/
structure Overflow where
  /-- The address of the word. -/
  address : Nat
  /-- The position of the operand, from one to three. -/
  field : Nat
  /-- The operand. -/
  value : Int64
  /-- The byte that was written. -/
  written : UInt8
  deriving DecidableEq, Repr

/-- The wording of an `Overflow`. -/
def Overflow.message (o : Overflow) : String :=
  let address := o.address
  let field := o.field
  let value := o.value
  let written := o.written
  s!"ROM word {address}: operand {field} value {value} does not fit in a byte, written as {written}"

/-- The operand fits in a byte. -/
def Fits (operand : Int64) : Prop := ofByte (lowByte operand) = operand

instance (operand : Int64) : Decidable (Fits operand) :=
  inferInstanceAs (Decidable (ofByte (lowByte operand) = operand))

/-- The reports on the instruction at `address`, in the order of its operands. -/
def overflows (address : Nat) (i : LoweredInstruction) : List Overflow :=
  (i.operands.zipIdx 1).filterMap fun (value, field) =>
    if Fits value then none else some ⟨address, field, value, lowByte value⟩

/-! ### Images -/

/-- A program as it stands in the ROM. -/
structure Image where
  /-- One word for each instruction. -/
  words : List UInt32
  /-- The operands that did not fit, by address and then by position. -/
  overflows : List Overflow
  deriving DecidableEq, Repr

namespace Image

/-- The image of a program. -/
def ofCode (code : List LoweredInstruction) : Image where
  words := code.map word
  overflows := code.zipIdx.flatMap fun (i, address) => Rom.overflows address i

/-- The journal of packing an image: its reports. -/
def events (image : Image) : List Event := image.overflows.map fun o => ⟨.warn, o.message⟩

end Image

end Rom
end CrossAssembler
