import CrossAssembler.Isa.Opcode

/-!
# Instructions

An instruction is an operation with three operand fields.  Source programs may
name operations outside the instruction set, lowered programs may not, so the
type of the operation is a parameter.

## Main definitions

* `Operation` — what a source line names: a known opcode, or a word that is not
  a mnemonic.
* `Instruction ω` — an operation of type `ω` with its operands.
* `SourceInstruction`, `LoweredInstruction` — the two instances in use.
* `LoweredInstruction.toSource` — every lowered instruction is a source one.
-/

namespace CrossAssembler

/-- What the first word of a source line names. -/
inductive Operation where
  /-- An operation of the instruction set. -/
  | known (op : Opcode)
  /-- A word that is no mnemonic.  It is kept, so that it can be reported. -/
  | unrecognized (word : String)
  deriving DecidableEq, Repr, Inhabited

namespace Operation

/-- The text of an operation: its mnemonic, or the unrecognized word itself. -/
def text : Operation → String
  | known op => op.mnemonic
  | unrecognized word => word

instance : ToString Operation := ⟨text⟩

/-- The operation a word of source text names. -/
def ofWord (word : String) : Operation :=
  match Opcode.ofMnemonic? word with
  | some op => known op
  | none => unrecognized word

@[simp] theorem text_ofWord (word : String) : (ofWord word).text = word := by
  unfold ofWord
  split
  · exact Opcode.mnemonic_of_ofMnemonic? ‹_›
  · rfl

end Operation

/-- An operation with its three operand fields.  Fields an operation does not
use are zero. -/
structure Instruction (ω : Type) where
  /-- The operation. -/
  op : ω
  /-- First operand. -/
  a : Int64
  /-- Second operand. -/
  b : Int64
  /-- Third operand. -/
  c : Int64
  deriving DecidableEq, Repr, Inhabited

/-- An instruction as read from source text. -/
abbrev SourceInstruction := Instruction Operation

/-- An instruction of the ROM CPU. -/
abbrev LoweredInstruction := Instruction Opcode

namespace Instruction

variable {ω : Type}

/-- The three operands in order. -/
def operands (i : Instruction ω) : List Int64 := [i.a, i.b, i.c]

theorem mem_operands {i : Instruction ω} {v : Int64} :
    v ∈ i.operands ↔ v = i.a ∨ v = i.b ∨ v = i.c := by
  simp [operands]

/-- The text of an instruction: the operation and all three operands, one space
apart. -/
def text [ToString ω] (i : Instruction ω) : String :=
  toString i.op ++ " " ++ toString i.a ++ " " ++ toString i.b ++ " " ++ toString i.c

instance [ToString ω] : ToString (Instruction ω) := ⟨text⟩

end Instruction

namespace LoweredInstruction

/-- Load memory cell `address` into `register`. -/
def load (register : Nat) (address : Int64) : LoweredInstruction :=
  ⟨.load, Int64.ofNat register, address, 0⟩

/-- Store `register` into memory cell `address`. -/
def store (address : Int64) (register : Nat) : LoweredInstruction :=
  ⟨.store, address, Int64.ofNat register, 0⟩

/-- The source instruction that says the same. -/
def toSource (i : LoweredInstruction) : SourceInstruction := ⟨.known i.op, i.a, i.b, i.c⟩

@[simp] theorem text_toSource (i : LoweredInstruction) : i.toSource.text = i.text := rfl

end LoweredInstruction

end CrossAssembler
