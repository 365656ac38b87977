/-!
# The instruction set

The twenty-five operations of the ROM CPU.  An operation has a mnemonic, which
is how source text names it, and an encoding, which is how a ROM word names it;
both determine the operation, so each has a partial inverse.

Twelve of the operations compute one value from two.  They are lowered and
executed alike, and make up a type of their own.

## Main definitions

* `Binary` — the operations that compute one value from two.
* `Opcode` — all operations.
* `Opcode.mnemonic`, `Opcode.ofMnemonic?` — the word of the source language, and
  the operation a word names.
* `Opcode.encoding`, `Opcode.ofEncoding?` — the leading byte of a ROM word, and
  the operation a byte names.
* `Opcode.arity` — how many operands the operation must be given.
-/

namespace CrossAssembler

/-- An operation that computes one value from two. -/
inductive Binary where
  /-- Sum. -/
  | add
  /-- Product. -/
  | mul
  /-- Difference. -/
  | sou
  /-- Quotient, rounded towards negative infinity. -/
  | div
  /-- Equality test. -/
  | equ
  /-- Inequality test. -/
  | neq
  /-- Strictly less. -/
  | lt
  /-- Less or equal. -/
  | le
  /-- Strictly greater. -/
  | gt
  /-- Greater or equal. -/
  | ge
  /-- Logical conjunction. -/
  | and
  /-- Logical disjunction. -/
  | or
  deriving DecidableEq, Repr, Inhabited

/-- An operation of the ROM CPU. -/
inductive Opcode where
  /-- Stop the machine. -/
  | nop
  /-- Compute one value from two. -/
  | binary (op : Binary)
  /-- Logical negation. -/
  | not
  /-- Jump. -/
  | jmp
  /-- Jump if the condition is zero. -/
  | jmf
  /-- Print a memory cell. -/
  | pri
  /-- Move the frame base up. -/
  | push
  /-- Move the frame base down. -/
  | pop
  /-- Save the return address, then jump. -/
  | call
  /-- Jump to the saved return address. -/
  | ret
  /-- Assign a constant. -/
  | afc
  /-- Copy a memory cell into a register. -/
  | load
  /-- Copy a register into a memory cell. -/
  | store
  /-- Copy one place to another. -/
  | cop
  deriving DecidableEq, Repr, Inhabited

namespace Opcode

/-- Every operation, in the order of the encodings. -/
def all : List Opcode :=
  [nop, binary .add, binary .mul, binary .sou, binary .div, binary .equ, binary .neq, binary .lt,
    binary .le, binary .gt, binary .ge, not, binary .and, binary .or, jmp, jmf, pri, push, pop,
    call, ret, afc, load, store, cop]

theorem mem_all (op : Opcode) : op ∈ all := by
  cases op with
  | binary op => cases op <;> decide
  | _ => decide

/-! ### Names -/

/-- The word that names the operation in source text. -/
def mnemonic : Opcode → String
  | nop => "NOP"
  | binary .add => "ADD"
  | binary .mul => "MUL"
  | binary .sou => "SOU"
  | binary .div => "DIV"
  | binary .equ => "EQU"
  | binary .neq => "NEQ"
  | binary .lt => "LT"
  | binary .le => "LE"
  | binary .gt => "GT"
  | binary .ge => "GE"
  | not => "NOT"
  | binary .and => "AND"
  | binary .or => "OR"
  | jmp => "JMP"
  | jmf => "JMF"
  | pri => "PRI"
  | push => "PUSH"
  | pop => "POP"
  | call => "CALL"
  | ret => "RET"
  | afc => "AFC"
  | load => "LOAD"
  | store => "STORE"
  | cop => "COP"

instance : ToString Opcode := ⟨mnemonic⟩

/-- The operation a word names.  Mnemonics are written in capitals only. -/
def ofMnemonic? (word : String) : Option Opcode :=
  all.find? fun op => op.mnemonic == word

theorem ofMnemonic?_mnemonic (op : Opcode) : ofMnemonic? op.mnemonic = some op := by
  cases op with
  | binary op => cases op <;> decide
  | _ => decide

theorem mnemonic_of_ofMnemonic? {word : String} {op : Opcode} (h : ofMnemonic? word = some op) :
    op.mnemonic = word := by
  simpa using List.find?_some h

/-! ### Encodings -/

/-- The number that names the operation in a ROM word. -/
def encoding : Opcode → Nat
  | nop => 0
  | binary .add => 1
  | binary .mul => 2
  | binary .sou => 3
  | binary .div => 4
  | binary .equ => 5
  | binary .neq => 6
  | binary .lt => 7
  | binary .le => 8
  | binary .gt => 9
  | binary .ge => 10
  | not => 11
  | binary .and => 12
  | binary .or => 13
  | jmp => 14
  | jmf => 15
  | pri => 16
  | push => 17
  | pop => 18
  | call => 19
  | ret => 20
  | afc => 21
  | load => 22
  | store => 23
  | cop => 24

/-- The operation a number encodes. -/
def ofEncoding? (n : Nat) : Option Opcode := all[n]?

theorem ofEncoding?_encoding (op : Opcode) : ofEncoding? op.encoding = some op := by
  cases op with
  | binary op => cases op <;> rfl
  | _ => rfl

theorem encoding_lt (op : Opcode) : op.encoding < 25 := by
  cases op with
  | binary op => cases op <;> decide
  | _ => decide

/-! ### Shape -/

/-- How many operands the operation must be given in source text. -/
def arity : Opcode → Nat
  | binary _ => 3
  | jmf | afc | cop | load | store => 2
  | not | jmp | pri | push | pop | call => 1
  | ret | nop => 0

theorem arity_le (op : Opcode) : op.arity ≤ 3 := by cases op <;> simp [arity]

/-- Whether the operation computes one value from two. -/
def isBinary : Opcode → Bool
  | binary _ => true
  | _ => false

end Opcode

end CrossAssembler
