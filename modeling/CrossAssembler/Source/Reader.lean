import CrossAssembler.Isa.Instruction
import CrossAssembler.Journal
import CrossAssembler.Text.Blank
import CrossAssembler.Text.Numeral

/-!
# Reading source text

A source program is written one instruction to a line: a word that names the
operation, then up to three decimal operands, separated by blanks.  Lines
without a word, comments (`#`) and directives (`.`) hold no instruction.

A line is judged in a fixed order: an operand that is no numeral is reported
before the number of operands is looked at, and too many operands before too
few.  Every line is judged on its own, so one malformed line hides no other.

## Main definitions

* `ReadError`, `SourceError` — what is wrong with a line, and with which line.
* `readLine` — one line.
* `read` — every instruction line of a text, read or refused.
* `readProgram` — the program of a text, or the first refused line.
* `readProgramOrErrors` — the program of a text, or all refused lines.
* `events` — the journal of reading a text.
-/

namespace CrossAssembler
namespace Source

/-! ### Errors -/

/-- Why a line is refused. -/
inductive ReadError where
  /-- An operand that is no decimal numeral in the range of a cell. -/
  | invalidInteger (token : String)
  /-- Fewer operands than the operation needs. -/
  | missingOperands (op : Opcode) (expected found : Nat)
  /-- More operands than an instruction has fields. -/
  | tooManyOperands (found : Nat)
  deriving DecidableEq, Repr

/-- The wording of a `ReadError`. -/
def ReadError.message : ReadError → String
  | invalidInteger token => s!"Invalid integer operand: {token}"
  | missingOperands op expected found => s!"{op} expects {expected} operands but found {found}"
  | tooManyOperands found => s!"An instruction takes at most 3 operands but found {found}"

/-- A refused line: its number, counted from one over all lines, and the cause. -/
structure SourceError where
  /-- The number of the line.  In a text of fewer than 2³² lines it has at most 32 bits, by
  `line_le_lineCount` of `CrossAssembler.Proofs.Source.Locality`. -/
  line : Nat
  /-- What is wrong with it. -/
  cause : ReadError
  deriving DecidableEq, Repr

/-- The wording of a `SourceError`: the cause behind the number of the line. -/
def SourceError.message (e : SourceError) : String :=
  let line := e.line
  let cause := e.cause.message
  s!"L{line}: {cause}"

/-! ### One line -/

/-- The words of an instruction line: the word that names the operation, and the
words of the operands.  A line without a word, a comment or a directive has none. -/
def instructionWords? (line : List Char) : Option (List Char × List (List Char)) :=
  match Text.words line with
  | [] => none
  | word :: rest =>
    if word.head? = some '#' ∨ word.head? = some '.' then none else some (word, rest)

/-- An operand, or the error that quotes it. -/
def readOperand (token : List Char) : Except ReadError Int64 :=
  match Numeral.int64? token with
  | some n => .ok n
  | none => .error (.invalidInteger (String.ofList token))

/-- The instruction that a word and its operands make, with zeros in the fields
that were not given. -/
def assemble (word : String) (operands : List Int64) : Except ReadError SourceInstruction :=
  if 3 < operands.length then .error (.tooManyOperands operands.length)
  else
    let instruction : SourceInstruction :=
      ⟨.ofWord word, operands.getD 0 0, operands.getD 1 0, operands.getD 2 0⟩
    match instruction.op with
    | .known op =>
      if operands.length < op.arity then
        .error (.missingOperands op op.arity operands.length)
      else .ok instruction
    | .unrecognized _ => .ok instruction

/-- What a line holds: nothing, an instruction, or an error. -/
def readLine (line : List Char) : Option (Except ReadError SourceInstruction) :=
  (instructionWords? line).map fun (word, rest) =>
    (rest.mapM readOperand).bind (assemble (String.ofList word))

/-! ### Whole texts -/

/-- The instruction lines of a text in order, each read or refused. -/
def read (text : String) : List (Except SourceError SourceInstruction) :=
  ((Text.lines text.toList).zipIdx 1).filterMap fun (line, number) =>
    (readLine line).map (·.mapError (SourceError.mk number))

/-- The program of a text, or its first refused line. -/
def readProgram (text : String) : Except SourceError (List SourceInstruction) :=
  (read text).mapM id

/-- The refused lines of a text, in order. -/
def errors (text : String) : List SourceError :=
  (read text).filterMap fun
    | .ok _ => none
    | .error e => some e

/-- The program of a text, or all its refused lines. -/
def readProgramOrErrors (text : String) : Except (List SourceError) (List SourceInstruction) :=
  match errors text with
  | [] => .ok ((read text).filterMap Except.toOption)
  | refused => .error refused

/-- The journal of reading a text: every instruction line, without the blanks
around it, whether it is refused or not. -/
def events (text : String) : List Event :=
  ((Text.lines text.toList).filter fun line => (instructionWords? line).isSome).map fun line =>
    ⟨.trace, "read_line <- " ++ String.ofList (Text.trim line)⟩

end Source
end CrossAssembler
