import CrossAssembler.Proofs.Source.RoundTrip
import Mathlib.Data.List.Forall2

/-!
# The grammar of a source line

A line is read in several turns: it is cut into words, the operands are read one by one until one is
refused, and then they are counted.  What comes out can be said at once, by one rule for each kind
of outcome.  The rules are about the characters of the line: where its blanks are, which of
its words are numerals, and which number a numeral denotes.  They exclude each other and leave no
line out, since reading a line gives exactly the outcome of the rule that applies.

## Main definitions

* `InstructionLine` — the words of a line that is no comment and no directive.
* `IsOperand`, `IsNoOperand` — the words that an operand may be, and the others.
* `Reads` — the outcome of a line, by rule.

## Main results

* `forall₂_isOperand_or` — the tokens are operands, or one of them is the first that is none.
* `readLine_of_reads` — a line is read as a rule says.
* `exists_reads` — there is a rule for every line.
* `lines_are_read_by_grammar` — reading a line gives the outcome that the rules say, and no other.
-/

namespace CrossAssembler
namespace Source

open Text (Separated isBlank)
open Numeral (Signed)

/-! ### The rules -/

/-- The line consists of the given words, and is no comment and no directive. -/
structure InstructionLine (line word : List Char) (tokens : List (List Char)) : Prop where
  /-- These are its words. -/
  separated : Separated line (word :: tokens)
  /-- It is no comment. -/
  not_comment : word.head? ≠ some '#'
  /-- It is no directive. -/
  not_directive : word.head? ≠ some '.'

/-- The token is a numeral, and the number that it denotes is in the range of a cell. -/
def IsOperand (token : List Char) (v : Int64) : Prop := Signed token v.toInt

/-- The token is no numeral, or the number that it denotes is not in the range of a cell. -/
def IsNoOperand (token : List Char) : Prop :=
  ∀ z, Signed token z → z < -9223372036854775808 ∨ 9223372036854775807 < z

/-- `Reads line outcome` says that a line has the given outcome: nothing, an error or an
instruction. -/
inductive Reads (line : List Char) : Option (Except ReadError SourceInstruction) → Prop
  /-- A line without a word. -/
  | blank : (∀ c ∈ line, isBlank c = true) → Reads line none
  /-- A comment or a directive. -/
  | comment {word : List Char} {tokens : List (List Char)} :
      Separated line (word :: tokens) → word.head? = some '#' ∨ word.head? = some '.' →
      Reads line none
  /-- The first token that is no operand, however many there are. -/
  | invalidInteger {word token : List Char} {before after : List (List Char)} :
      InstructionLine line word (before ++ token :: after) →
      (∀ other ∈ before, ∃ v, IsOperand other v) → IsNoOperand token →
      Reads line (some (.error (.invalidInteger (String.ofList token))))
  /-- More operands than an instruction has fields. -/
  | tooManyOperands {word : List Char} {tokens : List (List Char)} {values : List Int64} :
      InstructionLine line word tokens → List.Forall₂ IsOperand tokens values →
      3 < tokens.length → Reads line (some (.error (.tooManyOperands tokens.length)))
  /-- Fewer operands than the operation needs. -/
  | missingOperands {op : Opcode} {tokens : List (List Char)} {values : List Int64} :
      InstructionLine line op.mnemonic.toList tokens → List.Forall₂ IsOperand tokens values →
      tokens.length ≤ 3 → tokens.length < op.arity →
      Reads line (some (.error (.missingOperands op op.arity tokens.length)))
  /-- An operation of the instruction set, with zeros in the fields that are not given. -/
  | known {op : Opcode} {tokens : List (List Char)} {values : List Int64} {a b c : Int64} :
      InstructionLine line op.mnemonic.toList tokens → List.Forall₂ IsOperand tokens values →
      tokens.length ≤ 3 → op.arity ≤ tokens.length →
      values ++ List.replicate (3 - values.length) 0 = [a, b, c] →
      Reads line (some (.ok ⟨.known op, a, b, c⟩))
  /-- A word that is no mnemonic, with any number of operands. -/
  | unrecognized {word : List Char} {tokens : List (List Char)} {values : List Int64}
      {a b c : Int64} :
      InstructionLine line word tokens → (∀ op : Opcode, op.mnemonic.toList ≠ word) →
      List.Forall₂ IsOperand tokens values → tokens.length ≤ 3 →
      values ++ List.replicate (3 - values.length) 0 = [a, b, c] →
      Reads line (some (.ok ⟨.unrecognized (String.ofList word), a, b, c⟩))

/-! ### Cutting the line -/

theorem instructionWords?_of_instructionLine {line word : List Char} {tokens : List (List Char)}
    (h : InstructionLine line word tokens) : instructionWords? line = some (word, tokens) :=
  instructionWords?_eq_some_iff.mpr
    ⟨Text.words_of_separated h.separated, h.not_comment, h.not_directive⟩

theorem readLine_of_words_eq_nil {line : List Char} (h : Text.words line = []) :
    readLine line = none := by
  rw [readLine, instructionWords?, h]
  rfl

theorem readLine_of_comment {line word : List Char} {tokens : List (List Char)}
    (h : Text.words line = word :: tokens)
    (hhead : word.head? = some '#' ∨ word.head? = some '.') : readLine line = none := by
  rw [readLine, instructionWords?, h]
  simp only [if_pos hhead, Option.map_none]

/-! ### Reading the operands -/

theorem readOperand_of_isOperand {token : List Char} {v : Int64} (h : IsOperand token v) :
    readOperand token = .ok v := by
  rw [readOperand, Numeral.int64?_eq_some_iff.mpr h]

theorem readOperand_of_isNoOperand {token : List Char} (h : IsNoOperand token) :
    readOperand token = .error (.invalidInteger (String.ofList token)) := by
  rw [readOperand, Numeral.int64?_eq_none_iff.mpr h]

theorem isOperand_or_isNoOperand (token : List Char) :
    (∃ v, IsOperand token v) ∨ IsNoOperand token := by
  cases h : Numeral.int64? token with
  | some v => exact .inl ⟨v, Numeral.int64?_eq_some_iff.mp h⟩
  | none => exact .inr (Numeral.int64?_eq_none_iff.mp h)

/-- **The tokens are operands, or one of them is the first that is none.** -/
theorem forall₂_isOperand_or (tokens : List (List Char)) :
    (∃ values, List.Forall₂ IsOperand tokens values) ∨
      ∃ before token after, tokens = before ++ token :: after ∧
        (∀ other ∈ before, ∃ v, IsOperand other v) ∧ IsNoOperand token := by
  induction tokens with
  | nil => exact .inl ⟨[], .nil⟩
  | cons first tokens ih =>
    rcases isOperand_or_isNoOperand first with ⟨v, hv⟩ | hfirst
    · rcases ih with ⟨values, hvalues⟩ | ⟨before, token, after, rfl, hbefore, htoken⟩
      · exact .inl ⟨v :: values, .cons hv hvalues⟩
      · exact .inr ⟨first :: before, token, after, rfl,
          List.forall_mem_cons.mpr ⟨⟨v, hv⟩, hbefore⟩, htoken⟩
    · exact .inr ⟨[], first, tokens, rfl, List.forall_mem_nil _, hfirst⟩

theorem mapM_readOperand_of_forall₂ {tokens : List (List Char)} {values : List Int64}
    (h : List.Forall₂ IsOperand tokens values) : tokens.mapM readOperand = .ok values := by
  induction h with
  | nil => rfl
  | cons hv _ ih =>
    rw [List.mapM_cons, readOperand_of_isOperand hv, ih]
    rfl

theorem mapM_readOperand_of_isNoOperand {before : List (List Char)} {token : List Char}
    (hbefore : ∀ other ∈ before, ∃ v, IsOperand other v) (htoken : IsNoOperand token)
    (after : List (List Char)) : (before ++ token :: after).mapM readOperand =
      .error (.invalidInteger (String.ofList token)) := by
  induction before with
  | nil =>
    rw [List.nil_append, List.mapM_cons, readOperand_of_isNoOperand htoken]
    rfl
  | cons first before ih =>
    obtain ⟨⟨v, hv⟩, hrest⟩ := List.forall_mem_cons.mp hbefore
    rw [List.cons_append, List.mapM_cons, readOperand_of_isOperand hv, ih hrest]
    rfl

/-! ### Putting the instruction together -/

/-- The fields of an instruction are its operands, padded with zeros. -/
theorem padded_eq {values : List Int64} (h : values.length ≤ 3) :
    values ++ List.replicate (3 - values.length) 0 =
      [values.getD 0 0, values.getD 1 0, values.getD 2 0] := by
  match values, h with
  | [], _ => rfl
  | [_], _ => rfl
  | [_, _], _ => rfl
  | [_, _, _], _ => rfl

theorem assemble_of_known {op : Opcode} {values : List Int64} (h : values.length ≤ 3) :
    assemble op.mnemonic values =
      if values.length < op.arity then .error (.missingOperands op op.arity values.length)
      else .ok ⟨.known op, values.getD 0 0, values.getD 1 0, values.getD 2 0⟩ := by
  have hword : Operation.ofWord op.mnemonic = .known op := by
    rw [Operation.ofWord, Opcode.ofMnemonic?_mnemonic]
  rw [assemble, if_neg (Nat.not_lt.mpr h), hword]

theorem assemble_of_unrecognized {word : String} (hword : ∀ op : Opcode, op.mnemonic ≠ word)
    {values : List Int64} (h : values.length ≤ 3) :
    assemble word values =
      .ok ⟨.unrecognized word, values.getD 0 0, values.getD 1 0, values.getD 2 0⟩ := by
  have hword' : Operation.ofWord word = .unrecognized word := by
    rw [Operation.ofWord, Opcode.ofMnemonic?_eq_none_iff.mpr hword]
  rw [assemble, if_neg (Nat.not_lt.mpr h), hword']

/-! ### The line -/

theorem readLine_of_forall₂ {line word : List Char} {tokens : List (List Char)}
    {values : List Int64} (h : InstructionLine line word tokens)
    (hvalues : List.Forall₂ IsOperand tokens values) :
    readLine line = some (assemble (String.ofList word) values) := by
  rw [readLine_of_instructionWords? (instructionWords?_of_instructionLine h),
    mapM_readOperand_of_forall₂ hvalues]
  rfl

/-- **A line is read as a rule says.** -/
theorem readLine_of_reads {line : List Char}
    {outcome : Option (Except ReadError SourceInstruction)} (h : Reads line outcome) :
    readLine line = outcome := by
  cases h with
  | blank hblank => exact readLine_of_words_eq_nil (Text.words_eq_nil_iff.mpr hblank)
  | comment hwords hhead => exact readLine_of_comment (Text.words_of_separated hwords) hhead
  | invalidInteger hline hbefore htoken =>
    rw [readLine_of_instructionWords? (instructionWords?_of_instructionLine hline),
      mapM_readOperand_of_isNoOperand hbefore htoken]
    rfl
  | tooManyOperands hline hvalues hlength =>
    rw [hvalues.length_eq] at hlength ⊢
    rw [readLine_of_forall₂ hline hvalues, assemble, if_pos hlength]
  | missingOperands hline hvalues hlength harity =>
    rw [hvalues.length_eq] at hlength harity ⊢
    rw [readLine_of_forall₂ hline hvalues, String.ofList_toList, assemble_of_known hlength,
      if_pos harity]
  | known hline hvalues hlength harity hpad =>
    rw [hvalues.length_eq] at hlength harity
    rw [padded_eq hlength] at hpad
    cases hpad
    rw [readLine_of_forall₂ hline hvalues, String.ofList_toList, assemble_of_known hlength,
      if_neg (Nat.not_lt.mpr harity)]
  | unrecognized hline hword hvalues hlength hpad =>
    rw [hvalues.length_eq] at hlength
    rw [padded_eq hlength] at hpad
    cases hpad
    have hword' : ∀ op : Opcode, op.mnemonic ≠ String.ofList _ := fun op hop =>
      hword op (by rw [hop, String.toList_ofList])
    rw [readLine_of_forall₂ hline hvalues, assemble_of_unrecognized hword' hlength]

/-- A line whose tokens are operands has an outcome by rule. -/
theorem exists_reads_of_forall₂ {line word : List Char} {tokens : List (List Char)}
    {values : List Int64} (h : InstructionLine line word tokens)
    (hvalues : List.Forall₂ IsOperand tokens values) : ∃ outcome, Reads line outcome := by
  by_cases hlength : tokens.length ≤ 3
  · have hpad := padded_eq (hvalues.length_eq ▸ hlength)
    by_cases hword : ∃ op : Opcode, op.mnemonic.toList = word
    · obtain ⟨op, rfl⟩ := hword
      by_cases harity : tokens.length < op.arity
      · exact ⟨_, .missingOperands h hvalues hlength harity⟩
      · exact ⟨_, .known h hvalues hlength (Nat.not_lt.mp harity) hpad⟩
    · exact ⟨_, .unrecognized h (fun op hop => hword ⟨op, hop⟩) hvalues hlength hpad⟩
  · exact ⟨_, .tooManyOperands h hvalues (Nat.not_le.mp hlength)⟩

/-- **There is a rule for every line.** -/
theorem exists_reads (line : List Char) : ∃ outcome, Reads line outcome := by
  cases hwords : Text.words line with
  | nil => exact ⟨none, .blank (Text.words_eq_nil_iff.mp hwords)⟩
  | cons word tokens =>
    have hseparated := Text.words_eq_iff.mp hwords
    by_cases hcomment : word.head? = some '#'
    · exact ⟨none, .comment hseparated (.inl hcomment)⟩
    by_cases hdirective : word.head? = some '.'
    · exact ⟨none, .comment hseparated (.inr hdirective)⟩
    have hline : InstructionLine line word tokens := ⟨hseparated, hcomment, hdirective⟩
    rcases forall₂_isOperand_or tokens with
      ⟨values, hvalues⟩ | ⟨before, token, after, rfl, hbefore, htoken⟩
    · exact exists_reads_of_forall₂ hline hvalues
    · exact ⟨_, .invalidInteger hline hbefore htoken⟩

/-- **Reading follows the grammar of lines.**  What a line is read as, be it nothing, an error or
an instruction, is what the rules say about it, and the rules say nothing else. -/
theorem lines_are_read_by_grammar (line : List Char)
    (outcome : Option (Except ReadError SourceInstruction)) :
    readLine line = outcome ↔ Reads line outcome := by
  constructor
  · rintro rfl
    obtain ⟨outcome, h⟩ := exists_reads line
    rw [readLine_of_reads h]
    exact h
  · exact readLine_of_reads

end Source
end CrossAssembler
