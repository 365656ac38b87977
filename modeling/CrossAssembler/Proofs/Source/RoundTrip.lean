import CrossAssembler.Proofs.Text.Numeral
import CrossAssembler.Source.Reader

/-!
# Reading undoes printing

The text of an instruction is its operation and its three operands, one blank apart.  A line
that holds this text is read as the same instruction, as long as the operation can stand at
the beginning of a line and be told from all others: a mnemonic can, and so can a word that
is no mnemonic and does not make the line a comment or a directive.  Whatever is read from
a text begins its line in this way, so printing a program that was read and reading it again
changes nothing, though the two texts may differ.

## Main definitions

* `ForeignWord`, `Operation.Readable` — words and operations that can begin a line.
* `print` — a program as text.

## Main results

* `readLine_text` — a line that holds the text of an instruction is read as this instruction.
* `readable_of_mem_read` — what is read can be printed.
* `readProgram_of_lines` — a text that is made of the texts of instructions is read as the
  program of these.
* `reading_undoes_printing` — all of this for whole programs.
-/

namespace CrossAssembler

open Text (IsWord)

/-- A word that can begin an instruction line, and that is no mnemonic. -/
structure ForeignWord (word : String) : Prop where
  /-- It is a word. -/
  isWord : IsWord word.toList
  /-- The line is no comment. -/
  not_comment : word.toList.head? ≠ some '#'
  /-- The line is no directive. -/
  not_directive : word.toList.head? ≠ some '.'
  /-- The word names no operation. -/
  not_mnemonic : ∀ op : Opcode, op.mnemonic ≠ word

namespace Operation

/-- The operation can be told from its text at the beginning of a line. -/
def Readable : Operation → Prop
  | known _ => True
  | unrecognized word => ForeignWord word

end Operation

namespace Opcode

theorem ofMnemonic?_eq_none_iff {word : String} :
    ofMnemonic? word = none ↔ ∀ op : Opcode, op.mnemonic ≠ word := by
  rw [ofMnemonic?, List.find?_eq_none]
  constructor
  · intro h op heq
    exact h op (mem_all op) (beq_iff_eq.mpr heq)
  · intro h op _ heq
    exact h op (beq_iff_eq.mp heq)

theorem isWord_mnemonic (op : Opcode) : IsWord op.mnemonic.toList := by
  cases op with
  | binary op => cases op <;> decide
  | _ => decide

theorem head?_mnemonic (op : Opcode) :
    op.mnemonic.toList.head? ≠ some '#' ∧ op.mnemonic.toList.head? ≠ some '.' := by
  cases op with
  | binary op => cases op <;> decide
  | _ => decide

end Opcode

namespace Operation

theorem isWord_text {op : Operation} (h : op.Readable) : IsWord op.text.toList := by
  cases op with
  | known op => exact op.isWord_mnemonic
  | unrecognized word => exact h.isWord

theorem head?_text {op : Operation} (h : op.Readable) :
    op.text.toList.head? ≠ some '#' ∧ op.text.toList.head? ≠ some '.' := by
  cases op with
  | known op => exact op.head?_mnemonic
  | unrecognized word => exact ⟨h.not_comment, h.not_directive⟩

/-- The text of a readable operation names it. -/
theorem ofWord_text {op : Operation} (h : op.Readable) : ofWord op.text = op := by
  cases op with
  | known op =>
    show ofWord op.mnemonic = known op
    rw [ofWord, Opcode.ofMnemonic?_mnemonic]
  | unrecognized word =>
    show ofWord word = unrecognized word
    rw [ofWord, Opcode.ofMnemonic?_eq_none_iff.mpr h.not_mnemonic]

/-- A word that can begin an instruction line names a readable operation. -/
theorem readable_ofWord {word : String} (hword : IsWord word.toList)
    (hcomment : word.toList.head? ≠ some '#') (hdirective : word.toList.head? ≠ some '.') :
    (ofWord word).Readable := by
  unfold ofWord
  split
  · trivial
  · rename_i hnone
    exact ⟨hword, hcomment, hdirective, Opcode.ofMnemonic?_eq_none_iff.mp hnone⟩

end Operation

namespace Source

/-! ### One line -/

theorem instructionWords?_eq_some_iff {line word : List Char} {rest : List (List Char)} :
    instructionWords? line = some (word, rest) ↔
      Text.words line = word :: rest ∧ word.head? ≠ some '#' ∧ word.head? ≠ some '.' := by
  rw [instructionWords?]
  cases Text.words line with
  | nil => simp
  | cons first others =>
    simp only [Option.ite_none_left_eq_some, Option.some.injEq, Prod.mk.injEq, not_or,
      List.cons.injEq]
    constructor
    · rintro ⟨hhead, rfl, rfl⟩
      exact ⟨⟨rfl, rfl⟩, hhead⟩
    · rintro ⟨⟨rfl, rfl⟩, hhead⟩
      exact ⟨hhead, rfl, rfl⟩

theorem readLine_of_instructionWords? {line word : List Char} {rest : List (List Char)}
    (h : instructionWords? line = some (word, rest)) :
    readLine line = some ((rest.mapM readOperand).bind (assemble (String.ofList word))) := by
  rw [readLine, h]
  rfl

theorem toList_text (i : SourceInstruction) :
    i.text.toList = i.op.text.toList ++ ' ' :: ((toString i.a).toList ++ ' ' ::
      ((toString i.b).toList ++ ' ' :: (toString i.c).toList)) := by
  have htext : i.text =
      i.op.text ++ " " ++ toString i.a ++ " " ++ toString i.b ++ " " ++ toString i.c := rfl
  rw [htext]
  simp

theorem words_text {i : SourceInstruction} (h : IsWord i.op.text.toList) :
    Text.words i.text.toList = [i.op.text.toList, (toString i.a).toList, (toString i.b).toList,
      (toString i.c).toList] := by
  have hblank : Text.isBlank ' ' = true := by decide
  rw [toList_text, Text.words_append_cons h hblank,
    Text.words_append_cons (Numeral.isWord_toString i.a) hblank,
    Text.words_append_cons (Numeral.isWord_toString i.b) hblank,
    Text.words_of_isWord (Numeral.isWord_toString i.c)]

theorem newline_notMem_text {i : SourceInstruction} (h : IsWord i.op.text.toList) :
    '\n' ∉ i.text.toList := by
  have ha := (Numeral.isWord_toString i.a).newline_notMem
  have hb := (Numeral.isWord_toString i.b).newline_notMem
  have hc := (Numeral.isWord_toString i.c).newline_notMem
  rw [toList_text]
  simp [h.newline_notMem, ha, hb, hc]

theorem readOperand_toString (v : Int64) : readOperand (toString v).toList = .ok v := by
  rw [readOperand, Numeral.int64?_toString]

/-- Three operands are enough for every operation, and not too many. -/
theorem assemble_text {op : Operation} (h : op.Readable) (a b c : Int64) :
    assemble op.text [a, b, c] = .ok ⟨op, a, b, c⟩ := by
  have hlength : ¬ 3 < [a, b, c].length := Nat.lt_irrefl 3
  rw [assemble, if_neg hlength, Operation.ofWord_text h]
  cases op with
  | known op => exact if_neg (Nat.not_lt.mpr op.arity_le)
  | unrecognized word => rfl

/-- **A line that holds the text of an instruction** is read as this instruction. -/
theorem readLine_text {i : SourceInstruction} (h : i.op.Readable) :
    readLine i.text.toList = some (.ok i) := by
  have hwords := words_text (Operation.isWord_text h)
  have hline := instructionWords?_eq_some_iff.mpr ⟨hwords, Operation.head?_text h⟩
  have hoperands : [(toString i.a).toList, (toString i.b).toList, (toString i.c).toList].mapM
      readOperand = .ok [i.a, i.b, i.c] := by
    simp only [List.mapM_cons, List.mapM_nil, readOperand_toString]
    rfl
  rw [readLine_of_instructionWords? hline, hoperands, String.ofList_toList]
  exact congrArg some (assemble_text h i.a i.b i.c)

/-- The instruction that a word and its operands make has the operation that the word
names. -/
theorem op_of_assemble {word : String} {operands : List Int64} {i : SourceInstruction}
    (h : assemble word operands = .ok i) : i.op = .ofWord word := by
  rw [assemble] at h
  split at h
  · cases h
  · simp only at h
    split at h
    · split at h
      · cases h
      · cases h
        rfl
    · cases h
      rfl

/-- **What a line is read as can be printed.** -/
theorem readable_of_readLine {line : List Char} {i : SourceInstruction}
    (h : readLine line = some (.ok i)) : i.op.Readable := by
  cases hline : instructionWords? line with
  | none =>
    rw [readLine, hline] at h
    cases h
  | some p =>
    obtain ⟨word, rest⟩ := p
    obtain ⟨hwords, hcomment, hdirective⟩ := instructionWords?_eq_some_iff.mp hline
    have hword : IsWord word := Text.isWord_of_mem_words (hwords ▸ List.mem_cons_self)
    rw [readLine_of_instructionWords? hline, Option.some.injEq] at h
    cases hoperands : rest.mapM readOperand with
    | error e =>
      rw [hoperands] at h
      cases h
    | ok operands =>
      rw [hoperands] at h
      rw [op_of_assemble h]
      refine Operation.readable_ofWord ?_ ?_ ?_
      all_goals rwa [String.toList_ofList]

/-! ### Whole texts -/

theorem read_eq (text : String) :
    read text = ((Text.lines text.toList).zipIdx 1).filterMap fun l =>
      (readLine l.1).map (·.mapError (SourceError.mk l.2)) := rfl

theorem readable_of_mem_read {text : String} {i : SourceInstruction} (h : .ok i ∈ read text) :
    i.op.Readable := by
  rw [read_eq, List.mem_filterMap] at h
  obtain ⟨l, -, hread⟩ := h
  obtain ⟨r, hline, hr⟩ := Option.map_eq_some_iff.mp hread
  cases r with
  | error e => cases hr
  | ok j =>
    cases hr
    exact readable_of_readLine hline

/-- Results are put together into a list of values if none of them is an error. -/
theorem mapM_id_eq_ok_iff {ε α : Type} {results : List (Except ε α)} {values : List α} :
    results.mapM id = .ok values ↔ results = values.map .ok := by
  constructor
  · intro h
    induction results generalizing values with
    | nil =>
      cases h
      rfl
    | cons r results ih =>
      rw [List.mapM_cons] at h
      cases r with
      | error e => cases h
      | ok v =>
        cases hrest : results.mapM id with
        | error e =>
          rw [hrest] at h
          cases h
        | ok others =>
          rw [hrest] at h
          cases h
          rw [ih hrest]
          rfl
  · rintro rfl
    rw [List.mapM_map]
    exact List.mapM_pure.trans (congrArg Except.ok (List.map_id values))

/-- The program of a text is what its lines are read as, if none of them is refused. -/
theorem readProgram_eq_ok_iff {text : String} {source : List SourceInstruction} :
    readProgram text = .ok source ↔ read text = source.map .ok :=
  mapM_id_eq_ok_iff

/-- The texts of instructions are read as these, wherever they stand in a text. -/
theorem filterMap_readLine_texts {source : List SourceInstruction}
    (h : ∀ i ∈ source, i.op.Readable) (number : Nat) :
    ((source.map fun i => i.text.toList).zipIdx number).filterMap (fun l =>
      (readLine l.1).map (·.mapError (SourceError.mk l.2))) = source.map .ok := by
  induction source generalizing number with
  | nil => rfl
  | cons i source ih =>
    have hfirst := readLine_text (h i List.mem_cons_self)
    have hrest := ih (fun j hj => h j (List.mem_cons_of_mem i hj)) (number + 1)
    rw [List.map_cons, List.zipIdx_cons, List.filterMap_cons, hfirst, hrest]
    rfl

/-- **A text that is made of the texts of instructions**, and of lines that hold nothing
after them, is read as the program of these. -/
theorem readProgram_of_lines {text : String} {source : List SourceInstruction}
    (h : ∀ i ∈ source, i.op.Readable) {after : List (List Char)}
    (hafter : ∀ line ∈ after, readLine line = none)
    (hlines : Text.lines text.toList = (source.map fun i => i.text.toList) ++ after) :
    readProgram text = .ok source := by
  rw [readProgram_eq_ok_iff, read_eq, hlines, List.zipIdx_append, List.filterMap_append,
    filterMap_readLine_texts h, List.filterMap_eq_nil_iff.mpr, List.append_nil]
  intro l hl
  rw [hafter l.1 (List.fst_mem_of_mem_zipIdx hl)]
  rfl

/-! ### Programs -/

/-- A program as text: every instruction on a line of its own, closed by a line feed. -/
def print (source : List SourceInstruction) : String := Text.unlines (source.map Instruction.text)

/-- The same without the last line feed. -/
def printOpen (source : List SourceInstruction) : String :=
  "\n".intercalate (source.map Instruction.text)

section

variable {source : List SourceInstruction} (h : ∀ i ∈ source, i.op.Readable)
include h

theorem newline_notMem_texts : ∀ l ∈ source.map Instruction.text, '\n' ∉ l.toList := by
  intro l hl
  obtain ⟨i, hi, rfl⟩ := List.mem_map.mp hl
  exact newline_notMem_text (Operation.isWord_text (h i hi))

theorem readProgram_print : readProgram (print source) = .ok source := by
  have hlines := Text.lines_unlines (newline_notMem_texts h)
  rw [List.map_map] at hlines
  refine readProgram_of_lines h (fun line hline => ?_) hlines
  rw [List.mem_singleton.mp hline]
  rfl

theorem readProgram_printOpen : readProgram (printOpen source) = .ok source := by
  cases source with
  | nil => rfl
  | cons i rest =>
    have hlines := Text.lines_intercalate (newline_notMem_texts h) (List.cons_ne_nil _ _)
    rw [List.map_map] at hlines
    exact readProgram_of_lines h (fun line hline => by cases hline)
      (hlines.trans (List.append_nil _).symm)

end

/-- **Reading undoes printing.**  A program whose operations are mnemonics, or words that can
begin a line and are no mnemonics, is read back from its text, with or without the last line
feed.  What is read from any text is of this kind, also if other lines of the text are
refused; so a program that was read can be printed and read again.  Every lowered program is
of this kind too. -/
theorem reading_undoes_printing :
    (∀ source : List SourceInstruction, (∀ i ∈ source, i.op.Readable) →
        readProgram (print source) = .ok source ∧ readProgram (printOpen source) = .ok source) ∧
      (∀ (text : String) (i : SourceInstruction), .ok i ∈ read text → i.op.Readable) ∧
      (∀ (text : String) (source : List SourceInstruction), readProgram text = .ok source →
        (∀ i ∈ source, i.op.Readable) ∧ readProgram (print source) = .ok source ∧
          readProgram (printOpen source) = .ok source) ∧
      ∀ code : List LoweredInstruction,
        let source := code.map LoweredInstruction.toSource
        readProgram (print source) = .ok source ∧ readProgram (printOpen source) = .ok source := by
  refine ⟨fun source h => ⟨readProgram_print h, readProgram_printOpen h⟩,
    fun text i => readable_of_mem_read, fun text source hread => ?_, fun code => ?_⟩
  · have h : ∀ i ∈ source, i.op.Readable := fun i hi => by
      have hmem : .ok i ∈ read text := by
        rw [readProgram_eq_ok_iff.mp hread]
        exact List.mem_map_of_mem hi
      exact readable_of_mem_read hmem
    exact ⟨h, readProgram_print h, readProgram_printOpen h⟩
  · have h : ∀ i ∈ code.map LoweredInstruction.toSource, i.op.Readable := fun i hi => by
      obtain ⟨j, -, rfl⟩ := List.mem_map.mp hi
      trivial
    exact ⟨readProgram_print h, readProgram_printOpen h⟩

/-- The least operand there is, behind a word that is not ASCII.  The second text has a comment,
signs and blanks that its program does not show; the program can be printed and read again. -/
theorem reading_undoes_printing_least :
    let word : SourceInstruction := ⟨.unrecognized "é#1", Int64.minValue, -1, 7⟩
    let text := "\tADD +1 2  3\r\n# no\u3000\nfoo -0"
    let source : List SourceInstruction :=
      [⟨.known (.binary .add), 1, 2, 3⟩, ⟨.unrecognized "foo", 0, 0, 0⟩]
    (word.op.Readable ∧ print [word] = "é#1 -9223372036854775808 -1 7\n" ∧
        readProgram (print [word]) = .ok [word]) ∧
      readProgram text = .ok source ∧ print source = "ADD 1 2 3\nfoo 0 0 0\n" ∧
        (∀ i ∈ source, i.op.Readable) ∧ readProgram (print source) = .ok source := by
  intro word text source
  have hword : word.op.Readable := ⟨by decide, by decide, by decide,
    Opcode.ofMnemonic?_eq_none_iff.mp (by decide)⟩
  have hread : readProgram text = .ok source := by
    have htext : (readProgram text).toOption = some source := by decide +kernel
    cases hresult : readProgram text with
    | ok p =>
      rw [hresult] at htext
      exact congrArg _ (Option.some.inj htext)
    | error e =>
      rw [hresult] at htext
      cases htext
  obtain ⟨hprint, -, hagain, -⟩ := reading_undoes_printing
  obtain ⟨hreadable, hsource, -⟩ := hagain text source hread
  refine ⟨⟨hword, by decide, (hprint [word] ?_).1⟩, hread, by decide, hreadable, hsource⟩
  exact fun i hi => List.mem_singleton.mp hi ▸ hword

end Source
end CrossAssembler
