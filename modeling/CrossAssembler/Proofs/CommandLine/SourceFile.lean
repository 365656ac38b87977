import CrossAssembler.CommandLine.SourceFile
import CrossAssembler.Proofs.Source.Locality

/-!
# The first error and all errors

A program is read in two ways.  One stops at the first line that is refused, and the other goes on
to report every such line.  Both look at the same results of the lines, in the same order.  As long
as no line is refused there is nothing to tell them apart; from the first refused line on, the one
knows this line and the other knows this line and those that are refused after it.

The files that a program is read from are given by a function, which finds the contents of a file
by its path.

## Main results

* `mapM_id_eq_error_iff` — putting results together fails with the first error among them.
* `readProgram_eq_error_iff` — the error of a program is the first of the errors of its text.
* `readProgramOrErrors_eq_ok_iff`, `readProgramOrErrors_eq_error_iff` — what the other way of
  reading gives.
* `readers_agree` — the two ways compared for the text of a file.
-/

namespace CrossAssembler
namespace Source

/-! ### The first error -/

/-- **Results are put together up to the first error.** -/
theorem mapM_id_eq_error_iff {ε α : Type} {results : List (Except ε α)} {e : ε} :
    results.mapM id = .error e ↔
      ∃ (values : List α) (rest : List (Except ε α)),
        results = values.map .ok ++ .error e :: rest := by
  constructor
  · intro h
    induction results with
    | nil => cases h
    | cons r results ih =>
      rw [List.mapM_cons] at h
      cases r with
      | error e' =>
        cases h
        exact ⟨[], results, rfl⟩
      | ok v =>
        cases hrest : results.mapM id with
        | error e' =>
          rw [hrest] at h
          cases h
          obtain ⟨values, rest, rfl⟩ := ih hrest
          exact ⟨v :: values, rest, rfl⟩
        | ok others =>
          rw [hrest] at h
          cases h
  · rintro ⟨values, rest, rfl⟩
    induction values with
    | nil => rfl
    | cons v values ih =>
      rw [List.map_cons, List.cons_append, List.mapM_cons, ih]
      rfl

/-- There is no error among results that are none. -/
theorem filterMap_error?_map_ok {ε α : Type} (values : List α) :
    (values.map .ok : List (Except ε α)).filterMap error? = [] := by
  rw [List.filterMap_eq_nil_iff]
  intro r hr
  obtain ⟨v, -, rfl⟩ := List.mem_map.mp hr
  rfl

theorem errors_of_readProgram_eq_ok {text : String} {program : List SourceInstruction}
    (h : readProgram text = .ok program) : errors text = [] := by
  rw [errors_eq, readProgram_eq_ok_iff.mp h, filterMap_error?_map_ok]

theorem errors_of_readProgram_eq_error {text : String} {e : SourceError}
    (h : readProgram text = .error e) : ∃ others, errors text = e :: others := by
  obtain ⟨before, rest, hread⟩ := mapM_id_eq_error_iff.mp h
  refine ⟨rest.filterMap error?, ?_⟩
  rw [errors_eq, hread, List.filterMap_append, filterMap_error?_map_ok]
  rfl

/-- **The error of a program is the first of the errors of its text.** -/
theorem readProgram_eq_error_iff {text : String} {e : SourceError} :
    readProgram text = .error e ↔ ∃ others, errors text = e :: others := by
  constructor
  · exact errors_of_readProgram_eq_error
  · rintro ⟨others, herrors⟩
    cases h : readProgram text with
    | ok program =>
      rw [errors_of_readProgram_eq_ok h] at herrors
      cases herrors
    | error e' =>
      obtain ⟨others', herrors'⟩ := errors_of_readProgram_eq_error h
      rw [herrors'] at herrors
      cases herrors
      rfl

/-! ### All errors -/

theorem readProgramOrErrors_eq_error_iff {text : String} {es : List SourceError} :
    readProgramOrErrors text = .error es ↔ errors text = es ∧ es ≠ [] := by
  rw [readProgramOrErrors]
  cases herrors : errors text with
  | nil =>
    constructor
    · intro h
      cases h
    · rintro ⟨rfl, hne⟩
      exact absurd rfl hne
  | cons e others =>
    constructor
    · intro h
      cases h
      exact ⟨rfl, List.cons_ne_nil e others⟩
    · rintro ⟨rfl, -⟩
      rfl

/-- **A text without errors is read as the same program in both ways.** -/
theorem readProgramOrErrors_eq_ok_iff {text : String} {program : List SourceInstruction} :
    readProgramOrErrors text = .ok program ↔ readProgram text = .ok program := by
  cases h : readProgram text with
  | ok program' =>
    have hall : readProgramOrErrors text = .ok program' := by
      rw [readProgramOrErrors, errors_of_readProgram_eq_ok h, readProgram_eq_ok_iff.mp h]
      simp [List.filterMap_map, Function.comp_def, Except.toOption]
    simp [hall]
  | error e =>
    obtain ⟨others, herrors⟩ := readProgram_eq_error_iff.mp h
    have hall := readProgramOrErrors_eq_error_iff.mpr ⟨herrors, List.cons_ne_nil e others⟩
    simp [hall]

end Source

namespace CommandLine

/-! ### Files -/

/-- The encoding of a text is read as this text. -/
theorem fromUTF8?_toUTF8 (text : String) : String.fromUTF8? text.toUTF8 = some text := by
  simp only [String.fromUTF8?, String.toUTF8_eq_toByteArray, dif_pos text.isValidUTF8]
  rfl

section

variable {read : String → Except FileError ByteArray} {path text : String}
variable (h : read path = .ok text.toUTF8)
include h

theorem readText_of_toUTF8 : readText read path = .ok text := by
  rw [readText, h]
  simp only [fromUTF8?_toUTF8]

theorem readSource_of_toUTF8 :
    readSource read path = (Source.readProgramOrErrors text).mapError .lines := by
  rw [readSource, readText_of_toUTF8 h]
  rfl

theorem readSource_eq_ok_iff {program : List SourceInstruction} :
    readSource read path = .ok program ↔ Source.readProgram text = .ok program := by
  rw [readSource_of_toUTF8 h, ← Source.readProgramOrErrors_eq_ok_iff]
  cases Source.readProgramOrErrors text <;> simp [Except.mapError]

theorem readSource_eq_error_iff {failure : SourceFileError} :
    readSource read path = .error failure ↔
      failure = .lines (Source.errors text) ∧ Source.errors text ≠ [] := by
  rw [readSource_of_toUTF8 h]
  constructor
  · intro hfailure
    cases hall : Source.readProgramOrErrors text with
    | ok program =>
      rw [hall] at hfailure
      cases hfailure
    | error es =>
      rw [hall] at hfailure
      cases hfailure
      obtain ⟨rfl, hne⟩ := Source.readProgramOrErrors_eq_error_iff.mp hall
      exact ⟨rfl, hne⟩
  · rintro ⟨rfl, hne⟩
    rw [Source.readProgramOrErrors_eq_error_iff.mpr ⟨rfl, hne⟩]
    rfl

theorem isOk_readSource : (readSource read path).isOk = (Source.readProgram text).isOk := by
  cases hprogram : Source.readProgram text with
  | ok program =>
    rw [(readSource_eq_ok_iff h).mpr hprogram]
    rfl
  | error e =>
    obtain ⟨others, herrors⟩ := Source.readProgram_eq_error_iff.mp hprogram
    have hne : Source.errors text ≠ [] := by simp [herrors]
    rw [(readSource_eq_error_iff h).mpr ⟨rfl, hne⟩]
    rfl

end

/-- **The two ways to read a program agree.**  For a file that holds a text, reading the file and
reading the text both give a program or both fail, and the program is the same.  If they fail, the
file is reported with a message for each line that is refused, in the order of the lines: the path,
a colon and the wording of the error of that line.  The first message is about the very error that
reading the text gives. -/
theorem readers_agree (read : String → Except FileError ByteArray) (path text : String)
    (h : read path = .ok text.toUTF8) :
    (readSource read path).isOk = (Source.readProgram text).isOk ∧
    (∀ program, readSource read path = .ok program ↔ Source.readProgram text = .ok program) ∧
    ∀ failure, readSource read path = .error failure →
      ∃ first others, Source.readProgram text = .error first ∧
        failure.messages path = (first :: others).map (fun e => path ++ ":" ++ e.message) ∧
        (first :: others).Pairwise (fun e e' => e.line < e'.line) ∧
        ∀ e, e ∈ first :: others ↔
          ∃ line, Text.LineAt text.toList e.line line ∧
            Source.readLine line = some (.error e.cause) := by
  refine ⟨isOk_readSource h, fun program => readSource_eq_ok_iff h, fun failure hfailure => ?_⟩
  obtain ⟨rfl, hne⟩ := (readSource_eq_error_iff h).mp hfailure
  obtain ⟨first, others, herrors⟩ := List.exists_cons_of_ne_nil hne
  have hpairwise := Source.pairwise_errors text
  have hmem : ∀ e, e ∈ Source.errors text ↔ ∃ line, Text.LineAt text.toList e.line line ∧
      Source.readLine line = some (.error e.cause) := fun e =>
    Source.mem_errors_iff.trans Source.error_mem_read_iff
  rw [herrors] at hpairwise hmem ⊢
  exact ⟨first, others, Source.readProgram_eq_error_iff.mpr ⟨others, herrors⟩, rfl, hpairwise, hmem⟩

/-- Of three lines the first and the last are refused, the one in between ends in a carriage
return. -/
theorem readers_agree_two :
    let text := "ADD 1 2\nNOP\r\n\tCOP x 1"
    let read : String → Except FileError ByteArray := fun _ => .ok text.toUTF8
    let failure : SourceFileError :=
      .lines [⟨1, .missingOperands (.binary .add) 3 2⟩, ⟨3, .invalidInteger "x"⟩]
    readSource read "a.s" = .error failure ∧
      (Source.readProgram text).isOk = false ∧
      failure.messages "a.s" = ["a.s:L1: ADD expects 3 operands but found 2",
        "a.s:L3: Invalid integer operand: x"] ∧
      ∃ first, Source.readProgram text = .error first ∧
        (failure.messages "a.s").head? = some ("a.s:" ++ first.message) := by
  intro text read failure
  have herrors : Source.errors text =
      [⟨1, .missingOperands (.binary .add) 3 2⟩, ⟨3, .invalidInteger "x"⟩] := by decide +kernel
  have htext : read "a.s" = .ok text.toUTF8 := rfl
  have hfailure : readSource read "a.s" = .error failure := by
    rw [readSource_eq_error_iff htext, herrors]
    exact ⟨rfl, List.cons_ne_nil _ _⟩
  obtain ⟨hok, -, hmessages⟩ := readers_agree read "a.s" text htext
  obtain ⟨first, others, hfirst, hlines, -⟩ := hmessages failure hfailure
  refine ⟨hfailure, ?_, by decide +kernel, first, hfirst, ?_⟩
  · rw [← hok, hfailure]
    rfl
  · rw [hlines]
    rfl

end CommandLine
end CrossAssembler
