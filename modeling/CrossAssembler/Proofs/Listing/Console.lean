import CrossAssembler.Listing.Console
import CrossAssembler.Proofs.Lowering.Origins
import CrossAssembler.Proofs.Source.RoundTrip
import Mathlib.Control.Monad.Basic

/-!
# A listing can be read back

A listing puts two kinds of lines one under the other, with nothing between them to say where the
second kind begins, and it quotes words that the author of the source has chosen.  Nevertheless it
tells all: a word holds no blank, whatever else it holds, so every line has as many words as its
kind asks for, and the number of its words tells the kind of a line.  An instruction has six, an
unrecognized word four, and a load that is not tracked eight.

That the words of a source hold no blank is due to the reader, which cuts its lines at blanks.

## Main definitions

* `Record` — what a line shows.
* `Record.words`, `Record.ofWords?` — the words of its line, and what the words of a line show.
* `records`, `loweredOf` — what a listing shows, and the lowering that a listing is of.

## Main results

* `Record.ofWords?_words` — the words of a line tell what it shows.
* `loweredOf_console` — the listing of a lowering is read back as this lowering.
* `legible_of_lower` — what is quoted from a source can be told from the rest of its line.
* `listing_is_unambiguous` — lowerings with the same listing are the same.
-/

namespace CrossAssembler
namespace Listing

open Lowering
open Text (IsWord)

/-! ### Lines -/

/-- What a line of a listing shows. -/
inductive Record where
  /-- An instruction of the lowered program. -/
  | entry (entry : Entry)
  /-- A problem of the source. -/
  | diagnostic (diagnostic : Diagnostic)

/-- The index of a source instruction at the beginning of a line. -/
def bracketed (index : Nat) : List Char := '[' :: (Nat.toDigits 10 index ++ [']'])

/-- The index between brackets. -/
def index? : List Char → Option Nat
  | '[' :: rest => Numeral.nat? 10 rest.dropLast
  | _ => none

theorem index?_bracketed (index : Nat) : index? (bracketed index) = some index := by
  rw [bracketed, index?, List.dropLast_concat, Numeral.nat?_toDigits]

theorem isWord_bracketed (index : Nat) : IsWord (bracketed index) := by
  refine ⟨List.cons_ne_nil _ _, fun c hc => ?_⟩
  rcases List.mem_cons.mp hc with rfl | hc
  · decide
  · rcases List.mem_append.mp hc with hc | hc
    · exact (Numeral.isWord_toDigits index).not_blank c hc
    · rw [List.mem_singleton.mp hc]
      decide

namespace Record

/-- The line that shows a record. -/
def line : Record → String
  | entry e => entryLine e
  | diagnostic d => d.message

/-- The words of this line. -/
def words : Record → List (List Char)
  | entry ⟨⟨op, a, b, c⟩, origin⟩ =>
    [bracketed origin, [':'], op.mnemonic.toList, (toString a).toList, (toString b).toList,
      (toString c).toList]
  | diagnostic (.unrecognized index word) =>
    [bracketed index, "Unrecognized".toList, "command:".toList, word.toList]
  | diagnostic (.untrackedRegister index register) =>
    [bracketed index, "LOAD".toList, "into".toList, "register".toList, (toString register).toList,
      "is".toList, "not".toList, "tracked".toList]

/-- What the words of a line show.  The number of the words tells what there is to read. -/
def ofWords? : List (List Char) → Option Record
  | [index, _, op, a, b, c] => do
    let origin ← index? index
    let op ← Opcode.ofMnemonic? (String.ofList op)
    return entry ⟨⟨op, ← Numeral.int64? a, ← Numeral.int64? b, ← Numeral.int64? c⟩, origin⟩
  | [index, _, _, word] => do
    return diagnostic (.unrecognized (← index? index) (String.ofList word))
  | [index, _, _, _, register, _, _, _] => do
    return diagnostic (.untrackedRegister (← index? index) (← Numeral.int64? register))
  | _ => none

/-- **The words of a line tell what it shows.** -/
theorem ofWords?_words (r : Record) : ofWords? r.words = some r := by
  cases r with
  | entry e =>
    obtain ⟨⟨op, a, b, c⟩, origin⟩ := e
    simp [words, ofWords?, index?_bracketed, Numeral.int64?_toString, Opcode.ofMnemonic?_mnemonic]
  | diagnostic d =>
    cases d with
    | unrecognized index word => simp [words, ofWords?, index?_bracketed]
    | untrackedRegister index register =>
      simp [words, ofWords?, index?_bracketed, Numeral.int64?_toString]

/-- The words stand one blank apart in the line. -/
theorem toList_line (r : Record) : r.line.toList = [' '].intercalate r.words := by
  cases r with
  | entry e =>
    obtain ⟨⟨op, a, b, c⟩, origin⟩ := e
    have hline : (entry ⟨⟨op, a, b, c⟩, origin⟩).line =
        "[" ++ toString origin ++ "] : " ++ (op.mnemonic ++ " " ++ toString a ++ " " ++ toString b
          ++ " " ++ toString c) := rfl
    rw [hline]
    simp [words, bracketed]
  | diagnostic d =>
    cases d with
    | unrecognized index word =>
      have hline : (diagnostic (.unrecognized index word)).line =
          "[" ++ toString index ++ "] Unrecognized command: " ++ word := rfl
      rw [hline]
      simp [words, bracketed]
    | untrackedRegister index register =>
      have hline : (diagnostic (.untrackedRegister index register)).line =
          "[" ++ toString index ++ "] LOAD into register " ++ toString register
            ++ " is not tracked" := rfl
      rw [hline]
      simp [words, bracketed]

/-- What the line quotes is one word. -/
def Legible : Record → Prop
  | diagnostic (.unrecognized _ word) => IsWord word.toList
  | _ => True

theorem isWord_of_mem_words {r : Record} (h : r.Legible) : ∀ w ∈ r.words, IsWord w := by
  cases r with
  | entry e =>
    obtain ⟨⟨op, a, b, c⟩, origin⟩ := e
    have hcolon : IsWord [':'] := by decide
    simp [words, isWord_bracketed, hcolon, Opcode.isWord_mnemonic, Numeral.isWord_toString]
  | diagnostic d =>
    cases d with
    | unrecognized index word =>
      have hquoted : IsWord word.toList := h
      have hwords : IsWord "Unrecognized".toList ∧ IsWord "command:".toList := by decide
      simp only [words, List.forall_mem_cons]
      exact ⟨isWord_bracketed index, hwords.1, hwords.2, hquoted, List.forall_mem_nil _⟩
    | untrackedRegister index register =>
      have hfront : IsWord "LOAD".toList ∧ IsWord "into".toList ∧ IsWord "register".toList := by
        decide
      have hback : IsWord "is".toList ∧ IsWord "not".toList ∧ IsWord "tracked".toList := by decide
      simp only [words, List.forall_mem_cons]
      exact ⟨isWord_bracketed index, hfront.1, hfront.2.1, hfront.2.2,
        Numeral.isWord_toString register, hback.1, hback.2.1, hback.2.2, List.forall_mem_nil _⟩

/-- **A line is read as what it shows.** -/
theorem ofWords?_line {r : Record} (h : r.Legible) :
    ofWords? (Text.words r.line.toList) = some r := by
  rw [toList_line, Text.words_intercalate (isWord_of_mem_words h), ofWords?_words]

theorem newline_notMem_line {r : Record} (h : r.Legible) : '\n' ∉ r.line.toList := by
  rw [toList_line]
  exact Text.newline_notMem_intercalate (isWord_of_mem_words h)

/-- The instruction that a line shows, if it shows one. -/
def entry? : Record → Option Entry
  | entry e => some e
  | diagnostic _ => none

/-- The problem that a line shows, if it shows one. -/
def diagnostic? : Record → Option Diagnostic
  | entry _ => none
  | diagnostic d => some d

end Record

/-! ### Listings -/

/-- What the listing of a lowering shows, line by line. -/
def records (lowered : Lowered) : List Record :=
  lowered.program.entries.map .entry ++ lowered.diagnostics.map .diagnostic

/-- What the lines of a text show. -/
def recordsOf (text : String) : List Record :=
  (Text.lines text.toList).filterMap fun line => Record.ofWords? (Text.words line)

/-- The lowering that a text is the listing of. -/
def loweredOf (text : String) : Lowered :=
  ⟨⟨(recordsOf text).filterMap Record.entry?⟩, (recordsOf text).filterMap Record.diagnostic?⟩

theorem console_eq (lowered : Lowered) :
    console lowered = Text.unlines ((records lowered).map Record.line) := by
  rw [records, List.map_append, List.map_map, List.map_map]
  rfl

theorem filterMap_entry?_records (lowered : Lowered) :
    (records lowered).filterMap Record.entry? = lowered.program.entries := by
  rw [records, List.filterMap_append, List.filterMap_map, List.filterMap_map]
  simp [Function.comp_def, Record.entry?]

theorem filterMap_diagnostic?_records (lowered : Lowered) :
    (records lowered).filterMap Record.diagnostic? = lowered.diagnostics := by
  rw [records, List.filterMap_append, List.filterMap_map, List.filterMap_map]
  simp [Function.comp_def, Record.diagnostic?]

section

variable {lowered : Lowered} (h : ∀ r ∈ records lowered, r.Legible)
include h

theorem recordsOf_console : recordsOf (console lowered) = records lowered := by
  have hlines : ∀ l ∈ (records lowered).map Record.line, '\n' ∉ l.toList := by
    intro l hl
    obtain ⟨r, hr, rfl⟩ := List.mem_map.mp hl
    exact Record.newline_notMem_line (h r hr)
  have hread : (records lowered).filterMap
      ((fun line => Record.ofWords? (Text.words line)) ∘ String.toList ∘ Record.line) =
        (records lowered).filterMap some :=
    List.filterMap_congr fun r hr => Record.ofWords?_line (h r hr)
  -- behind the last line feed there is an empty line, which shows nothing
  have hlast : Record.ofWords? (Text.words []) = none := rfl
  rw [recordsOf, console_eq, Text.lines_unlines hlines, List.filterMap_append, List.map_map,
    List.filterMap_map, hread]
  simp [hlast]

/-- **The listing of a lowering is read back as this lowering.** -/
theorem loweredOf_console : loweredOf (console lowered) = lowered := by
  rw [loweredOf, recordsOf_console h, filterMap_entry?_records, filterMap_diagnostic?_records]

end

/-! ### Listings of sources -/

/-- Only a word that names no operation is reported as one. -/
theorem op_of_problem? {registers index index' : Nat} {i : SourceInstruction} {word : String}
    (h : problem? registers index i = some (.unrecognized index' word)) :
    i.op = .unrecognized word := by
  unfold problem? at h
  split at h
  · rename_i hop
    cases h
    exact hop
  · split at h
    all_goals cases h
  · cases h

/-- **What is quoted from a source is one word**, since the source was cut into words. -/
theorem legible_of_lower {text : String} {source : List SourceInstruction} {registers : Nat}
    {lowered : Lowered} (hread : Source.readProgram text = .ok source)
    (hlower : lower source registers = .ok lowered) : ∀ r ∈ records lowered, r.Legible := by
  intro r hr
  rcases List.mem_append.mp hr with hr | hr
  · obtain ⟨e, -, rfl⟩ := List.mem_map.mp hr
    trivial
  · obtain ⟨d, hd, rfl⟩ := List.mem_map.mp hr
    obtain ⟨hN, rfl⟩ := of_lower hlower
    have hsteps : d ∈ (programSteps (.empty registers) source).filterMap Step.diagnostic := hd
    rw [programSteps, diagnostics_steps (one_lt_size_start hN)] at hsteps
    obtain ⟨call, hcall, hproblem⟩ := List.mem_filterMap.mp hsteps
    cases d with
    | untrackedRegister index register => trivial
    | unrecognized index word =>
      have hop := op_of_problem? hproblem
      have hmem : .ok call.1 ∈ Source.read text := by
        rw [Source.readProgram_eq_ok_iff.mp hread]
        exact List.mem_map_of_mem (List.fst_mem_of_mem_zipIdx hcall)
      have hreadable := Source.readable_of_mem_read hmem
      rw [hop] at hreadable
      exact hreadable.isWord

/-- **Listings are unambiguous.**  Take two texts that are read as programs, and two register files
that these are lowered onto.  If the listings are the same, then so are the lowered programs, the
origins of their instructions and the problems of the sources. -/
theorem listing_is_unambiguous {s t : String} {p q : List SourceInstruction} {m n : Nat}
    {x y : Lowered} (hs : Source.readProgram s = .ok p) (ht : Source.readProgram t = .ok q)
    (hx : lower p m = .ok x) (hy : lower q n = .ok y) (h : console x = console y) :
    x.program.instructions = y.program.instructions ∧ x.program.origins = y.program.origins ∧
      x.diagnostics = y.diagnostics := by
  have hxy : x = y := by
    rw [← loweredOf_console (legible_of_lower hs hx), h, loweredOf_console (legible_of_lower ht hy)]
  rw [hxy]
  exact ⟨rfl, rfl, rfl⟩

/-- Two texts that differ in blanks, signs and operands that are not used, on register files of
different sizes.  The word that they share looks like the beginning of a line. -/
theorem listing_is_unambiguous_four :
    let s := "AFC 0 5\n[0]:ADD 7\nLOAD 9 1"
    let t := "\tAFC 00 +5\r\n[0]:ADD\n\nLOAD 9 1 3\n"
    let p : List SourceInstruction := [⟨.known .afc, 0, 5, 0⟩,
      ⟨.unrecognized "[0]:ADD", 7, 0, 0⟩, ⟨.known .load, 9, 1, 0⟩]
    let q : List SourceInstruction := [⟨.known .afc, 0, 5, 0⟩,
      ⟨.unrecognized "[0]:ADD", 0, 0, 0⟩, ⟨.known .load, 9, 1, 3⟩]
    Source.readProgram s = .ok p ∧ Source.readProgram t = .ok q ∧
      ∃ x y, lower p 8 = .ok x ∧ lower q 4 = .ok y ∧ console x = console y ∧
        console x = Text.unlines ["[0] : AFC 1 5 0", "[0] : STORE 0 1 0", "[2] : LOAD 9 1 0",
          "[1] Unrecognized command: [0]:ADD", "[2] LOAD into register 9 is not tracked"] ∧
        x.program.instructions = y.program.instructions ∧
        x.program.origins = y.program.origins ∧ x.diagnostics = y.diagnostics := by
  intro s t p q
  have hs : Source.readProgram s = .ok p := by decide +kernel
  have ht : Source.readProgram t = .ok q := by decide +kernel
  obtain ⟨x, hx⟩ : ∃ x, lower p 8 = .ok x := ⟨_, rfl⟩
  obtain ⟨y, hy⟩ : ∃ y, lower q 4 = .ok y := ⟨_, rfl⟩
  have hlisting : (lower p 8).map console = (lower q 4).map console ∧ (lower p 8).map console =
      .ok (Text.unlines ["[0] : AFC 1 5 0", "[0] : STORE 0 1 0", "[2] : LOAD 9 1 0",
        "[1] Unrecognized command: [0]:ADD", "[2] LOAD into register 9 is not tracked"]) := by
    decide +kernel
  rw [hx, hy] at hlisting
  have hsame : console x = console y := Except.ok.inj hlisting.1
  exact ⟨hs, ht, x, y, hx, hy, hsame, Except.ok.inj hlisting.2,
    listing_is_unambiguous hs ht hx hy hsame⟩

end Listing
end CrossAssembler
