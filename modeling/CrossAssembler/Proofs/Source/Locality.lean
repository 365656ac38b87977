import CrossAssembler.Proofs.Lists
import CrossAssembler.Proofs.Source.RoundTrip
import CrossAssembler.Proofs.Text.Lines

/-!
# Lines are read one by one

Reading a text reads its lines, and no line knows of another.  All that a line has from its text is
its number, which it leaves in the error if it is refused.  So what is read from two texts, one
under the other, is what is read from the first and then what is read from the second, with larger
numbers.

The outcomes of the lines are therefore taken apart from their numbers: `outcomes` is what each line
is read as, and `located` numbers the lines and leaves out those that hold nothing.

## Main definitions

* `outcomes`, `located` — what the lines are read as, and the same with their numbers.
* `SourceError.below` — the error of a line, further down.
* `error?` — the error among the two kinds of results.

## Main results

* `located_append`, `located_add` — numbering the outcomes of two texts, one under the other.
* `error_mem_read_iff` — the errors of a text are those of its lines, by number.
* `pairwise_errors` — the errors come in the order of their lines.
* `reading_is_line_local` — all of this for the texts themselves.
-/

namespace CrossAssembler
namespace Source

/-! ### Outcomes and their numbers -/

/-- What each line of a text is read as. -/
def outcomes (text : String) : List (Option (Except ReadError SourceInstruction)) :=
  (Text.lines text.toList).map readLine

/-- The outcomes of lines that are numbered from `number` on, without the lines that hold
nothing. -/
def located (number : Nat) (os : List (Option (Except ReadError SourceInstruction))) :
    List (Except SourceError SourceInstruction) :=
  (os.zipIdx number).filterMap fun o => o.1.map (·.mapError (SourceError.mk o.2))

/-- The same error, `n` lines further down. -/
def SourceError.below (e : SourceError) (n : Nat) : SourceError := { e with line := e.line + n }

/-- The error that a result is, if it is one. -/
def error? {ε α : Type} : Except ε α → Option ε
  | .ok _ => none
  | .error e => some e

theorem error?_eq_some_iff {ε α : Type} {r : Except ε α} {e : ε} :
    error? r = some e ↔ r = .error e := by
  cases r <;> simp [error?]

theorem errors_eq (text : String) : errors text = (read text).filterMap error? := by
  refine congrFun (congrArg List.filterMap (funext fun r => ?_)) (read text)
  cases r <;> rfl

theorem read_eq_located (text : String) : read text = located 1 (outcomes text) := by
  rw [read_eq, located, outcomes, List.zipIdx_map, List.filterMap_map]
  rfl

theorem located_append (number : Nat)
    (os os' : List (Option (Except ReadError SourceInstruction))) :
    located number (os ++ os') = located number os ++ located (number + os.length) os' := by
  rw [located, List.zipIdx_append, List.filterMap_append]
  rfl

/-- Numbers that begin later make the errors stand further down. -/
theorem located_add (number n : Nat)
    (os : List (Option (Except ReadError SourceInstruction))) :
    located (number + n) os = (located number os).map (·.mapError (·.below n)) := by
  induction os generalizing number with
  | nil => rfl
  | cons o os ih =>
    have hrest := ih (number + 1)
    rw [Nat.add_right_comm] at hrest
    simp only [located] at hrest ⊢
    simp only [List.zipIdx_cons, List.filterMap_cons, hrest]
    cases o with
    | none => rfl
    | some outcome => cases outcome <;> rfl

theorem error_mem_located_iff {number : Nat}
    {os : List (Option (Except ReadError SourceInstruction))} {e : SourceError} :
    .error e ∈ located number os ↔
      ∃ i, e.line = number + i ∧ os[i]? = some (some (.error e.cause)) := by
  rw [located, List.mem_filterMap]
  constructor
  · rintro ⟨⟨o, line⟩, hmem, hlocated⟩
    obtain ⟨outcome, rfl, herror⟩ := Option.map_eq_some_iff.mp hlocated
    cases outcome with
    | ok i => cases herror
    | error cause =>
      cases herror
      obtain ⟨hle, ho⟩ := List.mk_mem_zipIdx_iff_le_and_getElem?_sub.mp hmem
      exact ⟨line - number, (Nat.add_sub_cancel' hle).symm, ho⟩
  · rintro ⟨i, hline, ho⟩
    refine ⟨(some (.error e.cause), e.line), ?_, rfl⟩
    rw [List.mk_mem_zipIdx_iff_le_and_getElem?_sub, hline, Nat.add_sub_cancel_left]
    exact ⟨Nat.le_add_right _ _, ho⟩

/-- An error has the number of the outcome that it was made of. -/
theorem line_of_mapError {o : Option (Except ReadError SourceInstruction)} {number : Nat}
    {r : Except SourceError SourceInstruction} {e : SourceError}
    (hr : o.map (·.mapError (SourceError.mk number)) = some r) (he : r = .error e) :
    e.line = number := by
  subst he
  obtain ⟨outcome, -, herror⟩ := Option.map_eq_some_iff.mp hr
  cases outcome with
  | ok i => cases herror
  | error cause =>
    cases herror
    rfl

/-! ### Texts -/

/-- **The outcomes of two texts, one under the other.** -/
theorem outcomes_append_newline (s t : String) :
    outcomes (s ++ "\n" ++ t) = outcomes s ++ outcomes t := by
  have htext : (s ++ "\n" ++ t).toList = s.toList ++ '\n' :: t.toList := by simp
  rw [outcomes, htext, Text.lines_append_newline, List.map_append]
  rfl

theorem length_outcomes (text : String) :
    (outcomes text).length = text.toList.count '\n' + 1 := by
  rw [outcomes, List.length_map, Text.length_lines]

/-- A blank behind a line does not change what it is read as. -/
theorem readLine_append_blank {c : Char} (hc : Text.isBlank c = true) (line : List Char) :
    readLine (line ++ [c]) = readLine line := by
  rw [readLine, instructionWords?, Text.words_append_blank hc, readLine, instructionWords?]

/-- Nor does a carriage return behind a text. -/
theorem outcomes_append_return (text : String) : outcomes (text ++ "\r") = outcomes text := by
  have htext : (text ++ "\r").toList = text.toList ++ ['\r'] := by simp
  have hblank : Text.isBlank '\r' = true := by decide
  rw [outcomes, htext,
    Text.map_lines_append_singleton (by decide) (readLine_append_blank hblank), outcomes]

theorem mem_errors_iff {text : String} {e : SourceError} :
    e ∈ errors text ↔ .error e ∈ read text := by
  simp [errors_eq, error?_eq_some_iff]

/-- **The errors of a text are those of its lines**, each with the number of its line. -/
theorem error_mem_read_iff {text : String} {e : SourceError} :
    .error e ∈ read text ↔
      ∃ line, Text.LineAt text.toList e.line line ∧ readLine line = some (.error e.cause) := by
  rw [read_eq_located, error_mem_located_iff]
  simp only [outcomes, List.getElem?_map, Option.map_eq_some_iff, Text.lineAt_iff]
  constructor
  · rintro ⟨i, hnumber, line, hline, hread⟩
    exact ⟨line, ⟨i, by rw [hnumber, Nat.add_comm], hline⟩, hread⟩
  · rintro ⟨line, ⟨i, hnumber, hline⟩, hread⟩
    exact ⟨i, by rw [hnumber, Nat.add_comm], line, hline, hread⟩

/-- **The errors of a text come in the order of their lines**, and no line has two. -/
theorem pairwise_errors (text : String) : (errors text).Pairwise fun e e' => e.line < e'.line := by
  have hread : (read text).Pairwise fun r r' =>
      ∀ e, r = .error e → ∀ e', r' = .error e' → e.line < e'.line := by
    rw [read_eq_located, located, List.pairwise_filterMap]
    refine (pairwise_zipIdx (outcomes text) 1).imp ?_
    intro o o' hlt r hr r' hr' e he e' he'
    rw [line_of_mapError hr he, line_of_mapError hr' he']
    exact hlt
  rw [errors_eq, List.pairwise_filterMap]
  refine hread.imp ?_
  intro r r' hlt e he e' he'
  exact hlt e (error?_eq_some_iff.mp he) e' (error?_eq_some_iff.mp he')

/-! ### Two texts, one under the other -/

theorem read_append_newline (s t : String) :
    read (s ++ "\n" ++ t) =
      read s ++ (read t).map (·.mapError (·.below (1 + s.toList.count '\n'))) := by
  rw [read_eq_located, outcomes_append_newline, located_append, length_outcomes,
    Nat.add_comm _ 1, located_add, ← read_eq_located, ← read_eq_located]

/-- A carriage return before a line feed makes no difference. -/
theorem read_append_return_newline (s t : String) :
    read (s ++ "\r\n" ++ t) = read (s ++ "\n" ++ t) := by
  have hending : "\r\n" = "\r" ++ "\n" := rfl
  rw [read_eq_located, hending, ← String.append_assoc, outcomes_append_newline,
    outcomes_append_return, ← outcomes_append_newline, ← read_eq_located]

/-- A line that holds something is not empty. -/
theorem ne_nil_of_readLine_eq_some {line : List Char}
    {outcome : Except ReadError SourceInstruction} (h : readLine line = some outcome) :
    line ≠ [] := by
  rintro rfl
  cases h

/-- No error stands further down than the last line. -/
theorem line_le_lineCount {text : String} {e : SourceError} (h : e ∈ errors text) :
    e.line ≤ Text.lineCount text.toList := by
  obtain ⟨line, hline, hread⟩ := error_mem_read_iff.mp (mem_errors_iff.mp h)
  exact hline.le_lineCount (ne_nil_of_readLine_eq_some hread)

theorem lineCount_lt_size {s t : String}
    (h : Text.lineCount s.toList + Text.lineCount t.toList < 4294967295) :
    Text.lineCount (s ++ "\n" ++ t).toList < UInt32.size := by
  have htext : (s ++ "\n" ++ t).toList = s.toList ++ '\n' :: t.toList := by simp
  have hle := Text.count_le_lineCount s.toList
  rw [htext, Text.lineCount_append_newline]
  simp only [UInt32.size]
  omega

/-- **Reading is local to the lines of a text.**  What is read from two texts, one under the other,
is what is read from the first, followed by what is read from the second, whose errors stand further
down by the lines of the first.  The errors of a text are those of its lines, each with the number
of its line, where every line counts; they come in the order of these numbers.  Whether a line feed
has a carriage return before it makes no difference.

If two texts have fewer than 2³² - 1 lines in all, then one under the other they have fewer than
2³², and no number of a line exceeds 32 bits. -/
theorem reading_is_line_local :
    (∀ s t : String, read (s ++ "\n" ++ t) =
      read s ++ (read t).map (·.mapError (·.below (1 + s.toList.count '\n')))) ∧
    (∀ (text : String) (e : SourceError), .error e ∈ read text ↔
      ∃ line, Text.LineAt text.toList e.line line ∧ readLine line = some (.error e.cause)) ∧
    (∀ text : String, (errors text).Pairwise fun e e' => e.line < e'.line) ∧
    (∀ s t : String, read (s ++ "\r\n" ++ t) = read (s ++ "\n" ++ t)) ∧
    ∀ s t : String, Text.lineCount s.toList + Text.lineCount t.toList < 4294967295 →
      Text.lineCount (s ++ "\n" ++ t).toList < UInt32.size ∧
        ∀ e ∈ errors (s ++ "\n" ++ t), e.line < UInt32.size := by
  refine ⟨read_append_newline, fun text e => error_mem_read_iff, pairwise_errors,
    read_append_return_newline, fun s t hcount => ⟨lineCount_lt_size hcount, fun e he => ?_⟩⟩
  exact Nat.lt_of_le_of_lt (line_le_lineCount he) (lineCount_lt_size hcount)

/-- Two texts whose seam is at a directive with a carriage return and at an empty line.  The error
in the second line of the lower text becomes the error of the fourth line. -/
theorem reading_is_line_local_seam :
    let s := "ADD 1\r\n.x\r"
    let t := "\n COP 0 y\n"
    let e : SourceError := ⟨2, .invalidInteger "y"⟩
    e ∈ errors t ∧ Text.lineCount s.toList + Text.lineCount t.toList < 4294967295 ∧
      e.below 2 ∈ errors (s ++ "\n" ++ t) ∧
      (∃ line, Text.LineAt (s ++ "\n" ++ t).toList 4 line ∧
        readLine line = some (.error (.invalidInteger "y"))) ∧
      (e.below 2).line < UInt32.size := by
  intro s t e
  have he : e ∈ errors t := by decide +kernel
  have hcount : Text.lineCount s.toList + Text.lineCount t.toList < 4294967295 := by decide +kernel
  obtain ⟨hjoined, hlines, -, -, hsize⟩ := reading_is_line_local
  have hbelow : .error (e.below 2) ∈ read (s ++ "\n" ++ t) := by
    have hfeeds : 1 + s.toList.count '\n' = 2 := by decide +kernel
    rw [hjoined s t, hfeeds]
    exact List.mem_append_right _ (List.mem_map_of_mem (mem_errors_iff.mp he))
  have hmem := mem_errors_iff.mpr hbelow
  exact ⟨he, hcount, hmem, (hlines _ _).mp hbelow, (hsize s t hcount).2 _ hmem⟩

end Source
end CrossAssembler
