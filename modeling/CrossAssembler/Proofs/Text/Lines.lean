import CrossAssembler.Proofs.Text.Words

/-!
# The lines of a text and their numbers

A line is found by its place: it begins where the text begins or behind a line feed, and it ends
where the text ends or before a line feed.  Its number is one more than the line feeds before it.
This says nothing about cutting, and cutting a text at its line feeds gives the lines in the order
of their numbers.

A text has a first line, and what stands behind the first line feed is again a text.
`lines_induction` is the induction that follows from this.

## Main definitions

* `LineAt` — the line of a text that has a given number.
* `lineCount` — how many lines a text has.

## Main results

* `lines_append_newline`, `length_lines` — the lines of two texts, one under the other.
* `lineAt_iff` — the pieces between line feeds are the lines, in the order of their numbers.
* `LineAt.le_lineCount` — no line but an empty one has a number above the number of lines.
* `words_append_blank`, `map_lines_append_singleton` — a blank behind a line, or behind a text.
-/

namespace CrossAssembler
namespace Text

/-! ### Cutting a text -/

theorem lines_of_newline_notMem {line : List Char} (h : '\n' ∉ line) : lines line = [line] :=
  List.splitOn_eq_singleton h

/-- The lines of two texts that are set one under the other. -/
theorem lines_append_newline (s t : List Char) : lines (s ++ '\n' :: t) = lines s ++ lines t :=
  List.splitOn_append_cons_self s t

theorem lines_cons {line : List Char} (h : '\n' ∉ line) (rest : List Char) :
    lines (line ++ '\n' :: rest) = line :: lines rest := by
  rw [lines_append_newline, lines_of_newline_notMem h, List.singleton_append]

/-- **Induction along the lines of a text.**  There is a last line, and every other line is
followed by a line feed and by the text that comes next. -/
@[elab_as_elim]
theorem lines_induction {motive : List Char → Prop}
    (last : ∀ line, '\n' ∉ line → motive line)
    (next : ∀ line rest, '\n' ∉ line → motive rest → motive (line ++ '\n' :: rest))
    (text : List Char) : motive text := by
  induction hlength : text.length using Nat.strongRecOn generalizing text with
  | ind length ih =>
    by_cases hmem : '\n' ∈ text
    · obtain ⟨line, rest, rfl, hline⟩ := List.eq_append_cons_of_mem hmem
      have hshorter : rest.length < length := by
        rw [← hlength, List.length_append, List.length_cons]
        omega
      exact next line rest hline (ih rest.length hshorter rest rfl)
    · exact last text hmem

/-- There is one line more than there are line feeds. -/
theorem length_lines (text : List Char) : (lines text).length = text.count '\n' + 1 := by
  induction text using lines_induction with
  | last line hline =>
    rw [lines_of_newline_notMem hline, List.count_eq_zero_of_not_mem hline]
    rfl
  | next line rest hline ih =>
    rw [lines_cons hline, List.length_cons, ih]
    simp [List.count_append, List.count_eq_zero_of_not_mem hline]

/-! ### Lines by number -/

/-- `LineAt text number line` says that `line` is the line of the text with the given number.
Lines are counted from one, and every line feed counts. -/
inductive LineAt (text : List Char) (number : Nat) (line : List Char) : Prop
  /-- What stands before the line is nothing or ends in a line feed, and what stands behind it is
  nothing or begins with one. -/
  | intro (before after : List Char) :
      text = before ++ line ++ after → '\n' ∉ line →
      before = [] ∨ before.getLast? = some '\n' → after = [] ∨ after.head? = some '\n' →
      number = before.count '\n' + 1 → LineAt text number line

/-- The first line of a text. -/
theorem lineAt_one {line : List Char} (h : '\n' ∉ line) {after : List Char}
    (hafter : after = [] ∨ after.head? = some '\n') : LineAt (line ++ after) 1 line :=
  .intro [] after rfl h (Or.inl rfl) hafter rfl

/-- A line more before a text makes every number one larger. -/
theorem LineAt.next {rest line : List Char} {number : Nat} (h : LineAt rest number line)
    {first : List Char} (hfirst : '\n' ∉ first) :
    LineAt (first ++ '\n' :: rest) (number + 1) line := by
  obtain ⟨before, after, htext, hline, hbefore, hafter, hnumber⟩ := h
  refine .intro (first ++ '\n' :: before) after ?_ hline (Or.inr ?_) hafter ?_
  · simp [htext]
  · rcases hbefore with rfl | hlast
    · simp
    · simp [List.getLast?_cons, hlast]
  · simp [hnumber, List.count_append, List.count_eq_zero_of_not_mem hfirst]

/-- What stands behind a line does not show in it. -/
theorem lines_append_after {line : List Char} (h : '\n' ∉ line) {after : List Char}
    (hafter : after = [] ∨ after.head? = some '\n') : (lines (line ++ after))[0]? = some line := by
  rcases hafter with rfl | hhead
  · rw [List.append_nil, lines_of_newline_notMem h]
    rfl
  · obtain ⟨rest, rfl⟩ := List.head?_eq_some_iff.mp hhead
    rw [lines_cons h]
    rfl

/-- **The pieces between line feeds are the lines of a text**, in the order of their numbers. -/
theorem lineAt_iff {text line : List Char} {number : Nat} :
    LineAt text number line ↔ ∃ i, number = i + 1 ∧ (lines text)[i]? = some line := by
  constructor
  · rintro ⟨before, after, rfl, hline, hbefore, hafter, rfl⟩
    refine ⟨before.count '\n', rfl, ?_⟩
    have hfirst := lines_append_after hline hafter
    rcases hbefore with rfl | hlast
    · simpa using hfirst
    · -- the lines before it are as many as the line feeds before it
      obtain ⟨above, rfl⟩ := List.getLast?_eq_some_iff.mp hlast
      have habove : (above ++ ['\n']).count '\n' = (lines above).length := by
        simp [length_lines, List.count_append]
      rw [List.append_assoc, List.append_assoc, List.singleton_append, lines_append_newline, habove,
        List.getElem?_append_right (Nat.le_refl _), Nat.sub_self, hfirst]
  · rintro ⟨i, rfl, hi⟩
    induction text using lines_induction generalizing i with
    | last first hfirst =>
      rw [lines_of_newline_notMem hfirst] at hi
      cases i with
      | zero =>
        cases hi
        simpa using lineAt_one hfirst (Or.inl rfl)
      | succ i => cases hi
    | next first rest hfirst ih =>
      rw [lines_cons hfirst] at hi
      cases i with
      | zero =>
        cases hi
        exact lineAt_one hfirst (Or.inr rfl)
      | succ i => exact (ih i hi).next hfirst

/-! ### The number of lines -/

/-- How many lines a text has.  A line feed closes a line, and so does the end of the text unless
nothing stands between it and the last line feed. -/
def lineCount (text : List Char) : Nat :=
  text.count '\n' + if text = [] ∨ text.getLast? = some '\n' then 0 else 1

theorem count_le_lineCount (text : List Char) : text.count '\n' ≤ lineCount text :=
  Nat.le_add_right _ _

/-- The number of lines of two texts that are set one under the other. -/
theorem lineCount_append_newline (s t : List Char) :
    lineCount (s ++ '\n' :: t) = s.count '\n' + 1 + lineCount t := by
  have hlast : (s ++ '\n' :: t = [] ∨ (s ++ '\n' :: t).getLast? = some '\n') ↔
      (t = [] ∨ t.getLast? = some '\n') := by
    cases t with
    | nil => simp
    | cons c t => simp [List.getLast?_cons]
  simp only [lineCount, hlast, List.count_append, List.count_cons_self]
  omega

/-- **A line that is not empty** has a number up to the number of lines. -/
theorem LineAt.le_lineCount {text line : List Char} {number : Nat} (h : LineAt text number line)
    (hne : line ≠ []) : number ≤ lineCount text := by
  obtain ⟨before, after, rfl, hline, -, hafter, rfl⟩ := h
  have hcount : (before ++ line ++ after).count '\n' = before.count '\n' + after.count '\n' := by
    simp [List.count_append, List.count_eq_zero_of_not_mem hline]
  rcases hafter with rfl | hhead
  · -- it is closed by the end of the text
    have hopen : ¬ (before ++ line ++ [] = [] ∨ (before ++ line ++ []).getLast? = some '\n') := by
      rintro (hnil | hlast)
      · simp [hne] at hnil
      · rw [List.append_nil, List.getLast?_append, List.getLast?_eq_some_getLast hne,
          Option.some_or] at hlast
        exact hline (Option.some.inj hlast ▸ List.getLast_mem hne)
    rw [lineCount, if_neg hopen, hcount]
    omega
  · obtain ⟨rest, rfl⟩ := List.head?_eq_some_iff.mp hhead
    have hle := count_le_lineCount (before ++ line ++ '\n' :: rest)
    rw [hcount, List.count_cons_self] at hle
    omega

/-! ### What stands behind a line -/

/-- A blank behind a text adds no word. -/
theorem words_append_blank {c : Char} (hc : isBlank c = true) (text : List Char) :
    words (text ++ [c]) = words text := by
  rw [words, List.splitOnP_append_cons text [] hc, List.filter_append, words]
  simp

/-- Whatever does not mind a character behind a line does not mind it behind a text, where it
belongs to the last line. -/
theorem map_lines_append_singleton {α : Type} {f : List Char → α} {c : Char} (hc : c ≠ '\n')
    (hf : ∀ line, f (line ++ [c]) = f line) (text : List Char) :
    (lines (text ++ [c])).map f = (lines text).map f := by
  induction text using lines_induction with
  | last line hline =>
    have hline' : '\n' ∉ line ++ [c] := by simp [hline, hc.symm]
    rw [lines_of_newline_notMem hline, lines_of_newline_notMem hline']
    simp [hf]
  | next line rest hline ih =>
    rw [List.append_assoc, List.cons_append, lines_cons hline, lines_cons hline, List.map_cons, ih,
      List.map_cons]

end Text
end CrossAssembler
