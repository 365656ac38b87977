import CrossAssembler.Text.Blank
import CrossAssembler.Text.Layout

/-!
# Words and lines of a text

Cutting a text undoes joining it: words that are set one blank apart are found again, and so
are lines that are set one under the other, provided that no word holds a blank and no line a
line feed.  The other way round, whatever is cut out as a word can be set as one.

How blanks and words make up a text can also be said by rules, without a word about cutting.  Cutting
finds the words that the rules allow, and these only.

## Main definitions

* `IsWord` — characters that make up one word.
* `Separated` — the rules by which words and blanks make up a text.

## Main results

* `words_append_cons`, `words_of_isWord` — the words of a text that begins with a word.
* `words_intercalate` — the words of a text that was made of words.
* `isWord_of_mem_words` — what is cut out as a word is one.
* `words_eq_iff` — the words of a text are those that the rules give it.
* `lines_unlines`, `lines_intercalate` — the lines of a text that was made of lines.
-/

namespace CrossAssembler
namespace Text

/-! ### Words -/

/-- The characters make up one word: there are some, and none of them is blank. -/
structure IsWord (w : List Char) : Prop where
  /-- A word is not empty. -/
  ne_nil : w ≠ []
  /-- It holds no blank. -/
  not_blank : ∀ c ∈ w, isBlank c = false

theorem isWord_iff {w : List Char} :
    IsWord w ↔ (!w.isEmpty && w.all fun c => !isBlank c) = true := by
  rw [Bool.and_eq_true, List.all_eq_true]
  constructor
  · rintro ⟨hne, hblank⟩
    exact ⟨by simpa using hne, fun c hc => by simp [hblank c hc]⟩
  · rintro ⟨hne, hblank⟩
    exact ⟨by simpa using hne, fun c hc => by simpa using hblank c hc⟩

instance (w : List Char) : Decidable (IsWord w) := decidable_of_iff _ isWord_iff.symm

theorem IsWord.newline_notMem {w : List Char} (h : IsWord w) : '\n' ∉ w := fun hmem => by
  have hblank := h.not_blank '\n' hmem
  revert hblank
  decide

/-- A text that begins with a word and a blank. -/
theorem words_append_cons {w : List Char} (hw : IsWord w) {c : Char} (hc : isBlank c = true)
    (rest : List Char) : words (w ++ c :: rest) = w :: words rest := by
  have hkept : (!w.isEmpty) = true := by simpa using hw.ne_nil
  rw [words, List.splitOnP_append_cons_of_forall_mem hw.not_blank c hc,
    List.filter_cons, if_pos hkept, words]

theorem words_of_isWord {w : List Char} (hw : IsWord w) : words w = [w] := by
  have hkept : (!w.isEmpty) = true := by simpa using hw.ne_nil
  rw [words, List.splitOnP_eq_singleton hw.not_blank, List.filter_cons, if_pos hkept,
    List.filter_nil]

/-- **Words that were set one blank apart are found again.** -/
theorem words_intercalate {ws : List (List Char)} (h : ∀ w ∈ ws, IsWord w) :
    words ([' '].intercalate ws) = ws := by
  induction ws with
  | nil => rfl
  | cons w ws ih =>
    have hw := h w List.mem_cons_self
    have hrest := ih fun v hv => h v (List.mem_cons_of_mem w hv)
    cases ws with
    | nil => rw [List.intercalate_singleton, words_of_isWord hw]
    | cons v vs =>
      rw [List.intercalate_cons_cons, List.append_assoc, List.singleton_append,
        words_append_cons hw (by decide), hrest]

/-- No line feed stands in words that are set one blank apart. -/
theorem newline_notMem_intercalate {ws : List (List Char)} (h : ∀ w ∈ ws, IsWord w) :
    '\n' ∉ [' '].intercalate ws := by
  induction ws with
  | nil => simp
  | cons w ws ih =>
    have hw := (h w List.mem_cons_self).newline_notMem
    have hrest := ih fun v hv => h v (List.mem_cons_of_mem w hv)
    cases ws with
    | nil => rwa [List.intercalate_singleton]
    | cons v vs =>
      rw [List.intercalate_cons_cons]
      simp [hw, hrest]

/-- No piece between separators holds one. -/
theorem of_mem_splitOnP {p : Char → Bool} {text piece : List Char}
    (h : piece ∈ text.splitOnP p) : ∀ c ∈ piece, p c = false := by
  induction text generalizing piece with
  | nil =>
    rw [List.splitOnP_nil, List.mem_singleton] at h
    subst h
    exact fun c hc => by cases hc
  | cons x text ih =>
    rw [List.splitOnP_cons_eq_if_modifyHead] at h
    split at h
    · rcases List.mem_cons.mp h with rfl | h
      · exact fun c hc => by cases hc
      · exact ih h
    · rename_i hx
      -- the first character joins the first piece of the rest
      cases hpieces : text.splitOnP p with
      | nil => exact absurd hpieces (List.splitOnP_ne_nil p text)
      | cons first others =>
        rw [hpieces] at h ih
        rcases List.mem_cons.mp h with rfl | h
        · intro c hc
          rcases List.mem_cons.mp hc with rfl | hc
          · simpa using hx
          · exact ih List.mem_cons_self c hc
        · exact ih (List.mem_cons_of_mem first h)

/-- **What is cut out as a word is one.** -/
theorem isWord_of_mem_words {text w : List Char} (h : w ∈ words text) : IsWord w := by
  obtain ⟨hpiece, hkept⟩ := List.mem_filter.mp h
  exact ⟨by simpa using hkept, of_mem_splitOnP hpiece⟩

/-- A blank in front of a text adds no word. -/
theorem words_cons_of_isBlank {c : Char} (hc : isBlank c = true) (text : List Char) :
    words (c :: text) = words text := by
  rw [words, List.splitOnP_cons_eq_if_modifyHead, if_pos hc, words]
  rfl

/-- The words stand in the text in the given order, with blanks between them.  There may be any
number of blanks before, between and after them. -/
inductive Separated : List Char → List (List Char) → Prop
  /-- There is nothing. -/
  | nil : Separated [] []
  /-- A blank that is not needed. -/
  | blank {c : Char} {text : List Char} {ws : List (List Char)} :
      isBlank c = true → Separated text ws → Separated (c :: text) ws
  /-- A word at the end. -/
  | last {w : List Char} : IsWord w → Separated w [w]
  /-- A word, and the blank that it ends at. -/
  | word {w : List Char} {c : Char} {text : List Char} {ws : List (List Char)} :
      IsWord w → isBlank c = true → Separated text ws → Separated (w ++ c :: text) (w :: ws)

theorem words_of_separated {text : List Char} {ws : List (List Char)} (h : Separated text ws) :
    words text = ws := by
  induction h with
  | nil => rfl
  | blank hc _ ih => rw [words_cons_of_isBlank hc, ih]
  | last hw => exact words_of_isWord hw
  | word hw hc _ ih => rw [words_append_cons hw hc, ih]

/-- The words of a text stand in it, where `w` is what has been read of the first one. -/
theorem separated_words_append (text : List Char) {w : List Char}
    (hw : ∀ c ∈ w, isBlank c = false) : Separated (w ++ text) (words (w ++ text)) := by
  induction text generalizing w with
  | nil =>
    rw [List.append_nil]
    by_cases hne : w = []
    · subst hne
      exact .nil
    · rw [words_of_isWord ⟨hne, hw⟩]
      exact .last ⟨hne, hw⟩
  | cons c text ih =>
    by_cases hc : isBlank c = true
    · have hrest := ih (w := []) (by simp)
      rw [List.nil_append] at hrest
      by_cases hne : w = []
      · subst hne
        rw [List.nil_append, words_cons_of_isBlank hc]
        exact .blank hc hrest
      · rw [words_append_cons ⟨hne, hw⟩ hc]
        exact .word ⟨hne, hw⟩ hc hrest
    · -- the character belongs to the word
      have hw' : ∀ d ∈ w ++ [c], isBlank d = false := by
        intro d hd
        rcases List.mem_append.mp hd with hd | hd
        · exact hw d hd
        · rw [List.mem_singleton.mp hd]
          simpa using hc
      have hlonger := ih hw'
      rwa [List.append_assoc, List.singleton_append] at hlonger

/-- **The words of a text are those that the rules give it.** -/
theorem words_eq_iff {text : List Char} {ws : List (List Char)} :
    words text = ws ↔ Separated text ws := by
  constructor
  · rintro rfl
    exact separated_words_append text (w := []) (by simp)
  · exact words_of_separated

/-- A text has no word if all of it is blank. -/
theorem words_eq_nil_iff {text : List Char} :
    words text = [] ↔ ∀ c ∈ text, isBlank c = true := by
  constructor
  · intro hwords
    generalize hws : ([] : List (List Char)) = ws at hwords
    have hseparated := words_eq_iff.mp hwords
    clear hwords
    induction hseparated with
    | nil => simp
    | blank hc _ ih =>
      intro d hd
      rcases List.mem_cons.mp hd with rfl | hd
      · exact hc
      · exact ih hws d hd
    | last | word => cases hws
  · intro hblank
    induction text with
    | nil => rfl
    | cons c text ih =>
      rw [words_cons_of_isBlank (hblank c List.mem_cons_self)]
      exact ih fun d hd => hblank d (List.mem_cons_of_mem c hd)

/-! ### Lines -/

/-- **Lines that were set one under the other are found again**, and an empty one after the
last line feed. -/
theorem lines_unlines {ls : List String} (h : ∀ l ∈ ls, '\n' ∉ l.toList) :
    lines (unlines ls).toList = ls.map String.toList ++ [[]] := by
  induction ls with
  | nil => rfl
  | cons l ls ih =>
    have hfirst := h l List.mem_cons_self
    have hrest := ih fun l' hl' => h l' (List.mem_cons_of_mem l hl')
    have htext : (unlines (l :: ls)).toList = l.toList ++ '\n' :: (unlines ls).toList := by
      simp [unlines]
    rw [htext, lines, List.splitOn_append_cons_self_of_not_mem hfirst, ← lines, hrest]
    rfl

/-- Line feeds may also stand between the lines only. -/
theorem lines_intercalate {ls : List String} (h : ∀ l ∈ ls, '\n' ∉ l.toList) (hne : ls ≠ []) :
    lines ("\n".intercalate ls).toList = ls.map String.toList := by
  rw [lines, String.toList_intercalate]
  refine List.splitOn_intercalate '\n' (fun l hl => ?_) (by simpa using hne)
  obtain ⟨s, hs, rfl⟩ := List.mem_map.mp hl
  exact h s hs

end Text
end CrossAssembler
