import CrossAssembler.Yaml.Scanner
import Mathlib.Data.List.TakeWhile

/-!
# The tokens of a block mapping

The plainest document is a mark, and below it one line for each field: a key, a colon, a space and
a value.  If keys and values are single words, none of their characters means anything to the
scanner, and it gets from one line to the next without leaving a trace but the tokens of the field.

A word is a scalar, but what kind of one shows only behind it: a colon makes it a key, and a line
feed leaves open whether the scalar goes on.  It does not, because the next line begins in the
column of the mapping.  So the state behind a line is not the state before the next one; the two
give the same tokens on every text that may follow.

## Main definitions

* `IsPlainWord` — the words in question.
* `WordField`, `WordField.line`, `WordField.tokens` — a field, its line and its tokens.
* `mappingText` — the text of a document.

## Main results

* `Scanner.scan_word` — a word is one plain scalar.
* `Scanner.scan_line` — a line adds the tokens of its field.
* `tokens?_mappingText` — the tokens of a document.
-/

namespace CrossAssembler
namespace Yaml

/-! ### Words -/

/-- A letter, a digit or an underscore.  None of them has a meaning of its own. -/
def isWordChar (c : Char) : Bool := c.isAlphanum || c == '_'

/-- The characters make up a plain scalar of one word. -/
structure IsPlainWord (w : List Char) : Prop where
  /-- A word is not empty. -/
  ne_nil : w ≠ []
  /-- It has word characters only. -/
  isWordChar : ∀ c ∈ w, isWordChar c = true

/-- A word character differs from every character that is none. -/
theorem beq_eq_false_of_isWordChar {c d : Char} (hc : isWordChar c = true)
    (hd : isWordChar d = false) : (c == d) = false := by
  rw [beq_eq_false_iff_ne]
  rintro rfl
  rw [hc] at hd
  cases hd

section

variable {c : Char} (hc : isWordChar c = true)
include hc

theorem isBlank_of_isWordChar : isBlank c = false := by
  rw [isBlank, beq_eq_false_of_isWordChar hc (by decide), beq_eq_false_of_isWordChar hc (by decide)]
  rfl

theorem isBreak_of_isWordChar : isBreak c = false := by
  rw [isBreak, beq_eq_false_of_isWordChar hc (by decide), beq_eq_false_of_isWordChar hc (by decide)]
  rfl

theorem ne_newline_of_isWordChar : c ≠ '\n' :=
  beq_eq_false_iff_ne.mp (beq_eq_false_of_isWordChar hc rfl)

end

/-! ### Single characters

While there are no brackets, a scanner is told by six of its parts. -/

/-- The place behind characters of one line. -/
def Position.along (p : Position) (w : List Char) : Position :=
  ⟨p.index + w.length, p.line, p.column + w.length⟩

theorem next_along {c : Char} (hc : c ≠ '\n') (p : Position) (w : List Char) :
    (p.next c).along w = p.along (c :: w) := by
  simp only [Position.next, if_neg hc, Position.along, List.length_cons, Position.mk.injEq,
    true_and]
  omega

namespace Scanner

/-- A scanner with no open brackets. -/
def block (mode : Mode) (position : Position) (keyAllowed : Bool) (candidate : Option Candidate)
    (columns : List Nat) (emitted : List Token) : Scanner where
  mode := mode
  skip := 0
  position := position
  keyAllowed := keyAllowed
  candidate := candidate
  outer := []
  columns := columns
  quoteEnd := none
  emitted := emitted

/-- The token that opens a block mapping, unless one is open. -/
def opening : List Nat → List Token
  | [] => [.blockMapping]
  | _ :: _ => []

/-- A step also counts the character. -/
theorem step_of_act {c : Char} {rest : List Char} {s : Scanner} {mode : Mode} {p : Position}
    {keyAllowed : Bool} {candidate : Option Candidate} {columns : List Nat} {emitted : List Token}
    (hskip : s.skip = 0)
    (h : s.act c rest = some (block mode p keyAllowed candidate columns emitted)) :
    s.step c rest = some (block mode (p.next c) keyAllowed candidate columns emitted) := by
  rw [step, hskip]
  simp only [h]
  rfl

/-- Block collections to the left stay open. -/
theorem closeBlocks_block (mode : Mode) (p : Position) (keyAllowed : Bool)
    (candidate : Option Candidate) {columns : List Nat} (emitted : List Token) {least : Nat}
    (hcolumns : ∀ column ∈ columns, column < least) :
    (block mode p keyAllowed candidate columns emitted).closeBlocks least =
      block mode p keyAllowed candidate columns emitted := by
  cases columns with
  | nil => rfl
  | cons column columns =>
    have hlt : ¬ least ≤ column := Nat.not_le_of_lt (hcolumns column List.mem_cons_self)
    simp [closeBlocks, block, inFlow, hlt]

/-- A character that is neither space nor the mark of a comment begins a token, if the line has no
block collection to close and a colon would not come too late. -/
theorem stepBetween_block {c : Char} {p : Position} {columns : List Nat}
    {candidate : Option Candidate} (hblank : isBlank c = false) (hbreak : isBreak c = false)
    (hcomment : (c == '#') = false) (hfresh : ∀ k ∈ candidate, k.isStale p = false)
    (hcolumns : ∀ column ∈ columns, column ≤ p.column) (keyAllowed : Bool) (emitted : List Token)
    (rest : List Char) :
    (block .between p keyAllowed candidate columns emitted).stepBetween c rest =
      (block .between p keyAllowed candidate columns emitted).beginToken c rest := by
  obtain ⟨hspace, htab⟩ := Bool.or_eq_false_iff.mp hblank
  have hstale : (block .between p keyAllowed candidate columns emitted).dropStale =
      some (block .between p keyAllowed candidate columns emitted) := by
    cases candidate with
    | none => rfl
    | some k => simp [dropStale, block, hfresh k rfl]
  have hclose := closeBlocks_block .between p keyAllowed candidate emitted fun column h =>
    Nat.lt_succ_of_le (hcolumns column h)
  rw [stepBetween, hspace, htab, hbreak, hcomment, hstale]
  exact congrArg (beginToken · c rest) hclose

section

variable {c : Char} (hc : isWordChar c = true)
include hc

/-- No mark of a document begins with a word character. -/
theorem markHere?_of_isWordChar (s : Scanner) (rest : List Char) : s.markHere? c rest = none := by
  have hdash : c ≠ '-' := beq_eq_false_iff_ne.mp (beq_eq_false_of_isWordChar hc rfl)
  have hdot : c ≠ '.' := beq_eq_false_iff_ne.mp (beq_eq_false_of_isWordChar hc rfl)
  have hmark : documentMark? (c :: rest) = none := by
    unfold documentMark?
    split
    · rename_i heq
      exact absurd (List.cons.inj heq).1 hdash
    · rename_i heq
      exact absurd (List.cons.inj heq).1 hdot
    · rfl
  rw [markHere?, hmark, ite_self]

/-- A word character begins a plain scalar. -/
theorem beginToken_of_isWordChar (s : Scanner) (rest : List Char) :
    s.beginToken c rest = s.beginNode (.plain [c] .none) := by
  have hne : ∀ d, isWordChar d = false → (c == d) = false := fun d => beq_eq_false_of_isWordChar hc
  simp only [beginToken, markHere?_of_isWordChar hc, isBlank_of_isWordChar hc, hne '%' rfl,
    hne '[' rfl, hne '\x7b' rfl, hne ']' rfl, hne '\x7d' rfl, hne ',' rfl, hne '-' rfl, hne '?' rfl,
    hne ':' rfl, hne '*' rfl, hne '&' rfl, hne '!' rfl, hne '|' rfl, hne '>' rfl, hne '\'' rfl,
    hne '"' rfl, hne '@' rfl, hne '\x60' rfl]
  simp

/-- A word character makes a plain scalar longer. -/
theorem step_plain_of_isWordChar (text : List Char) (p : Position) (keyAllowed : Bool)
    (candidate : Option Candidate) (columns : List Nat) (emitted : List Token) (rest : List Char) :
    (block (.plain text .none) p keyAllowed candidate columns emitted).step c rest =
      some (block (.plain (c :: text) .none) (p.next c) keyAllowed candidate columns emitted) := by
  have hcolon := beq_eq_false_of_isWordChar hc (d := ':') rfl
  apply step_of_act rfl
  simp [act, stepPlain, endsPlain, block, enter, inFlow, Gap.fill, isBlank_of_isWordChar hc,
    isBreak_of_isWordChar hc, hcolon]

/-- A word character between tokens begins a plain scalar, and where a key may begin, the scalar
may be one. -/
theorem step_between_of_isWordChar {p : Position} {columns : List Nat}
    (hcolumns : ∀ column ∈ columns, column ≤ p.column) (keyAllowed : Bool) (emitted : List Token)
    (rest : List Char) :
    (block .between p keyAllowed none columns emitted).step c rest =
      some (block (.plain [c] .none) (p.next c) false
        (if keyAllowed then some ⟨p, emitted.length, false⟩ else none) columns emitted) := by
  apply step_of_act rfl
  change (block .between p keyAllowed none columns emitted).stepBetween c rest = _
  rw [stepBetween_block (isBlank_of_isWordChar hc) (isBreak_of_isWordChar hc)
    (beq_eq_false_of_isWordChar hc rfl) (by simp) hcolumns, beginToken_of_isWordChar hc]
  cases keyAllowed <;> rfl

end

/-- A colon and a space behind a scalar that may be a key make it one. -/
theorem step_colon {columns : List Nat} {p k : Position} (hcolumns : columns = [] ∨ columns = [0])
    (hcolumn : k.column = 0) (hline : k.line = p.line)
    (hindex : p.index ≤ k.index + Candidate.maxLength) (text : List Char) (emitted : List Token)
    (rest : List Char) :
    (block (.plain text .none) p false (some ⟨k, emitted.length, false⟩) columns emitted).step ':'
        (' ' :: rest) =
      some (block .between (p.next ':') false none [0]
        (.value :: .scalar .plain text.reverse :: .key :: opening columns ++ emitted)) := by
  have hfresh : ∀ candidate ∈ some (Candidate.mk k emitted.length false),
      candidate.isStale p = false := by
    simp [Candidate.isStale, hline, hindex]
  have hopen : ∀ column ∈ columns, column ≤ p.column := by
    rcases hcolumns with rfl | rfl <;> simp
  apply step_of_act rfl
  -- the scalar ends before the colon, which begins a token of its own
  change (block .between p false (some ⟨k, emitted.length, false⟩) columns
    (.scalar .plain text.reverse :: emitted)).stepBetween ':' (' ' :: rest) = _
  rw [stepBetween_block rfl rfl rfl hfresh hopen]
  have hmark : ∀ s : Scanner, s.markHere? ':' (' ' :: rest) = none := by
    intro s
    rw [markHere?]
    split <;> rfl
  have hlength : emitted.length + 1 + 1 - emitted.length = 2 := by omega
  rcases hcolumns with rfl | rfl <;>
    simp [beginToken, hmark, isColon, endsWord, isBlank, colon, block, insert, openBlock, inFlow,
      leastColumn, emit, hcolumn, hlength, opening]

/-- A space behind a colon counts for nothing. -/
theorem step_space (p : Position) (columns : List Nat) (emitted : List Token) (rest : List Char) :
    (block .between p false none columns emitted).step ' ' rest =
      some (block .between (p.next ' ') false none columns emitted) := rfl

/-- A line feed behind a scalar leaves open whether the scalar goes on. -/
theorem step_newline (text : List Char) (p : Position) (columns : List Nat) (emitted : List Token)
    (rest : List Char) :
    (block (.plain text .none) p false none columns emitted).step '\n' rest =
      some (block (.plain text (.lines 0)) (p.next '\n') false none columns emitted) := by
  have htail : breakTail '\n' rest = 0 := by
    unfold breakTail
    split <;> rfl
  apply step_of_act rfl
  simp [act, stepPlain, block, isBlank, isBreak, enter, skipping, Gap.lineBreak, htail]

/-! ### Lines -/

theorem scan_of_step {c : Char} {rest : List Char} {s s' : Scanner} (h : s.step c rest = some s') :
    s.scan (c :: rest) = s'.scan rest := by
  rw [scan, h]

/-- The characters of a word behind its first. -/
theorem scan_wordChars {w : List Char} (hw : ∀ c ∈ w, isWordChar c = true) (text : List Char)
    (p : Position) (keyAllowed : Bool) (candidate : Option Candidate) (columns : List Nat)
    (emitted : List Token) (rest : List Char) :
    (block (.plain text .none) p keyAllowed candidate columns emitted).scan (w ++ rest) =
      (block (.plain (w.reverse ++ text) .none) (p.along w) keyAllowed candidate columns
        emitted).scan rest := by
  induction w generalizing text p with
  | nil => rfl
  | cons c w ih =>
    have hc := hw c List.mem_cons_self
    rw [List.cons_append, scan_of_step (step_plain_of_isWordChar hc ..),
      ih fun d hd => hw d (List.mem_cons_of_mem c hd), next_along (ne_newline_of_isWordChar hc)]
    simp

/-- **A word is one plain scalar.** -/
theorem scan_word {w : List Char} (hw : IsPlainWord w) {p : Position} {columns : List Nat}
    (hcolumns : ∀ column ∈ columns, column ≤ p.column) (keyAllowed : Bool) (emitted : List Token)
    (rest : List Char) :
    (block .between p keyAllowed none columns emitted).scan (w ++ rest) =
      (block (.plain w.reverse .none) (p.along w) false
        (if keyAllowed then some ⟨p, emitted.length, false⟩ else none) columns
        emitted).scan rest := by
  cases w with
  | nil => exact absurd rfl hw.ne_nil
  | cons c w =>
    have hc := hw.isWordChar c List.mem_cons_self
    rw [List.cons_append, scan_of_step (step_between_of_isWordChar hc hcolumns ..),
      scan_wordChars fun d hd => hw.isWordChar d (List.mem_cons_of_mem c hd),
      next_along (ne_newline_of_isWordChar hc)]
    simp

/-- A plain scalar that a line feed follows ends with its line, if the next line begins with a
word, or if there is none. -/
theorem scan_behind_line {rest : List Char} (hrest : ∀ c ∈ rest.head?, isWordChar c = true)
    {p : Position} (hp : p.column = 0) (text : List Char) (emitted : List Token) :
    (block (.plain text (.lines 0)) p false none [0] emitted).scan rest =
      (block .between p true none [0] (.scalar .plain text.reverse :: emitted)).scan rest := by
  cases rest with
  | nil => rfl
  | cons c rest =>
    have hc := hrest c rfl
    have hact : (block (.plain text (.lines 0)) p false none [0] emitted).act c rest =
        (block .between p true none [0] (.scalar .plain text.reverse :: emitted)).act c rest := by
      -- the scalar ends, since the character stands in the column of the mapping
      simp [act, stepPlain, isBlank_of_isWordChar hc, isBreak_of_isWordChar hc, endsPlain, block,
        inFlow, leastColumn, hp, endPlain, stepBehind, enter, emit, Gap.isLines]
    rw [scan, scan, step, step]
    simp only [hact]
    rfl

end Scanner

/-! ### Block mappings -/

/-- A field of a block mapping whose key and value are single words. -/
structure WordField where
  /-- The key. -/
  key : List Char
  /-- The value. -/
  value : List Char
  /-- The key is a word. -/
  isPlainWord_key : IsPlainWord key
  /-- The value is a word. -/
  isPlainWord_value : IsPlainWord value
  /-- The colon does not come too late. -/
  length_key : key.length ≤ Candidate.maxLength

namespace WordField

/-- The line of a field. -/
def line (f : WordField) : List Char := f.key ++ ':' :: ' ' :: f.value ++ ['\n']

/-- The tokens of a field. -/
def tokens (f : WordField) : List Token :=
  [.key, .scalar .plain f.key, .value, .scalar .plain f.value]

/-- The lines of some fields begin with a word, if they are any. -/
theorem isWordChar_of_head? (fields : List WordField) :
    ∀ c ∈ (fields.flatMap line).head?, isWordChar c = true := by
  cases fields with
  | nil => simp
  | cons f fields =>
    have hkey := f.isPlainWord_key
    obtain ⟨c, key, hcons⟩ := List.exists_cons_of_ne_nil hkey.ne_nil
    have hc := hkey.isWordChar c (hcons ▸ List.mem_cons_self)
    simpa [line, hcons] using hc

theorem null_notMem_line (f : WordField) : '\x00' ∉ f.line := by
  intro h
  have hword : '\x00' ∈ f.key ∨ '\x00' ∈ f.value := by simpa [line] using h
  rcases hword with hkey | hvalue
  · cases f.isPlainWord_key.isWordChar _ hkey
  · cases f.isPlainWord_value.isWordChar _ hvalue

end WordField

/-- The text of a document: its mark, and below it the lines of the fields. -/
def mappingText (fields : List WordField) : List Char :=
  '-' :: '-' :: '-' :: '\n' :: fields.flatMap WordField.line

theorem null_notMem_mappingText (fields : List WordField) : '\x00' ∉ mappingText fields := by
  simp [mappingText, WordField.null_notMem_line]

namespace Scanner

/-- **A line of a block mapping adds the tokens of its field.** -/
theorem scan_line (f : WordField) {rest : List Char}
    (hrest : ∀ c ∈ rest.head?, isWordChar c = true) {p : Position} (hp : p.column = 0)
    {columns : List Nat} (hcolumns : columns = [] ∨ columns = [0]) (emitted : List Token) :
    ∃ p' : Position, p'.column = 0 ∧
      (block .between p true none columns emitted).scan (f.line ++ rest) =
        (block .between p' true none [0]
          (f.tokens.reverse ++ (opening columns ++ emitted))).scan rest := by
  have hopen : ∀ column ∈ columns, column ≤ p.column := by
    rcases hcolumns with rfl | rfl <;> simp
  have hline : f.line ++ rest = f.key ++ ':' :: ' ' :: (f.value ++ '\n' :: rest) := by
    simp [WordField.line]
  have hsame : p.line = (p.along f.key).line := rfl
  have hkey : (p.along f.key).index ≤ p.index + Candidate.maxLength :=
    Nat.add_le_add_left f.length_key p.index
  let q := ((p.along f.key).next ':').next ' '
  refine ⟨(q.along f.value).next '\n', rfl, ?_⟩
  rw [hline, scan_word f.isPlainWord_key hopen, if_pos rfl,
    scan_of_step (step_colon hcolumns hp hsame hkey ..), scan_of_step (step_space ..),
    scan_word f.isPlainWord_value (by simp), if_neg Bool.false_ne_true,
    scan_of_step (step_newline ..), scan_behind_line hrest rfl]
  simp [WordField.tokens, q]

/-- The lines of a block mapping, from one that is open already on. -/
theorem scan_lines (fields : List WordField) {p : Position} (hp : p.column = 0)
    (emitted : List Token) :
    (block .between p true none [0] emitted).scan (fields.flatMap WordField.line) =
      some (emitted.reverse ++ fields.flatMap WordField.tokens ++ [.blockEnd]) := by
  induction fields generalizing p emitted with
  | nil =>
    simp [scan, finish, complete, block, inFlow, closeBlocks]
  | cons f fields ih =>
    obtain ⟨p', hp', hscan⟩ :=
      scan_line f (WordField.isWordChar_of_head? fields) hp (.inr rfl) emitted
    rw [List.flatMap_cons, hscan, ih hp']
    simp [opening]

/-- The mark of a document, and the lines of a block mapping. -/
theorem scan_mappingText (f : WordField) (fields : List WordField) :
    start.scan (mappingText (f :: fields)) =
      some (.documentStart :: .blockMapping :: ((f :: fields).flatMap WordField.tokens ++
        [.blockEnd])) := by
  have hmark : start.scan (mappingText (f :: fields)) =
      (block .between ⟨4, 1, 0⟩ true none [] [.documentStart]).scan
        ((f :: fields).flatMap WordField.line) := rfl
  obtain ⟨p, hp, hscan⟩ := scan_line f (WordField.isWordChar_of_head? fields)
    (p := ⟨4, 1, 0⟩) rfl (.inl rfl) [.documentStart]
  rw [hmark, List.flatMap_cons, hscan, scan_lines fields hp]
  simp [opening]

end Scanner

/-- **The tokens of a document that is a block mapping.** -/
theorem tokens?_mappingText {fields : List WordField} (hne : fields ≠ []) {text : String}
    (htext : text.toList = mappingText fields) :
    tokens? text =
      some (.documentStart :: .blockMapping :: (fields.flatMap WordField.tokens ++
        [.blockEnd])) := by
  obtain ⟨f, fields, rfl⟩ := List.exists_cons_of_ne_nil hne
  have hnull : text.toList.takeWhile (· ≠ '\x00') = text.toList := by
    rw [List.takeWhile_eq_self_iff]
    intro c hc
    rw [htext] at hc
    exact decide_eq_true fun hc' => null_notMem_mappingText _ (hc' ▸ hc)
  rw [tokens?, hnull, htext, Scanner.scan_mappingText]

end Yaml
end CrossAssembler
