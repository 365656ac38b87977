import CrossAssembler.Proofs.Text.Hexadecimal
import CrossAssembler.Proofs.Text.Words
import CrossAssembler.Rom.Vhdl
import Mathlib.Data.List.Forall2

/-!
# The VHDL text of an image determines its words

The text of an image has a line for each word between a header and a footer.  The line of a word
holds eight digits between marks of its own, and no other line begins with these marks.  So the
words can be read back from the text alone: it is cut into lines, and the lines that have the marks
are read.

The text says nothing about operands that did not fit, so images with the same words have the
same text.

## Main definitions

* `WritesWord` — a line writes a word.
* `wordOfLine?`, `wordsOf` — the word of a line, and the words of a text.

## Main results

* `writesWord_wordLine` — the line of a word writes it.
* `lines_vhdl` — the lines of the text of an image.
* `wordsOf_vhdl` — the words of the text of an image are those of the image.
* `vhdl_determines_words` — all of this, and when two images have the same text.
-/

namespace CrossAssembler
namespace Rom

/-! ### The line of a word -/

/-- The line writes the word: it has eight lowercase hexadecimal digits that denote the value of the
word, between an opening bracket with the mark of a hexadecimal literal and a closing one. -/
def WritesWord (w : UInt32) (line : String) : Prop :=
  ∃ digits : List Char,
    line = "(x\"" ++ String.ofList digits ++ "\")," ∧ digits.length = 8 ∧
      (∀ c ∈ digits, c ∈ Numeral.hexAlphabet) ∧ Numeral.hex? digits = some w.toNat

/-- A word has at most eight digits. -/
theorem length_toDigits_le (w : UInt32) : (Nat.toDigits 16 w.toNat).length ≤ 8 :=
  (Nat.length_toDigits_le_iff (by decide) (by decide)).mpr w.toNat_lt

/-- **The line of a word writes it.** -/
theorem writesWord_wordLine (w : UInt32) : WritesWord w (wordLine w) :=
  ⟨Numeral.hexDigits 8 w.toNat, rfl, Numeral.length_hexDigits (length_toDigits_le w),
    fun _ => Numeral.mem_hexDigits, Numeral.hex?_hexDigits 8 w.toNat⟩

theorem toList_wordLine (w : UInt32) :
    (wordLine w).toList =
      ['(', 'x', '"'] ++ (Numeral.hexDigits 8 w.toNat ++ ['"', ')', ',']) := by
  simp [wordLine]

theorem newline_notMem_wordLine (w : UInt32) : '\n' ∉ (wordLine w).toList := by
  have hdigits : '\n' ∉ Numeral.hexDigits 8 w.toNat := fun h =>
    absurd (Numeral.mem_hexDigits h) (by decide)
  rw [toList_wordLine]
  simp [hdigits]

/-! ### Reading the words -/

/-- The word of a line, if the line has the marks of one. -/
def wordOfLine? (line : List Char) : Option UInt32 :=
  if line.take 3 = ['(', 'x', '"'] ∧ line.drop 11 = ['"', ')', ','] then
    (Numeral.hex? ((line.drop 3).take 8)).map UInt32.ofNat
  else none

/-- The words of a text, line by line. -/
def wordsOf (text : String) : List UInt32 := (Text.lines text.toList).filterMap wordOfLine?

theorem wordOfLine?_wordLine (w : UInt32) : wordOfLine? (wordLine w).toList = some w := by
  have hlength := Numeral.length_hexDigits (length_toDigits_le w)
  have hdigits : (((wordLine w).toList.drop 3).take 8) = Numeral.hexDigits 8 w.toNat := by
    rw [toList_wordLine]
    exact List.take_left' hlength
  have hmarks : (wordLine w).toList.take 3 = ['(', 'x', '"'] ∧
      (wordLine w).toList.drop 11 = ['"', ')', ','] := by
    constructor
    · rw [toList_wordLine]
      rfl
    · rw [toList_wordLine, ← List.append_assoc, List.drop_left' (by simp [hlength])]
  rw [wordOfLine?, if_pos hmarks, hdigits, Numeral.hex?_hexDigits, Option.map_some,
    UInt32.ofNat_toNat]

/-! ### The text of an image -/

namespace Image

/-- **The lines of the text of an image**, and the end of the text behind the last line feed. -/
theorem lines_vhdl (image : Image) :
    Text.lines image.vhdl.toList =
      header.toList :: (image.words.map fun w => (wordLine w).toList) ++ [footer.toList, []] := by
  have hlines : ∀ l ∈ header :: image.words.map wordLine ++ [footer], '\n' ∉ l.toList := by
    intro l hl
    simp only [List.cons_append, List.mem_cons, List.mem_append, List.mem_map,
      List.not_mem_nil, or_false] at hl
    rcases hl with rfl | ⟨w, -, rfl⟩ | rfl
    · decide
    · exact newline_notMem_wordLine w
    · decide
  rw [vhdl, Text.lines_unlines hlines]
  simp

/-- **The words of the text of an image are those of the image.** -/
theorem wordsOf_vhdl (image : Image) : wordsOf image.vhdl = image.words := by
  -- neither the header nor the footer has the marks of a word
  have hheader : wordOfLine? header.toList = none := by decide
  have hfooter : wordOfLine? footer.toList = none := by decide
  have hempty : wordOfLine? [] = none := by decide
  have hwords : (image.words.map fun w => (wordLine w).toList).filterMap wordOfLine? =
      image.words := by
    simp [List.filterMap_map, wordOfLine?_wordLine]
  rw [wordsOf, lines_vhdl, List.cons_append, List.filterMap_cons, hheader, List.filterMap_append,
    hwords]
  simp [hfooter, hempty]

end Image

/-- **The VHDL text determines the words.**  The text of an image is the header, for each word in
order a line that writes it, and the footer, each closed by a line feed.  Reading the digits back
gives the words, so two images have the same text if and only if they have the same words. -/
theorem vhdl_determines_words :
    (∀ image : Image, ∃ lines : List String,
      image.vhdl = Text.unlines (header :: lines ++ [footer]) ∧
        List.Forall₂ WritesWord image.words lines) ∧
    (∀ image : Image, wordsOf image.vhdl = image.words) ∧
    ∀ x y : Image, x.vhdl = y.vhdl ↔ x.words = y.words := by
  refine ⟨fun image => ⟨image.words.map wordLine, rfl, ?_⟩, Image.wordsOf_vhdl, fun x y => ?_⟩
  · rw [List.forall₂_map_right_iff, List.forall₂_same]
    exact fun w _ => writesWord_wordLine w
  · constructor
    · intro h
      rw [← x.wordsOf_vhdl, h, y.wordsOf_vhdl]
    · intro h
      rw [Image.vhdl, h, Image.vhdl]

end Rom
end CrossAssembler
