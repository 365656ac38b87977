import CrossAssembler.Proofs.Text.Numeral
import CrossAssembler.Proofs.Yaml.Mapping
import CrossAssembler.Yaml.Format

/-!
# Lines of fields in YAML

The plainest YAML document there is has a mark at its beginning, and then a line for each field with
a name, a colon and a number.  Names and numbers are single words, so the document has these fields.
It remains that a number means what it says: digits without a superfluous zero in front are a
decimal numeral and nothing else, and no number of a field is out of range.

## Main results

* `unsigned?_toString` — the text of a number denotes the number.
* `toList_lines` — the text of fields is that of a block mapping.
* `writesLines_format`, `readsLines_format` — YAML does what is expected of a format.
-/

namespace CrossAssembler
namespace Yaml

open Target (Field Format)

/-! ### Numbers -/

/-- The digits of a positive number do not begin with zero. -/
theorem head?_toDigits_ne {n : Nat} (hn : 0 < n) : (Nat.toDigits 10 n).head? ≠ some '0' := by
  induction n using Nat.strongRecOn with
  | ind n ih =>
    by_cases hlt : n < 10
    · rw [Nat.toDigits_of_lt_base hlt, List.head?_cons]
      intro h
      have hdigit := Nat.toNat_digitChar_of_lt_ten hlt
      rw [Option.some.inj h] at hdigit
      change 48 = 48 + n at hdigit
      omega
    · have hfirst := ih (n / 10) (by omega) (by omega)
      obtain ⟨c, digits, hcons⟩ :=
        List.exists_cons_of_ne_nil (Nat.toDigits_ne_nil (b := 10) (n := n / 10))
      rw [Nat.toDigits_of_base_le (by decide) (by omega), hcons]
      rw [hcons] at hfirst
      exact hfirst

theorem hasLeadingZero_toDigits (n : Nat) : hasLeadingZero (Nat.toDigits 10 n) = false := by
  rcases Nat.eq_zero_or_pos n with rfl | hn
  · rfl
  · have hhead := head?_toDigits_ne hn
    unfold hasLeadingZero
    split
    · rename_i heq
      rw [heq] at hhead
      exact absurd rfl hhead
    · rfl

section

variable {text : List Char} (h : ∀ c ∈ text, c.isDigit = true)
include h

/-- Digits alone have no mark of a base. -/
theorem based?_of_isDigit : based? text = none := by
  unfold based?
  split
  · exact absurd (h 'x' (by simp)) (by decide)
  · exact absurd (h 'o' (by simp)) (by decide)
  · exact absurd (h 'b' (by simp)) (by decide)
  · rfl

theorem dropInnerPlus_of_isDigit : dropInnerPlus text = text := by
  unfold dropInnerPlus
  split
  · exact absurd (h '+' (by simp)) (by decide)
  · rfl

theorem unsigned?_of_isDigit : unsigned? text = (decimal? text).bind Numeral.inUInt64? := by
  unfold unsigned?
  split
  · exact absurd (h '+' (by simp)) (by decide)
  · exact absurd (h '-' (by simp)) (by decide)
  · rw [magnitude?, dropInnerPlus_of_isDigit h, based?_of_isDigit h, Option.none_or]

end

/-- **The text of a number denotes the number**, up to the greatest one. -/
theorem unsigned?_toString (v : UInt64) : unsigned? (toString v).toList = some v := by
  have hdigits : ∀ c ∈ Nat.toDigits 10 v.toNat, c.isDigit = true := fun c hc =>
    Nat.isDigit_of_mem_toDigits (by decide) (by decide) hc
  rw [Numeral.toList_toString_uint64, unsigned?_of_isDigit hdigits, decimal?,
    hasLeadingZero_toDigits, if_neg Bool.false_ne_true, Numeral.nat?_toDigits]
  exact Numeral.inUInt64?_toNat v

theorem isPlainWord_toString (v : UInt64) : IsPlainWord (toString v).toList := by
  rw [Numeral.toList_toString_uint64]
  refine ⟨Nat.toDigits_ne_nil, fun c hc => ?_⟩
  have hdigit : c.isDigit = true := Nat.isDigit_of_mem_toDigits (by decide) (by decide) hc
  simp [isWordChar, Char.isAlphanum, hdigit]

/-! ### Fields -/

/-- A field as a line of two words. -/
def fieldWords (f : Field × UInt64) : WordField where
  key := f.1.key.toList
  value := (toString f.2).toList
  isPlainWord_key := by
    cases f.1 <;> exact ⟨by decide, List.all_eq_true.mp rfl⟩
  isPlainWord_value := isPlainWord_toString f.2
  length_key := by cases f.1 <;> decide

theorem toList_line (f : Field × UInt64) :
    (f.1.key ++ ": " ++ toString f.2 ++ "\n").toList = (fieldWords f).line := by
  simp [WordField.line, fieldWords]

/-- **The text of fields is that of a block mapping.** -/
theorem toList_lines (fields : List (Field × UInt64)) :
    (Format.lines fields).toList = mappingText (fields.map fieldWords) := by
  have hmark : ("---" ++ "\n").toList = ['-', '-', '-', '\n'] := by decide
  simp only [Format.lines, Text.unlines, List.map_cons, List.map_map, String.toList_join,
    List.flatMap_cons, List.flatMap_map, Function.comp_apply, toList_line, hmark, mappingText]
  rfl

/-- What the nodes of a field are taken for. -/
theorem datum_fieldWords (f : Field × UInt64) :
    ((fieldWords f).nodes.1.datum.name?, (fieldWords f).nodes.2.datum.number?) =
      (some f.1.key, some f.2) := by
  have hname : (fieldWords f).nodes.1.text? = some f.1.key := by
    simp [WordField.nodes, fieldWords, Node.word, Node.text?]
  have hnumber : (fieldWords f).nodes.2.uint64? = some f.2 := unsigned?_toString f.2
  exact Prod.ext hname hnumber

/-! ### The format -/

theorem writesLines_format : format.WritesLines := by
  intro fields _
  simp [format, Format.lines, Function.comp_def]

theorem readsLines_format : format.ReadsLines := by
  intro fields hne
  have hwords : fields.map fieldWords ≠ [] := by simpa using hne
  have hdocument := document?_mappingText hwords (toList_lines fields)
  refine ⟨_, congrArg (Option.map Node.document) hdocument, ?_⟩
  simp [Function.comp_def, datum_fieldWords]

end Yaml
end CrossAssembler
