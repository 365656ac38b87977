import CrossAssembler.Text.Numeral

/-!
# Hexadecimal digits that are printed can be read

A number is printed in lowercase hexadecimal digits, with zeros in front up to a given width.  These
digits denote the number, whatever the width is, and there are as many as the width says if the
number is not too large.

The digits of a number are those of its sixteenth part and one more, and reading goes the same
way: what has been read so far is multiplied by sixteen before the next digit is added.

## Main definitions

* `hexValue?` — what has been read after some digits more.

## Main results

* `mem_hexDigits` — the digits are lowercase.
* `length_hexDigits` — their number is the width.
* `hex?_hexDigits` — they denote the number.
-/

namespace CrossAssembler
namespace Numeral

/-! ### One digit -/

theorem hexDigit?_digitChar {d : Nat} (h : d < 16) : hexDigit? d.digitChar = some d := by
  revert d
  decide

/-- The sixteen digits. -/
def hexAlphabet : List Char := "0123456789abcdef".toList

theorem digitChar_mem_hexAlphabet {d : Nat} (h : d < 16) : d.digitChar ∈ hexAlphabet := by
  revert d
  decide

/-! ### Printing -/

theorem mem_toDigits {n : Nat} {c : Char} (h : c ∈ Nat.toDigits 16 n) : c ∈ hexAlphabet := by
  induction n using Nat.base_induction 16 (by decide) with
  | single m hm =>
    rw [Nat.toDigits_of_lt_base hm, List.mem_singleton] at h
    subst h
    exact digitChar_mem_hexAlphabet hm
  | digit m k hk hm ih =>
    rw [← Nat.toDigits_append_toDigits (by decide) hm hk, Nat.toDigits_of_lt_base hk,
      List.mem_append, List.mem_singleton] at h
    rcases h with h | rfl
    · exact ih h
    · exact digitChar_mem_hexAlphabet hk

/-- **The digits of a number are lowercase.** -/
theorem mem_hexDigits {width n : Nat} {c : Char} (h : c ∈ hexDigits width n) :
    c ∈ hexAlphabet := by
  rcases List.mem_append.mp h with h | h
  · rw [List.eq_of_mem_replicate h]
    decide
  · exact mem_toDigits h

/-- **There are as many digits as the width says**, if the number has no more. -/
theorem length_hexDigits {width n : Nat} (h : (Nat.toDigits 16 n).length ≤ width) :
    (hexDigits width n).length = width := by
  rw [hexDigits, List.length_append, List.length_replicate]
  omega

/-! ### Reading -/

/-- What has been read after the digits, if `value` had been read before them. -/
def hexValue? (value : Option Nat) (digits : List Char) : Option Nat :=
  digits.foldl (fun value c => return (← value) * 16 + (← hexDigit? c)) value

theorem hex?_eq {digits : List Char} (h : digits ≠ []) :
    hex? digits = hexValue? (some 0) digits := by
  have hempty : digits.isEmpty = false := by simpa using h
  rw [hex?, hempty]
  rfl

theorem hexValue?_append (value : Option Nat) (digits more : List Char) :
    hexValue? value (digits ++ more) = hexValue? (hexValue? value digits) more :=
  List.foldl_append

/-- One digit more. -/
theorem hexValue?_digitChar (value : Nat) {d : Nat} (h : d < 16) :
    hexValue? (some value) [d.digitChar] = some (value * 16 + d) := by
  simp [hexValue?, hexDigit?_digitChar h]

/-- Zeros in front do not count. -/
theorem hexValue?_zeros (count : Nat) : hexValue? (some 0) (List.replicate count '0') = some 0 := by
  induction count with
  | zero => rfl
  | succ count ih => exact ih

/-- The digits of a number denote it. -/
theorem hexValue?_toDigits (n : Nat) : hexValue? (some 0) (Nat.toDigits 16 n) = some n := by
  induction n using Nat.base_induction 16 (by decide) with
  | single m hm =>
    rw [Nat.toDigits_of_lt_base hm, hexValue?_digitChar 0 hm, Nat.zero_mul, Nat.zero_add]
  | digit m k hk hm ih =>
    rw [← Nat.toDigits_append_toDigits (by decide) hm hk, Nat.toDigits_of_lt_base hk,
      hexValue?_append, ih, hexValue?_digitChar m hk, Nat.mul_comm]

/-- **Reading the digits of a number gives the number**, also with zeros in front. -/
theorem hex?_hexDigits (width n : Nat) : hex? (hexDigits width n) = some n := by
  have hne : hexDigits width n ≠ [] := by simp [hexDigits]
  rw [hex?_eq hne, hexDigits, hexValue?_append, hexValue?_zeros, hexValue?_toDigits]

end Numeral
end CrossAssembler
