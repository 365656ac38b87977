import CrossAssembler.Proofs.Text.Words
import CrossAssembler.Text.Numeral
import Mathlib.Data.List.Induction

/-!
# Numerals that are printed can be read

The text of a number is a sign, if the number is negative, and its digits.  Reading it gives
the number back, down to the least one, whose digits alone would be out of range.

Other texts can be read too: zeros may come first, and a plus sign.  What a numeral looks like and
which number it denotes is a matter of a few rules, and reading accepts what follows them, if the
number is in range.

## Main definitions

* `Decimal`, `Signed`, `Unsigned` — the rules for digits, for digits behind a sign, and for digits
  behind a plus sign at most.

## Main results

* `isWord_toString` — the text of a number is one word.
* `int64?_toString` — reading the text of a number gives the number.
* `int64?_eq_some_iff`, `int64?_eq_none_iff` — what is read as a number, and what is not.
* `uint64?_eq_some_iff` — what is read as a number without a sign.
-/

namespace CrossAssembler
namespace Numeral

open Text (IsWord isBlank)

/-! ### Digits -/

theorem isBlank_of_isDigit {c : Char} (h : c.isDigit = true) : isBlank c = false := by
  obtain ⟨hlow, hhigh⟩ := Char.isDigit_iff_toNat.mp h
  have hzero : '0'.toNat = 48 := rfl
  have hnine : '9'.toNat = 57 := rfl
  simp only [isBlank, Bool.or_eq_false_iff, Bool.and_eq_false_iff, decide_eq_false_iff_not,
    beq_eq_false_iff_ne]
  omega

/-- Every ASCII digit is a digit of base ten. -/
theorem isDigitBelow_ten {c : Char} (h : c.isDigit = true) : isDigitBelow 10 c = true := by
  obtain ⟨-, hhigh⟩ := Char.isDigit_iff_toNat.mp h
  have hnine : '9'.toNat = 57 := rfl
  have hzero : '0'.toNat = 48 := rfl
  simp only [isDigitBelow, h, Bool.true_and, decide_eq_true_eq]
  omega

theorem isWord_toDigits (n : Nat) : IsWord (Nat.toDigits 10 n) := by
  refine ⟨Nat.toDigits_ne_nil, fun c hc => isBlank_of_isDigit ?_⟩
  exact Nat.isDigit_of_mem_toDigits (by decide) (by decide) hc

/-- The digits of a number denote it. -/
theorem nat?_toDigits (n : Nat) : nat? 10 (Nat.toDigits 10 n) = some n := by
  have hall : (Nat.toDigits 10 n).all (isDigitBelow 10) = true := by
    refine List.all_eq_true.mpr fun c hc => isDigitBelow_ten ?_
    exact Nat.isDigit_of_mem_toDigits (by decide) (by decide) hc
  have hne : (Nat.toDigits 10 n).isEmpty = false := by simp [Nat.toDigits_ne_nil]
  rw [nat?, hall, hne]
  exact congrArg some Nat.ofDigitChars_ten_toDigits

/-! ### Numbers with a sign -/

theorem toList_toString (v : Int64) :
    (toString v).toList =
      if 0 ≤ v.toInt then Nat.toDigits 10 v.toInt.toNat
      else '-' :: Nat.toDigits 10 (-v.toInt).toNat := by
  have hrepr : toString v = v.toInt.repr := rfl
  rw [hrepr, Int.repr_eq_if, Nat.repr_eq_ofList_toDigits, Nat.repr_eq_ofList_toDigits]
  split
  · exact String.toList_ofList
  · simp

/-- **The text of a number is one word.** -/
theorem isWord_toString (v : Int64) : IsWord (toString v).toList := by
  rw [toList_toString]
  split
  · exact isWord_toDigits _
  · refine ⟨List.cons_ne_nil _ _, fun c hc => ?_⟩
    rcases List.mem_cons.mp hc with rfl | hc
    · decide
    · exact (isWord_toDigits _).not_blank c hc

theorem inInt64?_toInt (v : Int64) : inInt64? v.toInt = some v := by
  rw [inInt64?, if_pos ⟨v.minValue_le_toInt, v.toInt_le⟩, Int64.ofInt_toInt]

/-- Digits without a sign are read as they are. -/
theorem int64?_of_isDigit {digits : List Char} (h : ∀ c ∈ digits, c.isDigit = true) :
    int64? digits = (nat? 10 digits).bind fun n => inInt64? n := by
  unfold int64?
  split
  · exact absurd (h '+' List.mem_cons_self) (by decide)
  · exact absurd (h '-' List.mem_cons_self) (by decide)
  · rfl

/-- **Reading the text of a number gives the number.** -/
theorem int64?_toString (v : Int64) : int64? (toString v).toList = some v := by
  rw [toList_toString]
  split
  · rename_i hpos
    have hdigits : ∀ c ∈ Nat.toDigits 10 v.toInt.toNat, c.isDigit = true := fun c hc =>
      Nat.isDigit_of_mem_toDigits (by decide) (by decide) hc
    rw [int64?_of_isDigit hdigits, nat?_toDigits]
    show inInt64? (v.toInt.toNat : Int) = some v
    rw [Int.toNat_of_nonneg hpos, inInt64?_toInt]
  · rename_i hneg
    rw [int64?, nat?_toDigits]
    show inInt64? (-((-v.toInt).toNat : Int)) = some v
    rw [Int.toNat_of_nonneg (by omega), Int.neg_neg, inInt64?_toInt]

/-! ### Numerals by rule -/

/-- The digits denote the number. -/
inductive Decimal : List Char → Nat → Prop
  /-- One digit. -/
  | digit {c : Char} : c.isDigit = true → Decimal [c] (c.toNat - '0'.toNat)
  /-- One digit more. -/
  | append {digits : List Char} {n : Nat} {c : Char} : Decimal digits n → c.isDigit = true →
      Decimal (digits ++ [c]) (10 * n + (c.toNat - '0'.toNat))

/-- The digits, or the digits behind a sign, denote the number. -/
inductive Signed : List Char → Int → Prop
  /-- No sign. -/
  | plain {digits : List Char} {n : Nat} : Decimal digits n → Signed digits n
  /-- A plus sign. -/
  | plus {digits : List Char} {n : Nat} : Decimal digits n → Signed ('+' :: digits) n
  /-- A minus sign. -/
  | minus {digits : List Char} {n : Nat} : Decimal digits n → Signed ('-' :: digits) (-n)

theorem Decimal.isDigit {digits : List Char} {n : Nat} (h : Decimal digits n) :
    digits ≠ [] ∧ ∀ c ∈ digits, c.isDigit = true := by
  induction h with
  | digit hc => simpa using hc
  | append _ hc ih =>
    refine ⟨by simp, fun d hd => ?_⟩
    rcases List.mem_append.mp hd with hd | hd
    · exact ih.2 d hd
    · rw [List.mem_singleton.mp hd]
      exact hc

theorem Decimal.ofDigitChars_eq {digits : List Char} {n : Nat} (h : Decimal digits n) :
    Nat.ofDigitChars 10 digits 0 = n := by
  induction h with
  | digit => simp [Nat.ofDigitChars_cons]
  | append _ _ ih => simp [Nat.ofDigitChars_append, Nat.ofDigitChars_cons, ih]

theorem decimal_ofDigitChars {digits : List Char} (hne : digits ≠ [])
    (h : ∀ c ∈ digits, c.isDigit = true) : Decimal digits (Nat.ofDigitChars 10 digits 0) := by
  induction digits using List.reverseRecOn with
  | nil => exact absurd rfl hne
  | append_singleton digits c ih =>
    have hc := h c (by simp)
    by_cases hdigits : digits = []
    · subst hdigits
      simpa [Nat.ofDigitChars_cons] using Decimal.digit hc
    · have hrest := ih hdigits fun d hd => h d (List.mem_append_left _ hd)
      simpa [Nat.ofDigitChars_append, Nat.ofDigitChars_cons] using hrest.append hc

theorem nat?_eq_some_iff {digits : List Char} {n : Nat} :
    nat? 10 digits = some n ↔ Decimal digits n := by
  have hall : digits.all (isDigitBelow 10) = true ↔ ∀ c ∈ digits, c.isDigit = true := by
    rw [List.all_eq_true]
    constructor
    · intro h c hc
      exact (Bool.and_eq_true_iff.mp (h c hc)).1
    · intro h c hc
      exact isDigitBelow_ten (h c hc)
  rw [nat?, Option.ite_none_right_eq_some, Bool.and_eq_true, hall]
  constructor
  · rintro ⟨⟨hne, hdigits⟩, hn⟩
    rw [← Option.some.inj hn]
    exact decimal_ofDigitChars (by simpa using hne) hdigits
  · intro h
    obtain ⟨hne, hdigits⟩ := h.isDigit
    exact ⟨⟨by simpa using hne, hdigits⟩, congrArg some h.ofDigitChars_eq⟩

theorem inInt64?_eq_some_iff {i : Int} {v : Int64} : inInt64? i = some v ↔ v.toInt = i := by
  constructor
  · intro h
    rw [inInt64?, Option.ite_none_right_eq_some] at h
    obtain ⟨⟨hlow, hhigh⟩, hv⟩ := h
    have hmin : Int64.minValue.toInt = -9223372036854775808 := rfl
    have hmax : Int64.maxValue.toInt = 9223372036854775807 := rfl
    rw [← Option.some.inj hv]
    exact Int64.toInt_ofInt_of_le (by omega) (by omega)
  · rintro rfl
    exact inInt64?_toInt v

/-- **What is read as a number** is a numeral that denotes it. -/
theorem int64?_eq_some_iff {token : List Char} {v : Int64} :
    int64? token = some v ↔ Signed token v.toInt := by
  constructor
  · intro h
    unfold int64? at h
    split at h
    all_goals
      obtain ⟨n, hn, hv⟩ := Option.bind_eq_some_iff.mp h
      rw [inInt64?_eq_some_iff.mp hv]
    · exact .plus (nat?_eq_some_iff.mp hn)
    · exact .minus (nat?_eq_some_iff.mp hn)
    · exact .plain (nat?_eq_some_iff.mp hn)
  · intro h
    generalize hz : v.toInt = z at h
    cases h with
    | plain hdigits =>
      rw [int64?_of_isDigit hdigits.isDigit.2, nat?_eq_some_iff.mpr hdigits]
      exact inInt64?_eq_some_iff.mpr hz
    | plus hdigits | minus hdigits =>
      rw [int64?, nat?_eq_some_iff.mpr hdigits]
      exact inInt64?_eq_some_iff.mpr hz

/-- **What is not read as a number** is no numeral, or one of a number that is out of range. -/
theorem int64?_eq_none_iff {token : List Char} :
    int64? token = none ↔
      ∀ z, Signed token z → z < -9223372036854775808 ∨ 9223372036854775807 < z := by
  have hmin : Int64.minValue.toInt = -9223372036854775808 := rfl
  have hmax : Int64.maxValue.toInt = 9223372036854775807 := rfl
  constructor
  · intro h z hz
    by_cases hrange : -9223372036854775808 ≤ z ∧ z ≤ 9223372036854775807
    · have hv : (Int64.ofInt z).toInt = z := Int64.toInt_ofInt_of_le (by omega) (by omega)
      rw [int64?_eq_some_iff.mpr (hv.symm ▸ hz)] at h
      cases h
    · omega
  · intro h
    cases hv : int64? token with
    | none => rfl
    | some v =>
      have hlow := v.minValue_le_toInt
      have hhigh := v.toInt_le
      have hout := h v.toInt (int64?_eq_some_iff.mp hv)
      omega

/-! ### Numbers without a sign -/

/-- The digits, or the digits behind a plus sign, denote the number. -/
inductive Unsigned : List Char → Nat → Prop
  /-- Digits alone. -/
  | plain {digits : List Char} {n : Nat} : Decimal digits n → Unsigned digits n
  /-- A plus sign. -/
  | plus {digits : List Char} {n : Nat} : Decimal digits n → Unsigned ('+' :: digits) n

theorem toList_toString_uint64 (v : UInt64) :
    (toString v).toList = Nat.toDigits 10 v.toNat := by
  have hrepr : toString v = v.toNat.repr := rfl
  rw [hrepr, Nat.toList_repr]

theorem inUInt64?_toNat (v : UInt64) : inUInt64? v.toNat = some v := by
  rw [inUInt64?, if_pos v.toNat_lt_size, UInt64.ofNat_toNat]

theorem inUInt64?_eq_some_iff {n : Nat} {v : UInt64} : inUInt64? n = some v ↔ v.toNat = n := by
  constructor
  · intro h
    rw [inUInt64?, Option.ite_none_right_eq_some] at h
    obtain ⟨hrange, hv⟩ := h
    rw [← Option.some.inj hv]
    exact UInt64.toNat_ofNat_of_lt hrange
  · rintro rfl
    exact inUInt64?_toNat v

/-- Digits without a sign are read as they are. -/
theorem uint64?_of_isDigit {digits : List Char} (h : ∀ c ∈ digits, c.isDigit = true) :
    uint64? digits = (nat? 10 digits).bind inUInt64? := by
  unfold uint64?
  split
  · exact absurd (h '+' List.mem_cons_self) (by decide)
  · rfl

/-- **What is read as a number without a sign** is a numeral that denotes it. -/
theorem uint64?_eq_some_iff {token : List Char} {v : UInt64} :
    uint64? token = some v ↔ Unsigned token v.toNat := by
  constructor
  · intro h
    unfold uint64? at h
    split at h
    all_goals
      obtain ⟨n, hn, hv⟩ := Option.bind_eq_some_iff.mp h
      rw [inUInt64?_eq_some_iff.mp hv]
    · exact .plus (nat?_eq_some_iff.mp hn)
    · exact .plain (nat?_eq_some_iff.mp hn)
  · intro h
    generalize hn : v.toNat = n at h
    cases h with
    | plain hdigits =>
      rw [uint64?_of_isDigit hdigits.isDigit.2, nat?_eq_some_iff.mpr hdigits]
      exact inUInt64?_eq_some_iff.mpr hn
    | plus hdigits =>
      rw [uint64?, nat?_eq_some_iff.mpr hdigits]
      exact inUInt64?_eq_some_iff.mpr hn

end Numeral
end CrossAssembler
