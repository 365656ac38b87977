import CrossAssembler.Proofs.Machine.Bounds
import Mathlib.Data.Rat.Floor

/-!
# Division rounds down

Cells have truncated division only, which rounds towards zero.  `floorDiv` takes one off its
quotient where that is too high.  Whether it is too high can be seen from the remainder that
truncation leaves.  Such a remainder has the sign of the dividend and is smaller than the divisor,
while the remainder of a division that rounds down has the sign of the divisor.  If the signs
differ and there is a remainder, adding the divisor to it puts it on the right side of zero, which
is what taking one off the quotient does.  In all other cases it is there already.

This is an argument about integers.  It carries over to cells since only one quotient is too large
for a cell, the least value by minus one, and since nothing is taken off the least value.

## Main definitions

* `RoundsDown` — a remainder lies between zero and the divisor.

## Main results

* `floor_div_eq_iff` — the floor of a fraction is the quotient that leaves such a remainder.
* `roundsDown_floorDiv` — `floorDiv` leaves such a remainder.
* `floorDiv_eq_ofInt_floor` — **the quotient is the floor, wrapped**, at every pair of cells.
* `division_rounds_down` — so it is the floor, except at the one pair.
-/

namespace CrossAssembler

/-! ### Rounding down among integers -/

/-- A remainder that a division by `y` leaves if it rounds down: it lies between zero and the
divisor, which it is not. -/
def RoundsDown (y r : Int) : Prop := 0 ≤ r ∧ r < y ∨ y < r ∧ r ≤ 0

/-- **The floor of a fraction is the quotient whose remainder lies between zero and the
divisor**, on whichever side of zero that is. -/
theorem floor_div_eq_iff {x y q : Int} (hy : y ≠ 0) :
    ⌊(x : ℚ) / y⌋ = q ↔ RoundsDown y (x - y * q) := by
  have hnext : (q + 1) * y = y * q + y := by ring
  have hcomm : q * y = y * q := Int.mul_comm q y
  rw [Int.floor_eq_iff, RoundsDown]
  -- A negative divisor turns the inequalities round, and the two ends change places.
  rcases Int.lt_or_gt_of_ne hy with hneg | hpos
  · have hcast : (y : ℚ) < 0 := Int.cast_lt_zero.mpr hneg
    rw [le_div_iff_of_neg hcast, div_lt_iff_of_neg hcast]
    norm_cast
    omega
  · have hcast : (0 : ℚ) < y := Int.cast_pos.mpr hpos
    rw [le_div_iff₀ hcast, div_lt_iff₀ hcast]
    norm_cast
    omega

section

variable {x y : Int}

/-- What truncation leaves is smaller than the divisor and has the sign of the dividend. -/
theorem tmod_bounds (hy : y ≠ 0) :
    (x.tmod y).natAbs < y.natAbs ∧ (0 ≤ x → 0 ≤ x.tmod y) ∧ (x < 0 → x.tmod y ≤ 0) := by
  refine ⟨?_, Int.tmod_nonneg y, fun hx => ?_⟩
  · rw [Int.natAbs_tmod]
    exact Nat.mod_lt _ (Int.natAbs_pos.mpr hy)
  · have hopposite := Int.tmod_nonneg (a := -x) y (by omega)
    rw [Int.neg_tmod] at hopposite
    omega

/-- Truncation rounds down if it is exact or the signs agree. -/
theorem roundsDown_tdiv (hy : y ≠ 0) (h : x.tmod y = 0 ∨ (x < 0 ↔ y < 0)) :
    RoundsDown y (x - y * x.tdiv y) := by
  obtain ⟨hsmall, hnonneg, hnonpos⟩ := tmod_bounds (x := x) hy
  rw [← Int.tmod_def, RoundsDown]
  omega

/-- One less rounds down if truncation is not exact and the signs differ. -/
theorem roundsDown_tdiv_sub_one (hy : y ≠ 0) (hcut : x.tmod y ≠ 0) (hsigns : ¬ (x < 0 ↔ y < 0)) :
    RoundsDown y (x - y * (x.tdiv y - 1)) := by
  obtain ⟨hsmall, hnonneg, hnonpos⟩ := tmod_bounds (x := x) hy
  have hshift : x - y * (x.tdiv y - 1) = x.tmod y + y := by
    rw [Int.tmod_def]
    ring
  rw [hshift, RoundsDown]
  omega

end

/-! ### Rounding down among cells -/

section

variable {x y : Int64}

theorem toInt_ne_zero (hy : y ≠ 0) : y.toInt ≠ 0 := fun heq => hy (Int64.toInt_inj.mp heq)

/-- Only one quotient is too large for a cell. -/
theorem toInt_div_eq_tdiv (h : ¬ (x = Int64.minValue ∧ y = -1)) :
    (x / y).toInt = x.toInt.tdiv y.toInt := by
  by_cases hx : x = Int64.minValue
  · exact Int64.toInt_div_of_ne_right x y fun hy => h ⟨hx, hy⟩
  · exact Int64.toInt_div_of_ne_left x y hx

/-- **Taking one off a quotient that leaves a remainder does not wrap.** -/
theorem toInt_div_sub_one (h : x % y ≠ 0) : (x / y - 1).toInt = (x / y).toInt - 1 := by
  have hlower := minValue_lt_div h
  have hupper := (x / y).toInt_lt
  rw [Int64.toInt_minValue] at hlower
  rw [Int64.toInt_sub, Int64.toInt_one]
  exact Int.bmod_eq_of_le (by omega) (by omega)

/-- **The remainder lies between zero and the divisor**, unless the quotient wraps. -/
theorem roundsDown_floorDiv (hy : y ≠ 0) (h : ¬ (x = Int64.minValue ∧ y = -1)) :
    RoundsDown y.toInt (x.toInt - y.toInt * (floorDiv x y).toInt) := by
  -- The test that the definition makes on cells, as one on integers.
  have hmod : x % y = 0 ↔ x.toInt.tmod y.toInt = 0 := by
    rw [← Int64.toInt_mod]
    exact Int64.toInt_inj.symm
  have hsign (z : Int64) : z < 0 ↔ z.toInt < 0 := Int64.lt_iff_toInt_lt
  have hsigns : (decide (x < 0) != decide (y < 0)) = true ↔ ¬ (x.toInt < 0 ↔ y.toInt < 0) := by
    rw [bne_iff_ne, ne_eq, decide_eq_decide, hsign x, hsign y]
  unfold floorDiv
  split
  · rename_i hcut
    rw [toInt_div_sub_one hcut.1, toInt_div_eq_tdiv h]
    have hremainder : x.toInt.tmod y.toInt ≠ 0 := fun heq => hcut.1 (hmod.mpr heq)
    exact roundsDown_tdiv_sub_one (toInt_ne_zero hy) hremainder (hsigns.mp hcut.2)
  · rename_i hkept
    rw [toInt_div_eq_tdiv h]
    refine roundsDown_tdiv (toInt_ne_zero hy) ?_
    rw [← hmod, or_iff_not_imp_left]
    exact fun hne => not_not.mp fun hdiffer => hkept ⟨hne, hsigns.mpr hdiffer⟩

/-- The quotient is the floor, unless it wraps. -/
theorem toInt_floorDiv (hy : y ≠ 0) (h : ¬ (x = Int64.minValue ∧ y = -1)) :
    (floorDiv x y).toInt = ⌊(x.toInt : ℚ) / y.toInt⌋ :=
  ((floor_div_eq_iff (toInt_ne_zero hy)).mpr (roundsDown_floorDiv hy h)).symm

/-- The quotient that wraps comes out as the least value again. -/
theorem floorDiv_minValue_neg_one : floorDiv Int64.minValue (-1) = Int64.minValue := by decide

/-- Its floor is the first number that is too large for a cell. -/
theorem floor_minValue_neg_one :
    ⌊(Int64.minValue.toInt : ℚ) / (-1 : Int64).toInt⌋ = 9223372036854775808 := by
  rw [show (-1 : Int64).toInt = -1 from rfl, Int64.toInt_minValue]
  norm_num

/-- **The quotient is the floor, wrapped**, whatever is divided. -/
theorem floorDiv_eq_ofInt_floor (hy : y ≠ 0) :
    floorDiv x y = Int64.ofInt ⌊(x.toInt : ℚ) / y.toInt⌋ := by
  by_cases h : x = Int64.minValue ∧ y = -1
  · obtain ⟨rfl, rfl⟩ := h
    rw [floorDiv_minValue_neg_one, floor_minValue_neg_one]
    decide
  · rw [← toInt_floorDiv hy h, Int64.ofInt_toInt]

end

/-- **Division rounds down at every pair of cells.**  Where there is something to divide by, the
machine computes the quotient, which is the floor of the fraction, wrapped to a cell.  It is the
floor itself except when the least value is divided by minus one, which gives the least value.
Taking one off the quotient never wraps, so checking for this changes nothing.  Apart from the one
pair, divisor times quotient misses the dividend by a remainder between zero and the divisor. -/
theorem division_rounds_down (x y : Int64) (hy : y ≠ 0) :
    (∀ m : Machine, m.compute .div x y = .ok (floorDiv x y)) ∧
      floorDiv x y = Int64.ofInt ⌊(x.toInt : ℚ) / y.toInt⌋ ∧
      ((floorDiv x y).toInt = ⌊(x.toInt : ℚ) / y.toInt⌋ ↔
        ¬ (x = Int64.minValue ∧ y = -1)) ∧
      (x = Int64.minValue ∧ y = -1 → floorDiv x y = Int64.minValue) ∧
      (x % y ≠ 0 → (x / y - 1).toInt = (x / y).toInt - 1) ∧
      Machine.Checked.floorDiv x y = some (floorDiv x y) ∧
      (¬ (x = Int64.minValue ∧ y = -1) →
        ∃ r : Int, x.toInt = y.toInt * (floorDiv x y).toInt + r ∧
          (0 ≤ r ∧ r < y.toInt ∨ y.toInt < r ∧ r ≤ 0)) := by
  refine ⟨fun m => ?_, floorDiv_eq_ofInt_floor hy, ⟨?_, toInt_floorDiv hy⟩, ?_,
    toInt_div_sub_one, Machine.Checked.floorDiv_eq hy, fun h => ?_⟩
  · simp only [Machine.compute, Binary.apply?, if_neg hy]
  · rintro hfloor ⟨rfl, rfl⟩
    rw [floorDiv_minValue_neg_one, floor_minValue_neg_one] at hfloor
    exact absurd hfloor (by decide)
  · rintro ⟨rfl, rfl⟩
    exact floorDiv_minValue_neg_one
  · exact ⟨_, (add_sub_cancel _ _).symm, roundsDown_floorDiv hy h⟩

/-- Half of minus seven is minus four, and one is left over. -/
theorem division_rounds_down_seven :
    (2 : Int64) ≠ 0 ∧ (-7 : Int64) % 2 ≠ 0 ∧ ¬ ((-7 : Int64) = Int64.minValue ∧ (2 : Int64) = -1) ∧
      floorDiv (-7) 2 = -4 ∧
      (floorDiv (-7) 2).toInt = ⌊((-7 : Int64).toInt : ℚ) / (2 : Int64).toInt⌋ ∧
      ((-7 : Int64) / 2 - 1).toInt = ((-7 : Int64) / 2).toInt - 1 ∧
      ∃ r : Int, (-7 : Int64).toInt = (2 : Int64).toInt * (floorDiv (-7) 2).toInt + r ∧
        (0 ≤ r ∧ r < (2 : Int64).toInt ∨ (2 : Int64).toInt < r ∧ r ≤ 0) := by
  have hy : (2 : Int64) ≠ 0 := by decide
  have hcut : (-7 : Int64) % 2 ≠ 0 := by decide
  have hpair : ¬ ((-7 : Int64) = Int64.minValue ∧ (2 : Int64) = -1) := by decide
  obtain ⟨-, -, hfloor, -, hsub, -, hrest⟩ := division_rounds_down (-7) 2 hy
  exact ⟨hy, hcut, hpair, by decide, hfloor.mpr hpair, hsub hcut, hrest hpair⟩

end CrossAssembler
