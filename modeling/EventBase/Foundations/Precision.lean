import Mathlib

/-! Whole numbers in a binary floating-point format: the nearest one whose
significand fits, ties to even. -/

namespace EventBase.Foundations

/-- How many times `unit` goes into `value`, rounded to the nearest, ties to even. -/
def roundHalfEven (unit value : Nat) : Nat :=
  let quotient := value / unit
  let twice := 2 * (value % unit)
  if twice < unit ∨ (twice = unit ∧ quotient % 2 = 0) then quotient else quotient + 1

def roundMagnitude (precision value : Nat) : Nat :=
  let unit := 2 ^ (value.log2 + 1 - precision)
  roundHalfEven unit value * unit

/-- The nearest number with a significand of `precision` bits. -/
def roundToPrecision (precision : Nat) (value : Int) : Int :=
  value.sign * roundMagnitude precision value.natAbs

theorem roundHalfEven_mul {unit quotient} (positive : 0 < unit) : roundHalfEven unit (quotient * unit) = quotient := by
  simp [roundHalfEven, Nat.mul_div_cancel _ positive, positive]

theorem roundMagnitude_of_dvd {precision value} (whole : 2 ^ (value.log2 + 1 - precision) ∣ value) :
    roundMagnitude precision value = value := by
  obtain ⟨quotient, split⟩ := whole
  have rounded : roundHalfEven (2 ^ (value.log2 + 1 - precision)) (quotient * 2 ^ (value.log2 + 1 - precision)) = quotient :=
    roundHalfEven_mul (Nat.two_pow_pos _)
  rw [Nat.mul_comm, ← split] at rounded
  rw [roundMagnitude, rounded, Nat.mul_comm]
  exact split.symm

theorem roundMagnitude_of_le {precision value} (positive : 0 < precision) (fits : value ≤ 2 ^ precision) :
    roundMagnitude precision value = value := by
  refine roundMagnitude_of_dvd ?_
  obtain rfl | less := Nat.eq_or_lt_of_le fits
  · rw [Nat.log2_two_pow, Nat.add_sub_cancel_left]
    exact pow_dvd_pow 2 positive
  · obtain rfl | nonzero := Nat.eq_zero_or_pos value
    · exact Nat.dvd_zero _
    · have short : value.log2 < precision := (Nat.log2_lt (Nat.ne_of_gt nonzero)).mpr less
      rw [Nat.sub_eq_zero_of_le short, Nat.pow_zero]
      exact Nat.one_dvd value

theorem roundMagnitude_le_two_pow {precision value bits} (less : value < 2 ^ bits) :
    roundMagnitude precision value ≤ 2 ^ bits := by
  obtain rfl | nonzero := Nat.eq_zero_or_pos value
  · simp [roundMagnitude, roundHalfEven]
  have short : value.log2 < bits := (Nat.log2_lt (Nat.ne_of_gt nonzero)).mpr less
  obtain ⟨more, total⟩ := Nat.le.dest (show value.log2 + 1 - precision ≤ bits by omega)
  have split : 2 ^ bits = 2 ^ more * 2 ^ (value.log2 + 1 - precision) := by rw [← Nat.pow_add, Nat.add_comm, total]
  have below : value / 2 ^ (value.log2 + 1 - precision) < 2 ^ more :=
    Nat.div_lt_of_lt_mul (by rwa [Nat.mul_comm, ← split])
  rw [roundMagnitude, split]
  refine Nat.mul_le_mul_right _ ?_
  rw [roundHalfEven]
  split
  · exact Nat.le_of_lt below
  · exact below

theorem roundToPrecision_le_two_pow {precision bits value} (less : value < 2 ^ bits) :
    roundToPrecision precision value ≤ 2 ^ bits := by
  have positive : (0 : Int) ≤ 2 ^ bits := Int.pow_nonneg (by decide)
  rw [roundToPrecision]
  obtain below | above := Int.le_total value 0
  · have sign : value.sign ≤ 0 := Int.sign_nonpos_iff.mpr below
    exact Int.le_trans (Int.mul_nonpos_of_nonpos_of_nonneg sign (Int.natCast_nonneg _)) positive
  · obtain ⟨magnitude, rfl⟩ := Int.eq_ofNat_of_zero_le above
    have rounded : roundMagnitude precision magnitude ≤ 2 ^ bits := roundMagnitude_le_two_pow (by exact_mod_cast less)
    rw [Int.natAbs_natCast]
    obtain rfl | nonzero := Nat.eq_zero_or_pos magnitude
    · simp
    · rw [Int.sign_natCast_of_ne_zero (Nat.ne_of_gt nonzero), Int.one_mul]
      exact_mod_cast rounded

theorem roundToPrecision_of_le {precision value} (positive : 0 < precision) (nonneg : 0 ≤ value)
    (fits : value ≤ 2 ^ precision) : roundToPrecision precision value = value := by
  obtain ⟨magnitude, rfl⟩ := Int.eq_ofNat_of_zero_le nonneg
  have kept : roundMagnitude precision magnitude = magnitude := roundMagnitude_of_le positive (by exact_mod_cast fits)
  rw [roundToPrecision, Int.natAbs_natCast, kept]
  exact Int.sign_mul_natAbs magnitude

end EventBase.Foundations
