import Mathlib.Analysis.SpecialFunctions.Trigonometric.Basic

set_option relaxedAutoImplicit false
set_option autoImplicit false

/-!
# Sines of whole numbers

The sines of whole numbers of radians to about fourteen digits. A vector is turned by one radian
time and again, and its coordinates are kept as whole multiples of `10⁻¹⁵`.

## Main definitions

* `turn` — the vector after a number of turns.

## Main results

* `abs_sin_sub_turn_le` — how far its second coordinate is from the sine.
* `floor_sin` — the whole part of a multiple of a sine.
-/

open Complex

/-- A unit vector that was turned by `k` radians, in multiples of `10⁻¹⁵`. -/
def turn : ℕ → ℤ × ℤ
  | 0 => (10 ^ 15, 0)
  | k + 1 =>
    match turn k with
    | (c, s) => ((c * 540302305868139 - s * 841470984807896) / 10 ^ 15,
        (s * 540302305868139 + c * 841470984807896) / 10 ^ 15)

section Turn

/-- The vector as a complex number. -/
noncomputable def turned (k : ℕ) : ℂ := ((turn k).1 + (turn k).2 * I) / 10 ^ 15

/-- A radian, to fifteen digits. -/
noncomputable def radian : ℂ := (540302305868139 + 841470984807896 * I) / 10 ^ 15

/-- The norm is at most the sum of the coordinates. -/
theorem norm_le_coords (a b : ℝ) : ‖(a + b * I : ℂ)‖ ≤ |a| + |b| := by
  have h := norm_le_abs_re_add_abs_im (a + b * I)
  simpa using h

/-- The first terms of the exponential series at `I`. -/
theorem sum_series : ∑ m ∈ Finset.range 18, I ^ m / (m.factorial : ℂ) =
    ((11304631621681 / 20922789888000 : ℝ) : ℂ) + ((23023126954133 / 27360571392000 : ℝ) : ℂ) * I := by
  have hpow : ∀ m, I ^ (m + 2) = -I ^ m := by
    intro m
    rw [pow_add, I_sq, mul_neg_one]
  simp only [Finset.sum_range_succ, Finset.sum_range_zero, hpow, pow_zero, pow_one,
    Nat.factorial]
  push_cast
  ring

/-- How far the radian is from the true one. -/
theorem norm_exp_sub_radian_le : ‖exp I - radian‖ ≤ 2 / 10 ^ 15 := by
  have hexp := exp_bound (x := I) (n := 18) (by simp) (by decide)
  rw [sum_series] at hexp
  have hdiff : ((11304631621681 / 20922789888000 : ℝ) : ℂ) +
      ((23023126954133 / 27360571392000 : ℝ) : ℂ) * I - radian =
      ((11304631621681 / 20922789888000 - 540302305868139 / 10 ^ 15 : ℝ) : ℂ) +
      ((23023126954133 / 27360571392000 - 841470984807896 / 10 ^ 15 : ℝ) : ℂ) * I := by
    unfold radian
    push_cast
    ring
  have hround := norm_le_coords (11304631621681 / 20922789888000 - 540302305868139 / 10 ^ 15)
    (23023126954133 / 27360571392000 - 841470984807896 / 10 ^ 15)
  rw [← hdiff] at hround
  refine (norm_sub_le_norm_sub_add_norm_sub _ _ _).trans ((add_le_add hexp hround).trans ?_)
  norm_num [Nat.factorial]

/-- The rounded point stays inside the unit circle. -/
theorem norm_radian_le_one : ‖radian‖ ≤ 1 := by
  have hnorm : normSq radian ≤ 1 := by
    have hrad : radian = ((540302305868139 / 10 ^ 15 : ℝ) : ℂ) +
        ((841470984807896 / 10 ^ 15 : ℝ) : ℂ) * I := by
      unfold radian
      push_cast
      ring
    rw [hrad, normSq_add_mul_I]
    norm_num
  rw [← sq_le_one_iff₀ (norm_nonneg _), ← normSq_eq_norm_sq]
  exact hnorm

/-- A whole quotient by `10¹⁵` loses less than one. -/
theorem abs_sub_ediv_le (a : ℤ) : |(a : ℝ) / 10 ^ 15 - ((a / 10 ^ 15 : ℤ) : ℝ)| ≤ 1 := by
  have hmod := Int.mul_ediv_add_emod a (10 ^ 15)
  have hlt := Int.emod_lt_of_pos a (by norm_num : (0 : ℤ) < 10 ^ 15)
  have hnonneg := Int.emod_nonneg a (by norm_num : (10 ^ 15 : ℤ) ≠ 0)
  have hcast : (a : ℝ) = 10 ^ 15 * ((a / 10 ^ 15 : ℤ) : ℝ) + ((a % 10 ^ 15 : ℤ) : ℝ) := by
    exact_mod_cast hmod.symm
  have hlt' : ((a % 10 ^ 15 : ℤ) : ℝ) ≤ 10 ^ 15 := by exact_mod_cast hlt.le
  have hnonneg' : (0 : ℝ) ≤ ((a % 10 ^ 15 : ℤ) : ℝ) := by exact_mod_cast hnonneg
  rw [hcast, add_div, mul_div_cancel_left₀ _ (by norm_num), add_sub_cancel_left, abs_of_nonneg
    (by positivity), div_le_one (by norm_num)]
  exact hlt'

/-- A turn rounds both coordinates. -/
theorem norm_turned_succ_sub_le (k : ℕ) : ‖turned k * radian - turned (k + 1)‖ ≤ 2 / 10 ^ 15 := by
  rcases h : turn k with ⟨c, s⟩
  have hc := abs_sub_ediv_le (c * 540302305868139 - s * 841470984807896)
  have hs := abs_sub_ediv_le (s * 540302305868139 + c * 841470984807896)
  set c' := (c * 540302305868139 - s * 841470984807896) / 10 ^ 15 with hc'
  set s' := (s * 540302305868139 + c * 841470984807896) / 10 ^ 15 with hs'
  have hnext : turn (k + 1) = (c', s') := by rw [turn, h]
  push_cast at hc hs
  have hdiff : turned k * radian - turned (k + 1) =
      ((((c * 540302305868139 - s * 841470984807896) / 10 ^ 15 - c') / 10 ^ 15 : ℝ) : ℂ) +
      ((((s * 540302305868139 + c * 841470984807896) / 10 ^ 15 - s') / 10 ^ 15 : ℝ) : ℂ) * I := by
    unfold turned radian
    rw [hnext, h]
    push_cast
    ring_nf
    rw [I_sq]
    ring
  rw [hdiff]
  refine (norm_le_coords _ _).trans ?_
  rw [abs_div, abs_div, abs_of_pos (by norm_num : (0 : ℝ) < 10 ^ 15), ← add_div]
  gcongr
  linarith

/-- How far the turned vector is from the point on the circle. -/
theorem norm_exp_sub_turned_le (k : ℕ) : ‖exp (k * I) - turned k‖ ≤ 4 * k / 10 ^ 15 := by
  induction k with
  | zero => norm_num [turned, turn]
  | succ k ih =>
    have hsplit : exp ((k + 1 : ℕ) * I) - turned (k + 1) =
        exp (k * I) * (exp I - radian) + (exp (k * I) - turned k) * radian +
          (turned k * radian - turned (k + 1)) := by
      rw [Nat.cast_succ, add_mul, one_mul, exp_add]
      ring
    have hcircle : ‖exp (k * I)‖ = 1 := by
      have h := norm_exp_ofReal_mul_I k
      simpa using h
    have hfirst : ‖exp (k * I) * (exp I - radian)‖ ≤ 2 / 10 ^ 15 := by
      rw [norm_mul, hcircle, one_mul]
      exact norm_exp_sub_radian_le
    have hsecond : ‖(exp (k * I) - turned k) * radian‖ ≤ 4 * k / 10 ^ 15 := by
      rw [norm_mul]
      exact (mul_le_of_le_one_right (norm_nonneg _) norm_radian_le_one).trans ih
    rw [hsplit]
    refine (norm_add₃_le).trans ?_
    have hthird := norm_turned_succ_sub_le k
    push_cast
    linarith

/-- How far the second coordinate is from the sine. -/
theorem abs_sin_sub_turn_le (k : ℕ) :
    |Real.sin k - ((turn k).2 : ℝ) / 10 ^ 15| ≤ 4 * (k : ℝ) / 10 ^ 15 := by
  have him : (exp (k * I) - turned k).im = Real.sin k - ((turn k).2 : ℝ) / 10 ^ 15 := by
    have hexp : (exp (k * I)).im = Real.sin k := exp_ofReal_mul_I_im k
    have hturned : turned k =
        (((turn k).1 / 10 ^ 15 : ℝ) : ℂ) + (((turn k).2 / 10 ^ 15 : ℝ) : ℂ) * I := by
      unfold turned
      push_cast
      ring
    rw [sub_im, hexp, hturned, add_im, ofReal_im, mul_I_im, ofReal_re, zero_add]
  rw [← him]
  exact (abs_im_le_norm _).trans (norm_exp_sub_turned_le k)

/-- The whole part of a multiple of a sine, when the second coordinate decides it. -/
theorem floor_sin {k a t : ℕ} (hlow : (t * 10 ^ 15 + a * (4 * k) : ℤ) ≤ a * |(turn k).2|)
    (hhigh : (a * (|(turn k).2| + 4 * k) : ℤ) < (t + 1) * 10 ^ 15) :
    ⌊(a : ℝ) * |Real.sin k|⌋₊ = t := by
  have hlow' : (t * 10 ^ 15 + a * (4 * k) : ℝ) ≤ a * |((turn k).2 : ℝ)| := by exact_mod_cast hlow
  have hhigh' : (a * (|((turn k).2 : ℝ)| + 4 * k) : ℝ) < (t + 1) * 10 ^ 15 := by
    exact_mod_cast hhigh
  have hsin : |(|Real.sin k| - |((turn k).2 : ℝ)| / 10 ^ 15)| ≤ 4 * (k : ℝ) / 10 ^ 15 := by
    have h := (abs_abs_sub_abs_le _ _).trans (abs_sin_sub_turn_le k)
    rwa [abs_div, abs_of_pos (by norm_num : (0 : ℝ) < 10 ^ 15)] at h
  obtain ⟨hbelow, habove⟩ := abs_le.1 hsin
  have hscale : (0 : ℝ) ≤ a := a.cast_nonneg
  have hbelow' := mul_le_mul_of_nonneg_left hbelow hscale
  have habove' := mul_le_mul_of_nonneg_left habove hscale
  rw [Nat.floor_eq_iff (by positivity)]
  constructor
  · linarith
  · linarith

end Turn
