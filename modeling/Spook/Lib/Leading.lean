import Mathlib.Algebra.Order.Ring.Int
import Mathlib.Data.Nat.Log
import Mathlib.Order.Monotone.Basic
import Mathlib.Tactic.Positivity
import Mathlib.Tactic.Ring

set_option relaxedAutoImplicit false
set_option autoImplicit false

/-!
# Numbers by their leading digits

A number of few digits that stands for all the numbers that begin with them. `k` binary digits are
kept behind the leading one; numbers below `2 ^ c` are all cut at the same place. The codes count
the numbers that are kept, and a code stands for the middle of the numbers that have it.

## Main definitions

* `cutAt` — how many digits of a number are cut.
* `leadCode`, `leadValue` — the code of a number, and the number that a code stands for.

## Main results

* `leadCode_leadValue` — a code is the code of what it stands for.
* `leadCode_mono`, `leadValue_strictMono` — both keep the order.
* `abs_leadValue_sub_le` — what a code stands for is near the number.
-/

/-- How many digits of a number are cut. -/
def cutAt (k c m : ℕ) : ℕ := max (Nat.log 2 m) c - k

/-- The code of a number. -/
def leadCode (k c m : ℕ) : ℕ := (cutAt k c m - (c - k)) * 2 ^ k + m / 2 ^ cutAt k c m

/-- How many digits were cut of the numbers with this code. -/
def cutOf (k c n : ℕ) : ℕ := c - k + (n / 2 ^ k - 1)

/-- The digits that are kept of the numbers with this code. -/
def digitsOf (k n : ℕ) : ℕ := n - (n / 2 ^ k - 1) * 2 ^ k

/-- The number that a code stands for: the middle of those that have it. -/
def leadValue (k c n : ℕ) : ℕ := digitsOf k n * 2 ^ cutOf k c n + 2 ^ (cutOf k c n - 1)

/-- `q` can be what is left of a number when `e` digits are cut. -/
structure LeadDigits (k c e q : ℕ) : Prop where
  le : c - k ≤ e
  lt : q < 2 ^ (k + 1)
  lead : c - k < e → 2 ^ k ≤ q

section Leading

variable {k c m m' n e q : ℕ}

/-- What is left of a number. -/
theorem leadDigits_cutAt (hk : k ≤ c) (m : ℕ) : LeadDigits k c (cutAt k c m) (m / 2 ^ cutAt k c m) := by
  have hsum : cutAt k c m + k = max (Nat.log 2 m) c := Nat.sub_add_cancel (by omega)
  have hpow : 2 ^ cutAt k c m * 2 ^ (k + 1) = 2 ^ (max (Nat.log 2 m) c + 1) := by
    rw [← pow_add, ← Nat.add_assoc, hsum]
  refine ⟨by unfold cutAt; omega, ?_, fun hlt => ?_⟩
  · refine Nat.div_lt_of_lt_mul ?_
    rw [hpow]
    refine (Nat.lt_pow_succ_log_self Nat.one_lt_two m).trans_le ?_
    exact Nat.pow_le_pow_right (by decide) (Nat.succ_le_succ (le_max_left ..))
  · have hlog : cutAt k c m + k = Nat.log 2 m := by omega
    have hm : m ≠ 0 := by
      rintro rfl
      rw [Nat.log_zero_right] at hlog
      omega
    rw [Nat.le_div_iff_mul_le (Nat.two_pow_pos _), ← pow_add, Nat.add_comm, hlog]
    exact Nat.pow_log_le_self 2 hm

/-- There is one place to cut a number. -/
theorem LeadDigits.cutAt_eq (h : LeadDigits k c e q) (hk : k ≤ c) (hq : m / 2 ^ e = q) :
    cutAt k c m = e := by
  have hlt : m < 2 ^ (e + k + 1) := by
    have h := Nat.lt_mul_of_div_lt (hq.trans_lt h.lt) (Nat.two_pow_pos _)
    rwa [← pow_add, Nat.add_comm, ← Nat.add_assoc] at h
  have hlog : Nat.log 2 m < e + k + 1 := Nat.log_lt_of_lt_pow' (Nat.succ_ne_zero _) hlt
  have hle := h.le
  unfold cutAt
  by_cases hmore : c - k < e
  · have hge : 2 ^ (e + k) ≤ m := by
      have h := (Nat.le_div_iff_mul_le (Nat.two_pow_pos _)).1 ((h.lead hmore).trans_eq hq.symm)
      rwa [← pow_add, Nat.add_comm] at h
    have hlog' : e + k ≤ Nat.log 2 m := Nat.le_log_of_pow_le (by decide) hge
    omega
  · omega

/-- The digits of a code. -/
theorem leadDigits_code (k c n : ℕ) : LeadDigits k c (cutOf k c n) (digitsOf k n) := by
  have hdiv := Nat.div_add_mod' n (2 ^ k)
  have hmod := Nat.mod_lt n (Nat.two_pow_pos k)
  have hpow : 2 ^ (k + 1) = 2 ^ k + 2 ^ k := by ring
  unfold cutOf digitsOf
  generalize n / 2 ^ k = d at *
  rcases d with _ | d
  · exact ⟨by omega, by omega, fun h => by omega⟩
  · rw [Nat.succ_mul] at hdiv
    simp only [Nat.succ_sub_one]
    exact ⟨by omega, by omega, fun _ => by omega⟩

/-- A code is made of its digits. -/
theorem code_eq (k c n : ℕ) : (cutOf k c n - (c - k)) * 2 ^ k + digitsOf k n = n := by
  have hdiv := Nat.div_mul_le_self n (2 ^ k)
  have hle : (n / 2 ^ k - 1) * 2 ^ k ≤ n :=
    (Nat.mul_le_mul_right _ (Nat.sub_le ..)).trans hdiv
  unfold cutOf digitsOf
  rw [Nat.add_sub_cancel_left]
  omega

/-- The digits of the code that is made of some digits. -/
theorem LeadDigits.code (h : LeadDigits k c e q) :
    cutOf k c ((e - (c - k)) * 2 ^ k + q) = e ∧ digitsOf k ((e - (c - k)) * 2 ^ k + q) = q := by
  have hle := h.le
  have hdiv : ((e - (c - k)) * 2 ^ k + q) / 2 ^ k = e - (c - k) + q / 2 ^ k := by
    rw [Nat.add_comm, Nat.add_mul_div_right _ _ (Nat.two_pow_pos _), Nat.add_comm]
  unfold cutOf digitsOf
  rw [hdiv]
  by_cases hq : q < 2 ^ k
  · have he : e = c - k := by
      by_contra hne
      exact absurd (h.lead (by omega)) (by omega)
    rw [Nat.div_eq_of_lt hq, he]
    simp
  · have hone : q / 2 ^ k = 1 := by
      rw [Nat.div_eq_iff (Nat.two_pow_pos _)]
      have hlt := h.lt
      have hpow : 2 ^ (k + 1) = 2 ^ k + 2 ^ k := by ring
      omega
    rw [hone, Nat.add_sub_cancel]
    omega

/-- What the code of a number stands for. -/
theorem leadValue_leadCode (hk : k ≤ c) (m : ℕ) :
    leadValue k c (leadCode k c m) =
      m / 2 ^ cutAt k c m * 2 ^ cutAt k c m + 2 ^ (cutAt k c m - 1) := by
  obtain ⟨hcut, hdigits⟩ := (leadDigits_cutAt hk m).code
  rw [leadValue, leadCode, hcut, hdigits]

/-- No code stands for zero: half of what is cut off is added. -/
theorem leadValue_pos (k c n : ℕ) : 0 < leadValue k c n := Nat.add_pos_right _ (Nat.two_pow_pos _)

/-- **A code is the code of the number that it stands for.** -/
theorem leadCode_leadValue (hk : k < c) (n : ℕ) : leadCode k c (leadValue k c n) = n := by
  have h := leadDigits_code k c n
  have hle := h.le
  have hhalf : 2 ^ (cutOf k c n - 1) < 2 ^ cutOf k c n :=
    Nat.pow_lt_pow_right (by decide) (by omega)
  have hdiv : leadValue k c n / 2 ^ cutOf k c n = digitsOf k n := by
    rw [leadValue, Nat.add_comm, Nat.add_mul_div_right _ _ (Nat.two_pow_pos _), Nat.div_eq_of_lt hhalf,
      Nat.zero_add]
  rw [leadCode, h.cutAt_eq hk.le hdiv, hdiv, code_eq]

/-- A larger number has no smaller code. -/
theorem leadCode_mono (hk : k ≤ c) : Monotone (leadCode k c) := by
  intro m m' hle
  have h := leadDigits_cutAt hk m
  have h' := leadDigits_cutAt hk m'
  have hcut : cutAt k c m ≤ cutAt k c m' :=
    Nat.sub_le_sub_right (max_le_max_right c (Nat.log_mono_right hle)) k
  unfold leadCode
  rcases hcut.eq_or_lt with heq | hlt
  · rw [heq]
    exact Nat.add_le_add_left (Nat.div_le_div_right hle) _
  · -- one more cut digit is worth more than all digits that are kept
    have hlead := h'.lead (h.le.trans_lt hlt)
    have hstep : (cutAt k c m - (c - k) + 1) * 2 ^ k ≤ (cutAt k c m' - (c - k)) * 2 ^ k :=
      Nat.mul_le_mul_right _ (by have := h.le; omega)
    have hlow := h.lt
    have hpow : 2 ^ (k + 1) = 2 ^ k + 2 ^ k := by ring
    rw [Nat.succ_mul] at hstep
    omega

/-- A larger code stands for a larger number. -/
theorem leadValue_strictMono (hk : k < c) : StrictMono (leadValue k c) := by
  intro n n' hlt
  by_contra hle
  have h := leadCode_mono hk.le (not_lt.1 hle)
  rw [leadCode_leadValue hk, leadCode_leadValue hk] at h
  omega

/-- **What a code stands for is near the number**: it is off by at most half of what was cut. -/
theorem abs_leadValue_sub_le (hk : k < c) (m : ℕ) :
    2 ^ (k + 1) * |(leadValue k c (leadCode k c m) : ℤ) - m| ≤ (max m (2 ^ c) : ℕ) := by
  have h := leadDigits_cutAt hk.le m
  have hle := h.le
  rw [leadValue_leadCode hk.le]
  obtain ⟨e, he⟩ : ∃ e, cutAt k c m = e + 1 := ⟨cutAt k c m - 1, by omega⟩
  rw [he] at h hle ⊢
  have hhalf : 2 ^ (k + 1) * 2 ^ e ≤ max m (2 ^ c) := by
    by_cases hlt : c - k < e + 1
    · refine le_max_of_le_left (le_trans ?_ (Nat.div_mul_le_self m (2 ^ (e + 1))))
      calc 2 ^ (k + 1) * 2 ^ e = 2 ^ k * 2 ^ (e + 1) := by ring
        _ ≤ m / 2 ^ (e + 1) * 2 ^ (e + 1) := Nat.mul_le_mul_right _ (h.lead hlt)
    · refine le_max_of_le_right (le_of_eq ?_)
      rw [← pow_add]
      congr 1
      omega
  have hdiv := Nat.div_add_mod' m (2 ^ (e + 1))
  have hmod := Nat.mod_lt m (Nat.two_pow_pos (e + 1))
  have hpow : 2 ^ (e + 1) = 2 ^ e + 2 ^ e := by ring
  have hnear : |((m / 2 ^ (e + 1) * 2 ^ (e + 1) + 2 ^ e : ℕ) : ℤ) - m| ≤ (2 ^ e : ℕ) := by
    generalize m / 2 ^ (e + 1) * 2 ^ (e + 1) = a at hdiv ⊢
    rw [abs_le]
    constructor <;> omega
  rw [Nat.add_sub_cancel]
  calc (2 : ℤ) ^ (k + 1) * |((m / 2 ^ (e + 1) * 2 ^ (e + 1) + 2 ^ e : ℕ) : ℤ) - m|
      ≤ 2 ^ (k + 1) * (2 ^ e : ℕ) := Int.mul_le_mul_of_nonneg_left hnear (by positivity)
    _ = ((2 ^ (k + 1) * 2 ^ e : ℕ) : ℤ) := by push_cast; ring
    _ ≤ (max m (2 ^ c) : ℕ) := by exact_mod_cast hhalf

end Leading
