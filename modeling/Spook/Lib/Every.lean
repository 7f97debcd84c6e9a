import Mathlib.Algebra.Order.Ring.Nat
import Mathlib.Data.List.Induction

set_option relaxedAutoImplicit false
set_option autoImplicit false

/-!
# Every `k`-th element

The elements of a list at the positions `0`, `k`, `2 * k`, … A counter that starts at `0`, is counted
up for each element and starts again at `k` finds them.

## Main definitions

* `every` — every `k`-th element.

## Main results

* `every_concat` — one more element.
* `length_every` — how many elements there are.
* `every_every` — every `j`-th of every `k`-th element.
-/

variable {α : Type}

/-- Every `k`-th element of a list, the first one among them. -/
def every (k : ℕ) (xs : List α) : List α := (xs.zipIdx.filter fun x => k ∣ x.2).map Prod.fst

variable {j k : ℕ} {xs : List α} {x : α}

/-- Of nothing. -/
@[simp] theorem every_nil : every k ([] : List α) = [] := rfl

/-- Every one of them. -/
@[simp] theorem every_one : every 1 xs = xs := by
  simp [every, List.filter_eq_self.2]

/-- One more element. -/
theorem every_concat : every k (xs ++ [x]) = every k xs ++ if k ∣ xs.length then [x] else [] := by
  rw [every, List.zipIdx_append, List.filter_append, List.map_append, ← every]
  split_ifs with h <;> simp [h]

/-- The elements come in their order. -/
theorem every_sublist : (every k xs).Sublist xs := by
  have hfst : xs.zipIdx.map Prod.fst = xs := List.zipIdx_map_fst 0 xs
  conv_rhs => rw [← hfst]
  exact List.filter_sublist.map Prod.fst

/-- The number of elements. -/
theorem length_every (hk : 0 < k) : (every k xs).length = (xs.length + (k - 1)) / k := by
  induction xs using List.reverseRecOn with
  | nil => exact (Nat.div_eq_of_lt (by simp; omega)).symm
  | append_singleton xs x ih =>
    rw [every_concat, List.length_append, ih, List.length_append, List.length_singleton]
    have hdiv : (xs.length + 1 + (k - 1)) / k = xs.length / k + 1 := by
      rw [show xs.length + 1 + (k - 1) = xs.length + k by omega, Nat.add_div_right _ hk]
    rw [hdiv]
    split_ifs with h
    · obtain ⟨n, hn⟩ := h
      rw [hn, Nat.mul_add_div hk, Nat.div_eq_of_lt (by omega), Nat.mul_div_cancel_left n hk]
      simp
    · have hmod : 0 < xs.length % k := Nat.pos_of_ne_zero fun h0 => h (Nat.dvd_of_mod_eq_zero h0)
      have hsplit := Nat.div_add_mod xs.length k
      rw [List.length_nil, Nat.add_zero, Nat.div_eq_iff hk]
      have hlt := Nat.mod_lt xs.length hk
      have hmul : (xs.length / k + 1) * k = k * (xs.length / k) + k := by
        rw [Nat.succ_mul, Nat.mul_comm]
      omega

/-- **Every `j`-th of every `k`-th element.** -/
theorem every_every (hk : 0 < k) : every j (every k xs) = every (k * j) xs := by
  induction xs using List.reverseRecOn with
  | nil => rfl
  | append_singleton xs x ih =>
    rw [every_concat, every_concat]
    by_cases h : k ∣ xs.length
    · obtain ⟨n, hn⟩ := h
      have hlen : (every k xs).length = n := by
        rw [length_every hk, hn, Nat.mul_add_div hk, Nat.div_eq_of_lt (by omega), Nat.add_zero]
      have hdvd : k * j ∣ xs.length ↔ j ∣ n := by
        rw [hn]
        exact Nat.mul_dvd_mul_iff_left hk
      rw [if_pos ⟨n, hn⟩, every_concat, ih, hlen]
      simp only [hdvd]
    · have hnot : ¬ k * j ∣ xs.length := fun hdvd => h ((Nat.dvd_mul_right k j).trans hdvd)
      rw [if_neg h, if_neg hnot, List.append_nil, List.append_nil, ih]
