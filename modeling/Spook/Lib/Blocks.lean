import Mathlib.Data.List.Basic
import Mathlib.Data.Nat.Basic

set_option relaxedAutoImplicit false
set_option autoImplicit false

/-!
# Input in blocks

A function of blocks of a fixed length, on an input of any length: it gets the whole blocks, one
after the other, and what does not fill a block is left.

## Main definitions

* `foldBlocks` — the function over a number of blocks.
* `absorb` — the function over the whole blocks of an input, and what is left of it.

## Main results

* `block_induction` — induction on an input by its blocks.
* `absorb_append` — an input that comes in two parts.
-/

variable {σ α : Type*}

/-- `f` gets the first `k` blocks of `n` elements. -/
def foldBlocks (n : ℕ) (f : σ → List α → σ) : ℕ → σ → List α → σ
  | 0, s, _ => s
  | k + 1, s, xs => foldBlocks n f k (f s (xs.take n)) (xs.drop n)

/-- `f` gets the whole blocks of `xs`; the elements that do not fill a block are left. -/
def absorb (n : ℕ) (f : σ → List α → σ) (s : σ) (xs : List α) : σ × List α :=
  (foldBlocks n f (xs.length / n) s xs, xs.drop (xs.length / n * n))

section Blocks

variable {n : ℕ} {f : σ → List α → σ}

/-- A list is shorter than a block, or a block and a list. -/
theorem block_induction {p : List α → Prop} (hn : 0 < n) (short : ∀ xs, xs.length < n → p xs)
    (block : ∀ b xs, b.length = n → p xs → p (b ++ xs)) (xs : List α) : p xs := by
  induction hlen : xs.length using Nat.strong_induction_on generalizing xs with
  | _ len ih =>
    by_cases hlt : xs.length < n
    · exact short xs hlt
    · have hdrop : (xs.drop n).length < len := by
        rw [List.length_drop]
        omega
      have htake : (xs.take n).length = n := by
        rw [List.length_take]
        omega
      have h := block (xs.take n) (xs.drop n) htake (ih _ hdrop _ rfl)
      rwa [List.take_append_drop] at h

/-- An input that is shorter than a block. -/
theorem absorb_of_lt (s : σ) {xs : List α} (h : xs.length < n) : absorb n f s xs = (s, xs) := by
  simp [absorb, Nat.div_eq_of_lt h, foldBlocks]

/-- Nothing is absorbed. -/
@[simp] theorem absorb_nil (s : σ) : absorb n f s [] = (s, []) := by
  simp [absorb, foldBlocks]

/-- A block and an input behind it. -/
theorem absorb_block (hn : 0 < n) (s : σ) {b : List α} (hb : b.length = n) (xs : List α) :
    absorb n f s (b ++ xs) = absorb n f (f s b) xs := by
  have hdiv : (b ++ xs).length / n = xs.length / n + 1 := by
    rw [List.length_append, hb, Nat.add_comm, Nat.add_div_right _ hn]
  have hdrop : (b ++ xs).drop ((xs.length / n + 1) * n) = xs.drop (xs.length / n * n) := by
    rw [Nat.succ_mul, Nat.add_comm, ← hb, List.drop_append]
    simp
  simp only [absorb, hdiv, hdrop, foldBlocks, List.take_left' hb, List.drop_left' hb]

/-- What is left does not fill a block. -/
theorem length_absorb (s : σ) (xs : List α) :
    (absorb n f s xs).2.length = xs.length % n := by
  have hdiv := Nat.div_add_mod' xs.length n
  simp only [absorb, List.length_drop]
  omega

/-- An input that comes in two parts: what is left of the first part is absorbed with the second. -/
theorem absorb_append (hn : 0 < n) (s : σ) (xs ys : List α) :
    absorb n f s (xs ++ ys) = absorb n f (absorb n f s xs).1 ((absorb n f s xs).2 ++ ys) := by
  induction xs using block_induction hn generalizing s with
  | short xs h => rw [absorb_of_lt s h]
  | block b xs hb ih => rw [List.append_assoc, absorb_block hn s hb, absorb_block hn s hb, ih]

end Blocks
