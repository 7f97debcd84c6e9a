import Mathlib.Data.List.Basic
import Mathlib.Logic.Function.Basic
import Mathlib.Tactic.SplitIfs

set_option relaxedAutoImplicit false
set_option autoImplicit false

/-!
# Rings of slots

A ring of `n` slots that cursors run around. A cursor is followed by a counter that never wraps;
the slot of a counter is the slot of its residue. Within a window of `n` consecutive counters
different counters have different slots, so that what is said of the slots of a window survives
an update of one of them.

## Main definitions

* `SlotRing.slot` — the slot of a counter.
* `SlotRing.window` — the slots of a number of counters in a row.

## Main results

* `SlotRing.slot_update` — an update seen through the counters of a window.
* `SlotRing.succ_mod` — a cursor follows its counter.
* `SlotRing.filterMap_window` — the contents of a window, in order.
* `SlotRing.window_update`, `window_writes`, `window_add` — a window that grows at one end and
  shrinks at the other.
* `SlotRing.advance_mod`, `distance_mod` — cursors without a division.
-/

namespace SlotRing

variable {α β : Type*} {n : ℕ}

/-- The slot of the counter `i` in a ring of `n` slots. -/
def slot (n : ℕ) (slots : ℕ → α) (i : ℕ) : α := slots (i % n)

/-- In a window of `n` counters no two share a slot. -/
theorem mod_inj {w i j : ℕ} (hi : w ≤ i ∧ i < w + n) (hj : w ≤ j ∧ j < w + n)
    (h : i % n = j % n) : i = j := by
  have hdvd : ∀ {a b : ℕ}, a ≤ b → b < a + n → a % n = b % n → a = b := by
    intro a b hab hlt hmod
    have h0 : (b - a) % n = 0 := Nat.sub_mod_eq_zero_of_mod_eq hmod.symm
    rw [Nat.mod_eq_of_lt (by omega)] at h0
    omega
  rcases Nat.le_total i j with hij | hij
  · exact hdvd hij (by omega) h
  · exact (hdvd hij (by omega) h.symm).symm

/-- An update seen through the counters of a window. -/
theorem slot_update {slots : ℕ → α} {w i j : ℕ} (hi : w ≤ i ∧ i < w + n)
    (hj : w ≤ j ∧ j < w + n) (a : α) :
    slot n (Function.update slots (i % n) a) j = if j = i then a else slot n slots j := by
  unfold slot
  split_ifs with hij
  · rw [hij, Function.update_self]
  · rw [Function.update_of_ne fun h => hij (mod_inj hj hi h)]

/-- The cursor of the next counter. -/
theorem succ_mod (i n : ℕ) : (i % n + 1) % n = (i + 1) % n := by
  simp [Nat.add_mod]

/-- A cursor some slots further, which goes back to the first slot at the end. -/
theorem advance_mod {i d n : ℕ} (h : i % n + d ≤ n) :
    (if i % n + d = n then 0 else i % n + d) = (i + d) % n := by
  have hsum : (i + d) % n = (i % n + d) % n := by simp [Nat.add_mod]
  rw [hsum]
  split_ifs with heq
  · rw [heq, Nat.mod_self]
  · exact (Nat.mod_eq_of_lt (by omega)).symm

/-- The slots from one cursor to another that is less than a turn ahead. -/
theorem distance_mod {i k n : ℕ} (hk : k < n) :
    (if (i + k) % n < i % n then n - i % n + (i + k) % n else (i + k) % n - i % n) = k := by
  have hi : i % n < n := Nat.mod_lt i (by omega)
  have hsum : (i + k) % n = (i % n + k) % n := by simp [Nat.add_mod]
  rw [hsum]
  by_cases hlt : i % n + k < n
  · rw [Nat.mod_eq_of_lt hlt, if_neg (by omega)]
    omega
  · have hwrap : (i % n + k) % n = i % n + k - n := by
      rw [Nat.mod_eq_sub_mod (by omega), Nat.mod_eq_of_lt (by omega)]
    rw [hwrap, if_pos (by omega)]
    omega

/-- A full turn leads back to the slot. -/
theorem slot_add (slots : ℕ → α) (i : ℕ) : slot n slots (i + n) = slot n slots i := by
  simp [slot]

/-- A list read by index from `a` on. -/
theorem filterMap_getElem? (l : List β) (a k : ℕ) (hk : l.length ≤ a + k) :
    (List.range k).filterMap (fun i => l[a + i]?) = l.drop a := by
  induction k generalizing a with
  | zero =>
    rw [List.drop_eq_nil_of_le (by omega)]
    rfl
  | succ k ih =>
    rw [List.range_succ_eq_map, List.filterMap_cons, List.filterMap_map]
    have hrest : (List.range k).filterMap ((fun i => l[a + i]?) ∘ Nat.succ) = l.drop (a + 1) := by
      rw [← ih (a + 1) (by omega)]
      congr 1
      funext i
      simp only [Function.comp, Nat.succ_eq_add_one]
      congr 1
      omega
    rw [hrest, Nat.add_zero]
    by_cases ha : a < l.length
    · rw [List.getElem?_eq_getElem ha, List.drop_eq_getElem_cons ha]
    · rw [List.getElem?_eq_none (by omega), List.drop_eq_nil_of_le (by omega),
        List.drop_eq_nil_of_le (by omega)]

/-- The contents of a window of `k` counters from `a` on, in order, when the test reads a list. -/
theorem filterMap_window {slots : ℕ → α} {g : α → Option β} {l : List β} {a k : ℕ}
    (h : ∀ i < k, g (slot n slots (a + i)) = l[a + i]?) (hk : l.length ≤ a + k) :
    (List.range k).filterMap (fun i => g (slot n slots (a + i))) = l.drop a := by
  rw [← filterMap_getElem? l a k hk]
  exact List.filterMap_congr fun i hi => h i (List.mem_range.1 hi)

/-! ## The contents of a window -/

/-- The slots of the `k` counters from `r` on. -/
def window (n : ℕ) (slots : ℕ → α) (r k : ℕ) : List α :=
  (List.range k).map fun i => slot n slots (r + i)

/-- As many slots as asked for. -/
@[simp] theorem length_window (slots : ℕ → α) (r k : ℕ) : (window n slots r k).length = k := by
  simp [window]

/-- No slots. -/
@[simp] theorem window_zero (slots : ℕ → α) (r : ℕ) : window n slots r 0 = [] := rfl

/-- A window begins anywhere on its first turn. -/
theorem window_mod (slots : ℕ → α) (r k : ℕ) : window n slots (r % n) k = window n slots r k := by
  simp [window, slot]

/-- A slot written behind a window that is not full makes it longer. -/
theorem window_update (slots : ℕ → α) {r k : ℕ} (hk : k < n) (a : α) :
    window n (Function.update slots ((r + k) % n) a) r (k + 1) = window n slots r k ++ [a] := by
  unfold window
  rw [List.range_succ, List.map_append, List.map_singleton]
  congr 1
  · refine List.map_congr_left fun i hi => ?_
    have hik : i < k := List.mem_range.1 hi
    rw [slot_update (w := r) ⟨by omega, by omega⟩ ⟨by omega, by omega⟩, if_neg (by omega)]
  · rw [slot_update (w := r) ⟨by omega, by omega⟩ ⟨by omega, by omega⟩, if_pos rfl]

/-- Elements are written into slots in a row. -/
def writes (slots : ℕ → α) (i : ℕ) : List α → ℕ → α
  | [] => slots
  | a :: l => writes (Function.update slots i a) (i + 1) l

/-- **Slots written behind a window** that has room for them, up to the end of the ring. -/
theorem window_writes (slots : ℕ → α) {r k : ℕ} {l : List α} (hk : k + l.length ≤ n)
    (hend : (r + k) % n + l.length ≤ n) :
    window n (writes slots ((r + k) % n) l) r (k + l.length) = window n slots r k ++ l := by
  induction l generalizing slots k with
  | nil => simp [writes]
  | cons a l ih =>
    rw [List.length_cons] at hk hend ⊢
    have hfirst := window_update slots (r := r) (show k < n by omega) a
    cases l with
    | nil => exact hfirst
    | cons b l =>
      have hlt : (r + k) % n + 1 < n := by
        rw [List.length_cons] at hend
        omega
      have hnext : (r + k) % n + 1 = (r + (k + 1)) % n := by
        rw [← Nat.add_assoc, ← succ_mod, Nat.mod_eq_of_lt hlt]
      have hrest := ih (Function.update slots ((r + k) % n) a) (k := k + 1) (by omega) (by omega)
      rw [writes, hnext, show k + ((b :: l).length + 1) = k + 1 + (b :: l).length by omega, hrest,
        hfirst, List.append_assoc]
      rfl

/-- A window in two parts. -/
theorem window_add (slots : ℕ → α) (r j k : ℕ) :
    window n slots r (j + k) = window n slots r j ++ window n slots (r + j) k := by
  unfold window
  rw [List.range_add, List.map_append, List.map_map]
  congr 1
  refine List.map_congr_left fun i _ => ?_
  simp only [Function.comp, Nat.add_assoc]

/-- A window that does not wrap lies in the slots as it is. -/
theorem window_flat (slots : ℕ → α) {r k : ℕ} (h : r + k ≤ n) :
    window n slots r k = (List.range k).map fun i => slots (r + i) := by
  refine List.map_congr_left fun i hi => ?_
  have hik : i < k := List.mem_range.1 hi
  rw [slot, Nat.mod_eq_of_lt (by omega)]

end SlotRing
