import Mathlib.Data.List.Count
import Mathlib.Data.List.Nodup

set_option relaxedAutoImplicit false
set_option autoImplicit false

/-!
# Ledgers

Resources that are handed out one after the other and given back. A resource is named by the number
of those handed out before it, so that a name is never used twice; a ledger counts what was handed
out and lists what was given back, as often as it was.

## Main definitions

* `Ledger`, `Ledger.acquire`, `Ledger.release` — a ledger and its entries.
* `Ledger.Outstanding` — some resources have not been given back, and all others just once.

## Main results

* `Ledger.Outstanding.acquire`, `Ledger.Outstanding.release` — what an entry changes.
-/

/-- What was handed out, and what was given back. -/
structure Ledger where
  acquired : ℕ
  released : List ℕ
  deriving DecidableEq

namespace Ledger

/-- The ledger without entries. -/
def empty : Ledger := ⟨0, []⟩

/-- The next resource is handed out. -/
def acquire (s : Ledger) : Ledger := { s with acquired := s.acquired + 1 }

/-- A resource is given back. -/
def release (s : Ledger) (k : ℕ) : Ledger := { s with released := s.released ++ [k] }

/-- The resources `l` have not been given back, and all others that were handed out just once. -/
structure Outstanding (s : Ledger) (l : List ℕ) : Prop where
  nodup : l.Nodup
  acquired : ∀ k ∈ l, k < s.acquired
  once : ∀ k < s.acquired, k ∉ l → s.released.count k = 1
  never : ∀ k, k ∈ l ∨ s.acquired ≤ k → s.released.count k = 0

variable {s : Ledger} {l : List ℕ} {j k : ℕ}

/-- Nothing is out. -/
theorem outstanding_empty : empty.Outstanding [] :=
  ⟨List.nodup_nil, by simp, fun k hk => absurd hk (Nat.not_lt_zero k), fun _ _ => rfl⟩

/-- What is handed out is outstanding. -/
theorem Outstanding.acquire (h : s.Outstanding l) : s.acquire.Outstanding (s.acquired :: l) := by
  have hnew : s.acquired ∉ l := fun hmem => Nat.lt_irrefl _ (h.acquired _ hmem)
  have hsucc : s.acquire.acquired = s.acquired + 1 := rfl
  refine ⟨List.nodup_cons.2 ⟨hnew, h.nodup⟩, ?_, ?_, ?_⟩
  · intro k hk
    rcases List.mem_cons.1 hk with rfl | hk
    · omega
    · have := h.acquired k hk
      omega
  · intro k hk hmem
    rw [List.mem_cons, not_or] at hmem
    exact h.once k (by omega) hmem.2
  · intro k hk
    rw [List.mem_cons] at hk
    apply h.never k
    rcases hk with (rfl | hk) | hk
    · exact .inr (Nat.le_refl _)
    · exact .inl hk
    · exact .inr (by omega)

/-- What is given back is not outstanding any more. -/
theorem Outstanding.release (h : s.Outstanding (k :: l)) : (s.release k).Outstanding l := by
  obtain ⟨hnew, hnodup⟩ := List.nodup_cons.1 h.nodup
  have hlt : k < s.acquired := h.acquired k List.mem_cons_self
  have hcount : ∀ j, (s.release k).released.count j =
      s.released.count j + if j = k then 1 else 0 := by
    intro j
    show (s.released ++ [k]).count j = _
    rw [List.count_append, List.count_singleton]
    by_cases hjk : j = k
    · rw [hjk, if_pos rfl, if_pos (beq_self_eq_true k)]
    · rw [if_neg hjk, if_neg (by simpa using Ne.symm hjk)]
  refine ⟨hnodup, fun j hj => h.acquired j (List.mem_cons_of_mem _ hj), ?_, ?_⟩
  · intro j hj hmem
    rw [hcount]
    by_cases hjk : j = k
    · subst hjk
      rw [h.never j (.inl List.mem_cons_self), if_pos rfl]
    · rw [h.once j hj (by simp [hjk, hmem]), if_neg hjk]
  · intro j hj
    rw [hcount]
    have hjk : j ≠ k := by
      rintro rfl
      rcases hj with hj | hj
      · exact hnew hj
      · exact Nat.not_lt.2 hj hlt
    rw [if_neg hjk, h.never j (hj.imp_left (List.mem_cons_of_mem _))]

/-- The order of what is outstanding does not matter. -/
theorem Outstanding.swap (h : s.Outstanding (j :: k :: l)) : s.Outstanding (k :: j :: l) := by
  have hmem : ∀ {i}, i ∈ k :: j :: l ↔ i ∈ j :: k :: l := (List.Perm.swap j k l).mem_iff
  exact ⟨(List.Perm.swap j k l).nodup_iff.2 h.nodup, fun i hi => h.acquired i (hmem.1 hi),
    fun i hi hnot => h.once i hi (mt hmem.2 hnot), fun i hi => h.never i (hi.imp_left hmem.1)⟩

/-- Where nothing is outstanding, everything was given back just once. -/
theorem Outstanding.all_released (h : s.Outstanding []) :
    ∀ k < s.acquired, s.released.count k = 1 :=
  fun k hk => h.once k hk List.not_mem_nil

end Ledger
