import Mathlib.Data.List.Nodup
import Mathlib.Data.List.Perm.Subperm
import Mathlib.Data.List.TakeWhile

set_option relaxedAutoImplicit false
set_option autoImplicit false

/-!
# Pieces of a list

A list is cut into pieces, and each piece is handed on with its offset. Pieces may get lost, be
repeated and come in any order. Those that are there are laid end to end: they make up the list as
far as the first piece that is not there.

## Main definitions

* `piecesFrom` — the pieces of a cut, with their offsets.
* `lay` — pieces laid end to end.

## Main results

* `lay_eq` — what comes out of some of the pieces.
* `length_lay_eq_iff` — only all of the pieces give something as long as the list.
-/

variable {α : Type}

/-- The pieces of a cut with their offsets, the first of which is `i`. -/
def piecesFrom (i : ℕ) : List (List α) → List (ℕ × List α)
  | [] => []
  | f :: fs => (i, f) :: piecesFrom (i + f.length) fs

/-- At most `n` pieces, laid end to end from the offset `i` on. -/
def layFrom (ps : List (ℕ × List α)) : ℕ → ℕ → List α
  | 0, _ => []
  | n + 1, i =>
    match ps.find? fun p => p.1 = i with
    | none => []
    | some p => p.2 ++ layFrom ps n (i + p.2.length)

/-- Pieces laid end to end. -/
def lay (ps : List (ℕ × List α)) : List α := layFrom ps ps.length 0

/-! ## The pieces of a cut -/

section Pieces

variable {i : ℕ} {f : List α} {fs : List (List α)} {p : ℕ × List α}

/-- A piece and where it begins. -/
theorem getElem?_piecesFrom (i j : ℕ) (fs : List (List α)) :
    (piecesFrom i fs)[j]? = fs[j]?.map fun f => (i + (fs.take j).flatten.length, f) := by
  induction fs generalizing i j with
  | nil => simp [piecesFrom]
  | cons f fs ih =>
    cases j with
    | zero => simp [piecesFrom]
    | succ j =>
      simp only [piecesFrom, List.getElem?_cons_succ, ih, List.take_succ_cons, List.flatten_cons,
        List.length_append, Nat.add_assoc]

/-- As many pieces. -/
@[simp] theorem length_piecesFrom (i : ℕ) (fs : List (List α)) :
    (piecesFrom i fs).length = fs.length := by
  induction fs generalizing i with
  | nil => rfl
  | cons f fs ih => simp [piecesFrom, ih]

/-- The pieces make up the whole. -/
@[simp] theorem flatMap_piecesFrom (i : ℕ) (fs : List (List α)) :
    (piecesFrom i fs).flatMap Prod.snd = fs.flatten := by
  induction fs generalizing i with
  | nil => rfl
  | cons f fs ih => simp [piecesFrom, ih]

/-- No piece begins before the first. -/
theorem le_of_mem_piecesFrom (hp : p ∈ piecesFrom i fs) : i ≤ p.1 := by
  induction fs generalizing i with
  | nil => cases hp
  | cons f fs ih =>
    rcases List.mem_cons.1 hp with rfl | hp
    · exact le_rfl
    · exact (Nat.le_add_right i _).trans (ih hp)

/-- The offset of the first piece of a cut without empty pieces is that of no other piece. -/
theorem lt_of_mem_piecesFrom (hf : f ≠ []) (hp : p ∈ piecesFrom (i + f.length) fs) : i < p.1 := by
  have hpos := List.length_pos_iff.2 hf
  have hle := le_of_mem_piecesFrom hp
  omega

/-- Pieces that are not empty begin at different places. -/
theorem nodup_piecesFrom (hfs : ∀ f ∈ fs, f ≠ []) : (piecesFrom i fs).Nodup := by
  induction fs generalizing i with
  | nil => exact List.nodup_nil
  | cons f fs ih =>
    refine List.nodup_cons.2 ⟨fun hmem => ?_, ih fun g hg => hfs g (List.mem_cons_of_mem _ hg)⟩
    exact lt_irrefl i (lt_of_mem_piecesFrom (hfs f List.mem_cons_self) hmem)

end Pieces

/-! ## Some of the pieces -/

section Lay

variable [DecidableEq α] {fs : List (List α)} {ps : List (ℕ × List α)}

/-- The pieces in front of the first one that is missing. -/
def present (ps : List (ℕ × List α)) (i : ℕ) (fs : List (List α)) : List (ℕ × List α) :=
  (piecesFrom i fs).takeWhile fun p => p ∈ ps

/-- Pieces of a cut, laid end to end from the one at `i` on. -/
theorem layFrom_eq {n i : ℕ} (hfs : ∀ f ∈ fs, f ≠ []) (hps : ∀ p ∈ ps, i ≤ p.1 → p ∈ piecesFrom i fs)
    (hn : (present ps i fs).length ≤ n) : layFrom ps n i = (present ps i fs).flatMap Prod.snd := by
  induction fs generalizing n i with
  | nil =>
    have hnone : ps.find? (fun p => p.1 = i) = none := by
      rw [List.find?_eq_none]
      intro p hp hi
      exact absurd (hps p hp (of_decide_eq_true hi).ge) (by simp [piecesFrom])
    cases n with
    | zero => rfl
    | succ n => simp [layFrom, hnone, present, piecesFrom]
  | cons f fs ih =>
    have hf := hfs f List.mem_cons_self
    -- a piece at `i` is the first one of the cut
    have hfirst : ∀ p ∈ ps, p.1 = i → p = (i, f) := by
      intro p hp hi
      rcases List.mem_cons.1 (hps p hp hi.ge) with heq | hmem
      · exact heq
      · exact absurd hi (lt_of_mem_piecesFrom hf hmem).ne'
    by_cases hmem : (i, f) ∈ ps
    · have hpresent : present ps i (f :: fs) = (i, f) :: present ps (i + f.length) fs := by
        simp [present, piecesFrom, hmem]
      rw [hpresent, List.length_cons] at hn
      obtain ⟨n, rfl⟩ : ∃ m, n = m + 1 := ⟨n - 1, by omega⟩
      have hfind : ps.find? (fun p => p.1 = i) = some (i, f) := by
        obtain ⟨p, hp⟩ : ∃ p, ps.find? (fun p => p.1 = i) = some p := by
          rw [← Option.isSome_iff_exists, List.find?_isSome]
          exact ⟨_, hmem, decide_eq_true rfl⟩
        rw [hp, hfirst p (List.mem_of_find?_eq_some hp) (by simpa using List.find?_some hp)]
      rw [hpresent, List.flatMap_cons, layFrom, hfind]
      dsimp only
      rw [ih (fun g hg => hfs g (List.mem_cons_of_mem _ hg)) ?_ (by omega)]
      intro p hp hle
      have hpos := List.length_pos_iff.2 hf
      rcases List.mem_cons.1 (hps p hp (by omega)) with rfl | hrest
      · dsimp only at hle
        omega
      · exact hrest
    · have hpresent : present ps i (f :: fs) = [] := by
        simp [present, piecesFrom, hmem]
      have hnone : ps.find? (fun p => p.1 = i) = none := by
        rw [List.find?_eq_none]
        intro p hp hi
        exact hmem (hfirst p hp (of_decide_eq_true hi) ▸ hp)
      rw [hpresent]
      cases n with
      | zero => rfl
      | succ n => simp [layFrom, hnone]

/-- **What comes out of some of the pieces**: those in front of the first one that is missing. -/
theorem lay_eq (hfs : ∀ f ∈ fs, f ≠ []) (hps : ∀ p ∈ ps, p ∈ piecesFrom 0 fs) :
    lay ps = (present ps 0 fs).flatMap Prod.snd := by
  refine layFrom_eq hfs (fun p hp _ => hps p hp) ?_
  have hnodup : (present ps 0 fs).Nodup :=
    (nodup_piecesFrom hfs).sublist (List.takeWhile_sublist _)
  refine (List.subperm_of_subset hnodup fun p hp => ?_).length_le
  simpa using List.mem_takeWhile_imp hp

/-- All pieces give the list. -/
theorem lay_all (hfs : ∀ f ∈ fs, f ≠ []) (hps : ∀ p ∈ ps, p ∈ piecesFrom 0 fs)
    (hall : ∀ p ∈ piecesFrom 0 fs, p ∈ ps) : lay ps = fs.flatten := by
  have hpresent : present ps 0 fs = piecesFrom 0 fs := by
    rw [present, List.takeWhile_eq_self_iff]
    exact fun p hp => decide_eq_true (hall p hp)
  rw [lay_eq hfs hps, hpresent, flatMap_piecesFrom]

/-- **Only all pieces give something as long as the list.** -/
theorem length_lay_eq_iff (hfs : ∀ f ∈ fs, f ≠ []) (hps : ∀ p ∈ ps, p ∈ piecesFrom 0 fs) :
    (lay ps).length = fs.flatten.length ↔ ∀ p ∈ piecesFrom 0 fs, p ∈ ps := by
  refine ⟨fun h p hp => ?_, fun hall => by rw [lay_all hfs hps hall]⟩
  -- what is missing behind the pieces that are there has no bytes, so it has no pieces
  rw [lay_eq hfs hps, ← flatMap_piecesFrom 0 fs,
    ← List.takeWhile_append_dropWhile (p := fun p => decide (p ∈ ps)) (l := piecesFrom 0 fs),
    List.flatMap_append, List.length_append] at h
  have hnone : ((piecesFrom 0 fs).dropWhile fun p => p ∈ ps).flatMap Prod.snd = [] := by
    rw [← List.length_eq_zero_iff]
    unfold present at h
    omega
  by_contra hmiss
  have hdrop : (piecesFrom 0 fs).dropWhile (fun p => p ∈ ps) ≠ [] := fun hnil =>
    hmiss (of_decide_eq_true (List.dropWhile_eq_nil_iff.1 hnil p hp))
  obtain ⟨q, hq⟩ := List.exists_mem_of_ne_nil _ hdrop
  have hq' : q.2 = [] := List.flatMap_eq_nil_iff.1 hnone q hq
  obtain ⟨j, hj⟩ := List.mem_iff_getElem?.1 ((List.dropWhile_sublist _).subset hq)
  rw [getElem?_piecesFrom] at hj
  obtain ⟨f, hf, rfl⟩ := Option.map_eq_some_iff.1 hj
  exact hfs f (List.mem_of_getElem? hf) hq'

end Lay
