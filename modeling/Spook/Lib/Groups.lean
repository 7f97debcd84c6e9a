import Mathlib.Algebra.Order.Ring.Nat
import Mathlib.Tactic.Ring
import Spook.Lib.Buffer

set_option relaxedAutoImplicit false
set_option autoImplicit false

/-!
# Conversions group by group

A buffer is converted by a loop that reads a group of elements in each round and writes a group
made of it. The loop is the map over the groups as long as both buffers are long enough, and fails
otherwise.

## Main definitions

* `mapGroups` — a map over groups.
* `convertLoop` — the loop.

## Main results

* `mapGroups_mapGroups` — one conversion after the other.
* `mapGroups_mul` — larger groups.
* `convertLoop_ok_iff`, `convertLoop_eq` — when the loop does not fail, and what it leaves.
-/

variable {α β γ ε : Type}

/-- The groups that `f` makes of the first `k` groups of `m` elements. -/
def mapGroups (m : ℕ) (f : List α → List β) : ℕ → List α → List β
  | 0, _ => []
  | k + 1, xs => f (xs.take m) ++ mapGroups m f k (xs.drop m)

/-- `k` rounds of a loop from round `i` on, which reads `m` elements of `src` and writes `n` elements
of `dst` in each of them. -/
def convertLoop (read write : ε) (m n : ℕ) (f : List α → List β) (src : List α) :
    ℕ → ℕ → List β → Except ε (List β)
  | 0, _, dst => .ok dst
  | k + 1, i, dst => do
    let group ← loadIn read src (i * m) m
    let dst ← storeIn write dst (i * n) (f group)
    convertLoop read write m n f src k (i + 1) dst

section Groups

variable {m n : ℕ} {f f' : List α → List β} {xs : List α}

/-- Functions that agree on groups. -/
theorem mapGroups_congr (h : ∀ g : List α, g.length = m → f g = f' g) :
    ∀ {k : ℕ} {xs : List α}, k * m ≤ xs.length → mapGroups m f k xs = mapGroups m f' k xs
  | 0, _, _ => rfl
  | k + 1, xs, hle => by
    rw [Nat.succ_mul] at hle
    rw [mapGroups, mapGroups, h _ (by rw [List.length_take]; omega),
      mapGroups_congr h (by rw [List.length_drop]; omega)]

/-- Groups of equal length. -/
theorem length_mapGroups (h : ∀ g : List α, g.length = m → (f g).length = n) :
    ∀ {k : ℕ} {xs : List α}, k * m ≤ xs.length → (mapGroups m f k xs).length = k * n
  | 0, _, _ => (Nat.zero_mul n).symm
  | k + 1, xs, hle => by
    rw [Nat.succ_mul] at hle ⊢
    rw [mapGroups, List.length_append, h _ (by rw [List.length_take]; omega),
      length_mapGroups h (by rw [List.length_drop]; omega), Nat.add_comm]

/-- The first groups, and those behind them. -/
theorem mapGroups_add (k l : ℕ) (xs : List α) :
    mapGroups m f (k + l) xs = mapGroups m f k xs ++ mapGroups m f l (xs.drop (k * m)) := by
  induction k generalizing xs with
  | zero => simp [mapGroups]
  | succ k ih =>
    rw [Nat.succ_add, mapGroups, mapGroups, ih, List.append_assoc, List.drop_drop, Nat.succ_mul,
      Nat.add_comm (k * m) m]

/-- The groups do not depend on what is behind them. -/
theorem mapGroups_take {k l : ℕ} (h : k * m ≤ l) (xs : List α) :
    mapGroups m f k (xs.take l) = mapGroups m f k xs := by
  induction k generalizing xs l with
  | zero => rfl
  | succ k ih =>
    rw [Nat.succ_mul] at h
    rw [mapGroups, mapGroups, List.take_take, min_eq_left (by omega), List.drop_take,
      ih (by omega)]

/-- What is behind the groups does not matter. -/
theorem mapGroups_append {k : ℕ} (h : k * m ≤ xs.length) (ys : List α) :
    mapGroups m f k (xs ++ ys) = mapGroups m f k xs := by
  have htake := mapGroups_take (f := f) h (xs ++ ys)
  rwa [List.take_left, eq_comm] at htake

/-- **One conversion after the other** is a conversion. -/
theorem mapGroups_mapGroups {g : List β → List γ}
    (h : ∀ b : List α, b.length = m → (f b).length = n) :
    ∀ {k : ℕ} {xs : List α}, k * m ≤ xs.length →
      mapGroups n g k (mapGroups m f k xs) = mapGroups m (fun b => g (f b)) k xs
  | 0, _, _ => rfl
  | k + 1, xs, hle => by
    rw [Nat.succ_mul] at hle
    have hlen : (f (xs.take m)).length = n := h _ (by rw [List.length_take]; omega)
    rw [mapGroups, mapGroups, mapGroups, List.take_left' hlen, List.drop_left' hlen,
      mapGroups_mapGroups h (by rw [List.length_drop]; omega)]

/-- **Larger groups**: `j` groups at a time. -/
theorem mapGroups_mul (j k : ℕ) (xs : List α) :
    mapGroups m f (k * j) xs = mapGroups (j * m) (mapGroups m f j) k xs := by
  induction k generalizing xs with
  | zero => simp [mapGroups]
  | succ k ih =>
    rw [Nat.succ_mul, Nat.add_comm, mapGroups_add, ih, mapGroups, mapGroups_take (le_refl _)]

end Groups

section Loop

variable {read write : ε} {m n : ℕ} {f : List α → List β} {src : List α}

/-- What the loop leaves from round `i` on, when `done` was written before. -/
theorem convertLoop_append (hf : ∀ g : List α, g.length = m → (f g).length = n) :
    ∀ {k i : ℕ} {done dst : List β}, done.length = i * n → (i + k) * m ≤ src.length →
      k * n ≤ dst.length →
      convertLoop read write m n f src k i (done ++ dst) =
        .ok (done ++ (mapGroups m f k (src.drop (i * m)) ++ dst.drop (k * n)))
  | 0, i, done, dst, _, _, _ => by simp [convertLoop, mapGroups]
  | k + 1, i, done, dst, hdone, hsrc, hdst => by
    have hsrc' : i * m + m + k * m ≤ src.length := by
      rwa [show (i + (k + 1)) * m = i * m + m + k * m by ring] at hsrc
    rw [Nat.succ_mul] at hdst
    have hgroup : ((src.drop (i * m)).take m).length = m := by
      rw [List.length_take, List.length_drop]
      omega
    have hload : loadIn read src (i * m) m = .ok ((src.drop (i * m)).take m) := if_pos (by omega)
    have hstore := storeIn_append write done (dst.drop n) (b := f ((src.drop (i * m)).take m))
      (c := dst.take n) (by rw [hf _ hgroup, List.length_take]; omega)
    rw [List.take_append_drop, hdone] at hstore
    have hnext := @convertLoop_append hf k (i + 1)
      (done ++ f ((src.drop (i * m)).take m)) (dst.drop n)
      (by rw [List.length_append, hdone, hf _ hgroup, Nat.succ_mul])
      (by rw [Nat.add_mul, Nat.succ_mul]; exact hsrc') (by rw [List.length_drop]; omega)
    rw [convertLoop, hload]
    show (storeIn write (done ++ dst) (i * n) _ >>= _) = _
    rw [hstore]
    show convertLoop read write m n f src k (i + 1) (done ++ (_ ++ dst.drop n)) = _
    rw [← List.append_assoc, hnext, mapGroups, List.drop_drop, List.drop_drop, Nat.succ_mul,
      Nat.succ_mul, Nat.add_comm n]
    simp only [List.append_assoc]

/-- **What the loop leaves.** -/
theorem convertLoop_eq (hf : ∀ g : List α, g.length = m → (f g).length = n) {k : ℕ} {dst : List β}
    (hsrc : k * m ≤ src.length) (hdst : k * n ≤ dst.length) :
    convertLoop read write m n f src k 0 dst = .ok (mapGroups m f k src ++ dst.drop (k * n)) := by
  have h : convertLoop read write m n f src k 0 ([] ++ dst) = _ :=
    convertLoop_append hf (by simp) (by rwa [Nat.zero_add]) hdst
  simpa using h

/-- The loop does not fail from round `i` on. -/
theorem convertLoop_ok_iff' (hf : ∀ g : List α, g.length = m → (f g).length = n) :
    ∀ (k i : ℕ) (dst : List β), (∃ dst', convertLoop read write m n f src k i dst = .ok dst') ↔
      k = 0 ∨ (i + k) * m ≤ src.length ∧ (i + k) * n ≤ dst.length
  | 0, i, dst => by simp [convertLoop]
  | k + 1, i, dst => by
    have hm : (i + (k + 1)) * m = i * m + m + k * m := by ring
    have hn : (i + (k + 1)) * n = i * n + n + k * n := by ring
    rw [convertLoop]
    by_cases hload : i * m + m ≤ src.length
    · have hgroup : ((src.drop (i * m)).take m).length = m := by
        rw [List.length_take, List.length_drop]
        omega
      have hread : loadIn read src (i * m) m = .ok ((src.drop (i * m)).take m) := if_pos hload
      have hwrite := storeIn_ok_iff write dst (f ((src.drop (i * m)).take m)) (i * n)
      rw [hf _ hgroup] at hwrite
      rw [hread]
      show (∃ dst', (storeIn write dst (i * n) _ >>= _) = _) ↔ _
      rcases hstore : storeIn write dst (i * n) (f ((src.drop (i * m)).take m)) with e | dst₁
      · rw [hstore] at hwrite
        have hno : ¬ i * n + n ≤ dst.length := by simpa using hwrite
        simp only [bind, Except.bind]
        simp
        omega
      · have hyes : i * n + n ≤ dst.length := hwrite.1 ⟨dst₁, hstore⟩
        have hnext := convertLoop_ok_iff' hf k (i + 1) dst₁
        rw [length_storeIn hstore] at hnext
        refine hnext.trans ?_
        rw [show (i + 1 + k) * m = i * m + m + k * m by ring,
          show (i + 1 + k) * n = i * n + n + k * n by ring, hm, hn]
        rcases k with _ | k
        · simp [hload, hyes]
        · simp
    · have hread : loadIn read src (i * m) m = .error read := if_neg hload
      rw [hread]
      simp only [bind, Except.bind]
      simp
      omega

/-- **The loop fails unless both buffers are long enough.** -/
theorem convertLoop_ok_iff (hf : ∀ g : List α, g.length = m → (f g).length = n) (k : ℕ)
    (dst : List β) :
    (∃ dst', convertLoop read write m n f src k 0 dst = .ok dst') ↔
      k = 0 ∨ k * m ≤ src.length ∧ k * n ≤ dst.length := by
  rw [convertLoop_ok_iff' hf, Nat.zero_add]

end Loop
