import Mathlib.Data.List.Basic

set_option relaxedAutoImplicit false
set_option autoImplicit false

/-!
# Buffers

Loads and stores of several elements at a place in a buffer, which fail when they do not lie inside.

## Main definitions

* `loadIn`, `storeIn` — a load and a store.

## Main results

* `loadIn_append`, `storeIn_append` — a load and a store in a buffer that is split at their place.
* `storeIn_ok_iff` — which stores do not fail.
-/

variable {β ε : Type*}

/-- The `n` elements at `i`. -/
def loadIn (fault : ε) (buf : List β) (i n : ℕ) : Except ε (List β) :=
  if i + n ≤ buf.length then .ok ((buf.drop i).take n) else .error fault

/-- The elements `b` are stored at `i`. -/
def storeIn (fault : ε) (buf : List β) (i : ℕ) (b : List β) : Except ε (List β) :=
  if i + b.length ≤ buf.length then .ok (buf.take i ++ (b ++ buf.drop (i + b.length)))
  else .error fault

section Buffer

variable {fault : ε} {buf buf' a b c d : List β} {i : ℕ}

/-- A load of the middle of three parts. -/
theorem loadIn_append (fault : ε) (a b d : List β) :
    loadIn fault (a ++ (b ++ d)) a.length b.length = .ok b := by
  unfold loadIn
  rw [if_pos (by simp), List.drop_left, List.take_left]

/-- A store over the middle of three parts. -/
theorem storeIn_append (fault : ε) (a d : List β) (h : b.length = c.length) :
    storeIn fault (a ++ (c ++ d)) a.length b = .ok (a ++ (b ++ d)) := by
  unfold storeIn
  rw [if_pos (by simp [h]), List.take_left, ← List.drop_drop, List.drop_left, h, List.drop_left]

/-- A store fails unless it lies inside. -/
theorem storeIn_ok_iff (fault : ε) (buf b : List β) (i : ℕ) :
    (∃ buf', storeIn fault buf i b = .ok buf') ↔ i + b.length ≤ buf.length := by
  unfold storeIn
  split_ifs with h <;> simp [h]

/-- What a store leaves. -/
theorem storeIn_eq (h : storeIn fault buf i b = .ok buf') :
    buf' = buf.take i ++ (b ++ buf.drop (i + b.length)) := by
  unfold storeIn at h
  split_ifs at h
  exact (Except.ok.inj h).symm

/-- A store keeps the length. -/
theorem length_storeIn (h : storeIn fault buf i b = .ok buf') : buf'.length = buf.length := by
  unfold storeIn at h
  split_ifs at h with hle
  obtain rfl := Except.ok.inj h
  simp only [List.length_append, List.length_take, List.length_drop]
  omega

end Buffer
