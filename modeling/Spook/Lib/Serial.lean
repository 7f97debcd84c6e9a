import Mathlib.Algebra.Order.Ring.Int
import Mathlib.Data.Int.ModEq
import Mathlib.Data.List.Sort

set_option relaxedAutoImplicit false
set_option autoImplicit false

/-!
# Serial numbers

Things that are numbered modulo `m` arrive in any order, some of them more than once and some of them
never. A receiver that keeps the highest place so far finds the place of each of them as long as none
is further away from it than half of `m`, and puts them in order.

## Main definitions

* `unwrap` — the place that a serial number stands for.
* `InWindow` — places each of which is near the highest one before it.
* `inOrder` — what arrived, in the order of the places and without repetitions.
* `reorder` — the receiver.
* `arrived` — the part of a list that arrived.

## Main results

* `reorder_eq` — the receiver gets what arrived, in order.
-/

variable {α : Type} {m : ℕ} {a b c h : ℤ} {x y : α} {l : List (ℤ × α)}

/-! ## Places -/

/-- The place near `h` that has the serial number `s`. -/
def unwrap (m : ℕ) (h s : ℤ) : ℤ := h + ((s - h + m / 2) % m - m / 2)

/-- Places each of which is near the highest one before it, which is `h` for the first one. -/
def InWindow (m : ℕ) : ℤ → List ℤ → Prop
  | _, [] => True
  | h, a :: as => -(m / 2 : ℤ) ≤ a - h ∧ a - h < m - m / 2 ∧ InWindow m (max h a) as

instance decidableInWindow (m : ℕ) : (h : ℤ) → (as : List ℤ) → Decidable (InWindow m h as)
  | _, [] => inferInstanceAs (Decidable True)
  | h, a :: as =>
    have := decidableInWindow m (max h a) as
    inferInstanceAs (Decidable (_ ∧ _ ∧ _))

/-- The places of serial numbers, when `h` is the highest place so far. -/
def places (m : ℕ) : ℤ → List (ℤ × α) → List (ℤ × α)
  | _, [] => []
  | h, (s, x) :: as => (unwrap m h s, x) :: places m (max h (unwrap m h s)) as

/-- A number is the one nearest to what is expected. -/
theorem unwrap_eq {s : ℤ} (hs : s ≡ a [ZMOD m]) (hlow : -(m / 2 : ℤ) ≤ a - h)
    (hhigh : a - h < m - m / 2) : unwrap m h s = a := by
  have hmod : (s - h + m / 2) % m = a - h + m / 2 := by
    rw [((hs.sub_right h).add_right (m / 2 : ℤ)).eq]
    exact Int.emod_eq_of_lt (by omega) (by omega)
  rw [unwrap, hmod]
  omega

/-- The places that serial numbers stand for are those that they came from, all of them moved by
`c`. -/
theorem places_eq {num : ℤ → ℤ} (hnum : ∀ a, num a ≡ a + c [ZMOD m]) :
    ∀ {h : ℤ} {as : List (ℤ × α)}, InWindow m h (as.map Prod.fst) →
      places m (h + c) (as.map fun a => (num a.1, a.2)) = as.map fun a => (a.1 + c, a.2)
  | _, [], _ => rfl
  | h, (a, x) :: as, hw => by
    obtain ⟨hlow, hhigh, hw⟩ := hw
    have hplace : unwrap m (h + c) (num a) = a + c :=
      unwrap_eq (hnum a) (by omega) (by omega)
    have hmax : max (h + c) (a + c) = max h a + c := max_add_add_right h a c
    simp only [List.map_cons, places, hplace, hmax, places_eq hnum hw]

/-! ## Order -/

/-- What arrives at a place is kept unless something has arrived there before. -/
def insertAt (a : ℤ) (x : α) : List (ℤ × α) → List (ℤ × α)
  | [] => [(a, x)]
  | (b, y) :: l =>
    if a < b then (a, x) :: (b, y) :: l else if a = b then (b, y) :: l else (b, y) :: insertAt a x l

/-- What arrived, in the order of the places. -/
def inOrder (as : List (ℤ × α)) : List (ℤ × α) := as.foldl (fun l a => insertAt a.1 a.2 l) []

/-- The receiver. It takes the first serial number that it sees for a place. -/
def reorder (m : ℕ) : List (ℤ × α) → List (ℤ × α)
  | [] => []
  | (s, x) :: as => inOrder (places m s ((s, x) :: as))

/-- Places that go up. -/
def Ascending (l : List (ℤ × α)) : Prop := l.Pairwise fun p q => p.1 < q.1

/-- Ascending places are determined by what is there. -/
theorem ascending_ext {l l' : List (ℤ × α)} (hl : Ascending l) (hl' : Ascending l')
    (h : ∀ p, p ∈ l ↔ p ∈ l') : l = l' := by
  have hanti : Std.Antisymm fun p q : ℤ × α => p.1 < q.1 :=
    ⟨fun _ _ hpq hqp => absurd hqp (lt_asymm hpq)⟩
  have hirrefl : Std.Irrefl fun p q : ℤ × α => p.1 < q.1 := ⟨fun p => lt_irrefl p.1⟩
  exact List.Pairwise.eq_of_mem_iff hl hl' h

/-- Things that `f` knows by their places. -/
def Labelled (f : ℤ → Option α) (l : List (ℤ × α)) : Prop := ∀ p ∈ l, f p.1 = some p.2

/-- The part of a list that arrived, with the places, which are `c` for the element `0`. The list is
what is left from the element `i` on. -/
def arrived (A : ℕ → Bool) (c : ℤ) : ℕ → List α → List (ℤ × α)
  | _, [] => []
  | i, x :: xs =>
    if A i then (c + i, x) :: arrived A c (i + 1) xs else arrived A c (i + 1) xs

section Order

variable {f : ℤ → Option α} {p : ℤ × α} {as : List (ℤ × α)}

/-- What is there after the insertion. -/
theorem mem_of_mem_insertAt (hp : p ∈ insertAt a x l) : p = (a, x) ∨ p ∈ l := by
  induction l with
  | nil => exact .inl (List.mem_singleton.1 hp)
  | cons q l ih =>
    obtain ⟨b, y⟩ := q
    unfold insertAt at hp
    split_ifs at hp with hlt heq
    · exact List.mem_cons.1 hp
    · exact .inr hp
    · rcases List.mem_cons.1 hp with rfl | hp
      · exact .inr List.mem_cons_self
      · exact (ih hp).imp_right (List.mem_cons_of_mem _)

/-- A number that is there already is not inserted again; it has the same contents. -/
theorem mem_insertAt_iff (hl : Labelled f l) (hx : f a = some x) :
    p ∈ insertAt a x l ↔ p = (a, x) ∨ p ∈ l := by
  refine ⟨mem_of_mem_insertAt, fun hp => ?_⟩
  induction l with
  | nil => exact List.mem_singleton.2 (hp.resolve_right List.not_mem_nil)
  | cons q l ih =>
    obtain ⟨b, y⟩ := q
    unfold insertAt
    split_ifs with hlt heq
    · exact List.mem_cons.2 hp
    · subst heq
      have hxy : x = y := Option.some.inj (hx.symm.trans (hl _ List.mem_cons_self))
      rcases hp with rfl | hp
      · exact List.mem_cons.2 (.inl (by rw [hxy]))
      · exact hp
    · have hrest := ih fun q hq => hl q (List.mem_cons_of_mem _ hq)
      rcases hp with rfl | hp
      · exact List.mem_cons_of_mem _ (hrest (.inl rfl))
      · rcases List.mem_cons.1 hp with rfl | hp
        · exact List.mem_cons_self
        · exact List.mem_cons_of_mem _ (hrest (.inr hp))

/-- The list stays in order. -/
theorem ascending_insertAt (hl : Ascending l) (a : ℤ) (x : α) : Ascending (insertAt a x l) := by
  induction l with
  | nil => exact List.pairwise_singleton ..
  | cons q l ih =>
    obtain ⟨b, y⟩ := q
    obtain ⟨hb, hl'⟩ := List.pairwise_cons.1 hl
    unfold insertAt
    split_ifs with hlt heq
    · refine List.pairwise_cons.2 ⟨fun p hp => ?_, hl⟩
      rcases List.mem_cons.1 hp with rfl | hp
      · exact hlt
      · exact hlt.trans (hb p hp)
    · exact hl
    · refine List.pairwise_cons.2 ⟨fun p hp => ?_, ih hl'⟩
      rcases mem_of_mem_insertAt hp with rfl | hp
      · exact lt_of_le_of_ne (not_lt.1 hlt) (Ne.symm heq)
      · exact hb p hp

/-- What is in order is what arrived. -/
theorem inOrder_spec (has : Labelled f as) :
    Ascending (inOrder as) ∧ ∀ p, p ∈ inOrder as ↔ p ∈ as := by
  have hfold : ∀ l : List (ℤ × α), Ascending l → Labelled f l →
      Ascending (as.foldl (fun l a => insertAt a.1 a.2 l) l) ∧
        ∀ p, p ∈ as.foldl (fun l a => insertAt a.1 a.2 l) l ↔ p ∈ l ∨ p ∈ as := by
    induction as with
    | nil => exact fun l hl _ => ⟨hl, by simp⟩
    | cons a as ih =>
      intro l hl hf
      have ha : f a.1 = some a.2 := has a List.mem_cons_self
      have hf' : Labelled f (insertAt a.1 a.2 l) := by
        intro p hp
        rcases mem_of_mem_insertAt hp with rfl | hp
        · exact ha
        · exact hf p hp
      obtain ⟨hasc, hmem⟩ := ih (fun p hp => has p (List.mem_cons_of_mem _ hp))
        (insertAt a.1 a.2 l) (ascending_insertAt hl a.1 a.2) hf'
      refine ⟨hasc, fun p => (hmem p).trans ?_⟩
      rw [mem_insertAt_iff hf ha, List.mem_cons, or_assoc, or_left_comm]
  obtain ⟨hasc, hmem⟩ := hfold [] List.Pairwise.nil fun _ hp => absurd hp List.not_mem_nil
  exact ⟨hasc, fun p => (hmem p).trans (by simp)⟩

variable {A : ℕ → Bool} {xs : List α}

/-- What has arrived, and where it was sent. -/
theorem mem_arrived {i : ℕ} :
    p ∈ arrived A c i xs ↔ ∃ j : ℕ, xs[j]? = some p.2 ∧ A (i + j) = true ∧ p.1 = c + (i + j) := by
  induction xs generalizing i with
  | nil => simp [arrived]
  | cons x xs ih =>
    have hrest : p ∈ arrived A c (i + 1) xs ↔
        ∃ j : ℕ, xs[j]? = some p.2 ∧ A (i + (j + 1)) = true ∧ p.1 = c + (i + (j + 1 : ℕ)) := by
      rw [ih]
      refine exists_congr fun j => ?_
      rw [Nat.add_right_comm i 1 j, Nat.add_assoc, Nat.cast_add, Nat.cast_add, Nat.cast_one,
        add_right_comm (i : ℤ) 1 j, add_assoc (i : ℤ) j 1]
    rw [← Nat.or_exists_add_one]
    simp only [List.getElem?_cons_zero, List.getElem?_cons_succ, Nat.cast_zero, add_zero]
    rw [← hrest, arrived]
    split_ifs with hA
    · rw [List.mem_cons, Prod.ext_iff]
      simp [hA, eq_comm, and_comm]
    · simp [hA]

/-- What has arrived is in order. -/
theorem ascending_arrived {i : ℕ} : Ascending (arrived A c i xs) := by
  induction xs generalizing i with
  | nil => exact List.Pairwise.nil
  | cons x xs ih =>
    rw [arrived]
    split_ifs with hA
    · refine List.pairwise_cons.2 ⟨fun p hp => ?_, ih⟩
      obtain ⟨j, -, -, hp⟩ := mem_arrived.1 hp
      rw [hp, Nat.cast_add, Nat.cast_one]
      omega
    · exact ih

/-- **The receiver gets what arrived, in order**: the elements of a list that are numbered from `s`
on, each at its place. -/
theorem reorder_eq (s : ℤ) {bs : List (ℕ × α)}
    (hbs : ∀ b ∈ bs, xs[b.1]? = some b.2)
    (hw : ∀ b ∈ bs.head?, InWindow m b.1 (bs.map fun b => (b.1 : ℤ))) :
    ∃ c, reorder m (bs.map fun b => ((s + b.1) % m, b.2)) =
      arrived (fun i => decide (i ∈ bs.map Prod.fst)) c 0 xs := by
  rcases bs with _ | ⟨⟨k, x⟩, bs⟩
  · refine ⟨0, ?_⟩
    have hnone : ∀ i (xs : List α), arrived (fun i => decide (i ∈ ([] : List ℕ))) 0 i xs = [] := by
      intro i xs
      induction xs generalizing i with
      | nil => rfl
      | cons x xs ih => simpa [arrived] using ih (i + 1)
    exact (hnone 0 xs).symm
  · set as : List (ℕ × α) := (k, x) :: bs with has
    set c : ℤ := (s + k) % m - k with hc
    refine ⟨c, ?_⟩
    have hnum : ∀ a : ℤ, (s + a) % m ≡ a + c [ZMOD m] := by
      intro a
      have hmod : (s + k) % m ≡ s + k [ZMOD m] := Int.mod_modEq ..
      have hshift := hmod.add_right (a - k)
      rw [show s + (k : ℤ) + (a - k) = s + a by omega,
        show (s + (k : ℤ)) % m + (a - k) = a + c by omega] at hshift
      exact (Int.mod_modEq ..).trans hshift.symm
    have hplaces : places m (k + c) (as.map fun b => ((s + b.1) % m, b.2)) =
        as.map fun b => (b.1 + c, b.2) := by
      simpa [Function.comp_def] using
        @places_eq α m c (fun a => (s + a) % m) hnum k (as.map fun b => ((b.1 : ℤ), b.2))
          (by simpa [Function.comp_def] using hw (k, x) rfl)
    have hlabel : Labelled (fun a => xs[(a - c).toNat]?) (as.map fun b => ((b.1 : ℤ) + c, b.2)) := by
      intro p hp
      obtain ⟨b, hb, rfl⟩ := List.mem_map.1 hp
      simpa using hbs b hb
    have hreorder : reorder m (as.map fun b => ((s + b.1) % m, b.2)) =
        inOrder (places m (k + c) (as.map fun b => ((s + b.1) % m, b.2))) := by
      rw [show (k : ℤ) + c = (s + k) % m by omega]
      rfl
    rw [hreorder, hplaces]
    obtain ⟨hasc, hmem⟩ := inOrder_spec hlabel
    refine ascending_ext hasc ascending_arrived fun p => (hmem p).trans ?_
    rw [mem_arrived, List.mem_map]
    constructor
    · rintro ⟨b, hb, rfl⟩
      exact ⟨b.1, hbs b hb, by simpa using ⟨b.2, hb⟩, by simp [add_comm]⟩
    · rintro ⟨j, hj, hA, hp⟩
      obtain ⟨b, hb, hbj⟩ := List.mem_map.1 (of_decide_eq_true hA)
      rw [Nat.zero_add] at hbj
      obtain rfl := hbj
      have hx : b.2 = p.2 := Option.some.inj ((hbs b hb).symm.trans hj)
      exact ⟨b, hb, Prod.ext (by simpa [add_comm] using hp.symm) hx⟩

end Order
