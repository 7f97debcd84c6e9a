import Spook.Fault
import Spook.Lib.Circular

set_option relaxedAutoImplicit false
set_option autoImplicit false

/-!
# The lists of soft events

`remove_from_list` and `add_to_list` of `event.c`, field by field. They are made for the circular
lists of `struct soft_event`.

## Main definitions

* `Spook.EventLoop.removeFromList`, `addToList` — the functions of the same names.

## Main results

* `Spook.EventLoop.removeFromList_ring`, `addToList_ring` — what they do to a circular list.
-/

namespace Spook.EventLoop

open Dll

/-- `remove_from_list`: the links behind it, and what `*se` is. -/
def removeFromList (m : ℕ → Links ℕ) : Option ℕ → Except Fault ((ℕ → Links ℕ) × Option ℕ)
  | none => .error .nullDeref
  | some se =>
    if (m se).next ≠ some se then
      match (m se).prev with
      | none => .error .nullDeref
      | some prev =>
        let m := setNext m prev (m se).next
        match (m se).next with
        | none => .error .nullDeref
        | some next =>
          let m := setPrev m next (m se).prev
          .ok (m, (m se).next)
    else .ok (m, none)

/-- `add_to_list`: the links behind it, and what `*list` is. -/
def addToList (m : ℕ → Links ℕ) (se : ℕ) : Option ℕ → Except Fault ((ℕ → Links ℕ) × Option ℕ)
  | some list =>
    let m := setNext m se (some list)
    let m := setPrev m se (m list).prev
    match (m se).next with
    | none => .error .nullDeref
    | some next =>
      let m := setPrev m next (some se)
      match (m se).prev with
      | none => .error .nullDeref
      | some prev => .ok (setNext m prev (some se), some list)
  | none => .ok (setPrev (setNext m se (some se)) se (some se), some se)

section Ring

variable {m : ℕ → Links ℕ} {head : Option ℕ} {e x : ℕ} {l : List ℕ}

/-- Where nothing is next, a null pointer is followed. -/
theorem removeFromList_null (hnext : (m e).next = none) :
    removeFromList m (some e) = .error .nullDeref := by
  have hmore : (m e).next ≠ some e := by simp [hnext]
  refine (if_pos hmore).trans ?_
  cases (m e).prev with
  | none => rfl
  | some prev =>
    have hstill : (setNext m prev (m e).next e).next = none := by
      by_cases heq : e = prev
      · subst heq
        simp [hnext]
      · rw [setNext_of_ne heq, hnext]
    dsimp only
    rw [hstill]

/-- The head of a circular list is removed. -/
theorem removeFromList_ring (h : IsRing m head (e :: l)) :
    ∃ m', removeFromList m head = .ok (m', l.head?) ∧ IsRing m' l.head? l ∧
      ∀ x, x ∉ l → m' x = m x := by
  have hstart : head = some e := h.start
  obtain ⟨hprev, hnext⟩ := h.first
  subst hstart
  cases l with
  | nil =>
    refine ⟨m, ?_, isRing_nil m, fun _ _ => rfl⟩
    exact if_neg (not_not.2 hnext)
  | cons f l =>
    have hne := h.nodup
    rw [List.nodup_cons, List.mem_cons, not_or] at hne
    obtain ⟨⟨hef, hel⟩, -⟩ := hne
    have hlast : (e :: f :: l).getLast (List.cons_ne_nil e (f :: l)) =
        (f :: l).getLast (List.cons_ne_nil f l) := List.getLast_cons _
    have hmem : (f :: l).getLast (List.cons_ne_nil f l) ∈ f :: l := List.getLast_mem _
    rw [hlast] at hprev
    refine ⟨_, ?_, h.tail, fun x hx => ?_⟩
    · generalize (f :: l).getLast (List.cons_ne_nil f l) = q at hprev hmem
      have heq : e ≠ q := by
        rintro rfl
        exact (List.mem_cons.1 hmem).elim hef hel
      have hnext' : (m e).next = some f := hnext
      have hmore : (m e).next ≠ some e := by
        rw [hnext']
        exact fun h => hef (Option.some.inj h).symm
      refine (if_pos hmore).trans ?_
      simp only [hprev, setNext_of_ne heq, hnext', setPrev_of_ne hef]
      rfl
    · refine join_of_ne ?_ ?_
      · rintro rfl
        exact hx hmem
      · rintro rfl
        exact hx List.mem_cons_self

/-- An event is added at the end of a circular list. -/
theorem addToList_ring (h : IsRing m head l) (hx : x ∉ l) :
    ∃ m' head', addToList m x head = .ok (m', head') ∧ IsRing m' head' (l ++ [x]) ∧
      ∀ y, y ∉ l → y ≠ x → m' y = m y := by
  have hstart := h.start
  subst hstart
  cases l with
  | nil =>
    refine ⟨_, _, rfl, isRing_singleton (by simp) (by simp), fun y _ hy => ?_⟩
    rw [setPrev_of_ne hy, setNext_of_ne hy]
  | cons f l =>
    obtain ⟨hprev, -⟩ := h.first
    have hmem : (f :: l).getLast (List.cons_ne_nil f l) ∈ f :: l := List.getLast_mem _
    have hfx : f ≠ x := fun heq => hx (heq ▸ List.mem_cons_self)
    refine ⟨_, _, ?_, h.snoc hx, fun y hy hyx => ?_⟩
    · generalize (f :: l).getLast (List.cons_ne_nil f l) = q at hprev hmem
      unfold addToList
      simp only [List.head?_cons, setPrev_self, setNext_self, setNext_of_ne hfx, hprev,
        setPrev_of_ne (Ne.symm hfx)]
      rfl
    · refine insertLast_of_ne ?_ ?_ hyx
      · rintro rfl
        exact hy hmem
      · rintro rfl
        exact hy List.mem_cons_self

end Ring

end Spook.EventLoop
