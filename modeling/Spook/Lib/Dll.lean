import Mathlib.Data.List.Basic
import Mathlib.Logic.Function.Basic

set_option relaxedAutoImplicit false
set_option autoImplicit false

/-!
# Doubly linked lists

Lists whose nodes hold the links to the nodes before and behind them, in a memory that gives every
address its links. A list ends in a null pointer on both sides. What is known of such a list only
depends on the links of its nodes.

## Main definitions

* `Dll.Seg` — a segment, with the pointers that lead into it and out of it.
* `Dll.IsList` — a whole list from its head on.
* `Dll.insertFront`, `Dll.unlink` — a node is put in front, or taken out.
* `Dll.walk` — a loop along the links.

## Main results

* `Dll.IsList.nodup` — no node is twice in a list.
* `Dll.IsList.insertFront`, `Dll.IsList.unlink` — what becomes of a list.
* `Dll.walk_rule` — the invariant rule of the loop.
-/

namespace Dll

/-- The links of a node. -/
structure Links (κ : Type*) where
  prev : Option κ
  next : Option κ

variable {κ α : Type*}

/-- From `s` on, behind `p`, the nodes `l` are linked both ways; the last of them is `q`, and `t` is
next to it. -/
def Seg (m : κ → Links κ) : Option κ → Option κ → List κ → Option κ → Option κ → Prop
  | p, s, [], q, t => q = p ∧ s = t
  | p, s, e :: l, q, t => s = some e ∧ (m e).prev = p ∧ Seg m (some e) (m e).next l q t

/-- From `head` on the nodes `l` are linked, up to the null pointers on both sides. -/
def IsList (m : κ → Links κ) (head : Option κ) (l : List κ) : Prop :=
  ∃ q, Seg m none head l q none

section Seg

variable {m m' : κ → Links κ} {p p' q q' s t u : Option κ} {e x y : κ} {l l' a b : List κ}

/-- A segment that consists of two. -/
theorem seg_append :
    Seg m p s (a ++ b) q t ↔ ∃ r u, Seg m p s a r u ∧ Seg m r u b q t := by
  induction a generalizing p s with
  | nil =>
    constructor
    · intro h
      exact ⟨p, s, ⟨rfl, rfl⟩, h⟩
    · rintro ⟨r, u, ⟨rfl, rfl⟩, h⟩
      exact h
  | cons e a ih =>
    simp only [List.cons_append, Seg, ih]
    constructor
    · rintro ⟨hs, hp, r, u, ha, hb⟩
      exact ⟨r, u, ⟨hs, hp, ha⟩, hb⟩
    · rintro ⟨r, u, ⟨hs, hp, ha⟩, hb⟩
      exact ⟨hs, hp, r, u, ha, hb⟩

/-- A segment begins at its first node. -/
theorem Seg.start (h : Seg m p s l q none) : s = l.head? := by
  cases l with
  | nil => exact h.2
  | cons e l => exact h.1

/-- The last node of a segment. -/
theorem Seg.last (h : Seg m p s l q t) : q = l.getLast?.or p := by
  induction l generalizing p s with
  | nil => exact h.1
  | cons e l ih =>
    rw [ih h.2.2, List.getLast?_cons]
    cases l.getLast? <;> rfl

/-- Only the links of the nodes matter. -/
theorem Seg.frame (h : Seg m p s l q t) (hm : ∀ x ∈ l, m' x = m x) : Seg m' p s l q t := by
  induction l generalizing p s with
  | nil => exact h
  | cons e l ih =>
    obtain ⟨hs, hp, hl⟩ := h
    refine ⟨hs, ?_, ?_⟩
    · rw [hm e List.mem_cons_self, hp]
    · rw [hm e List.mem_cons_self]
      exact ih hl fun x hx => hm x (List.mem_cons_of_mem e hx)

/-- The nodes from an address on are determined. -/
theorem Seg.unique (h : Seg m p s l q none) (h' : Seg m p' s l' q' none) : l = l' := by
  induction l generalizing p p' s l' with
  | nil =>
    cases l' with
    | nil => rfl
    | cons e l' =>
      obtain ⟨-, rfl⟩ := h
      cases h'.1
  | cons e l ih =>
    obtain ⟨rfl, -, hl⟩ := h
    cases l' with
    | nil => cases h'.2
    | cons e' l' =>
      obtain ⟨he, -, hl'⟩ := h'
      cases he
      rw [ih hl hl']

/-- **No node is twice in a list.** From both places the same nodes would follow. -/
theorem Seg.nodup (h : Seg m p s l q none) : l.Nodup := by
  induction l generalizing p s with
  | nil => exact List.nodup_nil
  | cons e l ih =>
    refine List.nodup_cons.2 ⟨fun he => ?_, ih h.2.2⟩
    obtain ⟨a, b, rfl⟩ := List.append_of_mem he
    have hsuffix : ∃ r u, Seg m r u (e :: b) q none := by
      obtain ⟨r, u, -, hb⟩ := seg_append.1 h.2.2
      exact ⟨r, u, hb⟩
    obtain ⟨r, u, hb⟩ := hsuffix
    obtain rfl := hb.1
    obtain rfl := h.1
    have hlength := congrArg List.length (h.unique hb)
    simp at hlength
    omega

/-- No element is in a list twice. -/
theorem IsList.nodup (h : IsList m s l) : l.Nodup := by
  obtain ⟨q, h⟩ := h
  exact h.nodup

/-- The head of a list is its first element. -/
theorem IsList.head (h : IsList m s l) : s = l.head? := by
  obtain ⟨q, h⟩ := h
  exact h.start

/-- A list does not depend on what is outside. -/
theorem IsList.frame (h : IsList m s l) (hm : ∀ x ∈ l, m' x = m x) : IsList m' s l := by
  obtain ⟨q, h⟩ := h
  exact ⟨q, h.frame hm⟩

/-- What is next to a node. -/
theorem IsList.next (h : IsList m s (a ++ e :: b)) : (m e).next = b.head? := by
  obtain ⟨q, h⟩ := h
  obtain ⟨r, u, -, hb⟩ := seg_append.1 h
  exact hb.2.2.start

/-- What is before a node. -/
theorem IsList.prev (h : IsList m s (a ++ e :: b)) : (m e).prev = a.getLast? := by
  obtain ⟨q, h⟩ := h
  obtain ⟨r, u, ha, hb⟩ := seg_append.1 h
  rw [hb.2.1, ha.last, Option.or_none]

end Seg

/-! ## Changing the links -/

section Update

variable [DecidableEq κ] {m : κ → Links κ} {head : Option κ} {p q s t u : Option κ} {e x y : κ}
  {l a b : List κ}

/-- The link to the node before `e` is written. -/
def setPrev (m : κ → Links κ) (e : κ) (p : Option κ) : κ → Links κ :=
  Function.update m e { m e with prev := p }

/-- The link to the node behind `e` is written. -/
def setNext (m : κ → Links κ) (e : κ) (n : Option κ) : κ → Links κ :=
  Function.update m e { m e with next := n }

/-- Other elements stay. -/
theorem setPrev_of_ne (h : x ≠ e) : setPrev m e p x = m x := Function.update_of_ne h _ _

/-- Other elements stay. -/
theorem setNext_of_ne (h : x ≠ e) : setNext m e p x = m x := Function.update_of_ne h _ _

/-- The pointer that was stored. -/
@[simp] theorem setPrev_self : setPrev m e p e = { m e with prev := p } := Function.update_self ..

/-- The pointer that was stored. -/
@[simp] theorem setNext_self : setNext m e p e = { m e with next := p } := Function.update_self ..

/-- The segment comes behind another node. -/
theorem Seg.setPrev (h : Seg m p s (x :: l) q t) (hx : x ∉ l) (p' : Option κ) :
    Seg (setPrev m x p') p' s (x :: l) q t := by
  obtain ⟨hs, -, hl⟩ := h
  refine ⟨hs, ?_, ?_⟩
  · rw [setPrev_self]
  · rw [setPrev_self]
    exact hl.frame fun y hy => setPrev_of_ne fun h => hx (h ▸ hy)

/-- The segment comes before another node. -/
theorem Seg.setNext (h : Seg m p s (l ++ [y]) q t) (hy : y ∉ l) (t' : Option κ) :
    Seg (setNext m y t') p s (l ++ [y]) q t' := by
  obtain ⟨r, u, hl, hu, hr, hq, -⟩ := seg_append.1 h
  refine seg_append.2 ⟨r, u, ?_, hu, ?_, hq, ?_⟩
  · exact hl.frame fun x hx => setNext_of_ne fun h => hy (h ▸ hx)
  · rw [setNext_self, hr]
  · rw [setNext_self]

/-- The link to the node before is written where there is a node. -/
def setPrevOf (m : κ → Links κ) (s : Option κ) (p : Option κ) : κ → Links κ :=
  match s with
  | some x => setPrev m x p
  | none => m

/-- Other elements stay. -/
theorem setPrevOf_of_ne (h : s ≠ some x) : setPrevOf m s p x = m x := by
  cases s with
  | none => rfl
  | some y => exact setPrev_of_ne fun heq => h (heq ▸ rfl)

/-- A segment comes behind another node, or stays empty. -/
theorem Seg.setPrevOf (h : Seg m p s l q none) (p' : Option κ) :
    ∃ q', Seg (setPrevOf m s p') p' s l q' none := by
  cases l with
  | nil =>
    obtain ⟨-, rfl⟩ := h
    exact ⟨p', rfl, rfl⟩
  | cons x l =>
    have hx := (List.nodup_cons.1 h.nodup).1
    obtain rfl := h.1
    exact ⟨q, h.setPrev hx p'⟩

/-- The node `e`, before which there is none, is put in front of a list. -/
def insertFront (m : κ → Links κ) (head : Option κ) (e : κ) : κ → Links κ :=
  setPrevOf (setNext m e head) head (some e)

/-- Only the new element and the old head are changed. -/
theorem insertFront_of_ne (hx : x ≠ e) (hhead : head ≠ some x) :
    insertFront m head e x = m x := by
  rw [insertFront, setPrevOf_of_ne hhead, setNext_of_ne hx]

/-- **A node in front of a list.** -/
theorem IsList.insertFront (h : IsList m head l) (he : e ∉ l) (hprev : (m e).prev = none) :
    IsList (insertFront m head e) (some e) (e :: l) := by
  obtain ⟨q, h⟩ := h
  have hset : Seg (Dll.setNext m e head) none head l q none :=
    h.frame fun x hx => setNext_of_ne fun heq => he (heq ▸ hx)
  obtain ⟨q', hl⟩ := hset.setPrevOf (some e)
  have hhead : head ≠ some e := by
    rintro rfl
    exact he (List.mem_of_mem_head? h.start.symm)
  have hself : Dll.insertFront m head e e = { m e with next := head } := by
    rw [Dll.insertFront, setPrevOf_of_ne hhead, setNext_self]
  refine ⟨q', rfl, ?_, ?_⟩
  · rw [hself, hprev]
  · rw [hself]
    exact hl

/-- The node `e` is taken out of a list: the nodes before and behind it are linked, or the node
behind it becomes the head. -/
def unlink (m : κ → Links κ) (head : Option κ) (e : κ) : (κ → Links κ) × Option κ :=
  let m := setPrevOf m (m e).next (m e).prev
  match (m e).prev with
  | some y => (setNext m y (m e).next, head)
  | none => (m, (m e).next)

/-- **A node is taken out of a list.** The links of other nodes stay as they are. -/
theorem IsList.unlink (h : IsList m head (a ++ e :: b)) :
    IsList (unlink m head e).1 (unlink m head e).2 (a ++ b) ∧
      ∀ x, x ∉ a ++ b → (unlink m head e).1 x = m x := by
  have hnodup := h.nodup
  obtain ⟨q, h⟩ := h
  obtain ⟨r, u, ha, rfl, hprev, hb⟩ := seg_append.1 h
  have hstart : (m e).next = b.head? := hb.start
  rw [List.nodup_append, List.nodup_cons] at hnodup
  obtain ⟨hanodup, ⟨heb, -⟩, hne⟩ := hnodup
  have hdisj : ∀ x ∈ a, x ∉ b := fun x hx hx' => hne x hx x (List.mem_cons_of_mem e hx') rfl
  -- the node behind `e`
  obtain ⟨q', hb'⟩ := hb.setPrevOf r
  have hout : ∀ x, x ∉ b → Dll.setPrevOf m (m e).next r x = m x := by
    intro x hx
    refine setPrevOf_of_ne fun heq => hx (List.mem_of_mem_head? ?_)
    rw [← hstart, heq]
    rfl
  have ha' : Seg (Dll.setPrevOf m (m e).next r) none head a r (some e) :=
    ha.frame fun x hx => hout x (hdisj x hx)
  -- the node before `e`
  unfold Dll.unlink
  simp only [hprev, hout e heb]
  rcases List.eq_nil_or_concat a with rfl | ⟨a, y, rfl⟩
  · obtain ⟨rfl, rfl⟩ := ha
    exact ⟨⟨q', hb'⟩, fun x hx => hout x (by simpa using hx)⟩
  · rw [List.concat_eq_append] at ha ha' hdisj hanodup ⊢
    obtain rfl : r = some y := by simpa using ha.last
    have hy : y ∉ a := by
      rw [List.nodup_append] at hanodup
      exact fun hy => hanodup.2.2 y hy y (by simp) rfl
    refine ⟨⟨q', seg_append.2 ⟨some y, (m e).next, ha'.setNext hy _, ?_⟩⟩, fun x hx => ?_⟩
    · exact hb'.frame fun x hx => setNext_of_ne fun h => hdisj y (by simp) (h ▸ hx)
    · dsimp only
      rw [setNext_of_ne fun h => hx (by simp [h])]
      exact hout x fun hxb => hx (List.mem_append_right _ hxb)

end Update

/-! ## Loops along the links -/

/-- A loop that visits node after node, at most `n` of them, until a visit ends it. The link to the
next node is read after the visit. -/
def walk (next : α → κ → Option κ) (visit : κ → α → α × Bool) : ℕ → Option κ → α → Option α
  | _, none, a => some a
  | 0, some _, _ => none
  | n + 1, some e, a =>
    let (a', goOn) := visit e a
    if goOn then walk next visit n (next a' e) a' else some a'

/-- **Loop rule.** `I l` holds when the nodes `l` are still to be visited. -/
theorem walk_rule (next : α → κ → Option κ) (visit : κ → α → α × Bool) (I : List κ → α → Prop)
    (J : α → Prop)
    (hstep : ∀ e l a, I (e :: l) a → (visit e a).2 = true →
      next (visit e a).1 e = l.head? ∧ I l (visit e a).1)
    (hstop : ∀ e l a, I (e :: l) a → (visit e a).2 = false → J (visit e a).1)
    (hend : ∀ a, I [] a → J a) {l : List κ} {a : α} (h : I l a) {n : ℕ} (hn : l.length ≤ n) :
    ∃ a', walk next visit n l.head? a = some a' ∧ J a' := by
  induction l generalizing a n with
  | nil => exact ⟨a, by cases n <;> rfl, hend a h⟩
  | cons e l ih =>
    obtain ⟨n, rfl⟩ := Nat.exists_eq_succ_of_ne_zero (by simp at hn; omega : n ≠ 0)
    simp only [List.head?_cons, walk]
    cases hvisit : (visit e a).2 with
    | false => exact ⟨_, rfl, hstop e l a h hvisit⟩
    | true =>
      obtain ⟨hnext, hI⟩ := hstep e l a h hvisit
      rw [if_pos rfl, hnext]
      exact ih hI (Nat.le_of_succ_le_succ hn)

end Dll
