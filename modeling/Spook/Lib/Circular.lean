import Spook.Lib.Dll

set_option relaxedAutoImplicit false
set_option autoImplicit false

/-!
# Circular lists

Doubly linked lists without an end: the node behind the last one is the first, and the node before
the first one is the last. The nodes are those of `Dll`.

## Main definitions

* `Dll.IsRing` — a circular list from its head on.
* `Dll.join`, `Dll.insertLast` — two nodes become neighbours, or get one between them.

## Main results

* `Dll.IsRing.tail` — the head is taken out.
* `Dll.IsRing.snoc` — a node is put behind the last one.
-/

namespace Dll

variable {κ : Type*}

/-- From `head` on the nodes `l` are linked in a circle. -/
structure IsRing (m : κ → Links κ) (head : Option κ) (l : List κ) : Prop where
  start : head = l.head?
  nodup : l.Nodup
  seg : l ≠ [] → Seg m l.getLast? head l l.getLast? head

section Ring

variable {m m' : κ → Links κ} {head : Option κ} {e f q x : κ} {l : List κ}

/-- The ring without elements. -/
theorem isRing_nil (m : κ → Links κ) : IsRing m none [] := ⟨rfl, .nil, fun h => absurd rfl h⟩

/-- A circular list only depends on the links of its nodes. -/
theorem IsRing.frame (h : IsRing m head l) (hm : ∀ x ∈ l, m' x = m x) : IsRing m' head l :=
  ⟨h.start, h.nodup, fun hne => (h.seg hne).frame hm⟩

/-- The links of the head. -/
theorem IsRing.first (h : IsRing m head (e :: l)) :
    (m e).prev = some ((e :: l).getLast (List.cons_ne_nil e l)) ∧
      (m e).next = (l ++ [e]).head? := by
  obtain ⟨-, hprev, hl⟩ := h.seg (List.cons_ne_nil e l)
  refine ⟨hprev.trans (List.getLast?_eq_getLast_of_ne_nil _), ?_⟩
  cases l with
  | nil => exact hl.2.trans h.start
  | cons f l => exact hl.1

/-- A node alone. -/
theorem isRing_singleton (hprev : (m x).prev = some x) (hnext : (m x).next = some x) :
    IsRing m (some x) [x] :=
  ⟨rfl, List.pairwise_singleton _ x, fun _ => ⟨rfl, hprev, rfl, hnext⟩⟩

variable [DecidableEq κ]

/-- `q` and `f` become neighbours. -/
def join (m : κ → Links κ) (q f : κ) : κ → Links κ := setPrev (setNext m q (some f)) f (some q)

/-- Other elements stay. -/
theorem join_of_ne (hq : x ≠ q) (hf : x ≠ f) : join m q f x = m x := by
  rw [join, setPrev_of_ne hf, setNext_of_ne hq]

/-- **The head is taken out** when its neighbours are joined. -/
theorem IsRing.tail (h : IsRing m head (e :: f :: l)) :
    IsRing (join m ((f :: l).getLast (List.cons_ne_nil f l)) f) (some f) (f :: l) := by
  have hnodup := (List.nodup_cons.1 h.nodup).2
  obtain ⟨-, -, hseg⟩ := h.seg (List.cons_ne_nil e (f :: l))
  have hstart : (m e).next = some f := hseg.1
  refine ⟨rfl, hnodup, fun _ => ?_⟩
  generalize hq : (f :: l).getLast (List.cons_ne_nil f l) = q
  have hlast : (f :: l).getLast? = some q := by
    rw [List.getLast?_eq_getLast_of_ne_nil (List.cons_ne_nil f l), hq]
  rw [hlast]
  rw [List.getLast?_cons_cons, hlast, hstart] at hseg
  obtain ⟨b, hb⟩ : ∃ b, f :: l = b ++ [q] :=
    ⟨_, (hq ▸ (List.dropLast_append_getLast (List.cons_ne_nil f l)).symm)⟩
  have hqb : q ∉ b := by
    rw [hb, List.nodup_append] at hnodup
    exact fun hmem => hnodup.2.2 q hmem q (by simp) rfl
  rw [hb] at hseg
  have hnext := hseg.setNext hqb (some f)
  rw [← hb] at hnext
  exact hnext.setPrev (List.nodup_cons.1 hnodup).1 (some q)

/-- The node `x` comes between the last node `q` and the first one `f`. -/
def insertLast (m : κ → Links κ) (q f x : κ) : κ → Links κ :=
  setNext (setPrev (setPrev (setNext m x (some f)) x (some q)) f (some x)) q (some x)

/-- Other elements stay. -/
theorem insertLast_of_ne {y : κ} (hq : y ≠ q) (hf : y ≠ f) (hx : y ≠ x) :
    insertLast m q f x y = m y := by
  rw [insertLast, setNext_of_ne hq, setPrev_of_ne hf, setPrev_of_ne hx, setNext_of_ne hx]

/-- The new element has the last and the first as its neighbours. -/
theorem insertLast_self (hq : x ≠ q) (hf : x ≠ f) : insertLast m q f x x = ⟨some q, some f⟩ := by
  rw [insertLast, setNext_of_ne hq, setPrev_of_ne hf, setPrev_self, setNext_self]

/-- **A node behind the last one.** -/
theorem IsRing.snoc (h : IsRing m head (f :: l)) (hx : x ∉ f :: l) :
    IsRing (insertLast m ((f :: l).getLast (List.cons_ne_nil f l)) f x) head (f :: l ++ [x]) := by
  have hnodup := h.nodup
  have hseg := h.seg (List.cons_ne_nil f l)
  have hhead : head = some f := h.start
  refine ⟨h.start, ?_, fun _ => ?_⟩
  · rw [List.nodup_append]
    refine ⟨hnodup, List.pairwise_singleton _ x, fun y hy z hz => ?_⟩
    obtain rfl := List.mem_singleton.1 hz
    exact fun heq => hx (heq ▸ hy)
  generalize hq : (f :: l).getLast (List.cons_ne_nil f l) = q
  have hlast : (f :: l).getLast? = some q := by
    rw [List.getLast?_eq_getLast_of_ne_nil (List.cons_ne_nil f l), hq]
  have hqx : x ≠ q := by
    rintro rfl
    exact hx (hq ▸ List.getLast_mem _)
  have hfx : x ≠ f := fun heq => hx (heq ▸ List.mem_cons_self)
  rw [hlast, hhead] at hseg
  rw [List.getLast?_concat, hhead]
  obtain ⟨b, hb⟩ : ∃ b, f :: l = b ++ [q] :=
    ⟨_, (hq ▸ (List.dropLast_append_getLast (List.cons_ne_nil f l)).symm)⟩
  have hqb : q ∉ b := by
    rw [hb, List.nodup_append] at hnodup
    exact fun hmem => hnodup.2.2 q hmem q (by simp) rfl
  -- the links of the new node do not matter to the others
  have hframe : Seg (setPrev (setNext m x (some f)) x (some q)) (some q) (some f) (f :: l)
      (some q) (some f) := by
    refine hseg.frame fun y hy => ?_
    have hyx : y ≠ x := fun heq => hx (heq ▸ hy)
    rw [setPrev_of_ne hyx, setNext_of_ne hyx]
  have hfirst := hframe.setPrev (List.nodup_cons.1 hnodup).1 (some x)
  rw [hb] at hfirst
  have hboth := hfirst.setNext hqb (some x)
  rw [← hb] at hboth
  refine seg_append.2 ⟨some q, some x, hboth, rfl, ?_, rfl, ?_⟩
  · rw [insertLast_self hqx hfx]
  · rw [insertLast_self hqx hfx]

end Ring

end Dll
