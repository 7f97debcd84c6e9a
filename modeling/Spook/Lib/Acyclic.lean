import Mathlib.Data.Finset.Card
import Mathlib.Logic.Relation

set_option relaxedAutoImplicit false
set_option autoImplicit false

/-!
# Relations without cycles

On a finite set a relation without cycles has a height: the number of elements that a chain leads
to. It decreases along the relation, and is below the size of the set, so that it bounds the depth
of a recursion along the relation.

## Main definitions

* `Acyclic` — no chain leads back to its start.
* `chainHeight` — the number of elements that chains lead to.

## Main results

* `Acyclic.height_lt` — the height decreases along the relation.
* `Acyclic.height_lt_card` — it is below the size of the set.
* `Acyclic.of_rank` — a relation that decreases a number has no cycles.
-/

variable {α : Type*} {r : α → α → Prop} {s : Finset α} {a b : α}

/-- No chain leads back to its start. -/
def Acyclic (r : α → α → Prop) : Prop := ∀ a, ¬ Relation.TransGen r a a

open Classical in
/-- The number of elements of `s` that chains from `a` lead to. -/
noncomputable def chainHeight (s : Finset α) (r : α → α → Prop) (a : α) : ℕ :=
  (s.filter fun b => Relation.TransGen r a b).card

/-- A relation that decreases a number has no cycles. -/
theorem Acyclic.of_rank (rank : α → ℕ) (h : ∀ a b, r a b → rank b < rank a) : Acyclic r := by
  have hchain : ∀ a b, Relation.TransGen r a b → rank b < rank a := by
    intro a b hab
    induction hab with
    | single hab => exact h _ _ hab
    | tail _ hbc ih => exact (h _ _ hbc).trans ih
  intro a ha
  exact lt_irrefl _ (hchain a a ha)

/-- The height decreases along the relation. -/
theorem Acyclic.height_lt (h : Acyclic r) (hb : b ∈ s) (hab : r a b) :
    chainHeight s r b < chainHeight s r a := by
  classical
  apply Finset.card_lt_card
  apply (Finset.ssubset_iff_of_subset ?_).2
  · refine ⟨b, Finset.mem_filter.2 ⟨hb, .single hab⟩, fun hmem => ?_⟩
    exact h b (Finset.mem_filter.1 hmem).2
  · intro c hc
    obtain ⟨hcs, hbc⟩ := Finset.mem_filter.1 hc
    exact Finset.mem_filter.2 ⟨hcs, .head hab hbc⟩

/-- The height is below the size of the set. -/
theorem Acyclic.height_lt_card (h : Acyclic r) (ha : a ∈ s) : chainHeight s r a < s.card := by
  classical
  apply Finset.card_lt_card
  apply (Finset.ssubset_iff_of_subset (Finset.filter_subset _ s)).2
  exact ⟨a, ha, fun hmem => h a (Finset.mem_filter.1 hmem).2⟩
