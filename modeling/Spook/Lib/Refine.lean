import Spook.Lib.Wp

set_option relaxedAutoImplicit false
set_option autoImplicit false

/-!
# Programs that know more

A program over a state `σ` refines a program over a part of it when every result of the first is one
of the second, and every fault too, but for some faults that only the first one sees. The first may
do things to the rest of the state on its way, and look at it.

## Main definitions

* `StatePart` — a part of a state.
* `zoom` — a program over a part of the state.
* `Refines` — a program refines another over a part of its state.

## Main results

* `wp_zoom` — what a program over a part of the state does.
* `refines_zoom`, `Refines.bind`, `Refines.skip` — the rules of refinement.
-/

variable {σ τ ε ε' α β : Type}

/-- A part of a state, which can be written. -/
structure StatePart (σ τ : Type) where
  get : σ → τ
  set : τ → σ → σ
  get_set : ∀ t s, get (set t s) = t

/-- A program over a part of the state. -/
def zoom (P : StatePart σ τ) (inj : ε' → ε) (y : StateT τ (Except ε') α) : StateT σ (Except ε) α :=
  fun s =>
    match y.run (P.get s) with
    | .ok (a, t) => .ok (a, P.set t s)
    | .error e => .error (inj e)

/-- `x` refines `y` from the state `s` on: what it ends with is what `y` ends with, and satisfies `R`;
it may end in a fault of `G` besides. -/
def Refines (P : StatePart σ τ) (inj : ε' → ε) (G : ε → Prop) (x : StateT σ (Except ε) α)
    (y : StateT τ (Except ε') α) (R : α → σ → Prop) (s : σ) : Prop :=
  wp x (fun a s' => y.run (P.get s) = .ok (a, P.get s') ∧ R a s')
    (fun e => G e ∨ ∃ e', y.run (P.get s) = .error e' ∧ e = inj e') s

section Zoom

variable {P : StatePart σ τ} {inj : ε' → ε}

/-- A program on a part of the state. -/
@[simp] theorem wp_zoom {y : StateT τ (Except ε') α} {Q : α → σ → Prop} {E : ε → Prop} {s : σ} :
    wp (zoom P inj y) Q E s ↔
      wp y (fun a t => Q a (P.set t s)) (fun e => E (inj e)) (P.get s) := by
  have hrun : (zoom P inj y).run s = match y.run (P.get s) with
    | .ok (a, t) => .ok (a, P.set t s)
    | .error e => .error (inj e) := rfl
  unfold wp
  rw [hrun]
  rcases y.run (P.get s) with e | ⟨a, t⟩ <;> exact Iff.rfl

end Zoom

section Rules

variable {P : StatePart σ τ} {inj : ε' → ε} {G : ε → Prop} {R : α → σ → Prop} {s : σ}

/-- A program that is determined by what it does. -/
theorem wp_run {y : StateT τ (Except ε') α} {t : τ} :
    wp y (fun a t' => y.run t = .ok (a, t')) (fun e => y.run t = .error e) t := by
  unfold wp
  split
  · assumption
  · assumption

/-- Programs with the same preconditions run alike. -/
theorem run_eq_of_wp {y y' : StateT τ (Except ε') α} {t t' : τ}
    (h : ∀ Q E, wp y Q E t ↔ wp y' Q E t') : y.run t = y'.run t' := by
  have hrun := (h (fun a s => y'.run t' = .ok (a, s)) fun e => y'.run t' = .error e).2 wp_run
  unfold wp at hrun
  split at hrun
  · rename_i heq
    rw [heq, hrun]
  · rename_i heq
    rw [heq, hrun]

/-- A result that is returned by both. -/
theorem refines_pure {a : α} (h : R a s) :
    Refines P inj G (pure a) (pure a : StateT τ (Except ε') α) R s := ⟨rfl, h⟩

/-- An error of both. -/
theorem refines_throw (e : ε') :
    Refines P inj G (throw (inj e)) (throw e : StateT τ (Except ε') α) R s := .inr ⟨e, rfl, rfl⟩

/-- The same program over the part. -/
theorem refines_zoom {y : StateT τ (Except ε') α}
    (h : wp y (fun a t => R a (P.set t s)) (fun _ => True) (P.get s)) :
    Refines P inj G (zoom P inj y) y R s := by
  unfold Refines
  rw [wp_zoom]
  refine (wp_run.and h).mono (fun a t h => ?_) fun e h => .inr ⟨e, h.1, rfl⟩
  exact ⟨by rw [P.get_set]; exact h.1, h.2⟩

/-- A fault that only `x` sees. -/
theorem refines_of_fault {x : StateT σ (Except ε) α} {y : StateT τ (Except ε') α}
    (h : wp x (fun _ _ => False) G s) : Refines P inj G x y R s :=
  h.mono (fun _ _ h => h.elim) fun _ h => .inl h

namespace Refines

variable {x : StateT σ (Except ε) α} {y : StateT τ (Except ε') α}

/-- Both programs come to other ones. -/
theorem of_wp {x' : StateT σ (Except ε) α} {y' : StateT τ (Except ε') α} {s' : σ}
    (h : Refines P inj G x' y' R s') (hx : ∀ Q E, wp x Q E s ↔ wp x' Q E s')
    (hy : ∀ Q E, wp y Q E (P.get s) ↔ wp y' Q E (P.get s')) : Refines P inj G x y R s := by
  unfold Refines
  rw [hx, run_eq_of_wp hy]
  exact h

/-- The rule of composition. -/
theorem bind {f : α → StateT σ (Except ε) β} {g : α → StateT τ (Except ε') β} {R' : β → σ → Prop}
    (h : Refines P inj G x y R s) (hf : ∀ a s', R a s' → Refines P inj G (f a) (g a) R' s') :
    Refines P inj G (x >>= f) (y >>= g) R' s := by
  unfold Refines
  rw [wp_bind]
  refine wp.mono h (fun a s₁ h => ?_) fun e h => ?_
  · obtain ⟨hrun, hR⟩ := h
    have hg : (y >>= g).run (P.get s) = (g a).run (P.get s₁) := by
      rw [StateT.run_bind, hrun]
      rfl
    rw [hg]
    exact hf a s₁ hR
  · rcases h with hG | ⟨e', hrun, he⟩
    · exact .inl hG
    · refine .inr ⟨e', ?_, he⟩
      rw [StateT.run_bind, hrun]
      rfl

/-- Something that only `x` does, and that leaves the part alone. -/
theorem skip {z : StateT σ (Except ε) β} {f : β → StateT σ (Except ε) α}
    (h : wp z (fun b s' => P.get s' = P.get s ∧ Refines P inj G (f b) y R s') G s) :
    Refines P inj G (z >>= f) y R s := by
  unfold Refines
  rw [wp_bind]
  refine h.mono (fun b s' h => ?_) fun e h => .inl h
  have hrefines := h.2
  unfold Refines at hrefines
  rwa [h.1] at hrefines

/-- Both take the same branch. -/
theorem ite {c : Prop} [Decidable c] {x' : StateT σ (Except ε) α} {y' : StateT τ (Except ε') α}
    (h : c → Refines P inj G x y R s) (h' : ¬ c → Refines P inj G x' y' R s) :
    Refines P inj G (if c then x else x') (if c then y else y') R s := by
  split_ifs with hc
  · exact h hc
  · exact h' hc

end Refines

end Rules
