import Mathlib.Order.Defs.Unbundled
import Mathlib.Tactic.SplitIfs

set_option relaxedAutoImplicit false
set_option autoImplicit false

/-!
# Programs with a state and faults

Rules for programs over a state `σ` that may end in a fault of type `ε`. The weakest precondition
of a program says what holds of its result when it has one, and what holds of its fault when it
faults; it is computed along the program by the equations of this file. A relation that is
reflexive and transitive holds along a program when it holds across each of its steps.

## Main definitions

* `wp` — the weakest precondition.
* `Within` — what a program keeps, how it relates its states, and which faults it may end in.

## Main results

* `wp_bind`, `wp_ite`, `wp_found` and the other equations of `wp`.
* `wp_anyM` — a search through a list.
* `wp.mono`, `wp.seq`, `wp.and` — the rules of consequence, composition and conjunction.
* `within_bind` — composition.

## Notes on the design

A program that may fault has two postconditions, one for its results and one for its faults. With
the second one a single statement says that a program is right, and when it faults.
-/

variable {σ ε α β : Type}

/-- Started in `s`, the program ends with a result and a state that satisfy `Q`, or in a fault that
satisfies `E`. -/
def wp (x : StateT σ (Except ε) α) (Q : α → σ → Prop) (E : ε → Prop) (s : σ) : Prop :=
  match x.run s with
  | .ok (a, s') => Q a s'
  | .error e => E e

/-- The result of a lookup that must not fail. -/
def found (o : Option α) (e : ε) : StateT σ (Except ε) α :=
  match o with
  | some a => pure a
  | none => throw e

section Equations

variable {Q : α → σ → Prop} {R : β → σ → Prop} {E : ε → Prop} {s : σ}

/-- A result that is returned. -/
@[simp] theorem wp_pure (a : α) : wp (pure a : StateT σ (Except ε) α) Q E s ↔ Q a s := Iff.rfl

/-- One program after another: the second starts where the first ends. -/
@[simp] theorem wp_bind (x : StateT σ (Except ε) α) (f : α → StateT σ (Except ε) β) :
    wp (x >>= f) R E s ↔ wp x (fun a s => wp (f a) R E s) E s := by
  simp only [wp, StateT.run_bind]
  rcases x.run s with e | ⟨a, s'⟩ <;> rfl

/-- A function of the result. -/
@[simp] theorem wp_map (x : StateT σ (Except ε) α) (f : α → β) :
    wp (f <$> x) R E s ↔ wp x (fun a s => R (f a) s) E s := by
  simp only [wp, StateT.run_map]
  rcases x.run s with e | ⟨a, s'⟩ <;> rfl

/-- A look at the state. -/
@[simp] theorem wp_get {Q : σ → σ → Prop} :
    wp (get : StateT σ (Except ε) σ) Q E s ↔ Q s s := Iff.rfl

/-- A state that is stored. -/
@[simp] theorem wp_set {Q : PUnit → σ → Prop} (s' : σ) :
    wp (set s' : StateT σ (Except ε) PUnit) Q E s ↔ Q ⟨⟩ s' := Iff.rfl

/-- A change of the state. -/
@[simp] theorem wp_modify {Q : PUnit → σ → Prop} (f : σ → σ) :
    wp (modify f : StateT σ (Except ε) PUnit) Q E s ↔ Q ⟨⟩ (f s) := Iff.rfl

/-- An error. -/
@[simp] theorem wp_throw (e : ε) : wp (throw e : StateT σ (Except ε) α) Q E s ↔ E e := Iff.rfl

/-- A value that may be missing. -/
@[simp] theorem wp_found (o : Option α) (e : ε) :
    wp (found o e) Q E s ↔ (∀ a, o = some a → Q a s) ∧ (o = none → E e) := by
  cases o <;> simp [found]

/-- Both branches, each under its condition. -/
@[simp] theorem wp_ite {c : Prop} [Decidable c] (x y : StateT σ (Except ε) α) :
    wp (if c then x else y) Q E s ↔ (c → wp x Q E s) ∧ (¬ c → wp y Q E s) := by
  split_ifs with h <;> simp [h]

/-- The rule of consequence. -/
theorem wp.mono {x : StateT σ (Except ε) α} {Q' : α → σ → Prop} {E' : ε → Prop}
    (h : wp x Q E s) (hQ : ∀ a s', Q a s' → Q' a s') (hE : ∀ e, E e → E' e) : wp x Q' E' s := by
  unfold wp at *
  rcases hx : x.run s with e | ⟨a, s'⟩ <;> rw [hx] at h
  · exact hE e h
  · exact hQ a s' h

/-- The rule of consequence for the result. -/
theorem wp.imp {x : StateT σ (Except ε) α} {Q' : α → σ → Prop} (h : wp x Q E s)
    (hQ : ∀ a s', Q a s' → Q' a s') : wp x Q' E s :=
  h.mono hQ fun _ he => he

/-- The rule of composition. -/
theorem wp.seq {x : StateT σ (Except ε) α} {f : α → StateT σ (Except ε) β} (h : wp x Q E s)
    (hf : ∀ a s', Q a s' → wp (f a) R E s') : wp (x >>= f) R E s :=
  (wp_bind x f).2 (h.imp hf)

/-- The rule of conjunction. -/
theorem wp.and {x : StateT σ (Except ε) α} {Q' : α → σ → Prop} {E' : ε → Prop}
    (h : wp x Q E s) (h' : wp x Q' E' s) :
    wp x (fun a s' => Q a s' ∧ Q' a s') (fun e => E e ∧ E' e) s := by
  unfold wp at *
  rcases hx : x.run s with e | ⟨a, s'⟩ <;> rw [hx] at h h' <;> exact ⟨h, h'⟩

/-- Every program ends somehow. -/
theorem wp_trivial (x : StateT σ (Except ε) α) (s : σ) :
    wp x (fun _ _ => True) (fun _ => True) s := by
  unfold wp
  split <;> trivial

/-- A search through a list that only looks at the state. -/
theorem wp_anyM {p : β → StateT σ (Except ε) Bool} {P : β → Prop} {l : List β}
    (h : ∀ b ∈ l, wp (p b) (fun r s' => s' = s ∧ (r = true ↔ P b)) E s) :
    wp (l.anyM p) (fun r s' => s' = s ∧ (r = true ↔ ∃ b ∈ l, P b)) E s := by
  induction l with
  | nil => exact ⟨rfl, by simp⟩
  | cons b l ih =>
    rw [List.anyM_cons, wp_bind]
    refine (h b List.mem_cons_self).mono (fun r s' hr => ?_) fun _ he => he
    obtain ⟨rfl, hr⟩ := hr
    cases r with
    | true => exact ⟨rfl, by simp [hr.1 rfl]⟩
    | false =>
      have hb : ¬ P b := fun hb => by simpa using hr.2 hb
      refine (ih fun b' hb' => h b' (List.mem_cons_of_mem _ hb')).mono (fun r s'' hr' => ?_)
        fun _ he => he
      exact ⟨hr'.1, by simp [hr'.2, hb]⟩

/-- What the weakest precondition says of a program that has a result. -/
theorem wp.ok {x : StateT σ (Except ε) α} {a : α} {s' : σ} (h : wp x Q E s)
    (hr : x.run s = .ok (a, s')) : Q a s' := by
  simpa [wp, hr] using h

/-- What the weakest precondition says of a program that faults. -/
theorem wp.error {x : StateT σ (Except ε) α} {e : ε} (h : wp x Q E s)
    (hr : x.run s = .error e) : E e := by
  simpa [wp, hr] using h

end Equations

/-! ## What a program keeps -/

/-- Where `I` holds the program keeps it, relates the state before and the state after by `R`, and
ends in no fault but those of `F`. -/
def Within (I : σ → Prop) (R : σ → σ → Prop) (F : ε → Prop) (x : StateT σ (Except ε) α) : Prop :=
  ∀ s, I s → wp x (fun _ s' => I s' ∧ R s s') F s

section Within

variable {I : σ → Prop} {R : σ → σ → Prop} {F : ε → Prop}

/-- What a program keeps that has a result. -/
theorem Within.ok {x : StateT σ (Except ε) α} {a : α} {s s' : σ} (h : Within I R F x) (hs : I s)
    (hr : x.run s = .ok (a, s')) : I s' ∧ R s s' :=
  (h s hs).ok hr

/-- A weaker relation, and more faults. -/
theorem Within.mono {R' : σ → σ → Prop} {F' : ε → Prop} {x : StateT σ (Except ε) α}
    (h : Within I R F x) (hR : ∀ s s', R s s' → R' s s') (hF : ∀ e, F e → F' e) :
    Within I R' F' x :=
  fun s hs => (h s hs).mono (fun _ s' h' => ⟨h'.1, hR s s' h'.2⟩) hF

/-- An allowed error. -/
theorem within_throw {e : ε} (he : F e) : Within I R F (throw e : StateT σ (Except ε) α) :=
  fun _ _ => he

/-- A change that keeps the invariant and is a step of the relation. -/
theorem within_modify {f : σ → σ} (h : ∀ s, I s → I (f s) ∧ R s (f s)) :
    Within I R F (modify f : StateT σ (Except ε) PUnit) := h

/-- Both branches, each under its condition. -/
theorem within_ite {c : Prop} [Decidable c] {x y : StateT σ (Except ε) α}
    (hx : c → Within I R F x) (hy : ¬ c → Within I R F y) :
    Within I R F (if c then x else y) := by
  split_ifs with h
  · exact hx h
  · exact hy h

variable [IsPreorder σ R]

/-- A result that is returned. -/
theorem within_pure (a : α) : Within I R F (pure a : StateT σ (Except ε) α) :=
  fun s hs => ⟨hs, refl s⟩

/-- A look at the state. -/
theorem within_get : Within I R F (get : StateT σ (Except ε) σ) := fun s hs => ⟨hs, refl s⟩

/-- A value that may be missing, with an allowed error. -/
theorem within_found {o : Option α} {e : ε} (he : F e) :
    Within I R F (found o e : StateT σ (Except ε) α) := by
  cases o
  · exact within_throw he
  · exact within_pure _

/-- Composition, where the second program may rely on what the first one says of its result. -/
theorem within_bind_of {P : α → Prop} {x : StateT σ (Except ε) α}
    {f : α → StateT σ (Except ε) β}
    (hx : ∀ s, I s → wp x (fun a s' => P a ∧ I s' ∧ R s s') F s)
    (hf : ∀ a, P a → Within I R F (f a)) : Within I R F (x >>= f) := by
  intro s hs
  rw [wp_bind]
  refine (hx s hs).mono (fun a s' h => ?_) fun _ h => h
  exact (hf a h.1 s' h.2.1).mono
    (fun _ s'' h' => ⟨h'.1, IsTrans.trans s s' s'' h.2.2 h'.2⟩) fun _ h => h

/-- Composition. -/
theorem within_bind {x : StateT σ (Except ε) α} {f : α → StateT σ (Except ε) β}
    (hx : Within I R F x) (hf : ∀ a, Within I R F (f a)) : Within I R F (x >>= f) :=
  within_bind_of (P := fun _ => True)
    (fun s hs => (hx s hs).mono (fun _ _ h => ⟨trivial, h⟩) fun _ h => h) fun a _ => hf a

/-- A search through a list. -/
theorem within_anyM {p : β → StateT σ (Except ε) Bool} (h : ∀ b, Within I R F (p b)) (l : List β) :
    Within I R F (l.anyM p) := by
  induction l with
  | nil => exact within_pure _
  | cons b l ih =>
    rw [List.anyM_cons]
    refine within_bind (h b) fun r => ?_
    cases r
    · exact ih
    · exact within_pure _

end Within
