import Mathlib.Data.List.Basic
import Mathlib.Tactic.SplitIfs

set_option relaxedAutoImplicit false
set_option autoImplicit false

/-!
# Machines with outputs and faults

A machine is a set of initial states with a partial step function: a step either produces a
new state and a list of outputs, or ends in a fault. Runs are sequences of steps each of
which meets a guard, so that "every run" and "every run whose steps meet a condition" are the
same notion. The invariant rules of this file are the only inductions over runs that a
development needs.

## Main definitions

* `Machine` — initial states and a step function with outputs and faults.
* `Machine.Run` — guarded runs, with the actions performed and the outputs produced.
* `Machine.exec` — the executable form of a guarded run from a given state.

## Main results

* `Machine.Run.invariant` — a property of the initial states kept by every guarded step
  holds in every state reached.
* `Machine.Run.history` — the same with the actions and outputs so far.
* `Machine.Run.of_exec` — an execution that does not fault is a run.

## Notes on the design

The guard of a run is a condition on the state and the next step. A statement about all runs has the
guard that is always met.
-/

/-- A machine over states `σ`, actions `α`, outputs `ω` and faults `ε`. -/
structure Machine (σ α ω ε : Type*) where
  /-- The initial states. -/
  Init : σ → Prop
  /-- One step: the next state with the outputs produced, or a fault. -/
  step : σ → α → Except ε (σ × List ω)

namespace Machine

variable {σ α ω ε : Type*} {M : Machine σ α ω ε}

/-- The guard that every step meets. -/
def anyStep (_ : σ) (_ : α) : Prop := True

instance (s : σ) (a : α) : Decidable (anyStep s a) := inferInstanceAs (Decidable True)

/-- `Run M G as os s`: from an initial state the actions `as`, each of which meets the guard
`G` in the state it is performed in, produce the outputs `os` and lead to `s`. -/
inductive Run (M : Machine σ α ω ε) (G : σ → α → Prop) : List α → List ω → σ → Prop
  | init {s : σ} : M.Init s → Run M G [] [] s
  | step {as : List α} {os o : List ω} {s s' : σ} {a : α} : Run M G as os s → G s a →
      M.step s a = .ok (s', o) → Run M G (as ++ [a]) (os ++ o) s'

/-- `s` is reached by some run whose steps meet `G`. -/
def Reachable (M : Machine σ α ω ε) (G : σ → α → Prop) (s : σ) : Prop :=
  ∃ as os, Run M G as os s

/-- **History rule.** A property of the actions, outputs and state that holds initially and
is kept by every guarded step holds of every run. -/
theorem Run.history {G : σ → α → Prop} (I : List α → List ω → σ → Prop)
    (hinit : ∀ s, M.Init s → I [] [] s)
    (hstep : ∀ as os s a s' o, I as os s → G s a → M.step s a = .ok (s', o) →
      I (as ++ [a]) (os ++ o) s')
    {as : List α} {os : List ω} {s : σ} (h : Run M G as os s) : I as os s := by
  induction h with
  | init h0 => exact hinit _ h0
  | step _ hg hs ih => exact hstep _ _ _ _ _ _ ih hg hs

/-- **Invariant rule.** A property of the initial states that every guarded step keeps holds
in every state reached. -/
theorem Run.invariant {G : σ → α → Prop} (I : σ → Prop) (hinit : ∀ s, M.Init s → I s)
    (hstep : ∀ s a s' o, I s → G s a → M.step s a = .ok (s', o) → I s')
    {as : List α} {os : List ω} {s : σ} (h : Run M G as os s) : I s :=
  h.history (fun _ _ s => I s) hinit (fun _ _ s a s' o => hstep s a s' o)

/-- The invariant rule for reachable states. -/
theorem Reachable.invariant {G : σ → α → Prop} (I : σ → Prop) (hinit : ∀ s, M.Init s → I s)
    (hstep : ∀ s a s' o, I s → G s a → M.step s a = .ok (s', o) → I s')
    {s : σ} (h : M.Reachable G s) : I s := by
  obtain ⟨as, os, hr⟩ := h
  exact hr.invariant I hinit hstep

/-- A run whose actions meet another guard wherever they are performed is a run for that one. -/
theorem Run.mono_reachable {G G' : σ → α → Prop} {as : List α} {os : List ω} {s : σ}
    (h : Run M G as os s) (hG : ∀ a ∈ as, ∀ s, M.Reachable G s → G s a → G' s a) :
    Run M G' as os s := by
  induction h with
  | init h0 => exact .init h0
  | step hrun hg hs ih =>
    refine .step (ih fun a ha => hG a (List.mem_append_left _ ha)) (hG _ ?_ _ ⟨_, _, hrun⟩ hg) hs
    exact List.mem_append_right _ (List.mem_singleton_self _)

/-- A run whose actions meet another guard wherever they meet theirs is a run for that one. -/
theorem Run.mono_mem {G G' : σ → α → Prop} {as : List α} {os : List ω} {s : σ}
    (h : Run M G as os s) (hG : ∀ a ∈ as, ∀ s, G s a → G' s a) : Run M G' as os s :=
  h.mono_reachable fun a ha s _ => hG a ha s

/-- A run whose steps meet a stronger guard is a run for the weaker one. -/
theorem Run.mono {G G' : σ → α → Prop} (hG : ∀ s a, G s a → G' s a) {as : List α}
    {os : List ω} {s : σ} (h : Run M G as os s) : Run M G' as os s :=
  h.mono_mem fun a _ s => hG s a

section Exec

variable (M) (G : σ → α → Prop) [∀ s a, Decidable (G s a)]

/-- Perform the actions `as` in order from `s`, collecting the outputs, as long as every step
meets the guard and none faults. -/
def exec : σ → List α → Option (σ × List ω)
  | s, [] => some (s, [])
  | s, a :: as =>
    if G s a then
      match M.step s a with
      | .error _ => none
      | .ok (s', o) => (exec s' as).map fun p => (p.1, o ++ p.2)
    else none

variable {M G}

/-- An execution continues a run. -/
theorem Run.append_exec {as bs : List α} {os o : List ω} {s s' : σ} (h : Run M G as os s)
    (hx : M.exec G s bs = some (s', o)) : Run M G (as ++ bs) (os ++ o) s' := by
  induction bs generalizing as os s o with
  | nil =>
    simp only [exec, Option.some.injEq, Prod.mk.injEq] at hx
    obtain ⟨rfl, rfl⟩ := hx
    simpa using h
  | cons b bs ih =>
    simp only [exec] at hx
    split_ifs at hx with hg
    rcases hb : M.step s b with e | ⟨s₁, o₁⟩
    · rw [hb] at hx
      cases hx
    rw [hb] at hx
    simp only [Option.map_eq_some_iff, Prod.mk.injEq, Prod.exists] at hx
    obtain ⟨s₂, o₂, hx, rfl, rfl⟩ := hx
    have hrun := ih (h.step hg hb) hx
    simpa using hrun

/-- An execution from an initial state is a run. What is to be known of the state reached can be
read off it by any function `f`. -/
theorem Run.of_exec {β : Type*} {s : σ} {as : List α} {o : List ω} {x : β} (f : σ → β)
    (h0 : M.Init s) (h : (M.exec G s as).map (fun p => (p.2, f p.1)) = some (o, x)) :
    ∃ s', Run M G as o s' ∧ f s' = x := by
  simp only [Option.map_eq_some_iff, Prod.mk.injEq, Prod.exists] at h
  obtain ⟨s', o', hx, rfl, rfl⟩ := h
  have hrun := (Run.init h0).append_exec hx
  exact ⟨s', by simpa using hrun, rfl⟩

end Exec

end Machine
