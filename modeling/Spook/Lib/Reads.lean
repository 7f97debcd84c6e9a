import Mathlib.Data.List.Basic

set_option relaxedAutoImplicit false
set_option autoImplicit false

/-!
# Reading a buffer

Programs that read a buffer by index. In the buffer itself a read behind the end fails; in the padded
buffer it gives a filler. A program whose reads all lie inside does the same in both, and the rules
here find the condition for it, one read after the other.

## Main definitions

* `readIn`, `readPadded` — the buffer and the padded buffer.
* `ReadsIf` — a program reads inside exactly under a condition, and fails otherwise.

## Main results

* `ReadsIf.read`, `ReadsIf.bind`, `ReadsIf.ite` — the rules for a program, one step after the other.
-/

universe u

variable {β ε : Type*} {α γ : Type u}

/-- A read of the buffer `d`. -/
def readIn (d : List β) (fault : ε) (i : ℕ) : Except ε β :=
  match d[i]? with
  | some b => .ok b
  | none => .error fault

/-- A read of the buffer `d` followed by a filler. -/
def readPadded (d : List β) (pad : β) (i : ℕ) : Except ε β := .ok (d.getD i pad)

/-- The program `P` does in the buffer what it does in the padded buffer if `c` holds, and fails with
`fault` if not. -/
structure ReadsIf (d : List β) (pad : β) (fault : ε) (P : (ℕ → Except ε β) → Except ε α) (c : Prop) :
    Prop where
  inside : c → P (readIn d fault) = P (readPadded d pad)
  outside : ¬ c → P (readIn d fault) = .error fault

namespace ReadsIf

variable {d : List β} {pad : β} {fault : ε} {P : (ℕ → Except ε β) → Except ε α}
  {Q : (ℕ → Except ε β) → α → Except ε γ} {a : α} {c : Prop}

/-- A read. -/
theorem read (d : List β) (pad : β) (fault : ε) (i : ℕ) :
    ReadsIf d pad fault (fun mem => mem i) (i < d.length) := by
  constructor
  · intro h
    simp [readIn, readPadded, h]
  · intro h
    simp [readIn, List.getElem?_eq_none (Nat.not_lt.1 h)]

/-- A program that does not read. -/
theorem const (x : Except ε α) : ReadsIf d pad fault (fun _ => x) True :=
  ⟨fun _ => rfl, fun h => absurd trivial h⟩

/-- An equivalent condition. -/
theorem congr {c' : Prop} (h : ReadsIf d pad fault P c) (hc : c' ↔ c) : ReadsIf d pad fault P c' :=
  ⟨fun h' => h.inside (hc.1 h'), fun h' => h.outside fun h'' => h' (hc.2 h'')⟩

/-- Two programs, one after the other. -/
theorem bind {c' : α → Prop} (hP : ReadsIf d pad fault P c)
    (hQ : ∀ a, P (readPadded d pad) = .ok a → ReadsIf d pad fault (fun mem => Q mem a) (c' a)) :
    ReadsIf d pad fault (fun mem => P mem >>= Q mem)
      (c ∧ ∀ a, P (readPadded d pad) = .ok a → c' a) := by
  constructor
  · rintro ⟨hc, hrest⟩
    show P (readIn d fault) >>= Q (readIn d fault) = _
    rw [hP.inside hc]
    rcases h : P (readPadded d pad) with e | a
    · rfl
    · exact (hQ a h).inside (hrest a h)
  · intro hnot
    show P (readIn d fault) >>= Q (readIn d fault) = _
    by_cases hc : c
    · rw [hP.inside hc]
      rw [not_and] at hnot
      have hrest := hnot hc
      rw [not_forall] at hrest
      obtain ⟨a, ha⟩ := hrest
      rw [Classical.not_imp] at ha
      rw [ha.1]
      exact (hQ a ha.1).outside ha.2
    · rw [hP.outside hc]
      rfl

/-- A program whose result in the padded buffer is known, and another one behind it. -/
theorem bind_ok {c' : Prop} (hP : ReadsIf d pad fault P c) (ha : P (readPadded d pad) = .ok a)
    (hQ : ReadsIf d pad fault (fun mem => Q mem a) c') :
    ReadsIf d pad fault (fun mem => P mem >>= Q mem) (c ∧ c') := by
  have hbind : ReadsIf d pad fault (fun mem => P mem >>= Q mem)
      (c ∧ ∀ a', P (readPadded d pad) = .ok a' → c') := by
    refine hP.bind fun a' ha' => ?_
    obtain rfl : a = a' := Except.ok.inj (ha.symm.trans ha')
    exact hQ
  refine hbind.congr (and_congr_right fun _ => ?_)
  exact ⟨fun h _ _ => h, fun h => h a ha⟩

/-- A choice. -/
theorem ite {P₁ P₂ : (ℕ → Except ε β) → Except ε α} {p c₁ c₂ : Prop} [Decidable p]
    (h₁ : p → ReadsIf d pad fault P₁ c₁) (h₂ : ¬ p → ReadsIf d pad fault P₂ c₂) :
    ReadsIf d pad fault (fun mem => if p then P₁ mem else P₂ mem) ((p → c₁) ∧ (¬ p → c₂)) := by
  by_cases hp : p
  · simp only [hp, if_true, true_implies, not_true_eq_false, false_implies, and_true]
    exact h₁ hp
  · simp only [hp, if_false, false_implies, not_false_eq_true, true_implies, true_and]
    exact h₂ hp

/-- A choice that is made. -/
theorem ite_pos {P₁ P₂ : (ℕ → Except ε β) → Except ε α} {p : Prop} [Decidable p] (hp : p)
    (h : ReadsIf d pad fault P₁ c) :
    ReadsIf d pad fault (fun mem => if p then P₁ mem else P₂ mem) c := by
  simpa only [hp, if_true] using h

/-- The other branch, where the condition fails. -/
theorem ite_neg {P₁ P₂ : (ℕ → Except ε β) → Except ε α} {p : Prop} [Decidable p] (hp : ¬ p)
    (h : ReadsIf d pad fault P₂ c) :
    ReadsIf d pad fault (fun mem => if p then P₁ mem else P₂ mem) c := by
  simpa only [hp, if_false] using h

end ReadsIf
