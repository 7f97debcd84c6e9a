import Mathlib.Computability.Language
import Mathlib.Data.List.TakeWhile

set_option relaxedAutoImplicit false
set_option autoImplicit false

/-!
# Scanning by the longest match

A scanner has a list of rules, each with a pattern and an action. At every place it takes the rule
whose pattern matches the most symbols, and the first of those that match as many.

## Main definitions

* `Lex.Matcher` — a language with its longest match, which can be computed.
* `Lex.Longest` — what a scanner does at one place.
* `Lex.scan` — the same, computed.
* `Lex.Splits` — how a scanner splits a word.

## Main results

* `Lex.scan_eq_some_iff` — `scan` finds the longest match.
* `Lex.Splits.unique`, `Lex.Total.exists_splits` — every word is split in one way.
-/

namespace Lex

variable {α β : Type*}

/-! ## The languages of patterns -/

/-- The words of one symbol that satisfies `p`. -/
def cls (p : α → Bool) : Language α := {w | ∃ a, p a = true ∧ w = [a]}

section Languages

variable {p q : α → Bool} {L : Language α} {a : α} {w : List α}

/-- A word that begins with a character of the class. -/
@[simp] theorem cons_mem_cls_mul : a :: w ∈ cls p * L ↔ p a = true ∧ w ∈ L := by
  rw [Language.mem_mul]
  constructor
  · rintro ⟨_, ⟨b, hb, rfl⟩, v, hv, heq⟩
    obtain ⟨rfl, rfl⟩ := List.cons.inj heq
    exact ⟨hb, hv⟩
  · rintro ⟨ha, hw⟩
    exact ⟨[a], ⟨a, ha, rfl⟩, w, hw, rfl⟩

/-- The empty word does not. -/
@[simp] theorem nil_notMem_cls_mul : [] ∉ cls p * L := by
  rw [Language.mem_mul]
  rintro ⟨_, ⟨b, -, rfl⟩, v, -, heq⟩
  cases heq

/-- Words of characters of the class. -/
theorem mem_kstar_cls : w ∈ KStar.kstar (cls p) ↔ ∀ a ∈ w, p a = true := by
  rw [Language.mem_kstar]
  constructor
  · rintro ⟨ws, rfl, h⟩ a ha
    obtain ⟨v, hv, hav⟩ := List.mem_flatten.1 ha
    obtain ⟨b, hb, rfl⟩ := h v hv
    obtain rfl := List.mem_singleton.1 hav
    exact hb
  · intro h
    refine ⟨w.map fun a => [a], ?_, fun v hv => ?_⟩
    · induction w with
      | nil => rfl
      | cons a w ih => simp [← ih fun b hb => h b (List.mem_cons_of_mem a hb)]
    · obtain ⟨a, ha, rfl⟩ := List.mem_map.1 hv
      exact ⟨a, h a ha, rfl⟩

end Languages

/-! ## The longest match of a pattern -/

/-- The longest prefix of `w` in the language has the length `n`, or there is none. -/
def Reaches (L : Language α) (w : List α) : Option ℕ → Prop
  | some n => n ≤ w.length ∧ w.take n ∈ L ∧ ∀ m, n < m → m ≤ w.length → w.take m ∉ L
  | none => ∀ m ≤ w.length, w.take m ∉ L

/-- A language with the length of the longest match at the beginning of a word. -/
structure Matcher (α : Type*) where
  lang : Language α
  len : List α → Option ℕ
  reaches : ∀ w, Reaches lang w (len w)

namespace Matcher

/-- The empty word. -/
def empty : Matcher α where
  lang := 1
  len _ := some 0
  reaches w := by
    refine ⟨Nat.zero_le _, by simp [Language.mem_one], fun m hm hle hmem => ?_⟩
    rw [Language.mem_one, List.take_eq_nil_iff] at hmem
    rcases hmem with rfl | rfl
    · exact absurd hm (lt_irrefl 0)
    · simp at hle
      omega

/-- A symbol, and then what the matcher matches. -/
def after (p : α → Bool) (M : Matcher α) : Matcher α where
  lang := cls p * M.lang
  len
    | [] => none
    | a :: w => if p a then (M.len w).map (· + 1) else none
  reaches w := by
    cases w with
    | nil => exact fun m _ => by simp
    | cons a w =>
      dsimp only
      have hmiss : ∀ m, (m = 0 ∨ p a = false ∨ w.take (m - 1) ∉ M.lang) →
          (a :: w).take m ∉ cls p * M.lang := by
        intro m h
        cases m with
        | zero => simp
        | succ m => simpa [or_iff_not_imp_left] using h
      have hM := M.reaches w
      split_ifs with ha
      · rcases hlen : M.len w with _ | n <;> rw [hlen] at hM
        · intro m hm
          cases m with
          | zero => exact hmiss 0 (.inl rfl)
          | succ m => exact hmiss _ (.inr (.inr (hM m (by simpa using hm))))
        · obtain ⟨hn, hmem, hmax⟩ := hM
          refine ⟨by simpa using hn, by simp [ha, hmem], fun m hnm hm => ?_⟩
          cases m with
          | zero => exact hmiss 0 (.inl rfl)
          | succ m =>
            exact hmiss _ (.inr (.inr (hmax m (by simpa using hnm) (by simpa using hm))))
      · exact fun m _ => hmiss m (.inr (.inl (by simpa using ha)))

/-- One symbol. -/
def single (p : α → Bool) : Matcher α := after p empty

/-- Any number of symbols. -/
def many (p : α → Bool) : Matcher α where
  lang := KStar.kstar (cls p)
  len w := some (w.takeWhile p).length
  reaches w := by
    have hmax : ∀ m ≤ w.length, (∀ a ∈ w.take m, p a = true) → m ≤ (w.takeWhile p).length := by
      intro m hm h
      have hsplit : w.takeWhile p = w.take m ++ (w.drop m).takeWhile p := by
        rw [← List.takeWhile_append_of_pos h, List.take_append_drop]
      rw [hsplit, List.length_append, List.length_take]
      omega
    refine ⟨(List.takeWhile_prefix p).length_le, ?_, fun m hnm hm hmem => ?_⟩
    · rw [mem_kstar_cls, ← List.prefix_iff_eq_take.1 (List.takeWhile_prefix p)]
      exact fun a ha => List.mem_takeWhile_imp ha
    · exact absurd (hmax m hm (mem_kstar_cls.1 hmem)) (by omega)

/-- One symbol or more. -/
def plus (p : α → Bool) : Matcher α := after p (many p)

/-- Any number of symbols that satisfy `q`, and then one that satisfies `r`, which ends them. -/
def til (q r : α → Bool) (hqr : ∀ a, r a = true → q a = false) : Matcher α where
  lang := KStar.kstar (cls q) * cls r
  len w :=
    match w.dropWhile q with
    | [] => none
    | a :: _ => if r a then some ((w.takeWhile q).length + 1) else none
  reaches w := by
    -- a match takes all symbols that satisfy `q`, and one more
    have hmatch : ∀ m ≤ w.length, w.take m ∈ KStar.kstar (cls q) * cls r →
        ∃ a v, w.dropWhile q = a :: v ∧ r a = true ∧ m = (w.takeWhile q).length + 1 := by
      intro m hm hmem
      obtain ⟨u, hu, _, ⟨a, ha, rfl⟩, heq⟩ := Language.mem_mul.1 hmem
      have hw : w = u ++ a :: w.drop m := by
        conv_lhs => rw [← List.take_append_drop m w, ← heq]
        simp
      have hq := hqr a ha
      have hu := mem_kstar_cls.1 hu
      have htake : w.takeWhile q = u := by
        rw [hw, List.takeWhile_append_of_pos hu]
        simp [hq]
      have hdrop : w.dropWhile q = a :: w.drop m := by
        conv_lhs => rw [hw, List.dropWhile_append_of_pos hu]
        simp [hq]
      refine ⟨a, w.drop m, hdrop, ha, ?_⟩
      have hlen := congrArg List.length heq
      rw [htake]
      simp only [List.length_append, List.length_singleton, List.length_take] at hlen
      omega
    have hsplit := List.takeWhile_append_dropWhile (p := q) (l := w)
    rcases hdrop : w.dropWhile q with _ | ⟨a, v⟩
    · intro m hm hmem
      obtain ⟨a, v, h, -⟩ := hmatch m hm hmem
      rw [hdrop] at h
      cases h
    · dsimp only
      split_ifs with ha
      · rw [hdrop] at hsplit
        refine ⟨?_, ?_, fun m hnm hm hmem => ?_⟩
        · have hlen := congrArg List.length hsplit
          simp only [List.length_append, List.length_cons] at hlen
          omega
        · have htake : w.take ((w.takeWhile q).length + 1) = w.takeWhile q ++ [a] := by
            have h : (w.takeWhile q ++ a :: v).take ((w.takeWhile q).length + 1) =
                w.takeWhile q ++ [a] := by simp [List.take_append]
            rwa [hsplit] at h
          rw [htake]
          refine Language.append_mem_mul (mem_kstar_cls.2 fun b hb => ?_) ⟨a, ha, rfl⟩
          exact List.mem_takeWhile_imp hb
        · obtain ⟨-, -, -, -, rfl⟩ := hmatch m hm hmem
          exact absurd hnm (lt_irrefl _)
      · intro m hm hmem
        obtain ⟨b, v', h, hb, -⟩ := hmatch m hm hmem
        rw [hdrop] at h
        cases h
        exact ha hb

end Matcher

/-! ## The longest match of a scanner -/

/-- A rule of a scanner. -/
structure Rule (α β : Type*) where
  matcher : Matcher α
  action : β

/-- At the beginning of `w` a rule with the action `b` matches `n` symbols: no rule before it matches
them, and no rule matches more. -/
def Longest (rules : List (Rule α β)) (w : List α) (n : ℕ) (b : β) : Prop :=
  ∃ pre r post, rules = pre ++ r :: post ∧ r.action = b ∧ n ≤ w.length ∧
    w.take n ∈ r.matcher.lang ∧ (∀ q ∈ pre, w.take n ∉ q.matcher.lang) ∧
    ∀ q ∈ rules, ∀ m, n < m → m ≤ w.length → w.take m ∉ q.matcher.lang

/-- The longest match, computed. -/
def scan : List (Rule α β) → List α → Option (ℕ × β)
  | [], _ => none
  | r :: rules, w =>
    match r.matcher.len w, scan rules w with
    | none, o => o
    | some n, none => some (n, r.action)
    | some n, some (m, b) => if n < m then some (m, b) else some (n, r.action)

section Scan

variable {rules : List (Rule α β)} {w : List α} {n m : ℕ} {b c : β}

/-- There is one longest match. -/
theorem Longest.unique (h : Longest rules w n b) (h' : Longest rules w m c) : n = m ∧ b = c := by
  obtain ⟨pre, r, post, hrules, hb, hn, hmem, hpre, hmax⟩ := h
  obtain ⟨pre', r', post', hrules', hc, hm, hmem', hpre', hmax'⟩ := h'
  have hr : r ∈ rules := by simp [hrules]
  have hr' : r' ∈ rules := by simp [hrules']
  obtain rfl : n = m := by
    rcases lt_trichotomy n m with hlt | heq | hlt
    · exact absurd hmem' (hmax r' hr' m hlt hm)
    · exact heq
    · exact absurd hmem (hmax' r hr n hlt hn)
  refine ⟨rfl, ?_⟩
  rw [hrules] at hrules'
  rcases List.append_eq_append_iff.1 hrules' with ⟨t, rfl, ht⟩ | ⟨t, rfl, ht⟩
  · cases t with
    | nil =>
      rw [← hb, ← hc, (List.cons.inj ht).1]
    | cons x t =>
      obtain ⟨rfl, -⟩ := List.cons.inj ht
      exact absurd hmem (hpre' r (by simp))
  · cases t with
    | nil =>
      rw [← hb, ← hc, (List.cons.inj ht).1]
    | cons x t =>
      obtain ⟨rfl, -⟩ := List.cons.inj ht
      exact absurd hmem' (hpre r' (by simp))

/-- What `scan` finds, or that no rule matches. -/
theorem scan_spec (rules : List (Rule α β)) (w : List α) :
    match scan rules w with
    | some (n, b) => Longest rules w n b
    | none => ∀ r ∈ rules, ∀ m ≤ w.length, w.take m ∉ r.matcher.lang := by
  induction rules with
  | nil => exact fun r hr => absurd hr (by simp)
  | cons r rules ih =>
    have hr := r.matcher.reaches w
    unfold scan
    rcases hlen : r.matcher.len w with _ | n <;> rw [hlen] at hr <;>
      rcases hscan : scan rules w with _ | ⟨m, b⟩ <;> rw [hscan] at ih <;> dsimp only at ih ⊢
    · intro q hq
      rcases List.mem_cons.1 hq with rfl | hq
      · exact hr
      · exact ih q hq
    · -- the rule does not match, and the others do
      obtain ⟨pre, r', post, rfl, hb, hm, hmem, hpre, hmax⟩ := ih
      refine ⟨r :: pre, r', post, rfl, hb, hm, hmem, fun q hq => ?_, fun q hq k hk hkw => ?_⟩
      · rcases List.mem_cons.1 hq with rfl | hq
        · exact hr m hm
        · exact hpre q hq
      · rcases List.mem_cons.1 hq with rfl | hq
        · exact hr k hkw
        · exact hmax q hq k hk hkw
    · obtain ⟨hn, hmem, hmax⟩ := hr
      refine ⟨[], r, rules, rfl, rfl, hn, hmem, by simp, fun q hq k hk hkw => ?_⟩
      rcases List.mem_cons.1 hq with rfl | hq
      · exact hmax k hk hkw
      · exact ih q hq k hkw
    · obtain ⟨hn, hmem, hmax⟩ := hr
      obtain ⟨pre, r', post, rfl, hb, hm, hmem', hpre, hmax'⟩ := ih
      split_ifs with hlt
      · refine ⟨r :: pre, r', post, rfl, hb, hm, hmem', fun q hq => ?_, fun q hq k hk hkw => ?_⟩
        · rcases List.mem_cons.1 hq with rfl | hq
          · exact hmax m hlt hm
          · exact hpre q hq
        · rcases List.mem_cons.1 hq with rfl | hq
          · exact hmax k (by omega) hkw
          · exact hmax' q hq k hk hkw
      · refine ⟨[], r, _, rfl, rfl, hn, hmem, by simp, fun q hq k hk hkw => ?_⟩
        rcases List.mem_cons.1 hq with rfl | hq
        · exact hmax k hk hkw
        · exact hmax' q hq k (by omega) hkw

/-- `scan` finds the longest match. -/
theorem scan_eq_some_iff : scan rules w = some (n, b) ↔ Longest rules w n b := by
  have hspec := scan_spec rules w
  constructor
  · intro h
    rw [h] at hspec
    exact hspec
  · intro h
    rcases hscan : scan rules w with _ | ⟨m, c⟩ <;> rw [hscan] at hspec
    · obtain ⟨pre, r, post, rfl, -, hn, hmem, -⟩ := h
      exact absurd hmem (hspec r (by simp) n hn)
    · obtain ⟨rfl, rfl⟩ := hspec.unique h
      rfl

end Scan

/-! ## Whole words -/

/-- A scanner splits a word into matches that are not empty, each the longest one. -/
inductive Splits (rules : List (Rule α β)) : List α → List (β × List α) → Prop
  | nil : Splits rules [] []
  | cons {w : List α} {n : ℕ} {b : β} {ls : List (β × List α)} : Longest rules w n b → 0 < n →
      Splits rules (w.drop n) ls → Splits rules w ((b, w.take n) :: ls)

/-- Every symbol is matched by a rule, and no rule matches the empty word. -/
structure Total (rules : List (Rule α β)) : Prop where
  symbol : ∀ a w, ∃ r ∈ rules, ∃ n ≤ (a :: w).length, (a :: w).take n ∈ r.matcher.lang
  nonempty : ∀ r ∈ rules, [] ∉ r.matcher.lang

section Splits

variable {rules : List (Rule α β)} {w : List α} {n : ℕ} {b : β} {ls ls' : List (β × List α)}

/-- A word is split in one way. -/
theorem Splits.unique (h : Splits rules w ls) (h' : Splits rules w ls') : ls = ls' := by
  have hlong : ∀ {n b}, Longest rules [] n b → ¬ 0 < n := by
    rintro n b ⟨-, -, -, -, -, hn, -⟩ hpos
    simp at hn
    omega
  induction h generalizing ls' with
  | nil =>
    cases h' with
    | nil => rfl
    | cons h hpos => exact absurd hpos (hlong h)
  | cons h hpos _ ih =>
    cases h' with
    | nil => exact absurd hpos (hlong h)
    | cons h' hpos' hrest =>
      obtain ⟨rfl, rfl⟩ := h.unique h'
      rw [ih hrest]

/-- Where every symbol is matched there is a longest match. -/
theorem Total.longest (h : Total rules) (a : α) (w : List α) :
    ∃ n b, scan rules (a :: w) = some (n, b) ∧ 0 < n := by
  have hspec := scan_spec rules (a :: w)
  rcases hscan : scan rules (a :: w) with _ | ⟨n, b⟩ <;> rw [hscan] at hspec
  · obtain ⟨r, hr, n, hn, hmem⟩ := h.symbol a w
    exact absurd hmem (hspec r hr n hn)
  · refine ⟨n, b, rfl, Nat.pos_of_ne_zero ?_⟩
    rintro rfl
    obtain ⟨pre, r, post, rfl, -, -, hmem, -⟩ := hspec
    exact h.nonempty r (by simp) hmem

/-- Where every symbol is matched, every word is split. -/
theorem Total.exists_splits (h : Total rules) (w : List α) : ∃ ls, Splits rules w ls := by
  induction hlen : w.length using Nat.strong_induction_on generalizing w with
  | _ k ih =>
    cases w with
    | nil => exact ⟨[], .nil⟩
    | cons a w =>
      obtain ⟨n, b, hscan, hpos⟩ := h.longest a w
      obtain ⟨ls, hls⟩ := ih _ (by rw [← hlen, List.length_drop]; simp; omega)
        ((a :: w).drop n) rfl
      exact ⟨_, .cons (scan_eq_some_iff.1 hscan) hpos hls⟩

end Splits

end Lex
