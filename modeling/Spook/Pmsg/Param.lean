import Spook.Pmsg.Basic

set_option relaxedAutoImplicit false
set_option autoImplicit false

/-!
# The parameters of a header

`get_param` of `pmsg.c` looks up a parameter of a header such as `Transport`, whose value is a
list of parameters `name` or `name=text` separated by semicolons. The header value is a C string:
its bytes and the NUL behind them can be read, the bytes behind the NUL cannot.

The loop is written for a value whose first parameter is something else (the transport
protocol): it steps over one byte before it compares anything, so that the first comparison is
with the second byte of the value. An empty value has no second byte.

## Main definitions

* `Spook.getParam` — `get_param`; `getParamLoop` and `copyParam` are its two loops.
* `Spook.paramRef` — what the parameters behind the first say about a tag.
* `Spook.ReadsParams` — the values, tags and sizes for which the function agrees with them.

## Main results

* `Spook.getParamLoop_eq` — a tag without a semicolon is looked up among the parameters of the
  rest of the value.
* `Spook.getParam_iff` — the function answers as the reference does exactly on `ReadsParams`.
-/

namespace Spook

/-- The semicolon and the equals sign. -/
def SEMI : UInt8 := 59
@[inherit_doc SEMI] def EQUALS : UInt8 := 61

/-! ## The function -/

/-- The C string at the index `c` of the string `value`, which ends at the NUL behind it. -/
def stringFrom (value : Bytes) (c : ℕ) : Except Fault Bytes :=
  if c ≤ value.length then .ok (value.drop c) else .error .overread

/-- The loop that copies the text of a parameter, from the index `i` of `dest` on: the index
reached, and the destination. -/
def copyParam (size : ℤ) : (ℕ → UInt8) → ℕ → Bytes → ℕ × (ℕ → UInt8)
  | dest, i, [] => (i, dest)
  | dest, i, x :: s =>
    if x ≠ SEMI ∧ (i : ℤ) < size then copyParam size (Function.update dest i x) (i + 1) s
    else (i, dest)

/-- The value-less tag: an empty text. -/
def storeEmpty (dest : Option (ℕ → UInt8)) (size : ℤ) : ℤ × Option (ℕ → UInt8) :=
  match dest with
  | some d => if size > 0 then (1, some (Function.update d 0 0)) else (1, some d)
  | none => (1, none)

/-- The tag with a value, whose text starts `s`. -/
def storeParam (dest : Option (ℕ → UInt8)) (size : ℤ) (s : Bytes) : ℤ × Option (ℕ → UInt8) :=
  match dest with
  | none => (1, none)
  | some d =>
    if size ≤ 0 then (1, some d) else
    let (i, d) := copyParam size d 0 s
    if (i : ℤ) = size then (-1, some d) else (1, some (Function.update d i 0))

/-- The loop of `get_param`, in which `c` is the index of the byte in front of the next
parameter; the first number bounds its iterations. -/
def getParamLoop (value tag : Bytes) (dest : Option (ℕ → UInt8)) (size : ℤ) :
    ℕ → ℕ → Except Fault (ℤ × Option (ℕ → UInt8))
  | 0, _ => .error .loop
  | fuel + 1, c => do
    let c := c + 1
    let s ← stringFrom value c
    if strnCaseEq s tag tag.length then
      let c := c + tag.length
      let s ← stringFrom value c
      match s with
      -- Value-less tag
      | [] => return storeEmpty dest size
      | x :: v =>
        if x = SEMI then return storeEmpty dest size
        -- Tag has an associated value
        else if x = EQUALS then return storeParam dest size v
        -- Otherwise, it's a false hit
        else match strchr SEMI (x :: v) with
          | none => return (0, dest)
          | some k => getParamLoop value tag dest size fuel (c + k)
    else match strchr SEMI s with
      | none => return (0, dest)
      | some k => getParamLoop value tag dest size fuel (c + k)

/-- `get_param`: 1 for found, 0 for not found, -1 for error, and the destination. -/
def getParam (value : Option Bytes) (tag : Bytes) (dest : Option (ℕ → UInt8)) (size : ℤ) :
    Except Fault (ℤ × Option (ℕ → UInt8)) :=
  match value with
  | none => .ok (-1, dest)
  | some value => getParamLoop value tag dest size (value.length + 1) 0

/-- A value is searched from its first byte on. -/
theorem getParam_some (value tag : Bytes) (dest : Option (ℕ → UInt8)) (size : ℤ) :
    getParam (some value) tag dest size = getParamLoop value tag dest size (value.length + 1) 0 :=
  rfl

/-! ## The reference -/

/-- What a parameter says about a tag: nothing, that it is there, or the text it has. -/
def paramOf (tag p : Bytes) : Option (Option Bytes) :=
  if strCaseEq (p.take tag.length) tag then
    match p.drop tag.length with
    | [] => some none
    | x :: v => if x = EQUALS then some (some v) else none
  else none

/-- What the parameters of a list say about a tag: the first that says something counts. -/
def paramAmong (tag : Bytes) (ps : List Bytes) : Option (Option Bytes) := ps.findSome? (paramOf tag)

/-- The value to return, and the text to store when it is 1. -/
def answerTo (size : ℤ) : Option (Option Bytes) → ℤ × Bytes
  | none => (0, [])
  | some none => (1, [])
  | some (some v) => if (v.length : ℤ) < size then (1, v) else (-1, [])

/-- The answer that the parameters behind the first give. -/
def paramRef (value tag : Bytes) (size : ℤ) : ℤ × Bytes :=
  answerTo size (paramAmong tag (value.splitOn SEMI).tail)

/-- The function reads nothing behind the value and gives the answer `a`. -/
def AnswersParam (value tag : Bytes) (dest : ℕ → UInt8) (size : ℤ) (a : ℤ × Bytes) : Prop :=
  ∃ d, getParam (some value) tag (some dest) size = .ok (a.1, some d) ∧
    (a.1 = 1 → cstrAt d 0 size.toNat = a.2)

/-! ## Splitting at semicolons -/

/-- A string without a semicolon is one parameter. -/
theorem splitOn_of_strchr_none {s : Bytes} (h : strchr SEMI s = none) :
    SEMI ∉ s ∧ s.splitOn SEMI = [s] := by
  have hs : SEMI ∉ s := fun hm => by
    obtain ⟨k, hk⟩ := strchr_isSome hm
    simp [h] at hk
  exact ⟨hs, List.splitOn_eq_singleton hs⟩

/-- A string with a semicolon is a parameter, the semicolon and the rest. -/
theorem splitOn_of_strchr {s : Bytes} {k : ℕ} (h : strchr SEMI s = some k) :
    s = s.take k ++ SEMI :: s.drop (k + 1) ∧ SEMI ∉ s.take k ∧
      s.splitOn SEMI = s.take k :: (s.drop (k + 1)).splitOn SEMI := by
  obtain ⟨heq, hn⟩ := strchr_split h
  exact ⟨heq, hn, by conv_lhs => rw [heq, List.splitOn_append_cons_self_of_not_mem hn]⟩

/-! ## The loop -/

section Loop

variable {value tag : Bytes} {dest : ℕ → UInt8} {size : ℤ}

/-- Upper and lower case of a semicolon are the same. -/
theorem toLower_eq_semi {x : UInt8} : toLower x = SEMI ↔ x = SEMI :=
  toLower_eq_iff (by decide) x

/-- Strings that agree up to case have the same semicolons. -/
theorem semi_mem_of_strCaseEq {a b : Bytes} (h : strCaseEq a b = true) (ha : SEMI ∈ a) :
    SEMI ∈ b := by
  have hmap : a.map toLower = b.map toLower := by simpa [strCaseEq] using h
  have hm : SEMI ∈ b.map toLower := hmap ▸ List.mem_map.2 ⟨SEMI, ha, toLower_eq_semi.2 rfl⟩
  obtain ⟨x, hx, hxs⟩ := List.mem_map.1 hm
  exact toLower_eq_semi.1 hxs ▸ hx

/-- A tag without a semicolon stands at the start of a string if and only if it stands at the
start of its first parameter. -/
theorem strnCaseEq_param {p t : Bytes} (htag : SEMI ∉ tag) :
    strnCaseEq (p ++ SEMI :: t) tag tag.length = strCaseEq (p.take tag.length) tag := by
  rw [strnCaseEq_tag]
  by_cases hlen : tag.length ≤ p.length
  · rw [List.take_append_of_le_length hlen]
  · have hne : ¬ strCaseEq (p.take tag.length) tag = true := fun h => by
      have hl := length_of_strCaseEq h
      rw [List.length_take] at hl
      omega
    have hne' : ¬ strCaseEq ((p ++ SEMI :: t).take tag.length) tag = true := fun h => by
      refine htag (semi_mem_of_strCaseEq h ?_)
      rw [List.take_append, List.mem_append]
      refine .inr ?_
      obtain ⟨n, hn⟩ : ∃ n, tag.length - p.length = n + 1 := ⟨tag.length - p.length - 1, by omega⟩
      rw [hn, List.take_succ_cons]
      exact List.mem_cons_self
    rw [Bool.eq_false_iff.2 hne, Bool.eq_false_iff.2 hne']

/-- The copy stops at a semicolon. -/
theorem copyParam_semi (s : Bytes) (i : ℕ) {v : Bytes} (hv : SEMI ∉ v) :
    copyParam size dest i (v ++ SEMI :: s) = copyParam size dest i v := by
  induction v generalizing dest i with
  | nil => simp [copyParam]
  | cons x v ih =>
    rw [List.cons_append, copyParam, copyParam]
    by_cases hx : x ≠ SEMI ∧ (i : ℤ) < size
    · rw [if_pos hx, if_pos hx, ih (i + 1) fun h => hv (List.mem_cons_of_mem _ h)]
    · rw [if_neg hx, if_neg hx]

/-- What the function does once it is known what the parameters say. -/
def finishParam (dest : ℕ → UInt8) (size : ℤ) : Option (Option Bytes) → ℤ × Option (ℕ → UInt8)
  | none => (0, some dest)
  | some none => storeEmpty (some dest) size
  | some (some v) => storeParam (some dest) size v

/-- A tag without a semicolon is looked up among the parameters of the text behind `c`.

**Proof sketch.** By induction on the fuel, along the parameters. The text up to the next semicolon
is one parameter, and as the tag has no semicolon it is found there or not at all. In the first case
the text behind it decides; in the second the loop goes on behind the semicolon. -/
theorem getParamLoop_eq (dest : ℕ → UInt8) (size : ℤ) (htag : SEMI ∉ tag) {fuel c : ℕ}
    (hc : c < value.length) (hfuel : value.length - c ≤ fuel) :
    getParamLoop value tag (some dest) size fuel c =
      .ok (finishParam dest size (paramAmong tag ((value.drop (c + 1)).splitOn SEMI))) := by
  induction fuel generalizing c with
  | zero => omega
  | succ fuel ih =>
    rw [getParamLoop]
    simp only [stringFrom, if_pos (show c + 1 ≤ value.length by omega), ok_bind]
    obtain ⟨s, hs⟩ : ∃ s, s = value.drop (c + 1) := ⟨_, rfl⟩
    have hsl : s.length = value.length - (c + 1) := by rw [hs, List.length_drop]
    have hbehind : ∀ n, value.drop (c + 1 + n) = s.drop n := fun n => by
      rw [hs, List.drop_drop]
    rw [← hs]
    rcases hk : strchr SEMI s with _ | k
    · -- the last parameter
      obtain ⟨hsemi, hsplit⟩ := splitOn_of_strchr_none hk
      rw [hsplit]
      simp only [paramAmong, List.findSome?_cons, List.findSome?_nil, paramOf, ← strnCaseEq_tag]
      by_cases hm : strnCaseEq s tag tag.length = true
      · have hle := length_tag_le hm
        simp only [if_pos hm, if_pos (show c + 1 + tag.length ≤ value.length by omega), hbehind,
          ok_bind]
        have hdrop : SEMI ∉ s.drop tag.length := fun h => hsemi (List.mem_of_mem_drop h)
        rcases hd : s.drop tag.length with _ | ⟨x, v⟩
        · rfl
        · rw [hd] at hdrop
          have hx : x ≠ SEMI := fun h => hdrop (h ▸ List.mem_cons_self)
          simp only [if_neg hx, strchr_eq_none hdrop]
          by_cases he : x = EQUALS
          · simp only [if_pos he]; rfl
          · simp only [if_neg he]; rfl
      · simp only [if_neg hm]; rfl
    · -- a parameter with others behind it
      obtain ⟨heq, hsemi, hsplit⟩ := splitOn_of_strchr hk
      have hks := strchr_lt hk
      have hnext : getParamLoop value tag (some dest) size fuel (c + 1 + k) =
          .ok (finishParam dest size (paramAmong tag ((s.drop (k + 1)).splitOn SEMI))) := by
        rw [ih (by omega) (by omega), ← hbehind]
        rfl
      obtain ⟨p, hp⟩ : ∃ p, p = s.take k := ⟨_, rfl⟩
      have hpl : p.length = k := by rw [hp, List.length_take]; omega
      rw [← hp] at heq hsemi hsplit
      rw [hsplit]
      simp only [paramAmong, List.findSome?_cons, paramOf]
      have hcase := strnCaseEq_param (p := p) (t := s.drop (k + 1)) htag
      rw [← heq] at hcase
      rw [hcase]
      by_cases hm : strCaseEq (p.take tag.length) tag = true
      · have hle : tag.length ≤ p.length := by
          have hl := length_of_strCaseEq hm
          rw [List.length_take] at hl
          omega
        simp only [if_pos hm, if_pos (show c + 1 + tag.length ≤ value.length by omega), hbehind,
          ok_bind]
        have hdrop : SEMI ∉ p.drop tag.length := fun h => hsemi (List.mem_of_mem_drop h)
        have hsd : s.drop tag.length = p.drop tag.length ++ SEMI :: s.drop (k + 1) := by
          conv_lhs => rw [heq, List.drop_append_of_le_length hle]
        have hdl : (p.drop tag.length).length = k - tag.length := by rw [List.length_drop, hpl]
        rw [hsd]
        rcases hd : p.drop tag.length with _ | ⟨x, v⟩
        · simp only [List.nil_append, if_true]; rfl
        · rw [hd] at hdrop hdl
          have hx : x ≠ SEMI := fun h => hdrop (h ▸ List.mem_cons_self)
          have hv : SEMI ∉ v := fun h => hdrop (List.mem_cons_of_mem _ h)
          have hchr := strchr_append_cons hdrop (s.drop (k + 1))
          rw [List.cons_append] at hchr
          simp only [List.cons_append, if_neg hx, hchr, hdl]
          by_cases he : x = EQUALS
          · simp only [if_pos he, finishParam, storeParam, copyParam_semi _ _ hv]; rfl
          · simp only [if_neg he]
            rw [show c + 1 + tag.length + (k - tag.length) = c + 1 + k by omega]
            exact hnext
      · simp only [if_neg hm]
        exact hnext

/-- A tag with a semicolon stands at the start of a text, or behind a semicolon at which the scan
of the text arrives, and the parameter could end there. -/
inductive Strays (tag : Bytes) : Bytes → Prop
  | here {s : Bytes} (hm : strnCaseEq s tag tag.length = true)
      (hend : ∀ x ∈ (s.drop tag.length).head?, x = SEMI ∨ x = EQUALS) : Strays tag s
  | later {s : Bytes} {k : ℕ} (hm : ¬ strnCaseEq s tag tag.length = true)
      (hk : strchr SEMI s = some k) (h : Strays tag (s.drop (k + 1))) : Strays tag s
  | falseHit {s : Bytes} {x : UInt8} {k : ℕ} (hm : strnCaseEq s tag tag.length = true)
      (hx : (s.drop tag.length).head? = some x) (hne : x ≠ SEMI ∧ x ≠ EQUALS)
      (hk : strchr SEMI (s.drop tag.length) = some k)
      (h : Strays tag ((s.drop tag.length).drop (k + 1))) : Strays tag s

/-- A tag that is found without a value. -/
theorem storeEmpty_some (dest : ℕ → UInt8) (size : ℤ) :
    ∃ d, storeEmpty (some dest) size = (1, some d) := by
  unfold storeEmpty
  dsimp only
  split_ifs <;> exact ⟨_, rfl⟩

/-- A tag that is found with a value. -/
theorem storeParam_some (dest : ℕ → UInt8) (size : ℤ) (s : Bytes) :
    ∃ n d, storeParam (some dest) size s = (n, some d) ∧ n ≠ 0 := by
  unfold storeParam
  dsimp only
  split_ifs
  · exact ⟨_, _, rfl, by decide⟩
  · exact ⟨_, _, rfl, by decide⟩
  · exact ⟨_, _, rfl, by decide⟩

/-- The function returns 0 on a text in which the tag does not stray, and something else on one in
which it does.

**Proof sketch.** By induction on the fuel, along the code: the tag is found and followed by the
end, a semicolon or an equals sign; or it is found and followed by something else, so that the
search goes on behind the next semicolon; or it is not found, and the search goes on likewise. -/
theorem getParamLoop_strays (tag : Bytes) (dest : ℕ → UInt8) (size : ℤ) {fuel c : ℕ}
    (hc : c < value.length) (hfuel : value.length - c ≤ fuel) :
    ∃ n d, getParamLoop value tag (some dest) size fuel c = .ok (n, some d) ∧
      (n = 0 ↔ ¬ Strays tag (value.drop (c + 1))) := by
  induction fuel generalizing c with
  | zero => omega
  | succ fuel ih =>
    rw [getParamLoop]
    simp only [stringFrom, if_pos (show c + 1 ≤ value.length by omega), ok_bind]
    obtain ⟨s, hs⟩ : ∃ s, s = value.drop (c + 1) := ⟨_, rfl⟩
    have hsl : s.length = value.length - (c + 1) := by rw [hs, List.length_drop]
    have hbehind : ∀ n, value.drop (c + 1 + n) = s.drop n := fun n => by
      rw [hs, List.drop_drop]
    rw [← hs]
    by_cases hm : strnCaseEq s tag tag.length = true
    · have hle := length_tag_le hm
      simp only [if_pos hm, if_pos (show c + 1 + tag.length ≤ value.length by omega), hbehind,
        ok_bind]
      rcases hd : s.drop tag.length with _ | ⟨x, v⟩
      · obtain ⟨d, hd'⟩ := storeEmpty_some dest size
        exact ⟨1, d, congrArg _ hd', iff_of_false (by decide)
          (not_not_intro (.here hm (by simp [hd])))⟩
      by_cases hx : x = SEMI
      · simp only [if_pos hx]
        obtain ⟨d, hd'⟩ := storeEmpty_some dest size
        exact ⟨1, d, congrArg _ hd', iff_of_false (by decide)
          (not_not_intro (.here hm (by simp [hd, hx])))⟩
      by_cases he : x = EQUALS
      · simp only [if_neg hx, if_pos he]
        obtain ⟨n, d, hd', hn⟩ := storeParam_some dest size v
        exact ⟨n, d, congrArg _ hd', iff_of_false hn
          (not_not_intro (.here hm (by simp [hd, he])))⟩
      simp only [if_neg hx, if_neg he]
      have hhead : (s.drop tag.length).head? = some x := by rw [hd]; rfl
      rcases hk : strchr SEMI (x :: v) with _ | k
      · refine ⟨_, _, rfl, iff_of_true rfl fun h => ?_⟩
        cases h with
        | here _ hend => exact (hend x hhead).elim hx he
        | later hm' => exact hm' hm
        | falseHit _ _ _ hk' => rw [hd, hk] at hk'; cases hk'
      · have hlt := strchr_lt hk
        have hdl : (x :: v).length = s.length - tag.length := by rw [← hd, List.length_drop]
        obtain ⟨n, d, hr, hiff⟩ := ih (c := c + 1 + tag.length + k) (by omega) (by omega)
        refine ⟨n, d, hr, hiff.trans (not_congr ?_)⟩
        have hrest : value.drop (c + 1 + tag.length + k + 1) =
            (s.drop tag.length).drop (k + 1) := by
          rw [List.drop_drop, ← hbehind]
          congr 1
          omega
        rw [hrest]
        refine ⟨fun h => .falseHit hm hhead ⟨hx, he⟩ (hd ▸ hk) h, fun h => ?_⟩
        cases h with
        | here _ hend => exact ((hend x hhead).elim hx he).elim
        | later hm' => exact absurd hm hm'
        | falseHit _ _ _ hk' h =>
          obtain rfl : k = _ := Option.some.inj (hk.symm.trans (hd ▸ hk'))
          exact h
    · simp only [if_neg hm]
      rcases hk : strchr SEMI s with _ | k
      · refine ⟨_, _, rfl, iff_of_true rfl fun h => ?_⟩
        cases h with
        | here hm' => exact hm hm'
        | later _ hk' => rw [hk] at hk'; cases hk'
        | falseHit hm' => exact hm hm'
      · have hlt := strchr_lt hk
        obtain ⟨n, d, hr, hiff⟩ := ih (c := c + 1 + k) (by omega) (by omega)
        refine ⟨n, d, hr, hiff.trans (not_congr ?_)⟩
        rw [show c + 1 + k + 1 = c + 1 + (k + 1) by omega, hbehind]
        refine ⟨fun h => .later hm hk h, fun h => ?_⟩
        cases h with
        | here hm' => exact absurd hm' hm
        | later _ hk' h =>
          obtain rfl : k = _ := Option.some.inj (hk.symm.trans hk')
          exact h
        | falseHit hm' => exact absurd hm' hm

/-! ## The text stored -/

/-- The copy of a text without semicolons takes as many bytes as the destination holds. -/
theorem copyParam_spec (dest : ℕ → UInt8) {i : ℕ} {v : Bytes} (hv : SEMI ∉ v) (hi : (i : ℤ) ≤ size) :
    (copyParam size dest i v).1 = min (i + v.length) size.toNat ∧
      (∀ j < i, (copyParam size dest i v).2 j = dest j) ∧
      ∀ j (h : j < v.length), ((i + j : ℕ) : ℤ) < size →
        (copyParam size dest i v).2 (i + j) = v[j] := by
  induction v generalizing dest i with
  | nil => simp [copyParam]; omega
  | cons x v ih =>
    have hx : x ≠ SEMI := fun h => hv (h ▸ List.mem_cons_self)
    rw [copyParam]
    by_cases hlt : (i : ℤ) < size
    · rw [if_pos ⟨hx, hlt⟩]
      obtain ⟨hn, hold, hnew⟩ := ih (Function.update dest i x) (i := i + 1)
        (fun h => hv (List.mem_cons_of_mem _ h)) (by omega)
      refine ⟨by rw [hn, List.length_cons]; omega, fun j hj => ?_, fun j hj hjs => ?_⟩
      · rw [hold j (by omega), Function.update_of_ne (by omega)]
      · cases j with
        | zero => exact (hold i (by omega)).trans (Function.update_self ..)
        | succ j =>
          rw [← Nat.add_assoc, Nat.add_right_comm]
          exact hnew j (by simpa using hj) (by omega)
    · rw [if_neg fun h => hlt h.2]
      refine ⟨by simp; omega, fun j _ => rfl, fun j _ hjs => by omega⟩

/-- A text without semicolons and NULs is stored if it is shorter than the destination. -/
theorem storeParam_spec (dest : ℕ → UInt8) {v : Bytes} (hv : SEMI ∉ v) (h0 : NulFree v)
    (hsize : 0 < size) :
    ∃ d, storeParam (some dest) size v = ((answerTo size (some (some v))).1, some d) ∧
      ((v.length : ℤ) < size → cstrAt d 0 size.toNat = v) := by
  obtain ⟨hn, -, hnew⟩ := copyParam_spec dest (i := 0) hv (by omega : ((0 : ℕ) : ℤ) ≤ size)
  rw [Nat.zero_add] at hn
  simp only [storeParam, if_neg (show ¬ size ≤ 0 by omega), answerTo]
  rcases hc : copyParam size dest 0 v with ⟨i, d⟩
  simp only [hc] at hn hnew ⊢
  by_cases hlt : (v.length : ℤ) < size
  · obtain rfl : i = v.length := by omega
    rw [if_neg (by omega), if_pos hlt]
    refine ⟨_, rfl, fun _ => cstrAt_eq h0 (by omega) (fun j hj => ?_) ?_⟩
    · rw [Function.update_of_ne (by omega)]
      exact hnew j hj (by omega)
    · rw [Nat.zero_add, Function.update_self]
  · rw [if_pos (by omega), if_neg hlt]
    exact ⟨_, rfl, fun h => absurd h hlt⟩

/-- The texts that parameters can have. -/
def TextsFree (o : Option (Option Bytes)) : Prop := ∀ v, o = some (some v) → SEMI ∉ v ∧ NulFree v

/-- With a destination the function does what the answer says. -/
theorem finishParam_answers (dest : ℕ → UInt8) {o : Option (Option Bytes)} (ho : TextsFree o)
    (hsize : 0 < size) :
    ∃ d, finishParam dest size o = ((answerTo size o).1, some d) ∧
      ((answerTo size o).1 = 1 → cstrAt d 0 size.toNat = (answerTo size o).2) := by
  match o, ho with
  | none, _ => exact ⟨_, rfl, fun h => by cases h⟩
  | some none, _ =>
    refine ⟨_, by simp only [finishParam, storeEmpty, if_pos hsize]; rfl, fun _ => ?_⟩
    rw [cstrAt_succ (by omega), if_pos (Function.update_self ..)]
    rfl
  | some (some v), ho =>
    obtain ⟨hv, h0⟩ := ho v rfl
    obtain ⟨d, hd, htext⟩ := storeParam_spec dest hv h0 hsize
    refine ⟨d, hd, fun h => ?_⟩
    unfold answerTo at h ⊢
    by_cases hlt : (v.length : ℤ) < size
    · simp only [if_pos hlt]
      exact htext hlt
    · simp [if_neg hlt] at h

/-- An answer other than 1 comes without a text. -/
theorem answerTo_text {o : Option (Option Bytes)} (h : (answerTo size o).1 ≠ 1) :
    (answerTo size o).2 = [] := by
  unfold answerTo at h ⊢
  split
  · rfl
  · rfl
  · split_ifs with hlt <;> simp [hlt] at h ⊢

/-- With a destination two answers are told apart. -/
theorem finishParam_iff {o o' : Option (Option Bytes)} (ho : TextsFree o) (hsize : 0 < size) :
    (∃ d, finishParam dest size o = ((answerTo size o').1, some d) ∧
      ((answerTo size o').1 = 1 → cstrAt d 0 size.toNat = (answerTo size o').2)) ↔
      answerTo size o = answerTo size o' := by
  obtain ⟨d, hd, htext⟩ := finishParam_answers dest ho hsize
  constructor
  · rintro ⟨d', hd', htext'⟩
    rw [hd] at hd'
    obtain ⟨h1, hdd⟩ := Prod.mk.inj hd'
    obtain rfl := Option.some.inj hdd
    refine Prod.ext h1 ?_
    by_cases h : (answerTo size o).1 = 1
    · rw [← htext h, ← htext' (h1 ▸ h)]
    · rw [answerTo_text h, answerTo_text (h1 ▸ h)]
  · intro h
    rw [← h]
    exact ⟨d, hd, htext⟩

/-- Without room only the presence of the tag is answered. -/
theorem finishParam_no_room {o o' : Option (Option Bytes)} (hsize : size ≤ 0) :
    (∃ d, finishParam dest size o = ((answerTo size o').1, some d) ∧
      ((answerTo size o').1 = 1 → cstrAt d 0 size.toNat = (answerTo size o').2)) ↔
      o = none ∧ o' = none ∨ o ≠ none ∧ o' = some none := by
  have hz : size.toNat = 0 := by omega
  have hfin : finishParam dest size o = (if o = none then 0 else 1, some dest) := by
    match o with
    | none => rfl
    | some none => simp [finishParam, storeEmpty, show ¬ 0 < size by omega]
    | some (some v) => simp [finishParam, storeParam, hsize]
  have hans : answerTo size o' = (if o' = none then 0 else if o' = some none then 1 else -1, []) := by
    match o' with
    | none => rfl
    | some none => rfl
    | some (some v) => simp [answerTo, show ¬ (v.length : ℤ) < size by omega]
  rw [hfin, hans, hz]
  simp only [cstrAt_of_le le_rfl]
  by_cases h : o = none <;> by_cases h' : o' = none <;> by_cases h'' : o' = some none <;>
    simp_all

end Loop

/-! ## What the function is for -/

/-- What the first parameter says about a tag when its first character is left out. -/
def strayParam (tag value : Bytes) : Option (Option Bytes) :=
  if value.head? = some SEMI then none else paramOf tag (((value.splitOn SEMI).headD []).drop 1)

/-- The values, tags and sizes that the function is right about. The value is not empty. A tag with
a semicolon does not stray in it. For other tags the first parameter without its first character is
not the tag, with or without a value, unless that gives the answer of the later parameters; and
without room for a text the first later parameter that is the tag has no value. -/
structure ReadsParams (value tag : Bytes) (size : ℤ) : Prop where
  nonempty : value ≠ []
  strays : SEMI ∈ tag → ¬ Strays tag (value.drop 1)
  first : SEMI ∉ tag → 0 < size →
    strayParam tag value = none ∨ answerTo size (strayParam tag value) = paramRef value tag size
  room : SEMI ∉ tag → size ≤ 0 →
    paramAmong tag (value.splitOn SEMI).tail = some none ∨
      strayParam tag value = none ∧ paramAmong tag (value.splitOn SEMI).tail = none

/-- The bytes of a parameter are bytes of the value, and none is a semicolon. -/
theorem mem_splitOn {s p : Bytes} (hp : p ∈ s.splitOn SEMI) {x : UInt8} (hx : x ∈ p) :
    x ≠ SEMI ∧ x ∈ s := by
  induction s generalizing p with
  | nil => simp at hp; simp [hp] at hx
  | cons y s ih =>
    rw [List.splitOn_cons_eq_if_modifyHead] at hp
    by_cases hy : y = SEMI
    · rw [if_pos (by simpa using hy), List.mem_cons] at hp
      rcases hp with rfl | hp
      · cases hx
      · exact (ih hp hx).imp_right (List.mem_cons_of_mem _)
    · rw [if_neg (by simpa using hy)] at hp
      obtain ⟨q, qs, hq⟩ := List.exists_cons_of_ne_nil (List.splitOn_ne_nil SEMI s)
      rw [hq, List.modifyHead_cons, List.mem_cons] at hp
      rw [hq] at ih
      rcases hp with rfl | hp
      · rcases List.mem_cons.1 hx with rfl | hx
        · exact ⟨hy, List.mem_cons_self⟩
        · exact (ih List.mem_cons_self hx).imp_right (List.mem_cons_of_mem _)
      · exact (ih (List.mem_cons_of_mem _ hp) hx).imp_right (List.mem_cons_of_mem _)

/-- The texts among the parameters of a value. -/
theorem paramAmong_free {s tag : Bytes} (hs : NulFree s) {ps : List Bytes}
    (hps : ∀ p ∈ ps, p ∈ s.splitOn SEMI) : TextsFree (paramAmong tag ps) := by
  intro v hv
  obtain ⟨p, hp, hpv⟩ := List.exists_of_findSome?_eq_some hv
  have hmem : ∀ x ∈ v, x ∈ p := fun x hx => by
    unfold paramOf at hpv
    split_ifs at hpv with hm
    rcases hd : p.drop tag.length with _ | ⟨y, w⟩
    · rw [hd] at hpv; cases hpv
    · rw [hd] at hpv
      dsimp only at hpv
      split_ifs at hpv
      obtain rfl : w = v := by simpa using hpv
      exact List.mem_of_mem_drop (hd ▸ List.mem_cons_of_mem _ hx)
  exact ⟨fun h => (mem_splitOn (hps p hp) (hmem _ h)).1 rfl,
    fun x hx => hs x (mem_splitOn (hps p hp) (hmem x hx)).2⟩

/-- No parameter is a tag with a semicolon. -/
theorem paramAmong_semi {s tag : Bytes} (htag : SEMI ∈ tag) {ps : List Bytes}
    (hps : ∀ p ∈ ps, p ∈ s.splitOn SEMI) : paramAmong tag ps = none := by
  refine List.findSome?_eq_none_iff.2 fun p hp => ?_
  unfold paramOf
  refine if_neg fun hm => ?_
  have hm' : strCaseEq tag (p.take tag.length) = true := by
    unfold strCaseEq at hm ⊢
    rw [beq_iff_eq] at hm ⊢
    exact hm.symm
  have hsemi := semi_mem_of_strCaseEq hm' htag
  exact (mem_splitOn (hps p hp) (List.mem_of_mem_take hsemi)).1 rfl

/-- The parameters of the value without its first character. -/
theorem paramAmong_drop {value tag : Bytes} (hne : value ≠ []) :
    paramAmong tag ((value.drop 1).splitOn SEMI) =
      (strayParam tag value).or (paramAmong tag (value.splitOn SEMI).tail) := by
  obtain ⟨x, s, rfl⟩ := List.exists_cons_of_ne_nil hne
  unfold strayParam
  rw [List.splitOn_cons_eq_if_modifyHead, List.drop_one, List.tail_cons, List.head?_cons]
  by_cases hx : x = SEMI
  · rw [if_pos (by rw [hx]), if_pos (by simpa using hx), List.tail_cons, Option.none_or]
  · obtain ⟨q, qs, hq⟩ := List.exists_cons_of_ne_nil (List.splitOn_ne_nil SEMI s)
    rw [if_neg (by simpa using hx), if_neg (by simpa using hx), hq, List.modifyHead_cons,
      List.headD_cons, List.drop_one, List.tail_cons, List.tail_cons, paramAmong, paramAmong,
      List.findSome?_cons]
    cases paramOf tag q <;> rfl

/-- **The lookup of a parameter.** The function gives the answer of the parameters behind the
first, and reads nothing behind the value, exactly when it is given what it is right about. -/
theorem getParam_iff {value tag : Bytes} (hvalue : NulFree value) (dest : ℕ → UInt8) (size : ℤ) :
    AnswersParam value tag dest size (paramRef value tag size) ↔ ReadsParams value tag size := by
  by_cases hne : value = []
  · -- the first comparison is behind the NUL
    subst hne
    refine iff_of_false ?_ fun h => h.nonempty rfl
    rintro ⟨d, hd, -⟩
    cases hd
  have hpos : 0 < value.length := List.length_pos_iff.2 hne
  have htail : ∀ p ∈ (value.splitOn SEMI).tail, p ∈ value.splitOn SEMI :=
    fun _ hp => List.mem_of_mem_tail hp
  by_cases htag : SEMI ∈ tag
  · -- the reference finds no such tag
    obtain ⟨n, d, hr, hiff⟩ := getParamLoop_strays tag dest size hpos
      (show value.length - 0 ≤ value.length + 1 by omega)
    have hlater : paramAmong tag (value.splitOn SEMI).tail = none := paramAmong_semi htag htail
    unfold AnswersParam paramRef
    rw [getParam_some, hr, hlater]
    constructor
    · rintro ⟨d', hd', -⟩
      obtain ⟨hn, -⟩ := Prod.mk.inj (Except.ok.inj hd')
      exact ⟨hne, fun _ => hiff.1 hn, fun h => absurd htag h, fun h => absurd htag h⟩
    · intro h
      rw [hiff.2 (h.strays htag)]
      exact ⟨d, rfl, fun h => by cases h⟩
  · have hloop := getParamLoop_eq dest size htag hpos
      (show value.length - 0 ≤ value.length + 1 by omega)
    rw [Nat.zero_add, paramAmong_drop hne] at hloop
    have hfree : TextsFree ((strayParam tag value).or
        (paramAmong tag (value.splitOn SEMI).tail)) := by
      rw [← paramAmong_drop hne]
      exact paramAmong_free (fun x hx => hvalue x (List.mem_of_mem_drop hx)) fun _ h => h
    unfold AnswersParam paramRef
    rw [getParam_some, hloop]
    simp only [Except.ok.injEq]
    rcases Int.lt_or_le 0 size with hsize | hsize
    · rw [finishParam_iff hfree hsize]
      cases hs : strayParam tag value with
      | none =>
        rw [Option.none_or]
        exact iff_of_true rfl ⟨hne, fun h => absurd h htag, fun _ _ => .inl hs,
          fun _ h => absurd hsize (by omega)⟩
      | some o =>
        rw [Option.some_or]
        refine ⟨fun h => ⟨hne, fun h => absurd h htag, fun _ _ => .inr (hs ▸ h),
          fun _ h => absurd hsize (by omega)⟩, fun h => ?_⟩
        rcases h.first htag hsize with hn | ha
        · rw [hs] at hn; cases hn
        · rw [hs] at ha
          exact ha
    · rw [finishParam_no_room hsize, Option.or_eq_none_iff]
      refine ⟨fun h => ⟨hne, fun h => absurd h htag, fun _ h => absurd h (by omega),
        fun _ _ => h.elim (fun h => .inr h.1) fun h => .inl h.2⟩, fun h => ?_⟩
      rcases h.room htag hsize with hr | hr
      · refine .inr ⟨fun hn => ?_, hr⟩
        rw [(Option.or_eq_none_iff.1 hn).2] at hr
        cases hr
      · exact .inl ⟨hr, hr.2⟩

/-- A `Transport` header in which the mode is asked for. -/
theorem getParam_iff_mode :
    AnswersParam (str "RTP/AVP;unicast;mode=record") (str "mode") (fun _ => 0) 256
        (paramRef (str "RTP/AVP;unicast;mode=record") (str "mode") 256) ↔
      ReadsParams (str "RTP/AVP;unicast;mode=record") (str "mode") 256 :=
  getParam_iff (by decide +kernel) (fun _ => 0) 256

/-- **The first comparison.** An empty value is read behind its NUL, and a first parameter that
ends in the tag is taken for the tag. -/
theorem getParam_first :
    ¬ AnswersParam [] (str "mode") (fun _ => 0) 256 (paramRef [] (str "mode") 256) ∧
      ¬ AnswersParam (str "xmode") (str "mode") (fun _ => 0) 256
        (paramRef (str "xmode") (str "mode") 256) := by
  constructor
  · rintro ⟨d, hd, -⟩
    cases hd
  · have href : paramRef (str "xmode") (str "mode") 256 = (0, []) := by decide +kernel
    rw [href]
    rintro ⟨d, hd, -⟩
    have hcode : (getParam (some (str "xmode")) (str "mode") (some fun _ => 0) 256).map Prod.fst =
        .ok 1 := by decide +kernel
    rw [hd] at hcode
    cases hcode

end Spook
