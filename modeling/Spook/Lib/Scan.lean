import Spook.Lib.CString
import Spook.Lib.Reads

set_option relaxedAutoImplicit false
set_option autoImplicit false

/-!
# Scanning a C string in memory

Loops that go through a C string by pointer. The memory is read through a function that may fail, so
that a loop that is shown to give a result has read nothing but the string and its NUL.

## Main definitions

* `CStringAt` — a string with its NUL in memory.
* `matchesAt`, `scanFor`, `scanWhile`, `copyAt` — the loops of `strncasecmp`, of searches and of
  `strncpy`.

## Main results

* `cstringAt_readIn` — a string in an array that ends with its NUL.
* `matchesAt_eq`, `scanFor_eq`, `scanWhile_eq`, `copyAt_eq` — what the loops do on a string.
-/

variable {ε : Type}

/-- The memory holds the string `b` with its NUL at `p`. -/
def CStringAt (mem : ℕ → Except ε UInt8) : ℕ → Bytes → Prop
  | p, [] => mem p = .ok 0
  | p, c :: b => mem p = .ok c ∧ c ≠ 0 ∧ CStringAt mem (p + 1) b

/-! ## The loops -/

section Loops

variable (mem : ℕ → Except ε UInt8)

/-- `strncasecmp` of the string at `p` with a string and its length. -/
def matchesAt : ℕ → Bytes → Except ε Bool
  | _, [] => .ok true
  | p, c :: s => do
    let x ← mem p
    if toLower x = toLower c then matchesAt (p + 1) s else .ok false

/-- The place of the first `c` from `p` on, or `none` if the string ends before. The loop is stuck
after `fuel` characters. -/
def scanFor (stuck : ε) (c : UInt8) : ℕ → ℕ → Except ε (Option ℕ)
  | 0, _ => .error stuck
  | fuel + 1, p => do
    let x ← mem p
    if x = c then .ok (some p) else if x = 0 then .ok none else scanFor stuck c fuel (p + 1)

/-- The place behind the characters from `p` on that satisfy `q`. -/
def scanWhile (stuck : ε) (q : UInt8 → Bool) : ℕ → ℕ → Except ε ℕ
  | 0, _ => .error stuck
  | fuel + 1, p => do
    let x ← mem p
    if q x then scanWhile stuck q fuel (p + 1) else .ok p

/-- The string that `strncpy` copies from `p`, of at most so many characters. -/
def copyAt : ℕ → ℕ → Except ε Bytes
  | _, 0 => .ok []
  | p, len + 1 => do
    let x ← mem p
    if x = 0 then .ok []
    else
      let rest ← copyAt (p + 1) len
      .ok (x :: rest)

end Loops

/-! ## Strings in memory -/

section Strings

/-- A read that gives a result. -/
theorem result_bind {α β : Type} (a : α) (f : α → Except ε β) :
    ((Except.ok a : Except ε α) >>= f) = f a := rfl

variable {mem : ℕ → Except ε UInt8} {p fuel : ℕ} {b : Bytes} {stuck : ε}

/-- Characters are taken as long as they satisfy a property. -/
theorem takeWhile_congr {α : Type*} {q q' : α → Bool} {l : List α} (h : ∀ x ∈ l, q x = q' x) :
    l.takeWhile q = l.takeWhile q' := by
  induction l with
  | nil => rfl
  | cons x l ih =>
    rw [List.takeWhile_cons, List.takeWhile_cons, h x List.mem_cons_self,
      ih fun y hy => h y (List.mem_cons_of_mem x hy)]

/-- What is found at the beginning of a string. -/
theorem CStringAt.head (h : CStringAt mem p b) : mem p = .ok (b.headD 0) := by
  cases b with
  | nil => exact h
  | cons c b => exact h.1

/-- The rest of a string is a string. -/
theorem CStringAt.drop (h : CStringAt mem p b) {k : ℕ} (hk : k ≤ b.length) :
    CStringAt mem (p + k) (b.drop k) := by
  induction k generalizing p b with
  | zero => exact h
  | succ k ih =>
    cases b with
    | nil => simp at hk
    | cons c b =>
      have hrest := ih h.2.2 (by simpa using hk)
      rwa [Nat.add_assoc, Nat.add_comm 1] at hrest

/-- The rest of a string behind the characters that satisfy `q`. -/
theorem CStringAt.dropWhile (h : CStringAt mem p b) (q : UInt8 → Bool) :
    CStringAt mem (p + (b.takeWhile q).length) (b.dropWhile q) := by
  have hdrop : b.drop (b.takeWhile q).length = b.dropWhile q := by
    have hleft := @List.drop_left _ (b.takeWhile q) (b.dropWhile q)
    rwa [List.takeWhile_append_dropWhile] at hleft
  rw [← hdrop]
  exact h.drop (List.takeWhile_prefix q).length_le

/-- A string has no NUL inside. -/
theorem CStringAt.nulFree (h : CStringAt mem p b) : NulFree b := by
  induction b generalizing p with
  | nil => simp [NulFree]
  | cons c b ih =>
    intro x hx
    rcases List.mem_cons.1 hx with rfl | hx
    · exact h.2.1
    · exact ih h.2.2 x hx

/-- A string in an array that ends with its NUL. -/
theorem cstringAt_readIn (hb : NulFree b) (fault : ε) :
    CStringAt (readIn (b ++ [0]) fault) 0 b := by
  have hgen : ∀ a c : Bytes, NulFree c →
      CStringAt (readIn (a ++ (c ++ [0])) fault) a.length c := by
    intro a c hc
    induction c generalizing a with
    | nil => simp [CStringAt, readIn]
    | cons x c ih =>
      refine ⟨by simp [readIn], hc x List.mem_cons_self, ?_⟩
      have hrest := ih (a ++ [x]) fun y hy => hc y (List.mem_cons_of_mem _ hy)
      simpa using hrest
  exact hgen [] b hb

/-- `strncasecmp` reads the string and no more. -/
theorem matchesAt_eq (h : CStringAt mem p b) {s : Bytes} (hs : NulFree s) :
    matchesAt mem p s = .ok (strnCaseEq b s s.length) := by
  induction s generalizing p b with
  | nil => simp [matchesAt, strnCaseEq, strCaseEq]
  | cons c s ih =>
    have hc : c ≠ 0 := hs c List.mem_cons_self
    cases b with
    | nil =>
      have h0 : toLower 0 ≠ toLower c := by
        rw [(toLower_eq_iff (by decide) 0).2 rfl]
        exact fun heq => hc ((toLower_eq_iff (by decide) c).1 heq.symm)
      simp only [matchesAt, h.head, List.headD_nil]
      simp [strnCaseEq, strCaseEq, result_bind, h0]
    | cons x b =>
      simp only [matchesAt, h.head, List.headD_cons]
      by_cases hx : toLower x = toLower c
      · have hrest := ih h.2.2 fun y hy => hs y (List.mem_cons_of_mem _ hy)
        simp [hx, hrest, strnCaseEq, strCaseEq, result_bind]
      · simp [hx, strnCaseEq, strCaseEq, result_bind]

/-- A search that comes to the end of the string stops there. -/
theorem scanFor_eq (h : CStringAt mem p b) {c : UInt8} (hc : c ≠ 0) (hfuel : b.length < fuel) :
    scanFor mem stuck c fuel p = .ok ((strchr c b).map (p + ·)) := by
  induction fuel generalizing p b with
  | zero => omega
  | succ fuel ih =>
    cases b with
    | nil => simp [scanFor, h.head, strchr, Ne.symm hc, result_bind]
    | cons x b =>
      simp only [scanFor, h.head, List.headD_cons, strchr]
      by_cases hx : x = c
      · simp [hx, result_bind]
      · have hrest := ih h.2.2 (by simpa using hfuel)
        simp only [hx, h.2.1, hrest, result_bind, if_false, Option.map_map]
        congr 2
        funext k
        simp only [Function.comp_apply]
        omega

/-- So does a loop over characters that are not NUL. -/
theorem scanWhile_eq (h : CStringAt mem p b) {q : UInt8 → Bool} (hq : q 0 = false)
    (hfuel : b.length < fuel) :
    scanWhile mem stuck q fuel p = .ok (p + (b.takeWhile q).length) := by
  induction fuel generalizing p b with
  | zero => omega
  | succ fuel ih =>
    cases b with
    | nil => simp [scanWhile, h.head, hq, result_bind]
    | cons x b =>
      simp only [scanWhile, h.head, List.headD_cons, List.takeWhile_cons]
      by_cases hx : q x = true
      · have hrest := ih h.2.2 (by simpa using hfuel)
        simp only [hx, hrest, result_bind, if_true, List.length_cons]
        congr 1
        omega
      · simp [hx, result_bind]

/-- `strncpy` of characters of the string. -/
theorem copyAt_eq (h : CStringAt mem p b) (len : ℕ) : copyAt mem p len = .ok (b.take len) := by
  induction len generalizing p b with
  | zero => simp [copyAt]
  | succ len ih =>
    cases b with
    | nil => simp [copyAt, h.head, result_bind]
    | cons x b => simp [copyAt, h.head, h.2.1, ih h.2.2, result_bind]

end Strings
