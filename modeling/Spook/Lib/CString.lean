import Mathlib.Algebra.Order.Ring.Int
import Mathlib.Data.List.Basic
import Mathlib.Data.List.Infix
import Mathlib.Data.List.TakeWhile

set_option relaxedAutoImplicit false
set_option autoImplicit false

/-!
# C strings as byte lists

The string functions of the C library on lists of bytes. A list stands for the contents of a
buffer; the C string in it ends before the first NUL byte (`cstr`). Functions that return a
pointer into a string return its offset here, and `none` for a null pointer.

## Main definitions

* `Bytes`, `str` — byte strings and string constants.
* `cstr` — the C string at the start of a buffer.
* `strchr`, `strrchr`, `strstr` — searching; `strCaseEq`, `strnEq`, `strnCaseEq` — comparing.
* `decimal` — printed numbers.

## Main results

* `strstr_append` — appending bytes does not move the first occurrence.
* `strstr_bound` — an occurrence lies inside the string.
-/

/-- A byte string. -/
abbrev Bytes := List UInt8

/-- The bytes of a string constant. -/
def str (s : String) : Bytes := s.toList.map fun c => UInt8.ofNat c.toNat

/-- The C string at the start of a buffer: the bytes before the first NUL. -/
def cstr (b : Bytes) : Bytes := b.takeWhile (· ≠ 0)

/-- A byte string without NUL bytes. -/
def NulFree (b : Bytes) : Prop := ∀ x ∈ b, x ≠ 0

instance (b : Bytes) : Decidable (NulFree b) := List.decidableBAll (fun x => x ≠ 0) b

/-- `tolower` in the C locale. -/
def toLower (c : UInt8) : UInt8 := if 65 ≤ c ∧ c ≤ 90 then c + 32 else c

/-- `strcasecmp( a, b ) == 0`. -/
def strCaseEq (a b : Bytes) : Bool := a.map toLower == b.map toLower

/-- `strncmp( a, b, n ) == 0`. -/
def strnEq (a b : Bytes) (n : ℕ) : Bool := a.take n == b.take n

/-- `strncasecmp( a, b, n ) == 0`. -/
def strnCaseEq (a b : Bytes) (n : ℕ) : Bool := strCaseEq (a.take n) (b.take n)

/-- `strchr`: the offset of the first `c`. -/
def strchr (c : UInt8) : Bytes → Option ℕ
  | [] => none
  | x :: xs => if x = c then some 0 else (strchr c xs).map (· + 1)

/-- `strrchr`: the offset of the last `c`. -/
def strrchr (c : UInt8) : Bytes → Option ℕ
  | [] => none
  | x :: xs =>
    match strrchr c xs with
    | some k => some (k + 1)
    | none => if x = c then some 0 else none

/-- `strstr`: the offset of the first occurrence of `needle`. -/
def strstr (needle : Bytes) : Bytes → Option ℕ
  | [] => if needle = [] then some 0 else none
  | x :: xs => if needle.isPrefixOf (x :: xs) then some 0 else (strstr needle xs).map (· + 1)

/-- A character below the letters is its own lower case, and of no other character. -/
theorem toLower_eq_iff {c : UInt8} (hc : c < 65) (x : UInt8) : toLower x = c ↔ x = c := by
  unfold toLower
  split_ifs with h
  · simp only [UInt8.le_iff_toNat_le, UInt8.lt_iff_toNat_lt, ← UInt8.toNat_inj,
      UInt8.toNat_add] at h hc ⊢
    have h₁ : 65 ≤ x.toNat := h.1
    have h₂ : x.toNat ≤ 90 := h.2
    have h₃ : c.toNat < 65 := hc
    change (x.toNat + 32) % 256 = c.toNat ↔ x.toNat = c.toNat
    omega
  · exact Iff.rfl

/-- Strings that agree up to case are equally long. -/
theorem length_of_strCaseEq {a b : Bytes} (h : strCaseEq a b = true) : a.length = b.length := by
  have hmap : a.map toLower = b.map toLower := by simpa [strCaseEq] using h
  simpa using congrArg List.length hmap

/-- The comparison with the bytes at the start of a string. -/
theorem strnCaseEq_tag (s tag : Bytes) :
    strnCaseEq s tag tag.length = strCaseEq (s.take tag.length) tag := by
  rw [strnCaseEq, List.take_length]

/-- A tag that stands at the start of a string is not longer. -/
theorem length_tag_le {s tag : Bytes} (h : strnCaseEq s tag tag.length = true) :
    tag.length ≤ s.length := by
  rw [strnCaseEq_tag] at h
  have hlen := length_of_strCaseEq h
  rw [List.length_take] at hlen
  omega

/-- A NUL-free buffer is its own C string. -/
theorem cstr_of_nulFree {b : Bytes} (h : NulFree b) : cstr b = b :=
  List.takeWhile_eq_self_iff.mpr fun x hx => by simpa using h x hx

/-- The C string of a buffer is a prefix of it. -/
theorem cstr_begins (b : Bytes) : cstr b <+: b := List.takeWhile_prefix _

/-- The C string of any buffer has no NUL. -/
theorem cstr_nulFree (s : Bytes) : NulFree (cstr s) := by
  intro x hx
  simpa using List.mem_takeWhile_imp hx

/-- A prefix of a NUL-free byte string is NUL-free. -/
theorem NulFree.of_begins {a b : Bytes} (h : NulFree b) (hp : a <+: b) : NulFree a :=
  fun x hx => h x (hp.subset hx)

/-- The first `c` lies inside the string. -/
theorem strchr_lt {c : UInt8} {b : Bytes} {k : ℕ} (h : strchr c b = some k) : k < b.length := by
  induction b generalizing k with
  | nil => simp [strchr] at h
  | cons x xs ih =>
    simp only [strchr] at h
    split_ifs at h with hx
    · obtain rfl := (Option.some.inj h).symm
      simp
    · obtain ⟨j, hj, rfl⟩ := Option.map_eq_some_iff.mp h
      simpa using ih hj

/-- Appending bytes does not move the first `c`. -/
theorem strchr_append {c : UInt8} {a : Bytes} {k : ℕ} (h : strchr c a = some k) (b : Bytes) :
    strchr c (a ++ b) = some k := by
  induction a generalizing k with
  | nil => simp [strchr] at h
  | cons x xs ih =>
    simp only [strchr] at h
    simp only [List.cons_append, strchr]
    split_ifs at h ⊢ with hx
    · exact h
    · obtain ⟨j, hj, rfl⟩ := Option.map_eq_some_iff.mp h
      rw [ih hj]
      rfl

/-- A string that contains `c` has a first `c`. -/
theorem strchr_isSome {c : UInt8} {b : Bytes} (h : c ∈ b) : ∃ k, strchr c b = some k := by
  induction b with
  | nil => simp at h
  | cons x xs ih =>
    by_cases hx : x = c
    · exact ⟨0, by simp [strchr, hx]⟩
    · obtain ⟨k, hk⟩ := ih (by simpa [Ne.symm hx] using h)
      exact ⟨k + 1, by simp [strchr, hx, hk]⟩

/-- The first `c` and what stands on its two sides. -/
theorem strchr_split {c : UInt8} {b : Bytes} {k : ℕ} (h : strchr c b = some k) :
    b = b.take k ++ c :: b.drop (k + 1) ∧ c ∉ b.take k := by
  induction b generalizing k with
  | nil => simp [strchr] at h
  | cons x xs ih =>
    simp only [strchr] at h
    split_ifs at h with hx
    · obtain rfl := (Option.some.inj h).symm
      simp [hx]
    · obtain ⟨j, hj, rfl⟩ := Option.map_eq_some_iff.mp h
      obtain ⟨heq, hn⟩ := ih hj
      refine ⟨?_, by simpa [Ne.symm hx] using hn⟩
      rw [List.take_succ_cons, List.drop_succ_cons, List.cons_append, ← heq]

/-- The first `c` behind bytes other than `c`. -/
theorem strchr_append_cons {c : UInt8} {a : Bytes} (h : c ∉ a) (b : Bytes) :
    strchr c (a ++ c :: b) = some a.length := by
  induction a with
  | nil => simp [strchr]
  | cons x xs ih =>
    rw [List.mem_cons, not_or] at h
    simp [strchr, Ne.symm h.1, ih h.2]

/-- There is no first `c` in a string without one. -/
theorem strchr_eq_none {c : UInt8} {b : Bytes} (h : c ∉ b) : strchr c b = none := by
  rcases hk : strchr c b with _ | k
  · rfl
  · obtain ⟨heq, -⟩ := strchr_split hk
    exact absurd (heq ▸ List.mem_append_right _ List.mem_cons_self) h

/-- There is no last `c` in a string without one. -/
theorem strrchr_eq_none {c : UInt8} {b : Bytes} (h : c ∉ b) : strrchr c b = none := by
  induction b with
  | nil => rfl
  | cons x xs ih =>
    rw [List.mem_cons, not_or] at h
    simp [strrchr, ih h.2, Ne.symm h.1]

/-- The last `c` before bytes other than `c`. -/
theorem strrchr_append_cons {c : UInt8} (a : Bytes) {b : Bytes} (h : c ∉ b) :
    strrchr c (a ++ c :: b) = some a.length := by
  induction a with
  | nil => simp [strrchr, strrchr_eq_none h]
  | cons x xs ih => simp [strrchr, ih]

/-- A string that contains `c` has a last `c`. -/
theorem strrchr_isSome {c : UInt8} {b : Bytes} (h : c ∈ b) : ∃ k, strrchr c b = some k := by
  induction b with
  | nil => simp at h
  | cons x xs ih =>
    rcases hs : strrchr c xs with _ | j
    · have hn : c ∉ xs := fun hc => by
        obtain ⟨k, hk⟩ := ih hc
        rw [hs] at hk
        cases hk
      obtain rfl : c = x := by simpa [hn] using h
      exact ⟨0, by simp [strrchr, hs]⟩
    · exact ⟨j + 1, by simp [strrchr, hs]⟩

/-- The last `c` and what stands on its two sides. -/
theorem strrchr_split {c : UInt8} {b : Bytes} {k : ℕ} (h : strrchr c b = some k) :
    b = b.take k ++ c :: b.drop (k + 1) ∧ c ∉ b.drop (k + 1) := by
  induction b generalizing k with
  | nil => simp [strrchr] at h
  | cons x xs ih =>
    rcases hs : strrchr c xs with _ | j
    · simp only [strrchr, hs] at h
      split_ifs at h with hx
      obtain rfl := (Option.some.inj h).symm
      have hn : c ∉ xs := by
        intro hc
        obtain ⟨j, hj⟩ := strrchr_isSome hc
        rw [hs] at hj
        cases hj
      simpa [hx] using hn
    · simp only [strrchr, hs, Option.some.injEq] at h
      obtain rfl := h
      obtain ⟨heq, hn⟩ := ih hs
      refine ⟨?_, by simpa using hn⟩
      rw [List.take_succ_cons, List.drop_succ_cons, List.cons_append, ← heq]

/-- An occurrence found by `strstr` lies inside the string. -/
theorem strstr_bound {needle b : Bytes} {k : ℕ} (h : strstr needle b = some k) :
    k + needle.length ≤ b.length := by
  induction b generalizing k with
  | nil =>
    simp only [strstr] at h
    split_ifs at h with hn
    obtain rfl := (Option.some.inj h).symm
    simp [hn]
  | cons x xs ih =>
    simp only [strstr] at h
    split_ifs at h with hp
    · obtain rfl := (Option.some.inj h).symm
      simpa using (List.isPrefixOf_iff_prefix.mp hp).length_le
    · obtain ⟨j, hj, rfl⟩ := Option.map_eq_some_iff.mp h
      have := ih hj
      simp only [List.length_cons]
      omega

/-- Appending bytes does not move the first occurrence. -/
theorem strstr_append {needle a : Bytes} {k : ℕ} (h : strstr needle a = some k) (b : Bytes) :
    strstr needle (a ++ b) = some k := by
  induction a generalizing k with
  | nil =>
    simp only [strstr] at h
    split_ifs at h with hn
    obtain rfl := (Option.some.inj h).symm
    subst hn
    cases b <;> simp [strstr]
  | cons x xs ih =>
    simp only [strstr] at h
    simp only [List.cons_append, strstr]
    split_ifs at h with hp
    · have hp' : needle.isPrefixOf (x :: (xs ++ b)) = true :=
        List.isPrefixOf_iff_prefix.mpr
          ((List.isPrefixOf_iff_prefix.mp hp).trans (List.prefix_append (x :: xs) b))
      rw [if_pos hp', h]
    · obtain ⟨j, hj, rfl⟩ := Option.map_eq_some_iff.mp h
      have hlen := strstr_bound hj
      have hp' : ¬ needle.isPrefixOf (x :: (xs ++ b)) = true := by
        intro hc
        refine hp (List.isPrefixOf_iff_prefix.mpr ?_)
        exact List.prefix_of_prefix_length_le (List.isPrefixOf_iff_prefix.mp hc)
          (List.prefix_append (x :: xs) b) (by simp only [List.length_cons]; omega)
      rw [if_neg hp', ih hj]
      rfl

/-! ## Numbers -/

/-- `%d` of a number that is not negative. -/
def decimal (n : ℕ) : Bytes := (Nat.toDigits 10 n).map fun d => UInt8.ofNat d.toNat

/-- `%d`. -/
def decimalInt (n : ℤ) : Bytes := if n < 0 then 45 :: decimal n.natAbs else decimal n.natAbs

section Decimal

variable {n : ℕ}

/-- A printed number consists of digits. -/
theorem decimal_digits {x : UInt8} (hx : x ∈ decimal n) : 48 ≤ x ∧ x ≤ 57 := by
  obtain ⟨c, hc, rfl⟩ := List.mem_map.1 hx
  have hdigit := Nat.isDigit_of_mem_toDigits (by decide) (by decide) hc
  simp only [Char.isDigit, Bool.and_eq_true, decide_eq_true_eq, UInt32.le_iff_toNat_le] at hdigit
  have h₁ : 48 ≤ c.toNat := hdigit.1
  have h₂ : c.toNat ≤ 57 := hdigit.2
  rw [UInt8.le_iff_toNat_le, UInt8.le_iff_toNat_le, UInt8.toNat_ofNat',
    Nat.mod_eq_of_lt (by omega)]
  exact ⟨h₁, h₂⟩

/-- A number of at most `k` digits. -/
theorem length_decimal_le {k : ℕ} (hk : 0 < k) (hn : n < 10 ^ k) : (decimal n).length ≤ k := by
  rw [decimal, List.length_map]
  exact (Nat.length_toDigits_le_iff (by decide) hk).2 hn

/-- A number of three digits. -/
theorem decimal_three (h₁ : 100 ≤ n) (h₂ : n < 1000) :
    decimal n =
      [UInt8.ofNat (48 + n / 100), UInt8.ofNat (48 + n / 10 % 10), UInt8.ofNat (48 + n % 10)] := by
  rw [decimal, Nat.toDigits_of_base_le (by decide) (by omega),
    Nat.toDigits_of_base_le (by decide) (by omega), Nat.toDigits_of_lt_base (by omega)]
  simp only [List.map_cons, List.map_nil, List.cons_append, List.nil_append]
  rw [Nat.toNat_digitChar_of_lt_ten (by omega), Nat.toNat_digitChar_of_lt_ten (by omega),
    Nat.toNat_digitChar_of_lt_ten (by omega), Nat.div_div_eq_div_mul]

/-- The number that a string of digits writes. -/
def digitsValue (b : Bytes) : ℕ := b.foldl (fun n c => 10 * n + (c.toNat - 48)) 0

/-- A printed number is read back. -/
theorem digitsValue_decimal (n : ℕ) : digitsValue (decimal n) = n := by
  have hbyte : ∀ (v : ℕ), ∀ c ∈ Nat.toDigits 10 n,
      10 * v + ((UInt8.ofNat c.toNat).toNat - 48) = 10 * v + (c.toNat - '0'.toNat) := by
    intro v c hc
    have hdigit := Nat.isDigit_of_mem_toDigits (by decide) (by decide) hc
    simp only [Char.isDigit, Bool.and_eq_true, decide_eq_true_eq, UInt32.le_iff_toNat_le] at hdigit
    have h : c.toNat ≤ 57 := hdigit.2
    rw [UInt8.toNat_ofNat', Nat.mod_eq_of_lt (by omega)]
    rfl
  rw [digitsValue, decimal, List.foldl_map, List.foldl_ext _ _ 0 hbyte,
    ← Nat.ofDigitChars_eq_foldl, Nat.ofDigitChars_ten_toDigits]

/-- A printed number is not empty. -/
theorem decimal_ne_nil (n : ℕ) : decimal n ≠ [] := by
  simp [decimal]

end Decimal
