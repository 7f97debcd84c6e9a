import Spook.Lib.CString

set_option relaxedAutoImplicit false
set_option autoImplicit false

/-!
# Base64

The encoding of bytes by groups of four characters of an alphabet of 64, with `=` as padding, and
the decoding of its groups one by one. A text may consist of several encodings, each with its own
padding, so that padding can end any group.

## Main definitions

* `Base64.char`, `Base64.value` — the alphabet.
* `Base64.encode` — the encoding.
* `Base64.decode`, `Base64.rest` — the decoding of the whole groups of a text, and what is behind
  them.

## Main results

* `Base64.decode_append` — the decoding of a text in two parts.
* `Base64.decode_encode` — an encoding is decoded, whatever follows it.
* `Base64.decode_encodings` — so are several in a row.
-/

namespace Base64

/-- The padding character. -/
def PAD : UInt8 := 61

/-- The character for six bits. -/
def char (n : ℕ) : UInt8 :=
  if n < 26 then UInt8.ofNat (65 + n)
  else if n < 52 then UInt8.ofNat (71 + n)
  else if n < 62 then UInt8.ofNat (n - 4)
  else if n = 62 then 43
  else 47

/-- A character of the alphabet, or padding. -/
def IsCode (c : UInt8) : Prop :=
  65 ≤ c ∧ c ≤ 90 ∨ 97 ≤ c ∧ c ≤ 122 ∨ 48 ≤ c ∧ c ≤ 57 ∨ c = 43 ∨ c = 47 ∨ c = PAD

instance (c : UInt8) : Decidable (IsCode c) := by unfold IsCode; infer_instance

/-- The six bits of a character; padding has none. -/
def value (c : UInt8) : ℕ :=
  if 65 ≤ c ∧ c ≤ 90 then c.toNat - 65
  else if 97 ≤ c ∧ c ≤ 122 then c.toNat - 71
  else if 48 ≤ c ∧ c ≤ 57 then c.toNat + 4
  else if c = 43 then 62
  else if c = 47 then 63
  else 0

/-- The encoding of a byte string. -/
def encode : Bytes → Bytes
  | [] => []
  | [a] => [char (a.toNat / 4), char (a.toNat % 4 * 16), PAD, PAD]
  | [a, b] =>
    [char (a.toNat / 4), char (a.toNat % 4 * 16 + b.toNat / 16), char (b.toNat % 16 * 4), PAD]
  | a :: b :: c :: s =>
    char (a.toNat / 4) :: char (a.toNat % 4 * 16 + b.toNat / 16) ::
      char (b.toNat % 16 * 4 + c.toNat / 64) :: char (c.toNat % 64) :: encode s

/-- The bytes that a group stands for: three, or as many as its padding leaves. -/
def group (e₀ e₁ e₂ e₃ : UInt8) : Bytes :=
  let out := [UInt8.ofNat (value e₀ * 4 + value e₁ / 16),
    UInt8.ofNat (value e₁ * 16 + value e₂ / 4), UInt8.ofNat (value e₂ * 64 + value e₃)]
  if e₃ = PAD then (if e₂ = PAD then out.take 1 else out.take 2) else out

/-- The bytes that the whole groups of a text stand for. -/
def decode : Bytes → Bytes
  | e₀ :: e₁ :: e₂ :: e₃ :: s => group e₀ e₁ e₂ e₃ ++ decode s
  | _ => []

/-- The characters behind the whole groups of a text. -/
def rest : Bytes → Bytes
  | _ :: _ :: _ :: _ :: s => rest s
  | s => s

/-! ## The alphabet -/

/-- The bits of a character. -/
theorem value_char {n : ℕ} (h : n < 64) : value (char n) = n := by
  revert n
  decide +kernel

/-- The characters of the alphabet. -/
theorem isCode_char {n : ℕ} (h : n < 64) : IsCode (char n) ∧ char n ≠ PAD := by
  revert n
  decide +kernel

/-- Six bits. -/
theorem value_lt (c : UInt8) : value c < 64 := by
  unfold value
  simp only [UInt8.le_iff_toNat_le, UInt8.reduceToNat]
  split_ifs <;> omega

/-! ## A text in two parts -/

section Append

/-- A group stands for three bytes at most. -/
theorem length_group_le (e₀ e₁ e₂ e₃ : UInt8) : (group e₀ e₁ e₂ e₃).length ≤ 3 := by
  unfold group
  dsimp only
  split_ifs <;> simp

variable {s t : Bytes}

/-- A text that does not begin with a group. -/
theorem length_of_no_group (h : ∀ a b c d s', s = a :: b :: c :: d :: s' → False) :
    s.length < 4 := by
  match s, h with
  | [], _ => simp
  | [_], _ => simp
  | [_, _], _ => simp
  | [_, _, _], _ => simp
  | a :: b :: c :: d :: s, h => exact (h a b c d s rfl).elim

/-- Less than a whole group is left behind the groups. -/
theorem length_rest (s : Bytes) : (rest s).length < 4 := by
  induction s using rest.induct with
  | case1 a b c d s ih => rwa [rest]
  | case2 s hs =>
    have hlt := length_of_no_group hs
    rw [rest]
    exacts [hlt, hs]

/-- What is left behind the groups are characters of the text. -/
theorem rest_subset {s : Bytes} {c : UInt8} (h : c ∈ rest s) : c ∈ s := by
  induction s using rest.induct with
  | case1 a b c d s ih =>
    rw [rest] at h
    simp [ih h]
  | case2 s hs =>
    rw [rest] at h
    exacts [h, hs]

/-- A text without a whole group. -/
theorem decode_of_lt (h : s.length < 4) : decode s = [] ∧ rest s = s := by
  match s, h with
  | [], _ => exact ⟨rfl, rfl⟩
  | [_], _ => exact ⟨rfl, rfl⟩
  | [_, _], _ => exact ⟨rfl, rfl⟩
  | [_, _, _], _ => exact ⟨rfl, rfl⟩
  | _ :: _ :: _ :: _ :: s, h => exact absurd h (by simp)

/-- The decoding of a text with what is left over is not longer than the text. -/
theorem length_decode_le (s : Bytes) : (decode s).length + (rest s).length ≤ s.length := by
  induction s using rest.induct with
  | case1 a b c d s ih =>
    have hgroup := length_group_le a b c d
    simp only [decode, rest, List.length_append, List.length_cons]
    omega
  | case2 s hs =>
    obtain ⟨hd, hr⟩ := decode_of_lt (length_of_no_group hs)
    rw [hd, hr, List.length_nil, Nat.zero_add]

/-- The groups of two texts, the first of which leaves some characters over. -/
theorem decode_append (s t : Bytes) :
    decode (s ++ t) = decode s ++ decode (rest s ++ t) ∧ rest (s ++ t) = rest (rest s ++ t) := by
  induction s using rest.induct with
  | case1 a b c d s ih =>
    simp only [List.cons_append, decode, rest, List.append_assoc]
    rw [ih.1]
    exact ⟨rfl, ih.2⟩
  | case2 s hs =>
    obtain ⟨hd, hr⟩ := decode_of_lt (length_of_no_group hs)
    rw [hd, hr]
    exact ⟨rfl, rfl⟩

end Append

/-! ## Decoding an encoding -/

/-- A byte put together. -/
theorem ofNat_eq {n : ℕ} {a : UInt8} (h : n % 256 = a.toNat) : UInt8.ofNat n = a := by
  rw [← UInt8.toNat_inj, UInt8.toNat_ofNat', h]

/-- The first byte of a group. -/
theorem first_byte (a : UInt8) (n : ℕ) (hn : n < 16) :
    UInt8.ofNat (value (char (a.toNat / 4)) * 4 + value (char (a.toNat % 4 * 16 + n)) / 16) = a := by
  have ha := a.toNat_lt
  rw [value_char (by omega), value_char (by omega)]
  exact ofNat_eq (by omega)

/-- The second byte of a group. -/
theorem second_byte (x : ℕ) (b : UInt8) (n : ℕ) (hx : x < 4) (hn : n < 4) :
    UInt8.ofNat (value (char (x * 16 + b.toNat / 16)) * 16 +
      value (char (b.toNat % 16 * 4 + n)) / 4) = b := by
  have hb := b.toNat_lt
  rw [value_char (by omega), value_char (by omega)]
  exact ofNat_eq (by omega)

/-- The third byte of a group. -/
theorem third_byte (x : ℕ) (c : UInt8) (hx : x < 16) :
    UInt8.ofNat (value (char (x * 4 + c.toNat / 64)) * 64 + value (char (c.toNat % 64))) = c := by
  have hc := c.toNat_lt
  rw [value_char (by omega), value_char (by omega)]
  exact ofNat_eq (by omega)

/-- An encoding is decoded, whatever follows it. -/
theorem decode_encode (s t : Bytes) : decode (encode s ++ t) = s ++ decode t := by
  induction s using encode.induct with
  | case1 => rfl
  | case2 a =>
    have h := first_byte a 0 (by decide)
    simp only [Nat.add_zero] at h
    simp only [encode, List.cons_append, List.nil_append, decode, group, if_true, List.take_succ_cons,
      List.take_zero, h]
  | case3 a b =>
    have h₁ := first_byte a (b.toNat / 16) (by have := b.toNat_lt; omega)
    have h₂ := second_byte (a.toNat % 4) b 0 (by omega) (by decide)
    have hne := (isCode_char (by omega : b.toNat % 16 * 4 < 64)).2
    simp only [Nat.add_zero] at h₂
    simp only [encode, List.cons_append, List.nil_append, decode, group, if_true, if_neg hne,
      List.take_succ_cons, List.take_zero, h₁, h₂]
  | case4 a b c s ih =>
    have h₁ := first_byte a (b.toNat / 16) (by have := b.toNat_lt; omega)
    have h₂ := second_byte (a.toNat % 4) b (c.toNat / 64) (by omega)
      (by have := c.toNat_lt; omega)
    have h₃ := third_byte (b.toNat % 16) c (by omega)
    have hne := (isCode_char (by omega : c.toNat % 64 < 64)).2
    simp only [encode, List.cons_append, List.nil_append, decode, group, if_neg hne, h₁, h₂, h₃, ih]

/-- Encodings in a row are decoded. -/
theorem decode_encodings (bs : List Bytes) : decode (bs.map encode).flatten = bs.flatten := by
  induction bs with
  | nil => rfl
  | cons b bs ih => rw [List.map_cons, List.flatten_cons, decode_encode, ih, List.flatten_cons]

/-- The beginning of a text decodes to the beginning of what the text decodes to. -/
theorem decode_mono {s t : Bytes} (h : s <+: t) : decode s <+: decode t := by
  obtain ⟨u, rfl⟩ := h
  rw [(decode_append s u).1]
  exact List.prefix_append _ _

end Base64
