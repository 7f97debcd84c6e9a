import Spook.Lib.CString
import Mathlib.Algebra.BigOperators.Group.Finset.Basic
import Mathlib.Algebra.BigOperators.Ring.Finset
import Mathlib.Data.Nat.ModEq
import Mathlib.Tactic.Ring

set_option relaxedAutoImplicit false
set_option autoImplicit false

/-!
# Numbers in bit fields

The number that some bits spell from one position to another, and the bits of some bytes, counted with
the highest bit of each byte first.

A sequence of bits is a function of the position, so that the lemmas about fields serve bytes in a list
as well as bytes behind a pointer.

## Main definitions

* `spell` — the number that some bits spell, the highest one first.
* `bitInByte` — a bit of a byte.
* `bitOf`, `bitsOf` — a bit of some bytes, and the number that some of them spell.

## Main results

* `spell_add` — a field is the number of its two parts.
* `spell_byte` — eight bits that begin with a byte are that byte.
* `bitsOf_div`, `bitsOf_mod` — the parts of a field.
* `shiftIn_mod` — bits that are shifted into a word one part after the other.
-/

section Spell

open Finset

/-- The number of the `n` bits from `off` on, the highest one first. -/
def spell (bit : ℕ → ℕ) (off n : ℕ) : ℕ := ∑ k ∈ range n, bit (off + k) * 2 ^ (n - 1 - k)

variable (bit : ℕ → ℕ) (off m n : ℕ)

/-- An empty field. -/
@[simp] theorem spell_zero : spell bit off 0 = 0 := rfl

/-- A field and the bit behind it. -/
theorem spell_succ : spell bit off (n + 1) = 2 * spell bit off n + bit (off + n) := by
  have hshift : ∀ k ∈ range n,
      bit (off + k) * 2 ^ (n + 1 - 1 - k) = 2 * (bit (off + k) * 2 ^ (n - 1 - k)) := by
    intro k hk
    have hk := mem_range.1 hk
    rw [show n + 1 - 1 - k = n - 1 - k + 1 by omega, pow_succ]
    ring
  rw [spell, sum_range_succ, sum_congr rfl hshift, ← mul_sum, ← spell]
  simp

/-- A field is the number of its two parts. -/
theorem spell_add : spell bit off (m + n) = spell bit off m * 2 ^ n + spell bit (off + m) n := by
  induction n with
  | zero => simp
  | succ n ih =>
    rw [← Nat.add_assoc, spell_succ, ih, spell_succ, Nat.add_assoc off m n, pow_succ]
    ring

/-- A field of one bit. -/
theorem spell_one : spell bit off 1 = bit off := by
  simp [spell]

variable {bit n}

/-- A field has no more bits than it has. -/
theorem spell_lt (hbit : ∀ i, bit i < 2) : spell bit off n < 2 ^ n := by
  induction n with
  | zero => simp
  | succ n ih =>
    have hlast := hbit (off + n)
    rw [spell_succ, pow_succ]
    omega

/-- Fields with the same bits. -/
theorem spell_congr {bit' : ℕ → ℕ} (h : ∀ i, off ≤ i → i < off + n → bit i = bit' i) :
    spell bit off n = spell bit' off n := by
  unfold spell
  refine sum_congr rfl fun k hk => ?_
  have hk := mem_range.1 hk
  rw [h (off + k) (by omega) (by omega)]

end Spell

section Bits

/-- The bit `i` of a byte, the highest one first. -/
def bitInByte (b : UInt8) (i : ℕ) : ℕ := b.toNat / 2 ^ (7 - i) % 2

/-- A bit is 0 or 1. -/
theorem bitInByte_lt (b : UInt8) (i : ℕ) : bitInByte b i < 2 := Nat.mod_lt _ (by decide)

/-- Eight bits that begin with a byte. -/
theorem spell_byte (bit : ℕ → ℕ) (i : ℕ) (b : UInt8)
    (h : ∀ k < 8, bit (8 * i + k) = bitInByte b k) : spell bit (8 * i) 8 = b.toNat := by
  have hlt := b.toNat_lt
  simp only [spell_succ, spell_zero, h _ (by decide : 0 < 8), h _ (by decide : 1 < 8),
    h _ (by decide : 2 < 8), h _ (by decide : 3 < 8), h _ (by decide : 4 < 8),
    h _ (by decide : 5 < 8), h _ (by decide : 6 < 8), h _ (by decide : 7 < 8), bitInByte]
  generalize b.toNat = b at hlt
  omega

/-- The bit `i` of some bytes. The highest bit of a byte comes first; behind the bytes are zeros. -/
def bitOf (bs : Bytes) (i : ℕ) : ℕ := bitInByte (bs.getD (i / 8) 0) (i % 8)

/-- The number of the `n` bits from `off` on, the highest one first. -/
def bitsOf (bs : Bytes) (off n : ℕ) : ℕ := spell (bitOf bs) off n

variable (bs : Bytes) (off m n : ℕ)

/-- A number of `n` bits. -/
theorem bitsOf_lt : bitsOf bs off n < 2 ^ n := spell_lt off fun _ => bitInByte_lt _ _

/-- The upper part of a field. -/
theorem bitsOf_div : bitsOf bs off (m + n) / 2 ^ n = bitsOf bs off m := by
  have hlt := bitsOf_lt bs (off + m) n
  unfold bitsOf at hlt ⊢
  rw [spell_add, Nat.add_comm, Nat.add_mul_div_right _ _ (Nat.two_pow_pos n), Nat.div_eq_of_lt hlt,
    Nat.zero_add]

/-- The lower part of a field. -/
theorem bitsOf_mod : bitsOf bs off (m + n) % 2 ^ n = bitsOf bs (off + m) n := by
  have hlt := bitsOf_lt bs (off + m) n
  unfold bitsOf at hlt ⊢
  rw [spell_add, Nat.add_comm, Nat.add_mul_mod_self_right, Nat.mod_eq_of_lt hlt]

end Bits

/-- Bits that are shifted into a word of `w` bits, first `k` of them and then the rest. -/
theorem shiftIn_mod (w v a b : ℕ) {c k r : ℕ} (hc : c = 2 ^ k) :
    ((c * v + a) % 2 ^ w * 2 ^ r + b) % 2 ^ w = (v * 2 ^ (k + r) + (a * 2 ^ r + b)) % 2 ^ w := by
  have hword : (c * v + a) * 2 ^ r + b = v * 2 ^ (k + r) + (a * 2 ^ r + b) := by
    rw [hc, pow_add]
    ring
  rw [← hword]
  exact Nat.ModEq.add_right b (Nat.ModEq.mul_right (2 ^ r) (Nat.mod_modEq (c * v + a) (2 ^ w)))
