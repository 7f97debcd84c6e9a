import Spook.Lib.Bits
import Spook.Rtp.Mpeg4.Basic

set_option relaxedAutoImplicit false
set_option autoImplicit false

/-!
# Bits behind a pointer

The bits of the bytes behind a pointer into a frame, and `get_field` in terms of them.

What a header says is stated with the bits themselves, so that it does not depend on how `get_field`
goes over them, a byte at a time where it can. A bit that cannot be read counts as zero; whether the
bits of a field can be read is said separately.

## Main definitions

* `Spook.FrameMemory.bit`, `FrameMemory.field` — a bit, and the number that some bits spell.
* `Spook.FrameMemory.Readable` — the bits of a field can be read.

## Main results

* `Spook.getFieldLoop_eq` — the loop, from any state of it.
* `Spook.getField_cases` — a field is read if its bits can be read, and faults otherwise.
-/

namespace Spook

section Bits

variable (mem : FrameMemory) (d bits off : ℕ)

/-- The byte at `p`, or zero. -/
def FrameMemory.byteAt (p : ℕ) : UInt8 :=
  match mem p with
  | .ok b => b
  | .error _ => 0

/-- The bit `i` behind the pointer `d`, the highest one of each byte first. -/
def FrameMemory.bit (i : ℕ) : ℕ := bitInByte (mem.byteAt (d + i / 8)) (i % 8)

/-- The number that `bits` bits from the bit `off` on spell, in a word of 32 bits. -/
def FrameMemory.field : ℕ := spell (mem.bit d) off bits % 2 ^ 32

/-- The byte at `p` can be read. -/
def FrameMemory.CanRead (p : ℕ) : Prop := ∃ b, mem p = .ok b

/-- The `bits` bits from the bit `off` on can be read. -/
def FrameMemory.Readable : Prop := ∀ k < bits, mem.CanRead (d + (off + k) / 8)

instance decidableCanRead (p : ℕ) : Decidable (mem.CanRead p) :=
  match h : mem p with
  | .ok b => isTrue ⟨b, h⟩
  | .error e => isFalse fun ⟨b, hb⟩ => by rw [h] at hb; cases hb

instance decidableReadable : Decidable (mem.Readable d bits off) :=
  inferInstanceAs (Decidable (∀ k < bits, mem.CanRead (d + (off + k) / 8)))

end Bits

section Field

variable {mem : FrameMemory} {d bits off n left v p : ℕ} {b : UInt8}

/-- The byte that can be read at `p`. -/
theorem FrameMemory.byteAt_eq (h : mem p = .ok b) : mem.byteAt p = b := by
  unfold FrameMemory.byteAt
  rw [h]

/-- A byte that can be read is the one at `p`. -/
theorem FrameMemory.CanRead.eq (h : mem.CanRead p) : mem p = .ok (mem.byteAt p) := by
  obtain ⟨b, hb⟩ := h
  rw [FrameMemory.byteAt_eq hb, hb]

/-- A bit is 0 or 1. -/
theorem FrameMemory.bit_lt (i : ℕ) : mem.bit d i < 2 := bitInByte_lt _ _

/-- A bit that is not zero is set. -/
theorem FrameMemory.bit_ne_zero {i : ℕ} : mem.bit d i ≠ 0 ↔ mem.bit d i = 1 := by
  have hlt := @FrameMemory.bit_lt mem d i
  omega

/-- The bits of a field can be read, so its first byte can. -/
theorem FrameMemory.Readable.first (h : mem.Readable d bits off) (hpos : 0 < bits) :
    mem.CanRead (d + off / 8) := h 0 hpos

/-- A field can be read if both parts of it can. -/
theorem FrameMemory.readable_add (m n : ℕ) : mem.Readable d (m + n) off ↔
    mem.Readable d m off ∧ mem.Readable d n (off + m) := by
  constructor
  · intro h
    refine ⟨fun k hk => h k (by omega), fun k hk => ?_⟩
    rw [Nat.add_assoc]
    exact h (m + k) (by omega)
  · rintro ⟨hm, hn⟩ k hk
    by_cases hlt : k < m
    · exact hm k hlt
    · have hrest := hn (k - m) (by omega)
      rwa [show off + m + (k - m) = off + k by omega] at hrest

/-- The bits of one byte can be read if the byte can. -/
theorem FrameMemory.readable_byte (hpos : 0 < bits) (hle : off % 8 + bits ≤ 8) :
    mem.Readable d bits off ↔ mem.CanRead (d + off / 8) := by
  refine ⟨fun h => h.first hpos, fun h k hk => ?_⟩
  rwa [show (off + k) / 8 = off / 8 by omega]

/-- **The loop of `get_field`** shifts the bits that are left into `v`.

**Proof sketch.** By induction on the number of rounds. Where the offset is at a byte and eight bits
are left, the round shifts in the next eight bits, which spell that byte; elsewhere it shifts in
one. -/
theorem getFieldLoop_eq (h : mem.Readable d left off) (hn : left ≤ n) (hv : v < 2 ^ 32) :
    getFieldLoop mem d n left v off =
      .ok ((v * 2 ^ left + spell (mem.bit d) off left) % 2 ^ 32, off + left) := by
  induction n generalizing left v off with
  | zero =>
    obtain rfl : left = 0 := by omega
    rw [pow_zero, Nat.mul_one, spell_zero, Nat.add_zero, Nat.mod_eq_of_lt hv]
    rfl
  | succ n ih =>
    unfold getFieldLoop
    by_cases hleft : left = 0
    · subst hleft
      rw [if_pos rfl, pow_zero, Nat.mul_one, spell_zero, Nat.add_zero, Nat.mod_eq_of_lt hv]
      rfl
    have hfirst := (h.first (by omega)).eq
    rw [if_neg hleft, hfirst]
    by_cases hfast : 8 ≤ left ∧ off % 8 = 0
    · -- The fast path: the offset is at a byte, which are the next eight bits.
      obtain ⟨hle, halign⟩ := hfast
      have hbyte : (mem.byteAt (d + off / 8)).toNat = spell (mem.bit d) off 8 := by
        have hoff : off = 8 * (off / 8) := by omega
        rw [hoff, spell_byte _ (off / 8) (mem.byteAt (d + off / 8)), ← hoff]
        intro k hk
        unfold FrameMemory.bit
        rw [show (8 * (off / 8) + k) / 8 = off / 8 by omega,
          show (8 * (off / 8) + k) % 8 = k by omega]
      have hrest : mem.Readable d (left - 8) (off + 8) := by
        rw [← Nat.add_sub_cancel' hle, FrameMemory.readable_add] at h
        exact h.2
      rw [if_pos ⟨hle, halign⟩, ok_bind, hbyte, ih hrest (by omega) (Nat.mod_lt _ (by decide)),
        shiftIn_mod 32 v _ _ (by norm_num : 256 = 2 ^ 8), ← spell_add, Nat.add_sub_cancel' hle,
        Nat.add_assoc, Nat.add_sub_cancel' hle]
    · have hle : 1 ≤ left := Nat.one_le_iff_ne_zero.2 hleft
      have hbit : (mem.byteAt (d + off / 8)).toNat / 2 ^ (7 - off % 8) % 2 =
          spell (mem.bit d) off 1 := by
        rw [spell_one]
        rfl
      have hrest : mem.Readable d (left - 1) (off + 1) := by
        rw [← Nat.add_sub_cancel' hle, FrameMemory.readable_add] at h
        exact h.2
      rw [if_neg hfast, ok_bind, hbit, ih hrest (by omega) (Nat.mod_lt _ (by decide)),
        shiftIn_mod 32 v _ _ (by norm_num : 2 = 2 ^ 1), ← spell_add, Nat.add_sub_cancel' hle,
        Nat.add_assoc, Nat.add_sub_cancel' hle]

/-- Where a bit cannot be read, the loop faults. -/
theorem getFieldLoop_fault (h : ¬ mem.Readable d left off) (hn : left ≤ n) :
    ∃ e, getFieldLoop mem d n left v off = .error e := by
  induction n generalizing left v off with
  | zero =>
    obtain rfl : left = 0 := by omega
    exact absurd (fun k hk => absurd hk (Nat.not_lt_zero k)) h
  | succ n ih =>
    unfold getFieldLoop
    have hleft : left ≠ 0 := by
      rintro rfl
      exact h fun k hk => absurd hk (Nat.not_lt_zero k)
    rw [if_neg hleft]
    rcases hb : mem (d + off / 8) with e | b
    · split_ifs
      · exact ⟨e, rfl⟩
      · exact ⟨e, rfl⟩
    have hcan : mem.CanRead (d + off / 8) := ⟨b, hb⟩
    by_cases hfast : 8 ≤ left ∧ off % 8 = 0
    · rw [if_pos hfast, ok_bind]
      refine ih (fun hrest => h ?_) (by omega)
      rw [← Nat.add_sub_cancel' hfast.1, FrameMemory.readable_add]
      exact ⟨(FrameMemory.readable_byte (by decide) (by omega)).2 hcan, hrest⟩
    · rw [if_neg hfast, ok_bind]
      refine ih (fun hrest => h ?_) (by omega)
      rw [← Nat.add_sub_cancel' (Nat.one_le_iff_ne_zero.2 hleft), FrameMemory.readable_add]
      exact ⟨(FrameMemory.readable_byte (by decide) (by omega)).2 hcan, hrest⟩

/-- A field whose bits can be read. -/
theorem getField_eq (h : mem.Readable d bits off) :
    getField mem d bits off = .ok (mem.field d bits off, off + bits) := by
  rw [getField, getFieldLoop_eq h (Nat.le_refl bits) (by decide), Nat.zero_mul, Nat.zero_add]
  rfl

/-- **A field** is read if its bits can be read, and faults otherwise. -/
theorem getField_cases (mem : FrameMemory) (d bits off : ℕ) :
    (mem.Readable d bits off ∧
      getField mem d bits off = .ok (mem.field d bits off, off + bits)) ∨
    (¬ mem.Readable d bits off ∧ ∃ e, getField mem d bits off = .error e) := by
  by_cases h : mem.Readable d bits off
  · exact .inl ⟨h, getField_eq h⟩
  · exact .inr ⟨h, getFieldLoop_fault h (Nat.le_refl bits)⟩

/-- A field of one bit is that bit. -/
theorem FrameMemory.field_one (mem : FrameMemory) (d off : ℕ) : mem.field d 1 off = mem.bit d off := by
  rw [FrameMemory.field, spell_one, Nat.mod_eq_of_lt]
  exact Nat.lt_of_lt_of_le (FrameMemory.bit_lt off) (by decide)

end Field

end Spook
