import Spook.Rtp.Mpeg4.Bits
import Spook.Rtp.Mpv.Basic

set_option relaxedAutoImplicit false
set_option autoImplicit false

/-!
# Bit fields

`get_field` reads whole bytes where it can and single bits elsewhere; it gives the number that the
bits of the field spell, and a field can be read in two parts.

## Main definitions

* `Spook.FrameMemory.HoldsAt` — some bytes can be read from a pointer on.

## Main results

* `Spook.getField_bits` — the number of a field.
* `Spook.getField_bitsOf` — the same for both copies of `get_field`, and the two parts of a field.
-/

namespace Spook

/-- The bytes `bs` can be read from `d` on. -/
def FrameMemory.HoldsAt (mem : FrameMemory) (d : ℕ) (bs : Bytes) : Prop :=
  ∀ i b, bs[i]? = some b → mem (d + i) = .ok b

section Field

variable {mem : FrameMemory} {d off : ℕ} {bs : Bytes}

/-- The bits of bytes that can be read are the bits of those bytes. -/
theorem FrameMemory.HoldsAt.bit (h : mem.HoldsAt d bs) (hoff : off < 8 * bs.length) :
    mem.bit d off = bitOf bs off := by
  have hlt : off / 8 < bs.length := by omega
  have hbyte := h (off / 8) bs[off / 8] (List.getElem?_eq_getElem hlt)
  unfold FrameMemory.bit bitOf
  rw [FrameMemory.byteAt_eq hbyte]
  simp [hlt]

/-- A field inside the bytes can be read. -/
theorem FrameMemory.HoldsAt.readable (h : mem.HoldsAt d bs) {bits : ℕ}
    (hin : off + bits ≤ 8 * bs.length) : mem.Readable d bits off := by
  intro k hk
  have hlt : (off + k) / 8 < bs.length := by omega
  exact ⟨_, h ((off + k) / 8) bs[(off + k) / 8] (List.getElem?_eq_getElem hlt)⟩

/-- A field of at most 32 bits. -/
theorem getField_bits (h : mem.HoldsAt d bs) {bits : ℕ} (hbits : bits ≤ 32)
    (hin : off + bits ≤ 8 * bs.length) :
    getField mem d bits off = .ok (bitsOf bs off bits, off + bits) := by
  have hlt : bitsOf bs off bits < 2 ^ 32 :=
    Nat.lt_of_lt_of_le (bitsOf_lt bs off bits) (Nat.pow_le_pow_right (by decide) hbits)
  have hspell : spell (mem.bit d) off bits = bitsOf bs off bits :=
    spell_congr off fun i _ hi => h.bit (by omega)
  rw [getField_eq (h.readable hin), FrameMemory.field, hspell, Nat.mod_eq_of_lt hlt]

/-- A field that is read in two parts. -/
theorem getField_parts (h : mem.HoldsAt d bs) {m n : ℕ} (hbits : m + n ≤ 32)
    (hin : off + (m + n) ≤ 8 * bs.length) :
    (do
      let (a, off) ← getField mem d m off
      let (b, off) ← getField mem d n off
      return (a, b, off)) =
    (do
      let (v, off) ← getField mem d (m + n) off
      return (v / 2 ^ n, v % 2 ^ n, off)) := by
  rw [getField_bits h (by omega) (by omega), getField_bits h hbits hin]
  simp only [ok_bind]
  rw [getField_bits h (by omega) (by omega), ok_bind, bitsOf_div, bitsOf_mod, Nat.add_assoc]

/-- Both copies of `get_field` give the number of a field that lies inside some bytes, and move the
offset behind it. Two fields, one behind the other, are the parts of the field of both. -/
theorem getField_bitsOf (h : mem.HoldsAt d bs) :
    ∀ get ∈ [getField, mpvGetField],
      (∀ bits ≤ 32, off + bits ≤ 8 * bs.length →
        get mem d bits off = .ok (bitsOf bs off bits, off + bits)) ∧
      (∀ m n, m + n ≤ 32 → off + (m + n) ≤ 8 * bs.length →
        (do
          let (a, off) ← get mem d m off
          let (b, off) ← get mem d n off
          return (a, b, off)) =
        (do
          let (v, off) ← get mem d (m + n) off
          return (v / 2 ^ n, v % 2 ^ n, off))) := by
  have hmpv : mpvGetField = getField := rfl
  intro get hget
  have hget : get = getField := by simpa [hmpv] using hget
  subst hget
  constructor
  · intro bits hbits hin
    exact getField_bits h hbits hin
  · intro m n hbits hin
    exact getField_parts h hbits hin

/-- A field of twelve bits that ends at a byte, and its parts of four and eight bits. -/
theorem getField_bitsOf_header :
    (∀ get ∈ [getField, mpvGetField],
      get (readIn [0x12, 0x34] .overread) 0 12 4 = .ok (bitsOf [0x12, 0x34] 4 12, 16)) ∧
      bitsOf [0x12, 0x34] 4 12 = 0x234 := by
  have hholds : FrameMemory.HoldsAt (readIn [0x12, 0x34] .overread) 0 [0x12, 0x34] := by
    intro i b hb
    simp [readIn, hb]
  refine ⟨?_, by decide⟩
  intro get hget
  have hin : 4 + 12 ≤ 8 * ([0x12, 0x34] : Bytes).length := by decide
  exact (getField_bitsOf hholds get hget).1 12 (by decide) hin

end Field

end Spook
