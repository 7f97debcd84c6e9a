import Mathlib.Analysis.SpecialFunctions.Trigonometric.Basic
import Spook.Lib.Blocks
import Spook.Md5.Basic

set_option relaxedAutoImplicit false
set_option autoImplicit false

/-!
# What MD5 is

The digest of a message by its definition: the message is padded to whole blocks of 64 bytes, and
each block changes four words in 64 rounds. A round is told from the others by a function of three
words, the place of a word in the block, a rotation and a constant, which comes from the sine.

## Main definitions

* `Spook.md5Round`, `md5Compress` — a round, and what a block does to the four words.
* `Spook.sineWord` — the constants.
* `Spook.md5Pad`, `md5Digest` — the padded message, and the digest.
-/

namespace Spook

/-- The function of round `i`. -/
def roundF (i : ℕ) (x y z : UInt32) : UInt32 :=
  if i < 16 then x &&& y ||| ~~~x &&& z
  else if i < 32 then x &&& z ||| y &&& ~~~z
  else if i < 48 then x ^^^ y ^^^ z
  else y ^^^ (x ||| ~~~z)

/-- The word of the block that round `i` takes. -/
def roundIndex (i : ℕ) : ℕ :=
  if i < 16 then i
  else if i < 32 then (5 * i + 1) % 16
  else if i < 48 then (3 * i + 5) % 16
  else 7 * i % 16

/-- By how many bits round `i` rotates. -/
def roundShift (i : ℕ) : UInt32 :=
  (if i < 16 then [7, 12, 17, 22]
  else if i < 32 then [5, 9, 14, 20]
  else if i < 48 then [4, 11, 16, 23]
  else [6, 10, 15, 21]).getD (i % 4) 0

/-- The constant of round `i`: the first 32 bits of the fraction of the sine of `i + 1` radians. -/
noncomputable def sineWord (i : ℕ) : UInt32 := UInt32.ofNat ⌊2 ^ 32 * |Real.sin (i + 1)|⌋₊

/-- A word rotated to the left. -/
def rotateLeft (w s : UInt32) : UInt32 := w <<< s ||| w >>> (32 - s)

section Compress

variable (table : ℕ → UInt32)

/-- Round `i` on the words of a block. -/
def md5Round (inp : ℕ → UInt32) (s : Md5Words) (i : ℕ) : Md5Words where
  a := s.d
  b := s.b + rotateLeft (s.a + roundF i s.b s.c s.d + inp (roundIndex i) + table i) (roundShift i)
  c := s.b
  d := s.c

/-- What a block does to the four words: 64 rounds, and a sum. -/
def md5Compress (s : Md5Words) (block : Bytes) : Md5Words :=
  let r := (List.range 64).foldl (md5Round table (wordAt block)) s
  ⟨s.a + r.a, s.b + r.b, s.c + r.c, s.d + r.d⟩

end Compress

/-- The words that the first block finds. -/
def md5Start : Md5Words := ⟨0x67452301, 0xefcdab89, 0x98badcfe, 0x10325476⟩

/-- The number of bits of a message modulo `2 ^ 64`, the lowest byte first. -/
def bitLength (m : Bytes) : Bytes :=
  le32 (UInt32.ofNat (8 * m.length)) ++ le32 (UInt32.ofNat (8 * m.length / 2 ^ 32))

/-- A message, a bit that is set, zeros up to eight bytes before the end of a block, and the length. -/
def md5Pad (m : Bytes) : Bytes :=
  m ++ ([0x80] ++ (List.replicate ((119 - m.length % 64) % 64) 0 ++ bitLength m))

/-- What the whole blocks of a message do to the four words, and what is left of it. -/
noncomputable def md5Absorb : Md5Words → Bytes → Md5Words × Bytes := absorb 64 (md5Compress sineWord)

/-- **The MD5 digest of a message.** -/
noncomputable def md5Digest (m : Bytes) : Bytes := (md5Absorb md5Start (md5Pad m)).1.bytes

end Spook
