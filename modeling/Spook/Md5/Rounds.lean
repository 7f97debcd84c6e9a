import Spook.Lib.Sine
import Spook.Md5.Definition

set_option relaxedAutoImplicit false
set_option autoImplicit false

/-!
# The steps of `MD5Transform`

`MD5Transform` has its 64 steps written out, each of which changes one of four variables, with `F1`
put another way than in the definition.

## Main results

* `Spook.md5Transform_eq` — the steps are the rounds of the definition.
-/

namespace Spook

/-- The constants as they are written in `MD5Transform`. -/
def sineTable : List UInt32 :=
  [0xd76aa478, 0xe8c7b756, 0x242070db, 0xc1bdceee,
   0xf57c0faf, 0x4787c62a, 0xa8304613, 0xfd469501,
   0x698098d8, 0x8b44f7af, 0xffff5bb1, 0x895cd7be,
   0x6b901122, 0xfd987193, 0xa679438e, 0x49b40821,
   0xf61e2562, 0xc040b340, 0x265e5a51, 0xe9b6c7aa,
   0xd62f105d, 0x02441453, 0xd8a1e681, 0xe7d3fbc8,
   0x21e1cde6, 0xc33707d6, 0xf4d50d87, 0x455a14ed,
   0xa9e3e905, 0xfcefa3f8, 0x676f02d9, 0x8d2a4c8a,
   0xfffa3942, 0x8771f681, 0x6d9d6122, 0xfde5380c,
   0xa4beea44, 0x4bdecfa9, 0xf6bb4b60, 0xbebfbc70,
   0x289b7ec6, 0xeaa127fa, 0xd4ef3085, 0x04881d05,
   0xd9d4d039, 0xe6db99e5, 0x1fa27cf8, 0xc4ac5665,
   0xf4292244, 0x432aff97, 0xab9423a7, 0xfc93a039,
   0x655b59c3, 0x8f0ccc92, 0xffeff47d, 0x85845dd1,
   0x6fa87e4f, 0xfe2ce6e0, 0xa3014314, 0x4e0811a1,
   0xf7537e82, 0xbd3af235, 0x2ad7d2bb, 0xeb86d391]

/-- A constant of the table. -/
def tableWord (i : ℕ) : UInt32 := sineTable.getD i 0

/-! ## The functions of three words -/

section Functions

variable (x y z : UInt32)

/-- `F1`, which is optimized somewhat, chooses by the bits of `x`. -/
theorem md5F1_eq : md5F1 x y z = x &&& y ||| ~~~x &&& z := by
  apply UInt32.toBitVec_inj.1
  simp only [md5F1, UInt32.toBitVec_xor, UInt32.toBitVec_and, UInt32.toBitVec_or,
    UInt32.toBitVec_not]
  ext i hi
  simp only [BitVec.getElem_xor, BitVec.getElem_and, BitVec.getElem_or, BitVec.getElem_not]
  cases x.toBitVec[i] <;> cases y.toBitVec[i] <;> cases z.toBitVec[i] <;> rfl

/-- The second function, with its arguments in the order of the definition. -/
theorem md5F2_eq : md5F2 x y z = x &&& z ||| y &&& ~~~z := by
  rw [md5F2, md5F1_eq, UInt32.and_comm z x, UInt32.and_comm (~~~z) y]

end Functions

/-- The function of three words that a step of the source takes. -/
def stepF (i : ℕ) : UInt32 → UInt32 → UInt32 → UInt32 :=
  if i < 16 then md5F1 else if i < 32 then md5F2 else if i < 48 then md5F3 else md5F4

/-- The function of a step is that of its round. -/
theorem stepF_eq (i : ℕ) (x y z : UInt32) : stepF i x y z = roundF i x y z := by
  unfold stepF roundF
  split_ifs
  · exact md5F1_eq x y z
  · exact md5F2_eq x y z
  · rfl
  · rfl

/-- A round is a step, and a change of places. -/
theorem md5Round_eq (table inp : ℕ → UInt32) (a b c d : UInt32) (i : ℕ) :
    md5Round table inp ⟨a, b, c, d⟩ i =
      ⟨d, md5Step (stepF i) a b c d (inp (roundIndex i) + table i) (roundShift i), b, c⟩ := by
  simp only [md5Round, md5Step, rotateLeft, stepF_eq, Md5Words.mk.injEq, true_and, and_true]
  rw [UInt32.add_comm, ← UInt32.add_assoc, ← UInt32.add_assoc]

/-! ## The constants -/

/-- What is known of the sines decides the constants of the table. -/
theorem tableWord_bounds : ∀ i < 64,
    ((tableWord i).toNat * 10 ^ 15 + (2 ^ 32 : ℕ) * (4 * (i + 1 : ℕ)) : ℤ) ≤
        (2 ^ 32 : ℕ) * |(turn (i + 1)).2| ∧
      ((2 ^ 32 : ℕ) * (|(turn (i + 1)).2| + 4 * (i + 1 : ℕ)) : ℤ) <
        ((tableWord i).toNat + 1) * 10 ^ 15 := by
  decide +kernel

/-- The constants in `MD5Transform` are those of the definition. -/
theorem sineWord_eq {i : ℕ} (hi : i < 64) : sineWord i = tableWord i := by
  obtain ⟨hlow, hhigh⟩ := tableWord_bounds i hi
  have hfloor := floor_sin hlow hhigh
  rw [Nat.cast_pow, Nat.cast_ofNat, Nat.cast_succ] at hfloor
  rw [sineWord, hfloor, UInt32.ofNat_toNat]

/-! ## Sixteen steps -/

section Steps

variable (inp : ℕ → UInt32) (s : Md5Words)

/-- Four rounds change the four variables, each of them once. -/
theorem foldl_four (table : ℕ → UInt32) (i : ℕ) :
    (List.range' i 4).foldl (md5Round table inp) s =
      let data j := inp (roundIndex j) + table j
      let s := s.stepA (stepF i) (data i) (roundShift i)
      let s := s.stepD (stepF (i + 1)) (data (i + 1)) (roundShift (i + 1))
      let s := s.stepC (stepF (i + 2)) (data (i + 2)) (roundShift (i + 2))
      s.stepB (stepF (i + 3)) (data (i + 3)) (roundShift (i + 3)) := by
  obtain ⟨a, b, c, d⟩ := s
  simp only [List.range', List.foldl_cons, List.foldl_nil, md5Round_eq, Md5Words.stepA,
    Md5Words.stepB, Md5Words.stepC, Md5Words.stepD]

/-- Sixteen rounds, four at a time. -/
theorem foldl_sixteen (g : Md5Words → ℕ → Md5Words) (i : ℕ) :
    (List.range' i 16).foldl g s =
      (List.range' (i + 12) 4).foldl g ((List.range' (i + 8) 4).foldl g
        ((List.range' (i + 4) 4).foldl g ((List.range' i 4).foldl g s))) := by
  simp only [← List.foldl_append, List.range'_append_1]

/-- The first sixteen steps, unrolled in the source. -/
theorem md5Steps1_eq : md5Steps1 inp s = (List.range' 0 16).foldl (md5Round tableWord inp) s := by
  rw [foldl_sixteen, foldl_four, foldl_four, foldl_four, foldl_four]
  rfl

/-- The steps of the second round. -/
theorem md5Steps2_eq : md5Steps2 inp s = (List.range' 16 16).foldl (md5Round tableWord inp) s := by
  rw [foldl_sixteen, foldl_four, foldl_four, foldl_four, foldl_four]
  rfl

/-- The steps of the third round. -/
theorem md5Steps3_eq : md5Steps3 inp s = (List.range' 32 16).foldl (md5Round tableWord inp) s := by
  rw [foldl_sixteen, foldl_four, foldl_four, foldl_four, foldl_four]
  rfl

/-- The steps of the fourth round. -/
theorem md5Steps4_eq : md5Steps4 inp s = (List.range' 48 16).foldl (md5Round tableWord inp) s := by
  rw [foldl_sixteen, foldl_four, foldl_four, foldl_four, foldl_four]
  rfl

/-- A block does the same with the constants of the table. -/
theorem md5Compress_sineWord (block : Bytes) :
    md5Compress sineWord s block = md5Compress tableWord s block := by
  have hround : ∀ (s : Md5Words), ∀ i ∈ List.range 64,
      md5Round sineWord (wordAt block) s i = md5Round tableWord (wordAt block) s i := by
    intro s i hi
    rw [md5Round, sineWord_eq (List.mem_range.1 hi), ← md5Round]
  rw [md5Compress, List.foldl_ext _ _ _ hround, ← md5Compress]

/-- **The steps of `MD5Transform` are the rounds of the definition.** -/
theorem md5Transform_eq (block : Bytes) :
    md5Transform s (wordAt block) = md5Compress sineWord s block := by
  have hrounds : List.range' 0 16 ++ List.range' 16 16 ++ List.range' 32 16 ++ List.range' 48 16 =
      List.range 64 := by decide
  rw [md5Compress_sineWord]
  unfold md5Transform md5Compress
  rw [md5Steps1_eq, md5Steps2_eq, md5Steps3_eq, md5Steps4_eq]
  simp only [← List.foldl_append, hrounds]

end Steps

end Spook
