import Mathlib.Tactic.NormNum.NatLog
import Spook.Fault
import Spook.Lib.Buffer
import Spook.Lib.CString
import Spook.Lib.Groups
import Spook.Lib.Leading

set_option relaxedAutoImplicit false
set_option autoImplicit false

/-!
# A-law and µ-law

`sound_conv.c`: the two laws by which a sample of 16 bits becomes one byte, and the loops over
blocks of samples. Both keep the sign and the leading digits of a sample. A `short` is stored with
its low byte first.

The functions that encode take an `int`, of which they take the magnitude; one that has no magnitude
among the `int`s, or none with the bias of µ-law added, is outside of what is modelled, and the
results leave it out.

## Main definitions

* `Spook.s16ToAlaw`, `alawToS16`, `s16ToUlaw`, `ulawToS16` — the functions of the same names.
* `Spook.alawEnc`, `alawDec`, `mulawEnc`, `mulawDec` — the loops.

## Main results

* `Spook.alaw_sample`, `mulaw_sample` — what becomes of a sample, and of a code.
* `Spook.alaw_block`, `mulaw_frame` — what becomes of samples in buffers.
-/

namespace Spook

/-! ## The functions of the source -/

/-- `val_seg`. -/
def valSeg (val : ℕ) : ℕ :=
  let val := val >>> 7
  let (val, r) := if val &&& 0xf0 ≠ 0 then (val >>> 4, 4) else (val, 0)
  let (val, r) := if val &&& 0x0c ≠ 0 then (val >>> 2, r + 2) else (val, r)
  if val &&& 0x02 ≠ 0 then r + 1 else r

/-- A segment number and four bits. -/
def segmentBits (val : ℕ) : ℕ := valSeg val <<< 4 ||| (val >>> (valSeg val + 3) &&& 0x0f)

/-- `aval` of `s16_to_alaw`. -/
def alawBits (val : ℕ) : ℕ := if val < 256 then val >>> 4 else segmentBits val

/-- `s16_to_alaw`, of an `int` that can be negated. -/
def s16ToAlaw (pcm : ℤ) : UInt8 :=
  if 0 ≤ pcm then UInt8.ofNat (alawBits pcm.toNat) ^^^ 0xD5
  else UInt8.ofNat (alawBits (min (-pcm).toNat 0x7fff)) ^^^ 0x55

/-- `t` of `alaw_to_s16`, from the seven bits of a code. -/
def alawLevel (t : ℕ) : ℕ :=
  if t < 16 then t <<< 4 + 8
  else ((t &&& 0x0f) <<< 4 + 0x108) <<< ((t >>> 4 &&& 0x07) - 1)

/-- `alaw_to_s16`. -/
def alawToS16 (code : UInt8) : ℤ :=
  let code := code ^^^ 0x55
  let t := alawLevel (code &&& 0x7f).toNat
  if code &&& 0x80 ≠ 0 then t else -t

/-- `s16_to_ulaw`, of an `int` whose magnitude leaves room for the bias. -/
def s16ToUlaw (pcm : ℤ) : UInt8 :=
  if pcm < 0 then UInt8.ofNat (segmentBits (min (0x84 - pcm).toNat 0x7fff)) ^^^ 0x7f
  else UInt8.ofNat (segmentBits (min (pcm + 0x84).toNat 0x7fff)) ^^^ 0xff

/-- `t` of `ulaw_to_s16`, from the seven bits of a code. -/
def ulawLevel (u : ℕ) : ℕ := ((u &&& 0x0f) <<< 3 + 0x84) <<< ((u &&& 0x70) >>> 4)

/-- `ulaw_to_s16`. -/
def ulawToS16 (code : UInt8) : ℤ :=
  let code := ~~~code
  let t := ulawLevel (code &&& 0x7f).toNat
  if code &&& 0x80 ≠ 0 then 0x84 - t else t - 0x84

/-- The `signed short` with these two bytes in memory. -/
def shortAt (low high : UInt8) : ℤ :=
  let n : ℕ := low.toNat + 2 ^ 8 * high.toNat
  if n < 2 ^ 15 then (n : ℤ) else (n : ℤ) - 2 ^ 16

/-- The two bytes of a `signed short` in memory. -/
def shortBytes (x : ℤ) : Bytes := [UInt8.ofNat (x % 2 ^ 16).toNat, UInt8.ofNat (x / 2 ^ 8 % 2 ^ 8).toNat]

/-- A round of `alaw_enc`, which swaps the two bytes of a sample first. -/
def alawEncRound (group : Bytes) : Bytes :=
  [s16ToAlaw (shortAt (group.getD 1 0) (group.getD 0 0))]

/-- `alaw_enc`. -/
def alawEnc (s16Data alawData : Bytes) (pcmSize : ℤ) : Except Fault Bytes :=
  convertLoop .overread .overrun 2 1 alawEncRound s16Data (pcmSize.tdiv 2).toNat 0 alawData

/-- A round of `alaw_dec`. -/
def alawDecRound (group : Bytes) : Bytes := shortBytes (alawToS16 (group.getD 0 0))

/-- `alaw_dec`. -/
def alawDec (alawData s16Data : Bytes) (limit : ℤ) : Except Fault Bytes :=
  convertLoop .overread .overrun 1 2 alawDecRound alawData limit.toNat 0 s16Data

/-- A round of `mulaw_enc`. -/
def mulawEncRound (group : Bytes) : Bytes :=
  [s16ToUlaw (shortAt (group.getD 0 0) (group.getD 1 0))]

/-- `mulaw_enc`. -/
def mulawEnc (s16Data mulawData : Bytes) (pcmSize : ℤ) : Except Fault Bytes :=
  convertLoop .overread .overrun 2 1 mulawEncRound s16Data (pcmSize.tdiv 2).toNat 0 mulawData

/-- A round of `mulaw_dec`. -/
def mulawDecRound (group : Bytes) : Bytes := shortBytes (ulawToS16 (group.getD 0 0))

/-- `mulaw_dec`, which always converts 160 samples. -/
def mulawDec (mulawData s16Data : Bytes) : Except Fault Bytes :=
  convertLoop .overread .overrun 1 2 mulawDecRound mulawData 160 0 s16Data

/-! ## Segments -/

section Segments

variable {val : ℕ}

/-- The segment of a number is the place of its leading digit. -/
theorem valSeg_eq (hlow : 128 ≤ val) (hhigh : val < 2 ^ 15) : valSeg val + 7 = Nat.log 2 val := by
  have hseg : ∀ v < 256, 1 ≤ v → 2 ^ valSeg (v * 128) ≤ v ∧ v < 2 ^ (valSeg (v * 128) + 1) := by
    decide +kernel
  have hshift : valSeg val = valSeg (val / 128 * 128) := by
    have h : val >>> 7 = (val / 128 * 128) >>> 7 := by
      simp only [Nat.shiftRight_eq_div_pow]
      omega
    unfold valSeg
    rw [h]
  obtain ⟨hle, hlt⟩ := hseg (val / 128) (by omega) (by omega)
  rw [← hshift] at hle hlt
  symm
  rw [Nat.log_eq_iff (.inl (by omega)), pow_add, pow_add, pow_add]
  rw [pow_succ] at hlt
  omega

/-- The segment and the bits behind the leading digit. -/
theorem segmentBits_eq (val : ℕ) :
    segmentBits val = valSeg val * 16 + val / 2 ^ (valSeg val + 3) % 16 := by
  have hbits : val / 2 ^ (valSeg val + 3) % 16 < 2 ^ 4 := Nat.mod_lt _ (by decide)
  have hand := Nat.and_two_pow_sub_one_eq_mod (val / 2 ^ (valSeg val + 3)) 4
  have hor := Nat.shiftLeft_add_eq_or_of_lt hbits (valSeg val)
  unfold segmentBits
  rw [Nat.shiftRight_eq_div_pow, hand, ← hor, Nat.shiftLeft_eq]

/-- Where the code of a magnitude cuts it, by its segment. -/
theorem cutAt_valSeg (hlow : 128 ≤ val) (hhigh : val < 2 ^ 15) {c : ℕ}
    (hc : c ≤ valSeg val + 7) : cutAt 4 c val = valSeg val + 3 := by
  have hseg := valSeg_eq hlow hhigh
  unfold cutAt
  omega

/-- The digits of a number from its leading one on. -/
theorem lead_valSeg (hlow : 128 ≤ val) (hhigh : val < 2 ^ 15) :
    16 + val / 2 ^ (valSeg val + 3) % 16 = val / 2 ^ (valSeg val + 3) := by
  have hlog := Nat.log_eq_iff (b := 2) (m := valSeg val + 7) (n := val) (.inl (by omega))
  obtain ⟨hle, hlt⟩ := hlog.1 (valSeg_eq hlow hhigh).symm
  have hdiv := Nat.div_add_mod val (2 ^ (valSeg val + 3))
  have hge : 16 ≤ val / 2 ^ (valSeg val + 3) := by
    rw [Nat.le_div_iff_mul_le (Nat.two_pow_pos _)]
    refine le_of_eq_of_le ?_ hle
    ring
  have hlt' : val / 2 ^ (valSeg val + 3) < 32 := by
    refine Nat.div_lt_of_lt_mul (hlt.trans_eq ?_)
    ring
  omega

/-- **`s16_to_ulaw` counts from the code of `0x80` on.** -/
theorem segmentBits_add (hlow : 128 ≤ val) (hhigh : val < 2 ^ 15) :
    segmentBits val + 16 = leadCode 4 7 val := by
  rw [segmentBits_eq, leadCode, cutAt_valSeg hlow hhigh (by omega),
    ← lead_valSeg hlow hhigh]
  omega

/-- **`s16_to_alaw` counts from zero on.** -/
theorem alawBits_eq (hhigh : val < 2 ^ 15) : alawBits val = leadCode 4 8 val := by
  unfold alawBits
  split_ifs with hsmall
  · have hcut : cutAt 4 8 val = 4 := by
      have hlog : Nat.log 2 val < 8 := Nat.log_lt_of_lt_pow' (by decide) hsmall
      unfold cutAt
      omega
    rw [leadCode, hcut, Nat.shiftRight_eq_div_pow]
    omega
  · have hseg := valSeg_eq (by omega) hhigh
    have hlog : 8 ≤ Nat.log 2 val := Nat.le_log_of_pow_le (by decide) (by omega)
    rw [segmentBits_eq, leadCode, cutAt_valSeg (by omega) hhigh (by omega),
      ← lead_valSeg (by omega) hhigh]
    omega

/-- Eight bits are seven bits and another one, under any mask. -/
theorem exists_seven_bits (code mask : UInt8) :
    ∃ n < 128, code = UInt8.ofNat n ^^^ mask ∨ code = UInt8.ofNat n ^^^ (0x80 ^^^ mask) := by
  have hbits : ∀ m < 256, (UInt8.ofNat m &&& 0x7f).toNat < 128 ∧
      (UInt8.ofNat m = UInt8.ofNat (UInt8.ofNat m &&& 0x7f).toNat ∨
        UInt8.ofNat m = UInt8.ofNat (UInt8.ofNat m &&& 0x7f).toNat ^^^ 0x80) := by
    decide +kernel
  have hmask : code = code ^^^ mask ^^^ mask := by
    rw [UInt8.xor_assoc, UInt8.xor_self, UInt8.xor_zero]
  obtain ⟨hlt, heq⟩ := hbits (code ^^^ mask).toNat (code ^^^ mask).toNat_lt
  rw [UInt8.ofNat_toNat] at hlt heq
  refine ⟨_, hlt, heq.imp (fun h => ?_) fun h => ?_⟩
  · rw [← h]
    exact hmask
  · rw [← UInt8.xor_assoc, ← h]
    exact hmask

end Segments

/-! ## A-law -/

section Alaw

variable {x y : ℤ}

/-- The number that is left of a magnitude. -/
def alawNear (val : ℕ) : ℕ := leadValue 4 8 (leadCode 4 8 val)

/-- A greater magnitude stays the greater one. -/
theorem alawNear_mono : Monotone alawNear :=
  (leadValue_strictMono (by decide)).monotone.comp (leadCode_mono (by decide))

/-- The greatest magnitude has the greatest code. -/
theorem leadCode_alaw_max : leadCode 4 8 0x7fff = 127 := by norm_num [leadCode, cutAt]

/-- Codes have seven bits and a sign. -/
theorem leadCode_lt_alaw {val : ℕ} (h : val < 2 ^ 15) : leadCode 4 8 val < 128 := by
  have hle := leadCode_mono (k := 4) (c := 8) (by decide) (show val ≤ 0x7fff by omega)
  rw [leadCode_alaw_max] at hle
  omega

/-- The magnitudes of codes are those of samples. -/
theorem leadValue_lt_alaw {n : ℕ} (h : n < 128) : leadValue 4 8 n < 2 ^ 15 :=
  ((leadValue_strictMono (k := 4) (c := 8) (by decide)).monotone (Nat.le_pred_of_lt h)).trans_lt
    (by decide)

/-- `alaw_to_s16` of the two codes with the same seven bits. -/
theorem alawToS16_ofNat : ∀ n < 128, alawToS16 (UInt8.ofNat n ^^^ 0xD5) = leadValue 4 8 n ∧
    alawToS16 (UInt8.ofNat n ^^^ 0x55) = -leadValue 4 8 n := by
  decide +kernel

/-- Every code has seven bits and a sign. -/
theorem exists_alaw (code : UInt8) :
    ∃ n < 128, code = UInt8.ofNat n ^^^ 0xD5 ∨ code = UInt8.ofNat n ^^^ 0x55 :=
  exists_seven_bits code 0xD5

/-- What becomes of a sample that is not negative. -/
theorem alaw_of_nonneg (h : 0 ≤ x) (hx : x < 2 ^ 15) :
    alawToS16 (s16ToAlaw x) = alawNear x.toNat := by
  rw [s16ToAlaw, if_pos h, alawBits_eq (by omega)]
  exact (alawToS16_ofNat _ (leadCode_lt_alaw (by omega))).1

/-- What becomes of a negative number. -/
theorem alaw_of_neg (h : x < 0) :
    alawToS16 (s16ToAlaw x) = -alawNear (min (-x).toNat 0x7fff) := by
  have hmin : min (-x).toNat 0x7fff < 2 ^ 15 := by omega
  rw [s16ToAlaw, if_neg (by omega), alawBits_eq hmin]
  exact (alawToS16_ofNat _ (leadCode_lt_alaw hmin)).2

/-- The order of what `s16_to_alaw` takes is kept up to the greatest sample. -/
theorem alaw_mono (hxy : x ≤ y) (hy : y < 2 ^ 15) :
    alawToS16 (s16ToAlaw x) ≤ alawToS16 (s16ToAlaw y) := by
  by_cases hx : 0 ≤ x
  · rw [alaw_of_nonneg hx (by omega), alaw_of_nonneg (by omega) hy]
    exact_mod_cast alawNear_mono (by omega)
  · rw [alaw_of_neg (by omega)]
    by_cases hy0 : 0 ≤ y
    · rw [alaw_of_nonneg hy0 hy]
      omega
    · rw [alaw_of_neg (by omega)]
      have h : alawNear (min (-y).toNat 0x7fff) ≤ alawNear (min (-x).toNat 0x7fff) :=
        alawNear_mono (by omega)
      omega

/-- What is left of a magnitude is near. -/
theorem abs_alawNear_sub_le (val : ℕ) : 32 * |(alawNear val : ℤ) - val| ≤ max (val : ℤ) 256 := by
  have h := abs_leadValue_sub_le (k := 4) (c := 8) (by decide) val
  exact_mod_cast h

/-- What becomes of a sample is near. -/
theorem alaw_near (hx : -2 ^ 15 ≤ x) (hx' : x < 2 ^ 15) :
    32 * |alawToS16 (s16ToAlaw x) - x| ≤ max |x| 256 := by
  by_cases h0 : 0 ≤ x
  · obtain ⟨n, rfl⟩ := Int.eq_ofNat_of_zero_le h0
    rw [alaw_of_nonneg h0 hx', Int.toNat_natCast, Nat.abs_cast]
    exact abs_alawNear_sub_le n
  · obtain ⟨n, hn⟩ := Int.eq_ofNat_of_zero_le (show 0 ≤ -x by omega)
    obtain rfl : x = -n := by omega
    rw [alaw_of_neg (by omega), neg_neg, Int.toNat_natCast, abs_neg, Nat.abs_cast, neg_sub_neg,
      abs_sub_comm]
    rcases (show n ≤ 0x7fff ∨ n = 0x8000 by omega) with hle | rfl
    · rw [min_eq_left hle]
      exact abs_alawNear_sub_le n
    · -- the most negative sample has the magnitude of the next one
      have hnear : alawNear 0x7fff = 32256 := by
        rw [alawNear, leadCode_alaw_max]
        decide
      rw [min_eq_right (by omega), hnear]
      norm_num

/-- The sample that a code stands for has this code.

**Proof sketch.** A code is seven bits and a sign (`exists_alaw`). The level of the seven bits is
the value of a leading code, which is read off it again (`leadCode_leadValue`). -/
theorem alaw_code (code : UInt8) : s16ToAlaw (alawToS16 code) = code := by
  obtain ⟨n, hn, rfl | rfl⟩ := exists_alaw code
  · have hlt := leadValue_lt_alaw hn
    rw [(alawToS16_ofNat n hn).1, s16ToAlaw, if_pos (by omega), Int.toNat_natCast, alawBits_eq hlt,
      leadCode_leadValue (by decide)]
  · have hlt := leadValue_lt_alaw hn
    have hpos := leadValue_pos 4 8 n
    rw [(alawToS16_ofNat n hn).2, s16ToAlaw, if_neg (by omega), neg_neg, Int.toNat_natCast,
      min_eq_left (by omega), alawBits_eq hlt, leadCode_leadValue (by decide)]

/-- **Samples and codes of A-law.** The sample that a code stands for has this code. What becomes of
a sample of 16 bits is off by at most a 32nd of it, or by 8, and the order is kept from the least
`int` that can be negated to the greatest sample. -/
theorem alaw_sample :
    (∀ code, s16ToAlaw (alawToS16 code) = code) ∧
      (∀ x : ℤ, -2 ^ 15 ≤ x → x < 2 ^ 15 →
        32 * |alawToS16 (s16ToAlaw x) - x| ≤ max |x| 256) ∧
      ∀ x y : ℤ, -2 ^ 31 < x → x ≤ y → y < 2 ^ 15 →
        alawToS16 (s16ToAlaw x) ≤ alawToS16 (s16ToAlaw y) :=
  ⟨alaw_code, fun _ => alaw_near, fun _ _ _ => alaw_mono⟩

end Alaw

/-! ## µ-law -/

section Ulaw

variable {x y : ℤ}

/-- The number that is left of a magnitude to which `0x84` was added. -/
def ulawNear (val : ℕ) : ℕ := leadValue 4 7 (leadCode 4 7 val)

/-- A greater magnitude stays the greater one. -/
theorem ulawNear_mono : Monotone ulawNear :=
  (leadValue_strictMono (by decide)).monotone.comp (leadCode_mono (by decide))

/-- The greatest magnitude has the greatest code. -/
theorem leadCode_ulaw_max : leadCode 4 7 0x7fff = 143 := by norm_num [leadCode, cutAt]

/-- Codes have seven bits and a sign. -/
theorem segmentBits_lt {val : ℕ} (hlow : 128 ≤ val) (h : val < 2 ^ 15) : segmentBits val < 128 := by
  have hle := leadCode_mono (k := 4) (c := 7) (by decide) (show val ≤ 0x7fff by omega)
  have hadd := segmentBits_add hlow h
  rw [leadCode_ulaw_max] at hle
  omega

/-- `ulaw_to_s16` of the two codes with the same seven bits. -/
theorem ulawToS16_ofNat : ∀ n < 128, ulawToS16 (UInt8.ofNat n ^^^ 0xff) = leadValue 4 7 (n + 16) - 0x84 ∧
    ulawToS16 (UInt8.ofNat n ^^^ 0x7f) = 0x84 - leadValue 4 7 (n + 16) := by
  decide +kernel

/-- Every code has seven bits and a sign. -/
theorem exists_ulaw (code : UInt8) :
    ∃ n < 128, code = UInt8.ofNat n ^^^ 0xff ∨ code = UInt8.ofNat n ^^^ 0x7f :=
  exists_seven_bits code 0xff

/-- The magnitude to which `0x84` was added, cut to 15 bits. -/
def ulawBiased (val : ℕ) : ℕ := min (val + 0x84) 0x7fff

/-- What becomes of a number that is not negative. -/
theorem ulaw_of_nonneg (h : 0 ≤ x) :
    ulawToS16 (s16ToUlaw x) = ulawNear (ulawBiased x.toNat) - 0x84 := by
  have hlow : 128 ≤ ulawBiased x.toNat := by unfold ulawBiased; omega
  have hhigh : ulawBiased x.toNat < 2 ^ 15 := by unfold ulawBiased; omega
  have hval : min (x + 0x84).toNat 0x7fff = ulawBiased x.toNat := by unfold ulawBiased; omega
  rw [s16ToUlaw, if_neg (by omega), hval, (ulawToS16_ofNat _ (segmentBits_lt hlow hhigh)).1,
    segmentBits_add hlow hhigh, ulawNear]

/-- What becomes of a negative number. -/
theorem ulaw_of_neg (h : x < 0) :
    ulawToS16 (s16ToUlaw x) = 0x84 - ulawNear (ulawBiased (-x).toNat) := by
  have hlow : 128 ≤ ulawBiased (-x).toNat := by unfold ulawBiased; omega
  have hhigh : ulawBiased (-x).toNat < 2 ^ 15 := by unfold ulawBiased; omega
  have hval : min (0x84 - x).toNat 0x7fff = ulawBiased (-x).toNat := by unfold ulawBiased; omega
  rw [s16ToUlaw, if_pos h, hval, (ulawToS16_ofNat _ (segmentBits_lt hlow hhigh)).2,
    segmentBits_add hlow hhigh, ulawNear]

/-- The bias and the cut keep the order of magnitudes. -/
theorem ulawBiased_mono : Monotone ulawBiased := by
  intro m n h
  unfold ulawBiased
  omega

/-- The code of zero. -/
theorem leadValue_zero : leadValue 4 7 16 = 0x84 := by decide

/-- The bias is left of every magnitude, so that the two signs meet at zero. -/
theorem le_ulawNear (val : ℕ) : 0x84 ≤ ulawNear (ulawBiased val) := by
  have hzero : ulawNear (ulawBiased 0) = 0x84 := by
    rw [show ulawBiased 0 = leadValue 4 7 16 from leadValue_zero.symm, ulawNear,
      leadCode_leadValue (by decide), leadValue_zero]
  exact hzero.symm.trans_le (ulawNear_mono (ulawBiased_mono (Nat.zero_le val)))

/-- The order is kept, across zero and where magnitudes are cut. -/
theorem ulaw_mono (hxy : x ≤ y) : ulawToS16 (s16ToUlaw x) ≤ ulawToS16 (s16ToUlaw y) := by
  have hmono : ∀ m n, m ≤ n → ulawNear (ulawBiased m) ≤ ulawNear (ulawBiased n) :=
    fun m n h => ulawNear_mono (ulawBiased_mono h)
  by_cases hx : 0 ≤ x
  · rw [ulaw_of_nonneg hx, ulaw_of_nonneg (by omega)]
    have h := hmono x.toNat y.toNat (by omega)
    omega
  · rw [ulaw_of_neg (by omega)]
    by_cases hy : 0 ≤ y
    · rw [ulaw_of_nonneg hy]
      have h := le_ulawNear (-x).toNat
      have h' := le_ulawNear y.toNat
      omega
    · rw [ulaw_of_neg (by omega)]
      have h := hmono (-y).toNat (-x).toNat (by omega)
      omega

/-- What is left of a magnitude is near. -/
theorem abs_ulawNear_sub_le {n : ℕ} (hn : n ≤ 2 ^ 15) :
    32 * |(ulawNear (ulawBiased n) : ℤ) - 0x84 - n| ≤ n + 0x84 := by
  by_cases hclip : n + 0x84 ≤ 0x7fff
  · have h := abs_leadValue_sub_le (k := 4) (c := 7) (by decide) (n + 0x84)
    rw [max_eq_left (by omega), ← ulawNear] at h
    rw [ulawBiased, min_eq_left hclip, sub_sub, add_comm (0x84 : ℤ)]
    exact_mod_cast h
  · have hclipped : ulawNear 0x7fff = 32256 := by
      rw [ulawNear, leadCode_ulaw_max]
      decide
    rw [ulawBiased, min_eq_right (by omega), hclipped, abs_of_nonpos (by omega)]
    omega

/-- What becomes of a sample is near. -/
theorem ulaw_near (hx : -2 ^ 15 ≤ x) (hx' : x < 2 ^ 15) :
    32 * |ulawToS16 (s16ToUlaw x) - x| ≤ |x| + 0x84 := by
  by_cases h0 : 0 ≤ x
  · obtain ⟨n, rfl⟩ := Int.eq_ofNat_of_zero_le h0
    rw [ulaw_of_nonneg h0, Int.toNat_natCast, Nat.abs_cast]
    exact abs_ulawNear_sub_le (by omega)
  · obtain ⟨n, hn⟩ := Int.eq_ofNat_of_zero_le (show 0 ≤ -x by omega)
    obtain rfl : x = -n := by omega
    have hneg : (0x84 : ℤ) - ulawNear (ulawBiased n) - -n =
        -(ulawNear (ulawBiased n) - 0x84 - n) := by ring
    rw [ulaw_of_neg (by omega), neg_neg, Int.toNat_natCast, abs_neg, Nat.abs_cast, hneg, abs_neg]
    exact abs_ulawNear_sub_le (by omega)

/-- The sample that a code stands for has this code, unless it is the second code of zero.

**Proof sketch.** As for A-law, with the bias: the level of the seven bits is the value of a leading
code behind the first one, from which the bias is taken and to which it is added again. -/
theorem ulaw_code {code : UInt8} (hcode : code ≠ 0x7f) : s16ToUlaw (ulawToS16 code) = code := by
  have hmono := leadValue_strictMono (k := 4) (c := 7) (by decide)
  obtain ⟨n, hn, hcases⟩ := exists_ulaw code
  have hlt : leadValue 4 7 (n + 16) < 2 ^ 15 :=
    (hmono.monotone (show n + 16 ≤ 143 by omega)).trans_lt (by decide)
  have hge : 0x84 ≤ leadValue 4 7 (n + 16) :=
    leadValue_zero.symm.trans_le (hmono.monotone (show 16 ≤ n + 16 by omega))
  have hseg : segmentBits (leadValue 4 7 (n + 16)) = n := by
    have h := segmentBits_add (by omega) hlt
    rw [leadCode_leadValue (by decide)] at h
    omega
  rcases hcases with rfl | rfl
  · have hval : min ((leadValue 4 7 (n + 16) : ℤ) - 0x84 + 0x84).toNat 0x7fff =
        leadValue 4 7 (n + 16) := by omega
    rw [(ulawToS16_ofNat n hn).1, s16ToUlaw, if_neg (by omega), hval, hseg]
  · have hpos : 0 < n := by
      rcases Nat.eq_zero_or_pos n with rfl | h
      · exact absurd rfl hcode
      · exact h
    have hgt := leadValue_zero.symm.trans_lt (hmono (show 16 < n + 16 by omega))
    have hval : min ((0x84 : ℤ) - (0x84 - leadValue 4 7 (n + 16))).toNat 0x7fff =
        leadValue 4 7 (n + 16) := by omega
    rw [(ulawToS16_ofNat n hn).2, s16ToUlaw, if_pos (by omega), hval, hseg]

/-- **Samples and codes of µ-law.** The sample that a code stands for has this code, but for one of
the two codes of zero. What becomes of a sample of 16 bits is off by at most a 32nd of it, with
`0x84` added, and the order is kept for all `int`s whose magnitude with `0x84` added is one. -/
theorem mulaw_sample :
    (∀ code, s16ToUlaw (ulawToS16 code) = if code = 0x7f then 0xff else code) ∧
      (∀ x : ℤ, -2 ^ 15 ≤ x → x < 2 ^ 15 →
        32 * |ulawToS16 (s16ToUlaw x) - x| ≤ |x| + 0x84) ∧
      ∀ x y : ℤ, 0x84 - 2 ^ 31 < x → x ≤ y → y + 0x84 < 2 ^ 31 →
        ulawToS16 (s16ToUlaw x) ≤ ulawToS16 (s16ToUlaw y) := by
  refine ⟨fun code => ?_, fun _ => ulaw_near, fun _ _ _ hxy _ => ulaw_mono hxy⟩
  split_ifs with h
  · rw [h]
    decide
  · exact ulaw_code h

end Ulaw

/-! ## Blocks of samples -/

section Blocks

variable {x : ℤ} {xs : List ℤ}

/-- Samples with the high byte first. -/
def bigEndian (xs : List ℤ) : Bytes := xs.flatMap fun x => (shortBytes x).reverse

/-- Samples with the low byte first. -/
def littleEndian (xs : List ℤ) : Bytes := xs.flatMap shortBytes

/-- A sample of 16 bits. -/
def IsShort (x : ℤ) : Prop := -2 ^ 15 ≤ x ∧ x < 2 ^ 15

/-- The bytes of a `short` are those that it is read from. -/
theorem shortAt_shortBytes (hx : IsShort x) :
    shortAt ((shortBytes x).getD 0 0) ((shortBytes x).getD 1 0) = x := by
  obtain ⟨hlow, hhigh⟩ := hx
  simp only [shortBytes, List.getD_cons_zero, List.getD_cons_succ, shortAt, UInt8.toNat_ofNat']
  split_ifs <;> omega

/-- Samples that are encoded, each from the two bytes that `bytes` makes of it. -/
theorem mapGroups_enc {enc : ℤ → UInt8} {bytes : ℤ → Bytes} {round : Bytes → Bytes}
    (hlen : ∀ x, (bytes x).length = 2) (hround : ∀ x, IsShort x → round (bytes x) = [enc x])
    (hxs : ∀ x ∈ xs, IsShort x) (rest : Bytes) :
    mapGroups 2 round xs.length (xs.flatMap bytes ++ rest) = xs.map enc := by
  induction xs with
  | nil => rfl
  | cons x xs ih =>
    rw [List.length_cons, mapGroups, List.flatMap_cons, List.append_assoc,
      List.take_left' (hlen x), List.drop_left' (hlen x), hround x (hxs x List.mem_cons_self),
      ih fun x hx => hxs x (List.mem_cons_of_mem _ hx)]
    rfl

/-- Codes that are decoded, each to the two bytes of a sample. -/
theorem mapGroups_dec {dec : UInt8 → ℤ} {round : Bytes → Bytes}
    (hround : ∀ code, round [code] = shortBytes (dec code)) (codes rest : Bytes) :
    mapGroups 1 round codes.length (codes ++ rest) = littleEndian (codes.map dec) := by
  induction codes with
  | nil => rfl
  | cons code codes ih =>
    rw [List.length_cons, List.cons_append, mapGroups]
    exact congrArg₂ (· ++ ·) (hround code) ih

/-- Two bytes for each sample. -/
theorem length_flatMap_two {bytes : ℤ → Bytes} (hlen : ∀ x, (bytes x).length = 2) (xs : List ℤ) :
    (xs.flatMap bytes).length = xs.length * 2 := by
  simp [List.length_flatMap, hlen]

/-- Samples with the high byte first that become A-law and samples again, with the low byte first.
There is a code for each sample, what comes out is near the sample that it was, and nothing behind
them is touched. -/
theorem alaw_block (xs : List ℤ) (pcmSize : ℤ) (rest alawData s16Data : Bytes)
    (hxs : ∀ x ∈ xs, IsShort x) (hsize : (pcmSize.tdiv 2).toNat = xs.length)
    (halaw : xs.length ≤ alawData.length) (hs16 : 2 * xs.length ≤ s16Data.length) :
    ∃ codes ys, codes.length = xs.length ∧ alawEnc (bigEndian xs ++ rest) alawData pcmSize =
        .ok (codes ++ alawData.drop xs.length) ∧
      alawDec (codes ++ alawData.drop xs.length) s16Data xs.length =
        .ok (littleEndian ys ++ s16Data.drop (2 * xs.length)) ∧
      List.Forall₂ (fun x y => 32 * |y - x| ≤ max |x| 256) xs ys := by
  refine ⟨xs.map s16ToAlaw, xs.map fun x => alawToS16 (s16ToAlaw x), List.length_map .., ?_, ?_, ?_⟩
  · have hlen : (bigEndian xs).length = xs.length * 2 := length_flatMap_two (fun _ => rfl) xs
    have hround : ∀ g : Bytes, g.length = 2 → (alawEncRound g).length = 1 := fun _ _ => rfl
    have hcodes := @mapGroups_enc _ s16ToAlaw (fun x => (shortBytes x).reverse) alawEncRound
      (fun _ => rfl) (fun x hx => congrArg (fun y => [s16ToAlaw y]) (shortAt_shortBytes hx)) hxs rest
    unfold alawEnc
    rw [hsize, convertLoop_eq hround (by simp [hlen]) (by omega), Nat.mul_one, bigEndian, hcodes]
  · have hcodes := @mapGroups_dec _ alawDecRound (fun _ => rfl) (xs.map s16ToAlaw)
      (alawData.drop xs.length)
    rw [List.length_map] at hcodes
    have hround : ∀ g : Bytes, g.length = 1 → (alawDecRound g).length = 2 := fun _ _ => rfl
    unfold alawDec
    rw [Int.toNat_natCast, convertLoop_eq hround (by simp) (by omega), hcodes, List.map_map,
      Nat.mul_comm]
    rfl
  · rw [List.forall₂_map_right_iff, List.forall₂_same]
    exact fun x hx => alaw_near (hxs x hx).1 (hxs x hx).2

/-- Three samples in buffers that are longer. -/
theorem alaw_block_three :
    ∃ codes ys, codes.length = 3 ∧
      alawEnc (bigEndian [-32768, 5, 1000] ++ [9]) [0, 0, 0, 0] 7 = .ok (codes ++ [0]) ∧
      alawDec (codes ++ [0]) (List.replicate 7 1) 3 = .ok (littleEndian ys ++ [1]) ∧
      List.Forall₂ (fun x y => 32 * |y - x| ≤ max |x| 256) [-32768, 5, 1000] ys :=
  alaw_block [-32768, 5, 1000] 7 [9] [0, 0, 0, 0] (List.replicate 7 1) (by unfold IsShort; decide)
    (by decide) (by decide) (by decide)

/-- A frame of 160 samples that becomes µ-law and samples again. -/
theorem mulaw_frame (xs : List ℤ) (mulawData s16Data : Bytes) (hxs : ∀ x ∈ xs, IsShort x)
    (hlen : xs.length = 160) (hmulaw : 160 ≤ mulawData.length) (hs16 : 320 ≤ s16Data.length) :
    ∃ codes ys, mulawEnc (littleEndian xs) mulawData 320 = .ok (codes ++ mulawData.drop 160) ∧
      mulawDec (codes ++ mulawData.drop 160) s16Data = .ok (littleEndian ys ++ s16Data.drop 320) ∧
      List.Forall₂ (fun x y => 32 * |y - x| ≤ |x| + 0x84) xs ys := by
  refine ⟨xs.map s16ToUlaw, xs.map fun x => ulawToS16 (s16ToUlaw x), ?_, ?_, ?_⟩
  · have hsrc : (littleEndian xs).length = 160 * 2 := by
      rw [← hlen]
      exact length_flatMap_two (fun _ => rfl) xs
    have hround : ∀ g : Bytes, g.length = 2 → (mulawEncRound g).length = 1 := fun _ _ => rfl
    have hcodes := @mapGroups_enc _ s16ToUlaw shortBytes mulawEncRound (fun _ => rfl)
      (fun x hx => congrArg (fun y => [s16ToUlaw y]) (shortAt_shortBytes hx)) hxs []
    rw [List.append_nil, hlen] at hcodes
    have hlimit : (Int.tdiv 320 2).toNat = 160 := by decide
    unfold mulawEnc
    rw [hlimit, convertLoop_eq hround hsrc.ge hmulaw, littleEndian]
    exact congrArg (fun codes => Except.ok (codes ++ _)) hcodes
  · have hcodes := @mapGroups_dec _ mulawDecRound (fun _ => rfl) (xs.map s16ToUlaw)
      (mulawData.drop 160)
    have hround : ∀ g : Bytes, g.length = 1 → (mulawDecRound g).length = 2 := fun _ _ => rfl
    rw [List.length_map, hlen] at hcodes
    unfold mulawDec
    rw [convertLoop_eq hround (by simp [hlen]) hs16, hcodes, List.map_map]
    rfl
  · rw [List.forall₂_map_right_iff, List.forall₂_same]
    exact fun x hx => ulaw_near (hxs x hx).1 (hxs x hx).2

end Blocks

end Spook
