import Spook.Lib.Reads
import Spook.SoundConv

set_option relaxedAutoImplicit false
set_option autoImplicit false

/-!
# ADPCM

`adpcm_decode` of `input-audio.c`, and the call of it in `get_audio_chunk_cb`. A code of four bits is
the difference to the sample before it, in steps whose size follows the codes. A chunk starts with the
sample and the index of the step size from which its codes go on.

The device makes the codes, by a function that is not part of the program. Nothing is said of it:
`nearCode` is a code for a sample that is good enough to show how close the decoder can be brought to
any signal.

## Main definitions

* `Spook.adpcmDecode` — `adpcm_decode`.
* `Spook.adpcmChunk` — what `get_audio_chunk_cb` makes of a chunk.
* `Spook.AdpcmState.steps` — the states before and behind each code.
* `Spook.AdpcmState.Overloads` — a sample that no code reaches.

## Main results

* `Spook.adpcm_chunk` — when the callback stays inside its buffers and tables, and what it makes.
* `Spook.adpcm_tracks` — how close the decoder comes to a signal with the right codes.
-/

namespace Spook

/-! ## The functions of the source -/

/-- `index_adjust`. -/
def indexAdjust : List ℤ := [-1, -1, -1, -1, 2, 4, 6, 8]

/-- `step_table`. -/
def stepTable : List ℤ :=
  [7, 8, 9, 10, 11, 12, 13, 14, 16, 17, 19, 21, 23, 25, 28, 31, 34, 37, 41, 45,
    50, 55, 60, 66, 73, 80, 88, 97, 107, 118, 130, 143, 157, 173, 190, 209, 230, 253, 279, 307, 337,
    371, 408, 449, 494, 544, 598, 658, 724, 796, 876, 963, 1060, 1166, 1282, 1411, 1552, 1707, 1878,
    2066, 2272, 2499, 2749, 3024, 3327, 3660, 4026, 4428, 4871, 5358, 5894, 6484, 7132, 7845, 8630,
    9493, 10442, 11487, 12635, 13899, 15289, 16818, 18500, 20350, 22385, 24623, 27086, 29794, 32767]

/-- `pre_sample` and `index`. -/
structure AdpcmState where
  sample : ℤ
  index : ℤ
  deriving DecidableEq

/-- `step_table[* index]`. -/
def AdpcmState.step (s : AdpcmState) : Except Fault ℤ :=
  if 0 ≤ s.index then readIn stepTable .overread s.index.toNat else .error .overread

/-- `x`, but no less than `low` and no more than `high`. -/
def clamp (low high x : ℤ) : ℤ := max low (min high x)

/-- What a code changes, where the step size is `step`. -/
def AdpcmState.update (s : AdpcmState) (step : ℤ) (code : ℕ) : AdpcmState :=
  let magnitude := code % 8
  let delta := step * magnitude / 4 + step / 8
  { sample := clamp (-32768) 32767 (s.sample + if code / 8 % 2 = 1 then -delta else delta)
    index := clamp 0 88 (s.index + indexAdjust.getD magnitude 0) }

/-- The code `i` of the bytes `raw`: the high half of a byte comes first. -/
def codeAt (raw : Bytes) (i : ℕ) : Except Fault ℕ := do
  let b ← readIn raw .overread (i / 2)
  pure (if i % 2 = 1 then (b &&& 0x0f).toNat else (b >>> 4).toNat)

/-- `n` rounds of the loop of `adpcm_decode`, from round `i` on. -/
def adpcmLoop (raw : Bytes) : ℕ → ℕ → AdpcmState → Bytes → Except Fault (AdpcmState × Bytes)
  | 0, _, s, pcm => .ok (s, pcm)
  | n + 1, i, s, pcm => do
    let code ← codeAt raw i
    let step ← s.step
    let s := s.update step code
    let pcm ← storeIn .overrun pcm (2 * i) (shortBytes s.sample)
    adpcmLoop raw n (i + 1) s pcm

/-- `adpcm_decode`. -/
def adpcmDecode (raw : Bytes) (len : ℤ) (decoded : Bytes) (s : AdpcmState) :
    Except Fault (AdpcmState × Bytes) :=
  adpcmLoop raw (len * 2).toNat 0 s decoded

/-- `n` rounds of the loop of `get_audio_chunk_cb` that swaps the bytes of the samples. -/
def swapLoop : ℕ → ℕ → Bytes → Except Fault Bytes
  | 0, _, d => .ok d
  | n + 1, i, d => do
    let group ← loadIn .overread d (2 * i) 2
    let d ← storeIn .overrun d (2 * i) group.reverse
    swapLoop n (i + 1) d

/-- The `short` at an address. -/
def shortIn (data : Bytes) (i : ℕ) : Except Fault ℤ := do
  let low ← readIn data .overread i
  let high ← readIn data .overread (i + 1)
  pure (shortAt low high)

/-- What `get_audio_chunk_cb` puts into the frame for a chunk of ADPCM on a stream of another format;
`memory` is what `malloc` returns. -/
def adpcmChunk (data : Bytes) (len : UInt32) (memory : Option Bytes) :
    Except Fault (Option Bytes) :=
  let len := len - 4
  match memory with
  | none => .ok none
  | some d => do
    let sample ← shortIn data 0
    let index ← shortIn data 2
    let (_, d) ← adpcmDecode (data.drop 4) (Int.bmod len.toNat (2 ^ 32)) d ⟨sample, index⟩
    let length := Int.bmod (len <<< 2).toNat (2 ^ 32)
    let d ← swapLoop ((length + 1) / 2).toNat 0 d
    pure (some d)

/-! ## Codes -/

/-- The index is one of the table. -/
def AdpcmState.Valid (s : AdpcmState) : Prop := 0 ≤ s.index ∧ s.index ≤ 88

instance decidableValid (s : AdpcmState) : Decidable s.Valid := inferInstanceAs (Decidable (_ ∧ _))

/-- The step size of a state. -/
def AdpcmState.stepSize (s : AdpcmState) : ℤ := stepTable.getD s.index.toNat 0

/-- The state behind a code. -/
def AdpcmState.next (s : AdpcmState) (code : ℕ) : AdpcmState := s.update s.stepSize code

/-- The states behind some codes, one after the other. -/
def AdpcmState.states : AdpcmState → List ℕ → List AdpcmState
  | _, [] => []
  | s, code :: codes => s.next code :: (s.next code).states codes

/-- The two codes of a byte. -/
def byteCodes (b : UInt8) : List ℕ := [(b >>> 4).toNat, (b &&& 0x0f).toNat]

/-- The codes of some bytes. -/
def codesOf (raw : Bytes) : List ℕ := raw.flatMap byteCodes

section Codes

variable {s : AdpcmState} {raw : Bytes} {i n code : ℕ} {low high x : ℤ}

/-- What is clamped lies between the bounds. -/
theorem clamp_mem (h : low ≤ high) : low ≤ clamp low high x ∧ clamp low high x ≤ high := by
  unfold clamp
  omega

/-- An index of the table has a step size. -/
theorem step_of_valid (h : s.Valid) : s.step = .ok s.stepSize := by
  obtain ⟨hlow, hhigh⟩ := h
  have hlen : s.index.toNat < stepTable.length := by
    have : stepTable.length = 89 := rfl
    omega
  unfold AdpcmState.step AdpcmState.stepSize readIn
  rw [if_pos hlow, List.getElem?_eq_getElem hlen, List.getElem_eq_getD (h := hlen)]

/-- Any other index is read outside of the table. -/
theorem step_of_not_valid (h : ¬ s.Valid) : s.step = .error .overread := by
  unfold AdpcmState.step readIn
  split_ifs with hlow
  · have hlen : stepTable.length ≤ s.index.toNat := by
      have : stepTable.length = 89 := rfl
      unfold AdpcmState.Valid at h
      omega
    rw [List.getElem?_eq_none hlen]
  · rfl

/-- Behind a code the index is one of the table. -/
theorem valid_next : (s.next code).Valid := clamp_mem (by decide)

/-- Behind a code the sample has 16 bits. -/
theorem isShort_next : IsShort (s.next code).sample := by
  have h : -32768 ≤ (s.next code).sample ∧ (s.next code).sample ≤ 32767 := clamp_mem (by decide)
  unfold IsShort
  omega

/-- One state to a code. -/
@[simp] theorem length_states (codes : List ℕ) : (s.states codes).length = codes.length := by
  induction codes generalizing s with
  | nil => rfl
  | cons code codes ih => exact congrArg (· + 1) ih

/-- Two codes for each byte. -/
theorem length_codesOf (raw : Bytes) : (codesOf raw).length = 2 * raw.length := by
  simp [codesOf, byteCodes, List.length_flatMap, Nat.mul_comm]

/-- The code `i` is the one that the halves of the bytes give in order. -/
theorem codeAt_eq (h : i < 2 * raw.length) : codeAt raw i = .ok ((codesOf raw).getD i 0) := by
  induction raw generalizing i with
  | nil => simp at h
  | cons b raw ih =>
    rcases i with _ | _ | i
    · rfl
    · rfl
    · have hdiv : (i + 2) / 2 = i / 2 + 1 := by omega
      have hmod : (i + 2) % 2 = i % 2 := by omega
      have hrest : codeAt (b :: raw) (i + 2) = codeAt raw i := by
        unfold codeAt readIn
        rw [hdiv, hmod, List.getElem?_cons_succ]
      rw [hrest, ih (by simp at h; omega)]
      rfl

end Codes

/-! ## The loops -/

section Loops

variable {s : AdpcmState} {raw done dst : Bytes} {i n : ℕ} {xs : List ℤ}

/-- The bytes of the first sample come first. -/
theorem littleEndian_cons (x : ℤ) (xs : List ℤ) :
    littleEndian (x :: xs) = shortBytes x ++ littleEndian xs := rfl

/-- The loop stores a sample for each code. -/
theorem adpcmLoop_eq (h : s.Valid) (hdone : done.length = 2 * i) (hraw : i + n ≤ 2 * raw.length)
    (hdst : 2 * n ≤ dst.length) :
    ∃ s', adpcmLoop raw n i s (done ++ dst) = .ok (s', done ++
      (littleEndian ((s.states (((codesOf raw).drop i).take n)).map AdpcmState.sample) ++
        dst.drop (2 * n))) := by
  induction n generalizing i s done dst with
  | zero => exact ⟨s, by simp [adpcmLoop, AdpcmState.states, littleEndian]⟩
  | succ n ih =>
    have hi : i < (codesOf raw).length := by
      rw [length_codesOf]
      omega
    have hcode := @codeAt_eq raw i (by omega)
    have hstore : storeIn (.overrun : Fault) (done ++ (dst.take 2 ++ dst.drop 2)) done.length
        (shortBytes (s.next ((codesOf raw).getD i 0)).sample) = _ :=
      storeIn_append _ _ _ (by rw [List.length_take, shortBytes]; simp; omega)
    rw [List.take_append_drop, hdone] at hstore
    obtain ⟨s', hrest⟩ := @ih (s.next ((codesOf raw).getD i 0)) (done ++ shortBytes _) (dst.drop 2)
      (i + 1) valid_next (by simp [hdone, shortBytes]; omega) (by omega) (by simp; omega)
    refine ⟨s', ?_⟩
    have hcodes : ((codesOf raw).drop i).take (n + 1) =
        (codesOf raw).getD i 0 :: ((codesOf raw).drop (i + 1)).take n := by
      rw [List.drop_eq_getElem_cons hi, List.take_succ_cons, List.getElem_eq_getD (h := hi)]
    rw [adpcmLoop, hcode, ok_bind, step_of_valid h, ok_bind]
    dsimp only
    rw [show s.update s.stepSize ((codesOf raw).getD i 0) = s.next ((codesOf raw).getD i 0) from rfl,
      hstore, ok_bind, ← List.append_assoc, hrest, hcodes]
    simp only [AdpcmState.states, List.map_cons, littleEndian_cons, List.append_assoc,
      List.drop_drop]
    rw [show 2 + 2 * n = 2 * (n + 1) by omega]

/-- Without a step size the loop fails in its first round. -/
theorem adpcmLoop_of_not_valid (h : ¬ s.Valid) (hraw : i < 2 * raw.length) (pcm : Bytes) :
    adpcmLoop raw (n + 1) i s pcm = .error .overread := by
  rw [adpcmLoop, codeAt_eq hraw, ok_bind, step_of_not_valid h]
  rfl

/-- The loop turns the samples around. -/
theorem swapLoop_eq (hdone : done.length = 2 * i) :
    swapLoop xs.length i (done ++ littleEndian xs) = .ok (done ++ bigEndian xs) := by
  induction xs generalizing i done with
  | nil => rfl
  | cons x xs ih =>
    have hload : loadIn (.overread : Fault) (done ++ (shortBytes x ++ littleEndian xs)) done.length 2 =
        .ok (shortBytes x) := loadIn_append _ _ _ _
    have hstore : storeIn (.overrun : Fault) (done ++ (shortBytes x ++ littleEndian xs)) done.length
        (shortBytes x).reverse = _ := storeIn_append _ _ _ (by simp)
    rw [hdone] at hload hstore
    have hrest := @ih (done ++ (shortBytes x).reverse) (i + 1) (by simp [hdone, shortBytes]; omega)
    rw [littleEndian_cons, List.length_cons, swapLoop, hload, ok_bind, hstore, ok_bind,
      ← List.append_assoc, hrest, List.append_assoc]
    rfl

end Loops

/-! ## Chunks -/

/-- A chunk: the state from which its codes go on, and its codes. -/
def chunkBytes (s : AdpcmState) (raw : Bytes) : Bytes :=
  shortBytes s.sample ++ (shortBytes s.index ++ raw)

/-- The call of `adpcm_decode` and the loop behind it, for a chunk that is not too long. -/
theorem adpcmChunk_eq {s : AdpcmState} {raw memory : Bytes} (hsample : IsShort s.sample)
    (hindex : IsShort s.index) (hraw : raw.length < 2 ^ 29) :
    adpcmChunk (chunkBytes s raw) (UInt32.ofNat (raw.length + 4)) (some memory) =
      (adpcmLoop raw (2 * raw.length) 0 s memory >>= fun r =>
        swapLoop (2 * raw.length) 0 r.2 >>= fun d => .ok (some d)) := by
  have hlen : UInt32.ofNat (raw.length + 4) - 4 = UInt32.ofNat raw.length := by
    rw [UInt32.ofNat_add]
    exact UInt32.add_sub_cancel _ _
  have hnat : (UInt32.ofNat raw.length).toNat = raw.length := by
    rw [UInt32.toNat_ofNat']
    exact Nat.mod_eq_of_lt (by omega)
  have hshift : (UInt32.ofNat raw.length <<< 2).toNat = 4 * raw.length := by
    rw [UInt32.toNat_shiftLeft, hnat, Nat.shiftLeft_eq]
    have htwo : (2 : UInt32).toNat % 32 = 2 := rfl
    rw [htwo, Nat.mod_eq_of_lt (by omega), Nat.mul_comm]
  have hread : shortIn (chunkBytes s raw) 0 = .ok s.sample ∧
      shortIn (chunkBytes s raw) 2 = .ok s.index :=
    ⟨congrArg Except.ok (shortAt_shortBytes hsample), congrArg Except.ok (shortAt_shortBytes hindex)⟩
  have hdrop : (chunkBytes s raw).drop 4 = raw := rfl
  unfold adpcmChunk adpcmDecode
  dsimp only
  rw [hlen, hnat, hshift, hread.1, ok_bind, hread.2, ok_bind, hdrop,
    Int.bmod_eq_of_le (by omega) (by omega), Int.bmod_eq_of_le (by omega) (by omega),
    show ((raw.length : ℤ) * 2).toNat = 2 * raw.length by omega,
    show ((((4 * raw.length : ℕ) : ℤ) + 1) / 2).toNat = 2 * raw.length by omega]
  rfl

/-- The frame that a chunk becomes. -/
theorem chunk_of_valid {s : AdpcmState} {raw memory : Bytes} (h : s.Valid) (hsample : IsShort s.sample)
    (hindex : IsShort s.index) (hraw : raw.length < 2 ^ 29) (hmemory : memory.length = 4 * raw.length) :
    adpcmChunk (chunkBytes s raw) (UInt32.ofNat (raw.length + 4)) (some memory) =
      .ok (some (bigEndian ((s.states (codesOf raw)).map AdpcmState.sample))) := by
  obtain ⟨s', hloop⟩ := @adpcmLoop_eq s raw [] memory 0 (2 * raw.length) h rfl (by omega) (by omega)
  have hall : ((codesOf raw).drop 0).take (2 * raw.length) = codesOf raw := by
    rw [List.drop_zero, List.take_of_length_le (length_codesOf raw).le]
  have hrest : memory.drop (2 * (2 * raw.length)) = [] := List.drop_eq_nil_of_le (by omega)
  rw [hall, hrest, List.append_nil, List.nil_append, List.nil_append] at hloop
  have hswap := @swapLoop_eq [] 0 ((s.states (codesOf raw)).map AdpcmState.sample) rfl
  rw [List.length_map, length_states, length_codesOf, List.nil_append, List.nil_append] at hswap
  rw [adpcmChunk_eq hsample hindex hraw, hloop, ok_bind, hswap]
  rfl

/-- **A chunk of ADPCM.** The callback stays inside its buffers and tables exactly when there are no
codes or the index at the start of the chunk is one of the table. It then fills all of the memory,
with a sample of 16 bits for each code, the high byte first. -/
theorem adpcm_chunk (s : AdpcmState) (raw memory : Bytes) (hsample : IsShort s.sample)
    (hindex : IsShort s.index) (hraw : raw.length < 2 ^ 29) (hmemory : memory.length = 4 * raw.length) :
    ((∃ r, adpcmChunk (chunkBytes s raw) (UInt32.ofNat (raw.length + 4)) (some memory) = .ok r) ↔
      raw = [] ∨ s.Valid) ∧
    (s.Valid → adpcmChunk (chunkBytes s raw) (UInt32.ofNat (raw.length + 4)) (some memory) =
      .ok (some (bigEndian ((s.states (codesOf raw)).map AdpcmState.sample)))) ∧
    ∀ x ∈ (s.states (codesOf raw)).map AdpcmState.sample, IsShort x := by
  have hvalid := fun h : s.Valid => chunk_of_valid h hsample hindex hraw hmemory
  refine ⟨⟨fun ⟨r, hr⟩ => ?_, ?_⟩, hvalid, ?_⟩
  · by_cases h : s.Valid
    · exact .inr h
    · refine .inl (List.length_eq_zero_iff.1 ?_)
      by_contra hne
      obtain ⟨n, hn⟩ := Nat.exists_eq_succ_of_ne_zero (show 2 * raw.length ≠ 0 by omega)
      rw [adpcmChunk_eq hsample hindex hraw, hn, adpcmLoop_of_not_valid h (by omega)] at hr
      cases hr
  · rintro (rfl | h)
    · exact ⟨_, adpcmChunk_eq hsample hindex hraw⟩
    · exact ⟨_, hvalid h⟩
  · intro x hx
    obtain ⟨s', hs', rfl⟩ := List.mem_map.1 hx
    clear hx hvalid hsample hindex
    generalize codesOf raw = codes at hs'
    induction codes generalizing s with
    | nil => cases hs'
    | cons code codes ih =>
      rcases List.mem_cons.1 hs' with rfl | hs'
      · exact isShort_next
      · exact ih _ hs'

/-- Two bytes of codes from a state in the middle of the table. -/
theorem adpcm_chunk_two :
    ((∃ r, adpcmChunk (chunkBytes ⟨100, 20⟩ [0x12, 0xf7]) 6 (some (List.replicate 8 1)) = .ok r) ↔
      [0x12, 0xf7] = ([] : Bytes) ∨ AdpcmState.Valid ⟨100, 20⟩) ∧
    adpcmChunk (chunkBytes ⟨100, 20⟩ [0x12, 0xf7]) 6 (some (List.replicate 8 1)) =
      .ok (some (bigEndian [118, 145, 69, 234])) := by
  obtain ⟨hiff, hvalid, -⟩ := adpcm_chunk ⟨100, 20⟩ [0x12, 0xf7] (List.replicate 8 1)
    (by unfold IsShort; decide) (by unfold IsShort; decide) (by decide) (by decide)
  exact ⟨hiff, hvalid (by decide)⟩

/-! ## Codes for a signal -/

namespace AdpcmState

/-- The states before and behind each of some codes. -/
def steps : AdpcmState → List ℕ → List (AdpcmState × AdpcmState)
  | _, [] => []
  | s, code :: codes => (s, s.next code) :: (s.next code).steps codes

/-- A sample that is two steps away or more: no code makes up for the difference. -/
def Overloads (s : AdpcmState) (x : ℤ) : Prop := 2 * s.stepSize ≤ |x - s.sample|

/-- A code for a sample: the sign of the difference, and how many quarters of a step it is. -/
def nearCode (s : AdpcmState) (x : ℤ) : ℕ :=
  let magnitude := (min 7 (4 * |x - s.sample| / s.stepSize)).toNat
  if x < s.sample then magnitude + 8 else magnitude

/-- Such codes for some samples, one after the other. -/
def nearCodes : AdpcmState → List ℤ → List ℕ
  | _, [] => []
  | s, x :: xs => s.nearCode x :: (s.next (s.nearCode x)).nearCodes xs

/-- The samples, each with the state before its code. -/
def follow : AdpcmState → List ℤ → List (AdpcmState × ℤ)
  | _, [] => []
  | s, x :: xs => (s, x) :: (s.next (s.nearCode x)).follow xs

/-- The state behind some samples. -/
def after : AdpcmState → List ℤ → AdpcmState
  | s, [] => s
  | s, x :: xs => (s.next (s.nearCode x)).after xs

/-- What the decoder makes of the code for a sample. -/
def decoded (s : AdpcmState) (x : ℤ) : ℤ := (s.next (s.nearCode x)).sample

variable {s : AdpcmState} {x y : ℤ} {xs ys : List ℤ}

/-- The step sizes of the table. -/
theorem stepSize_mem (h : s.Valid) : 7 ≤ s.stepSize ∧ s.stepSize ≤ 32767 := by
  have hall : ∀ i < 89, 7 ≤ stepTable.getD i 0 ∧ stepTable.getD i 0 ≤ 32767 := by decide
  obtain ⟨hlow, hhigh⟩ := h
  exact hall s.index.toNat (by omega)

/-- The magnitude of the code for a sample. -/
def magnitude (s : AdpcmState) (x : ℤ) : ℤ := min 7 (4 * |x - s.sample| / s.stepSize)

/-- A magnitude has three bits. -/
theorem magnitude_mem (h : s.Valid) : 0 ≤ s.magnitude x ∧ s.magnitude x ≤ 7 := by
  obtain ⟨hstep, -⟩ := stepSize_mem h
  have hdiv : 0 ≤ 4 * |x - s.sample| / s.stepSize :=
    Int.ediv_nonneg (by positivity) (by omega)
  unfold magnitude
  omega

/-- The difference and the index that the code for a sample stands for. -/
theorem next_nearCode (h : s.Valid) : s.next (s.nearCode x) =
    { sample := clamp (-32768) 32767 (s.sample +
        if x < s.sample then -(s.stepSize * s.magnitude x / 4 + s.stepSize / 8)
        else s.stepSize * s.magnitude x / 4 + s.stepSize / 8)
      index := clamp 0 88 (s.index + indexAdjust.getD (s.magnitude x).toNat 0) } := by
  obtain ⟨hlow, hhigh⟩ := magnitude_mem (x := x) h
  have hmod : s.nearCode x % 8 = (s.magnitude x).toNat := by
    change (if x < s.sample then (s.magnitude x).toNat + 8 else (s.magnitude x).toNat) % 8 = _
    split_ifs <;> omega
  have hsign : s.nearCode x / 8 % 2 = 1 ↔ x < s.sample := by
    change (if x < s.sample then (s.magnitude x).toNat + 8 else (s.magnitude x).toNat) / 8 % 2 = 1 ↔ _
    split_ifs with hx
    · exact iff_of_true (by omega) hx
    · exact iff_of_false (by omega) hx
  unfold next update
  simp only [hmod, hsign, Int.toNat_of_nonneg hlow]

/-- **One sample.** -/
theorem decoded_near (h : s.Valid) (hx : IsShort x) (hover : ¬ s.Overloads x) :
    8 * |s.decoded x - x| ≤ s.stepSize + 11 := by
  obtain ⟨hstep, -⟩ := stepSize_mem h
  unfold Overloads at hover
  have hm : s.magnitude x = 4 * |x - s.sample| / s.stepSize := by
    refine min_eq_right (Int.le_of_lt_add_one ?_)
    exact Int.ediv_lt_of_lt_mul (by omega) (by omega)
  -- the quarters of a step that are in the difference
  have hlow : s.stepSize * s.magnitude x ≤ 4 * |x - s.sample| := by
    rw [hm]
    exact Int.mul_ediv_self_le (by omega)
  have hhigh : 4 * |x - s.sample| < s.stepSize * s.magnitude x + s.stepSize := by
    rw [hm]
    exact Int.lt_mul_ediv_self_add (by omega)
  unfold decoded
  rw [next_nearCode h]
  generalize s.stepSize * s.magnitude x = p at hlow hhigh ⊢
  unfold IsShort at hx
  have habs : ∀ z k : ℤ, 8 * z ≤ k → -(8 * z) ≤ k → 8 * |z| ≤ k := fun z k h₁ h₂ => by
    rcases abs_cases z with ⟨hz, -⟩ | ⟨hz, -⟩ <;> omega
  unfold clamp
  dsimp only
  split_ifs with hlt
  · rw [abs_of_neg (by omega)] at hlow hhigh
    apply habs <;> omega
  · rw [abs_of_nonneg (by omega)] at hlow hhigh
    apply habs <;> omega

/-- Of a difference that is too large the code has the largest magnitude. -/
theorem magnitude_of_overloads (h : s.Valid) (hover : s.Overloads x) : s.magnitude x = 7 := by
  obtain ⟨hstep, -⟩ := stepSize_mem h
  unfold Overloads at hover
  exact min_eq_left ((Int.le_ediv_iff_mul_le (by omega)).2 (by omega))

/-- A code that cannot make up for the difference makes it smaller. -/
theorem decoded_closer (h : s.Valid) (hx : IsShort x) (hover : s.Overloads x) :
    |s.decoded x - x| < |x - s.sample| := by
  obtain ⟨hstep, -⟩ := stepSize_mem h
  unfold decoded
  rw [next_nearCode h, magnitude_of_overloads h hover]
  unfold Overloads at hover
  unfold IsShort at hx
  have habs : ∀ z k : ℤ, z < k → -z < k → |z| < k := fun z k h₁ h₂ => abs_lt.2 ⟨by omega, h₁⟩
  unfold clamp
  dsimp only
  split_ifs with hlt
  · rw [abs_of_neg (show x - s.sample < 0 by omega)] at hover ⊢
    apply habs <;> omega
  · rw [abs_of_nonneg (show 0 ≤ x - s.sample by omega)] at hover ⊢
    apply habs <;> omega

/-- The step size grows with every such code. -/
theorem index_of_overloads (h : s.Valid) (hover : s.Overloads x) :
    (s.next (s.nearCode x)).index = min 88 (s.index + 8) := by
  have hlow := h.1
  rw [next_nearCode h, magnitude_of_overloads h hover]
  have hadjust : indexAdjust.getD (Int.toNat 7) 0 = 8 := rfl
  rw [hadjust]
  unfold clamp
  dsimp only
  omega

/-- With the largest step size two samples in a row are never too far away. -/
theorem not_overloads_twice (h : s.index = 88) (hs : IsShort s.sample) (hx : IsShort x)
    (hy : IsShort y) (hover : s.Overloads x) : ¬ (s.next (s.nearCode x)).Overloads y := by
  have hvalid : s.Valid := by
    unfold Valid
    omega
  have hstep : s.stepSize = 32767 := by
    unfold stepSize
    rw [h]
    rfl
  have hindex := index_of_overloads hvalid hover
  have hstep' : (s.next (s.nearCode x)).stepSize = 32767 := by
    unfold stepSize
    rw [hindex, h]
    rfl
  have hmag := magnitude_of_overloads hvalid hover
  unfold Overloads at hover ⊢
  rw [hstep']
  rw [hstep] at hover
  rw [next_nearCode hvalid, hmag, hstep]
  unfold IsShort at hs hx hy
  unfold clamp
  dsimp only
  rw [not_le, abs_lt]
  split_ifs with hlt
  · rw [abs_of_neg (by omega)] at hover
    omega
  · rw [abs_of_nonneg (by omega)] at hover
    omega

/-! ### Signals -/

/-- A code has four bits. -/
theorem nearCode_lt (h : s.Valid) : s.nearCode x < 16 := by
  obtain ⟨-, hhigh⟩ := magnitude_mem (x := x) h
  change (if x < s.sample then (s.magnitude x).toNat + 8 else (s.magnitude x).toNat) < 16
  split_ifs <;> omega

/-- A code has four bits. -/
theorem nearCodes_lt (h : s.Valid) : ∀ code ∈ s.nearCodes xs, code < 16 := by
  induction xs generalizing s with
  | nil => exact fun code hcode => absurd hcode List.not_mem_nil
  | cons x xs ih =>
    intro code hcode
    rcases List.mem_cons.1 hcode with rfl | hcode
    · exact nearCode_lt h
    · exact ih valid_next code hcode

/-- One code to a sample. -/
@[simp] theorem length_nearCodes : (s.nearCodes xs).length = xs.length := by
  induction xs generalizing s with
  | nil => rfl
  | cons x xs ih => exact congrArg (· + 1) ih

/-- The states before and behind the codes of samples, with the samples. -/
theorem zip_steps_nearCodes : (s.steps (s.nearCodes xs)).zip xs =
    (s.follow xs).map fun e => ((e.1, e.1.next (e.1.nearCode e.2)), e.2) := by
  induction xs generalizing s with
  | nil => rfl
  | cons x xs ih => exact congrArg (((s, s.next (s.nearCode x)), x) :: ·) ih

/-- Samples behind others are coded from the state that those leave. -/
theorem follow_append : s.follow (xs ++ ys) = s.follow xs ++ (s.after xs).follow ys := by
  induction xs generalizing s with
  | nil => rfl
  | cons x xs ih => exact congrArg ((s, x) :: ·) ih

/-- The samples that were followed. -/
@[simp] theorem map_snd_follow : (s.follow xs).map Prod.snd = xs := by
  induction xs generalizing s with
  | nil => rfl
  | cons x xs ih => exact congrArg (x :: ·) ih

/-- One state to a sample. -/
@[simp] theorem length_follow : (s.follow xs).length = xs.length := by
  rw [← List.length_map Prod.snd, map_snd_follow]

/-- Behind codes the index is one of the table. -/
theorem valid_after (h : s.Valid) : (s.after xs).Valid := by
  induction xs generalizing s with
  | nil => exact h
  | cons x xs ih => exact ih valid_next

/-- Behind codes the sample has 16 bits. -/
theorem isShort_after (h : IsShort s.sample) : IsShort (s.after xs).sample := by
  induction xs generalizing s with
  | nil => exact h
  | cons x xs ih => exact ih isShort_next

/-- The states before the codes have an index of the table. -/
theorem valid_follow (h : s.Valid) : ∀ e ∈ s.follow xs, e.1.Valid := by
  induction xs generalizing s with
  | nil => exact fun e he => absurd he List.not_mem_nil
  | cons x xs ih =>
    intro e he
    rcases List.mem_cons.1 he with rfl | he
    · exact h
    · exact ih valid_next e he

/-- Codes that cannot make up for the difference lead to the largest step size. -/
theorem index_after (h : s.Valid) (hover : ∀ e ∈ s.follow xs, e.1.Overloads e.2) :
    min 88 (s.index + 8 * xs.length) ≤ (s.after xs).index := by
  induction xs generalizing s with
  | nil =>
    have := h.2
    simp only [List.length_nil, after]
    omega
  | cons x xs ih =>
    have hnext : (s.next (s.nearCode x)).index = min 88 (s.index + 8) :=
      index_of_overloads h (hover (s, x) List.mem_cons_self)
    have hrest := @ih (s.next (s.nearCode x)) valid_next fun e he =>
      hover e (List.mem_cons_of_mem _ he)
    rw [List.length_cons, after]
    push_cast
    omega

/-- Of thirteen samples in a row one is not too far away. -/
theorem exists_not_overloads (h : s.Valid) (hs : IsShort s.sample) (hxs : ∀ x ∈ xs, IsShort x)
    (hlen : xs.length = 13) : ∃ e ∈ s.follow xs, ¬ e.1.Overloads e.2 := by
  by_contra hnone
  have hover : ∀ e ∈ s.follow xs, e.1.Overloads e.2 := fun e he => by
    by_contra hnot
    exact hnone ⟨e, he, hnot⟩
  obtain ⟨x, y, hxy⟩ := List.length_eq_two.1 (show (xs.drop 11).length = 2 by
    rw [List.length_drop, hlen])
  have hsplit : s.follow xs = s.follow (xs.take 11) ++ (s.after (xs.take 11)).follow [x, y] := by
    rw [← follow_append, ← hxy, List.take_append_drop]
  rw [hsplit] at hover
  have hlast := fun e he => hover e (List.mem_append_right _ he)
  have hindex : (s.after (xs.take 11)).index = 88 := by
    have hlow := index_after h fun e he => hover e (List.mem_append_left _ he)
    have hhigh := (@valid_after s (xs.take 11) h).2
    have := h.1
    rw [List.length_take, hlen] at hlow
    push_cast at hlow
    omega
  have hshort : IsShort (s.after (xs.take 11)).sample := isShort_after hs
  have hmem : ∀ z ∈ [x, y], IsShort z := fun z hz => hxs z (List.mem_of_mem_drop (hxy ▸ hz))
  generalize s.after (xs.take 11) = s' at hlast hindex hshort
  exact not_overloads_twice hindex hshort (hmem x List.mem_cons_self)
    (hmem y (List.mem_cons_of_mem x List.mem_cons_self)) (hlast (s', x) List.mem_cons_self)
    (hlast (_, y) (List.mem_cons_of_mem _ List.mem_cons_self))

end AdpcmState

/-- The bytes of some codes. -/
def packCodes : List ℕ → Bytes
  | c :: d :: codes => UInt8.ofNat (16 * c + d) :: packCodes codes
  | _ => []

/-- Codes of four bits are found again in the bytes that are made of them. -/
theorem codesOf_packCodes {n : ℕ} {codes : List ℕ} (hcodes : ∀ c ∈ codes, c < 16)
    (hlen : codes.length = 2 * n) :
    codesOf (packCodes codes) = codes ∧ (packCodes codes).length = n := by
  induction n generalizing codes with
  | zero =>
    obtain rfl := List.length_eq_zero_iff.1 hlen
    exact ⟨rfl, rfl⟩
  | succ n ih =>
    rcases codes with _ | ⟨c, _ | ⟨d, codes⟩⟩
    · simp at hlen
    · simp at hlen
      omega
    · simp only [List.forall_mem_cons] at hcodes
      obtain ⟨hc, hd, hcodes⟩ := hcodes
      obtain ⟨hrest, hn⟩ := ih hcodes (by simp only [List.length_cons] at hlen; omega)
      have hbyte : ∀ c < 16, ∀ d < 16, byteCodes (UInt8.ofNat (16 * c + d)) = [c, d] := by
        decide +kernel
      refine ⟨?_, congrArg (· + 1) hn⟩
      rw [packCodes, codesOf, List.flatMap_cons, hbyte c hc d hd]
      exact congrArg ([c, d] ++ ·) hrest

/-- **A signal through ADPCM.** From any state, and for any samples of 16 bits, there are codes of
which the callback makes a frame with one sample for each. A sample comes out with an error of about
an eighth of the step size, or, when it is two steps away from the one before it or more, closer than
that one was; of thirteen samples in a row one is not that far away.

**Proof sketch.** The codes are those of `nearCode`. One that makes up for the difference leaves what
the quarters of a step do not show (`decoded_near`). One that does not has the largest magnitude, so
that the step size grows to the largest of all within eleven codes (`index_after`); from there on two
samples in a row are never out of reach (`not_overloads_twice`). -/
theorem adpcm_tracks (s : AdpcmState) (xs : List ℤ) (n : ℕ) (memory : Bytes) (hs : s.Valid)
    (hsample : IsShort s.sample) (hxs : ∀ x ∈ xs, IsShort x) (hlen : xs.length = 2 * n)
    (hn : n < 2 ^ 29) (hmemory : memory.length = 4 * n) :
    ∃ raw : Bytes, raw.length = n ∧
      adpcmChunk (chunkBytes s raw) (UInt32.ofNat (n + 4)) (some memory) =
        .ok (some (bigEndian ((s.states (codesOf raw)).map AdpcmState.sample))) ∧
      (∀ e ∈ (s.steps (codesOf raw)).zip xs, ¬ e.1.1.Overloads e.2 →
        8 * |e.1.2.sample - e.2| ≤ e.1.1.stepSize + 11) ∧
      (∀ e ∈ (s.steps (codesOf raw)).zip xs, e.1.1.Overloads e.2 →
        |e.1.2.sample - e.2| < |e.2 - e.1.1.sample|) ∧
      ∀ as bs cs, (s.steps (codesOf raw)).zip xs = as ++ (bs ++ cs) → bs.length = 13 →
        ∃ e ∈ bs, ¬ e.1.1.Overloads e.2 := by
  obtain ⟨hcodes, hbytes⟩ := codesOf_packCodes (@AdpcmState.nearCodes_lt s xs hs)
    (by rw [AdpcmState.length_nearCodes, hlen])
  have hshort : ∀ e ∈ s.follow xs, IsShort e.2 := by
    intro e he
    have hmem := List.mem_map_of_mem (f := Prod.snd) he
    rw [AdpcmState.map_snd_follow] at hmem
    exact hxs e.2 hmem
  have hvalid := @AdpcmState.valid_follow s xs hs
  refine ⟨packCodes (s.nearCodes xs), hbytes, ?_, ?_⟩
  · have hindex : IsShort s.index := by
      obtain ⟨hlow, hhigh⟩ := hs
      unfold IsShort
      omega
    have hchunk := @chunk_of_valid s (packCodes (s.nearCodes xs)) memory hs hsample hindex
      (by rw [hbytes]; exact hn) (by rw [hbytes]; exact hmemory)
    rwa [hbytes] at hchunk
  rw [hcodes, AdpcmState.zip_steps_nearCodes]
  refine ⟨fun e he hnot => ?_, fun e he hover => ?_, fun as bs cs hsplit hbs => ?_⟩
  · obtain ⟨e', he', rfl⟩ := List.mem_map.1 he
    exact AdpcmState.decoded_near (hvalid e' he') (hshort e' he') hnot
  · obtain ⟨e', he', rfl⟩ := List.mem_map.1 he
    exact AdpcmState.decoded_closer (hvalid e' he') (hshort e' he') hover
  · -- the thirteen samples, and the state in front of the first of them
    obtain ⟨as', rest, hfollow, -, hrest⟩ := List.map_eq_append_iff.1 hsplit
    obtain ⟨bs', cs', rfl, rfl, -⟩ := List.map_eq_append_iff.1 hrest
    rw [List.length_map] at hbs
    have hsnd := congrArg (List.map Prod.snd) hfollow
    rw [AdpcmState.map_snd_follow, List.map_append, List.map_append] at hsnd
    rw [hsnd, AdpcmState.follow_append, AdpcmState.follow_append] at hfollow
    obtain ⟨-, hbehind⟩ := List.append_inj hfollow (by simp)
    obtain ⟨hmid, -⟩ := List.append_inj hbehind (by simp)
    have hstate : (s.after (as'.map Prod.snd)).Valid := AdpcmState.valid_after hs
    have hfirst : IsShort (s.after (as'.map Prod.snd)).sample := AdpcmState.isShort_after hsample
    have hbetween : ∀ x ∈ bs'.map Prod.snd, IsShort x := by
      intro x hx
      apply hxs
      rw [hsnd]
      exact List.mem_append_right _ (List.mem_append_left _ hx)
    obtain ⟨e, he, hnot⟩ :=
      AdpcmState.exists_not_overloads hstate hfirst hbetween (by simpa using hbs)
    rw [hmid] at he
    exact ⟨_, List.mem_map_of_mem he, hnot⟩

/-- Four samples, the last of them far away. -/
theorem adpcm_tracks_four : ∃ raw : Bytes, raw.length = 2 ∧
    ∃ ys, adpcmChunk (chunkBytes ⟨0, 0⟩ raw) 6 (some (List.replicate 8 0)) =
        .ok (some (bigEndian ys)) ∧ ys.length = 4 ∧
      ∀ e ∈ (AdpcmState.steps ⟨0, 0⟩ (codesOf raw)).zip [3, 5, 4, 900], e.1.1.Overloads e.2 →
        |e.1.2.sample - e.2| < |e.2 - e.1.1.sample| := by
  obtain ⟨raw, hraw, hchunk, -, hcloser, -⟩ := adpcm_tracks ⟨0, 0⟩ [3, 5, 4, 900] 2
    (List.replicate 8 0) (by decide) (by unfold IsShort; decide) (by unfold IsShort; decide) rfl
    (by decide) rfl
  refine ⟨raw, hraw, _, hchunk, ?_, hcloser⟩
  rw [List.length_map, length_states, length_codesOf, hraw]

end Spook
