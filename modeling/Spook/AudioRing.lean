import Spook.Frames.Basic
import Spook.Lib.CString
import Spook.Lib.Machine
import Spook.Lib.Ring

set_option relaxedAutoImplicit false
set_option autoImplicit false

/-!
# The audio ring

`new_audio_ring` and `audio_ring_input` of `audio.c`, with the bytes in the buffer. The samples are
copied into a ring, from which frames are cut: a frame is not copied again, its data are those of
the ring. What `meter_count` sets, and whether there is a frame and room in the queue, is left to
the surroundings.

## Main definitions

* `Spook.SampleRing` — a ring with the bytes in its buffer; `Spook.newSampleRing` makes it.
* `Spook.SampleRing.turn`, `Spook.SampleRing.input` — the loop of `audio_ring_input`, and all of it.
* `Spook.ringMachine` — any sequence of calls.
* `Spook.SampleRing.Holds` — the bytes between the indices.
* `Spook.Framing` — what was cut from the input.

## Main results

* `Spook.turn_holds` — what becomes of one sample.
* `Spook.input_holds` — what becomes of a block.
* `Spook.framing_run` — what becomes of the input of any calls.

## Notes on the design

What was cut is counted from the beginning (`turns`), so that `i_r` is that number modulo the length
of the buffer, and the bytes that are pending are the window behind it. A frame is the beginning of
that window.
-/

namespace Spook

/-! ## The functions -/

/-- A sample, with whether `new_frame` has a frame and `soft_queue_add` has room if a frame is cut
behind it. -/
structure Sample where
  bytes : Bytes
  newFrame : Bool
  queueOk : Bool

/-- A ring with the bytes in its buffer. -/
structure SampleRing extends AudioRing where
  mem : ℕ → UInt8

/-- What is cut: the place of its data in the buffer, the data at that moment, and whether a frame
with them is queued. -/
structure Cut where
  offset : ℕ
  data : Bytes
  queued : Bool
  deriving DecidableEq

/-- `new_audio_ring`. The memory that `malloc` gives holds `mem`; there is none for a length below
zero. -/
def newSampleRing (sampleSize sampleRate framelen : ℕ) (mem : ℕ → UInt8) :
    Except Fault (Option SampleRing) :=
  if framelen = 0 then .error .divZero
  else
    let buflen := ringBytes sampleSize sampleRate
    let buflen := buflen - buflen.tmod framelen
    if buflen < 0 then .ok none
    else .ok (some { framelen, sampleSize, sampleRate, adjustRate := 0, adjustCount := 0,
                     ir := 0, iw := 0, buflen := buflen.toNat, buf := 0, mem })

namespace SampleRing

/-- `avail`. -/
def avail (ring : SampleRing) : ℕ :=
  if ring.iw < ring.ir then ring.buflen - ring.ir + ring.iw else ring.iw - ring.ir

/-- A sample is copied into the ring. -/
def store (ring : SampleRing) (d : Bytes) : Except Fault SampleRing :=
  if ring.buflen < ring.iw + ring.sampleSize then .error .overrun
  else
    let iw := ring.iw + ring.sampleSize
    .ok { ring with mem := SlotRing.writes ring.mem ring.iw d,
                    iw := if iw = ring.buflen then 0 else iw }

/-- A sample is copied into the ring so many times. -/
def storeCopies (d : Bytes) : ℕ → SampleRing → Except Fault SampleRing
  | 0, ring => .ok ring
  | copies + 1, ring => do
    let ring ← ring.store d
    storeCopies d copies ring

/-- The frame that is cut. -/
def cut (ring : SampleRing) (d : Sample) : Cut :=
  { offset := ring.ir, data := (List.range ring.framelen).map fun k => ring.mem (ring.ir + k),
    queued := d.newFrame && d.queueOk }

/-- One turn of the loop of `audio_ring_input`: the ring, `avail`, the change of `correction`, and
what was cut. -/
def turn (ring : SampleRing) (avail : ℕ) (d : Sample) :
    Except Fault (SampleRing × ℕ × ℤ × List Cut) :=
  match ring.adjust with
  | (r, 0) => .ok ({ ring with toAudioRing := r }, avail, -1, [])
  | (r, copies) => do
    let ring ← storeCopies d.bytes copies { ring with toAudioRing := r }
    let avail := avail + copies * ring.sampleSize
    let correction := if copies = 2 then 1 else 0
    if ring.framelen ≤ avail then
      let ir := ring.ir + ring.framelen
      .ok ({ ring with ir := if ir = ring.buflen then 0 else ir }, avail - ring.framelen,
        correction, [ring.cut d])
    else .ok (ring, avail, correction, [])

/-- The loop of `audio_ring_input`. -/
def loop : List Sample → SampleRing → ℕ → ℤ → Except Fault (SampleRing × List Cut × ℤ)
  | [], ring, _, correction => .ok (ring, [], correction)
  | d :: rest, ring, avail, correction => do
    let (ring, avail, change, cuts) ← ring.turn avail d
    let (ring, more, correction) ← loop rest ring avail (correction + change)
    .ok (ring, cuts ++ more, correction)

/-- `meter_count` sets `adjust_rate`, if it does. -/
def meterCount (ring : SampleRing) : Option ℤ → SampleRing
  | none => ring
  | some rate => { ring with adjustRate := rate, adjustCount := 1 }

/-- `audio_ring_input`: the ring, what was cut, and the correction that is reported. -/
def input (ring : SampleRing) (rate : Option ℤ) (samples : List Sample) :
    Except Fault (SampleRing × List Cut × ℤ) :=
  loop samples (ring.meterCount rate) (ring.meterCount rate).avail 0

end SampleRing

/-- A call of `audio_ring_input`, with what `meter_count` sets. -/
structure RingInput where
  rate : Option ℤ
  samples : List Sample

/-- What is recorded of a call. -/
inductive RingOut
  | cut (c : Cut)
  | correction (n : ℤ)
  deriving DecidableEq

/-- A ring and calls of `audio_ring_input`. -/
def ringMachine (sampleSize sampleRate framelen : ℕ) :
    Machine SampleRing RingInput RingOut Fault where
  Init ring := ∃ mem, newSampleRing sampleSize sampleRate framelen mem = .ok (some ring)
  step ring a := do
    let (ring, cuts, correction) ← ring.input a.rate a.samples
    .ok (ring, cuts.map .cut ++ [.correction correction])

/-! ## The bytes between the indices -/

/-- What the ring relies on: frames of at least two whole samples, and a buffer of whole frames, at
least two of them. -/
structure AudioRing.Sized (ring : AudioRing) : Prop where
  pos : 0 < ring.sampleSize
  dvd : ring.sampleSize ∣ ring.framelen
  two : 2 * ring.sampleSize ≤ ring.framelen
  whole : ring.framelen ∣ ring.buflen
  room : 2 * ring.framelen ≤ ring.buflen

/-- What a call leaves as it is. -/
structure AudioRing.Same (ring ring' : AudioRing) : Prop where
  sampleSize : ring'.sampleSize = ring.sampleSize
  framelen : ring'.framelen = ring.framelen
  buflen : ring'.buflen = ring.buflen
  adjustRate : ring'.adjustRate = ring.adjustRate

/-- The bytes that wait in the ring. -/
def SampleRing.pending (ring : SampleRing) : Bytes :=
  SlotRing.window ring.buflen ring.mem ring.ir ring.avail

/-- `turns` bytes were cut, and the `avail` bytes behind them are `pending`. -/
structure SampleRing.Holds (ring : SampleRing) (turns avail : ℕ) (pending : Bytes) : Prop where
  sized : ring.Sized
  frames : ring.framelen ∣ turns
  ir : ring.ir = turns % ring.buflen
  iw : ring.iw = (turns + avail) % ring.buflen
  samples : ring.sampleSize ∣ avail
  pending : SlotRing.window ring.buflen ring.mem turns avail = pending

/-- A ring between two calls: less than a frame waits in it. -/
def SampleRing.Ready (ring : SampleRing) : Prop :=
  ∃ turns avail, avail < ring.framelen ∧ ring.Holds turns avail ring.pending

/-- The indices are inside the buffer, on sample boundaries. -/
structure AudioRing.InPlace (ring : AudioRing) : Prop where
  ir_lt : ring.ir < ring.buflen
  iw_lt : ring.iw < ring.buflen
  ir_dvd : ring.sampleSize ∣ ring.ir
  iw_dvd : ring.sampleSize ∣ ring.iw

/-- Whether a sample may be there so many times: once, or not at all or twice if the rate says
so. -/
def Copies (rate : ℤ) (copies : ℕ) : Prop :=
  copies = 1 ∨ copies = 0 ∧ rate < 0 ∨ copies = 2 ∧ 0 < rate

/-- The bytes of so many copies. -/
def repeated (d : Bytes) (copies : ℕ) : Bytes := (List.replicate copies d).flatten

section Turns

variable {ring ring' ring'' : SampleRing} {turns avail : ℕ} {pending d : Bytes} {copies : ℕ}

/-- A ring is cut like itself. -/
theorem AudioRing.Same.refl (ring : AudioRing) : ring.Same ring := ⟨rfl, rfl, rfl, rfl⟩

/-- What is cut like a ring that is cut like the first. -/
theorem AudioRing.Same.trans {ring ring' ring'' : AudioRing} (h : ring.Same ring')
    (h' : ring'.Same ring'') : ring.Same ring'' :=
  ⟨h'.sampleSize.trans h.sampleSize, h'.framelen.trans h.framelen, h'.buflen.trans h.buflen,
    h'.adjustRate.trans h.adjustRate⟩

namespace SampleRing.Holds

/-- A ring that holds samples has a buffer. -/
theorem buflen_pos (h : ring.Holds turns avail pending) : 0 < ring.buflen := by
  have := h.sized.pos
  have := h.sized.two
  have := h.sized.room
  omega

/-- Whole samples are between the indices, and in the buffer. -/
theorem inPlace (h : ring.Holds turns avail pending) : ring.InPlace := by
  have hbuflen : ring.sampleSize ∣ ring.buflen := Nat.dvd_trans h.sized.dvd h.sized.whole
  have hturns : ring.sampleSize ∣ turns := Nat.dvd_trans h.sized.dvd h.frames
  refine ⟨?_, ?_, ?_, ?_⟩
  · rw [h.ir]
    exact Nat.mod_lt _ h.buflen_pos
  · rw [h.iw]
    exact Nat.mod_lt _ h.buflen_pos
  · rw [h.ir]
    exact (Nat.dvd_mod_iff hbuflen).2 hturns
  · rw [h.iw]
    exact (Nat.dvd_mod_iff hbuflen).2 (Nat.dvd_add hturns h.samples)

/-- The counter of the rate correction does not matter. -/
theorem adjusted (h : ring.Holds turns avail pending) (count : ℤ) :
    SampleRing.Holds { ring with adjustCount := count } turns avail pending :=
  ⟨⟨h.sized.pos, h.sized.dvd, h.sized.two, h.sized.whole, h.sized.room⟩, h.frames, h.ir, h.iw,
    h.samples, h.pending⟩

/-- Neither does the rate. -/
theorem meterCount (h : ring.Holds turns avail pending) (rate : Option ℤ) :
    (ring.meterCount rate).Holds turns avail pending := by
  cases rate with
  | none => exact h
  | some rate =>
    exact ⟨⟨h.sized.pos, h.sized.dvd, h.sized.two, h.sized.whole, h.sized.room⟩, h.frames, h.ir,
      h.iw, h.samples, h.pending⟩

/-- What `avail` is computed from. -/
theorem avail_eq (h : ring.Holds turns avail pending) (hlt : avail < ring.framelen) :
    ring.avail = avail := by
  have hroom := h.sized.room
  rw [SampleRing.avail, h.ir, h.iw]
  exact SlotRing.distance_mod (by omega)

/-- **A sample is copied** behind what is there, if there is room. -/
theorem store (h : ring.Holds turns avail pending) (hd : d.length = ring.sampleSize)
    (hroom : avail + ring.sampleSize ≤ ring.buflen) :
    ∃ ring', ring.store d = .ok ring' ∧ ring.Same ring'.toAudioRing ∧
      ring'.Holds turns (avail + ring.sampleSize) (pending ++ d) := by
  obtain ⟨-, hlt, -, hdvd⟩ := h.inPlace
  have hbuflen : ring.sampleSize ∣ ring.buflen := Nat.dvd_trans h.sized.dvd h.sized.whole
  -- the end of the buffer is a sample boundary
  have hend : ring.iw + ring.sampleSize ≤ ring.buflen :=
    Nat.add_le_of_le_sub' hlt.le (Nat.le_of_dvd (by omega) (Nat.dvd_sub hbuflen hdvd))
  refine ⟨_, if_neg (not_lt.2 hend), ⟨rfl, rfl, rfl, rfl⟩,
    ⟨h.sized.pos, h.sized.dvd, h.sized.two, h.sized.whole, h.sized.room⟩, h.frames, h.ir, ?_, ?_,
    ?_⟩
  · rw [h.iw] at hend
    dsimp only
    rw [h.iw, SlotRing.advance_mod hend, Nat.add_assoc]
  · exact Nat.dvd_add h.samples (Nat.dvd_refl _)
  · rw [h.iw, ← hd] at hend
    dsimp only
    rw [h.iw, ← hd, SlotRing.window_writes _ (by omega) hend, h.pending]

/-- **So many copies of a sample.** -/
theorem storeCopies (h : ring.Holds turns avail pending) (hd : d.length = ring.sampleSize)
    (hroom : avail + copies * ring.sampleSize ≤ ring.buflen) :
    ∃ ring', SampleRing.storeCopies d copies ring = .ok ring' ∧ ring.Same ring'.toAudioRing ∧
      ring'.Holds turns (avail + copies * ring.sampleSize) (pending ++ repeated d copies) := by
  induction copies generalizing ring avail pending with
  | zero =>
    refine ⟨ring, rfl, .refl _, ?_⟩
    simpa [repeated] using h
  | succ copies ih =>
    rw [Nat.succ_mul] at hroom
    obtain ⟨ring₁, hstore, hsame, hholds⟩ := h.store hd (by omega)
    rw [← hsame.sampleSize, ← hsame.buflen] at hroom
    obtain ⟨ring₂, hcopies, hsame', hholds'⟩ := ih hholds (hd.trans hsame.sampleSize.symm)
      (by rw [← hsame.sampleSize]; omega)
    refine ⟨ring₂, ?_, hsame.trans hsame', ?_⟩
    · rw [SampleRing.storeCopies, hstore, ok_bind, hcopies]
    · rw [List.append_assoc, hsame.sampleSize] at hholds'
      rw [Nat.succ_mul, Nat.add_comm (copies * ring.sampleSize), ← Nat.add_assoc]
      exact hholds'

/-- **A frame is cut** from what is there. -/
theorem cut (h : ring.Holds turns avail pending) (hle : ring.framelen ≤ avail) (d : Sample) :
    (ring.cut d).data = pending.take ring.framelen ∧
      (ring.cut d).offset + ring.framelen ≤ ring.buflen ∧
      SampleRing.Holds { ring with ir := if ring.ir + ring.framelen = ring.buflen then 0
          else ring.ir + ring.framelen }
        (turns + ring.framelen) (avail - ring.framelen) (pending.drop ring.framelen) := by
  have hdvd : ring.framelen ∣ turns % ring.buflen := (Nat.dvd_mod_iff h.sized.whole).2 h.frames
  have hlt : turns % ring.buflen < ring.buflen := Nat.mod_lt _ h.buflen_pos
  -- the end of the buffer is a frame boundary
  have hend : turns % ring.buflen + ring.framelen ≤ ring.buflen :=
    Nat.add_le_of_le_sub' hlt.le (Nat.le_of_dvd (by omega) (Nat.dvd_sub h.sized.whole hdvd))
  have hsplit : pending = SlotRing.window ring.buflen ring.mem turns ring.framelen ++
      SlotRing.window ring.buflen ring.mem (turns + ring.framelen) (avail - ring.framelen) := by
    rw [← SlotRing.window_add, Nat.add_sub_cancel' hle, h.pending]
  have hlength := SlotRing.length_window (n := ring.buflen) ring.mem turns ring.framelen
  refine ⟨?_, ?_, ?_⟩
  · rw [hsplit, List.take_left' hlength, ← SlotRing.window_mod, SlotRing.window_flat _ hend, ← h.ir]
    rfl
  · rw [← h.ir] at hend
    exact hend
  · refine ⟨⟨h.sized.pos, h.sized.dvd, h.sized.two, h.sized.whole, h.sized.room⟩,
      Nat.dvd_add h.frames (Nat.dvd_refl _), ?_, ?_, Nat.dvd_sub h.samples h.sized.dvd, ?_⟩
    · dsimp only
      rw [h.ir, SlotRing.advance_mod hend]
    · rw [Nat.add_assoc, Nat.add_sub_cancel' hle]
      exact h.iw
    · rw [hsplit, List.drop_left' hlength]

end SampleRing.Holds

/-- What the rate correction does with a sample. -/
theorem adjust_spec (ring : AudioRing) : ∃ count copies,
    ring.adjust = ({ ring with adjustCount := count }, copies) ∧ Copies ring.adjustRate copies := by
  unfold AudioRing.adjust
  by_cases hneg : ring.adjustRate < 0
  · rw [if_pos hneg]
    by_cases hzero : ring.adjustCount - 1 = 0
    · rw [if_pos hzero]
      exact ⟨_, 0, rfl, .inr (.inl ⟨rfl, hneg⟩)⟩
    · rw [if_neg hzero]
      exact ⟨_, 1, rfl, .inl rfl⟩
  · rw [if_neg hneg]
    by_cases hpos : ring.adjustRate > 0
    · rw [if_pos hpos]
      by_cases hzero : ring.adjustCount - 1 = 0
      · rw [if_pos hzero]
        exact ⟨_, 2, rfl, .inr (.inr ⟨rfl, hpos⟩)⟩
      · rw [if_neg hzero]
        exact ⟨_, 1, rfl, .inl rfl⟩
    · rw [if_neg hpos]
      exact ⟨ring.adjustCount, 1, rfl, .inl rfl⟩

/-- What is cut, in a row. -/
def cutBytes (cuts : List Cut) : Bytes := cuts.flatMap Cut.data

/-- Frames of the right length, inside the buffer. -/
def AudioRing.Frames (ring : AudioRing) (cuts : List Cut) : Prop :=
  ∀ c ∈ cuts, c.data.length = ring.framelen ∧ c.offset + ring.framelen ≤ ring.buflen

/-- Which cuts are frames depends on the lengths alone. -/
theorem AudioRing.Same.frames {ring ring' : AudioRing} (h : ring.Same ring') {cuts : List Cut} :
    ring'.Frames cuts ↔ ring.Frames cuts := by
  unfold AudioRing.Frames
  rw [h.framelen, h.buflen]

/-- **One sample.** It is appended as often as the rate correction wants, and a frame is cut when
there is one. Less than a frame is left.

**Proof sketch.** The rate correction tells how many copies there are, at most two. Since frames and
what is pending are whole samples, less than a frame is pending and one sample fits in any case, and
the second because the buffer holds two frames. Then a frame is cut if there is one, which leaves
less than a frame again. -/
theorem turn_holds (h : ring.Holds turns avail pending) (hlt : avail < ring.framelen) (s : Sample)
    (hs : s.bytes.length = ring.sampleSize) :
    ∃ (ring' : SampleRing) (turns' avail' : ℕ) (pending' : Bytes) (copies : ℕ) (cuts : List Cut),
      ring.turn avail s = .ok (ring', avail', (copies : ℤ) - 1, cuts) ∧
      ring.Same ring'.toAudioRing ∧ ring'.Holds turns' avail' pending' ∧ avail' < ring.framelen ∧
      Copies ring.adjustRate copies ∧ ring.Frames cuts ∧
      cutBytes cuts ++ pending' = pending ++ repeated s.bytes copies := by
  obtain ⟨count, copies, hadjust, hcopies⟩ := adjust_spec ring.toAudioRing
  have hadjusted := h.adjusted count
  have htwo := h.sized.two
  have hroom := h.sized.room
  have hle : copies ≤ 2 := by
    unfold Copies at hcopies
    omega
  -- a whole sample is missing to a frame
  have hsample : avail + ring.sampleSize ≤ ring.framelen :=
    Nat.add_le_of_le_sub' hlt.le (Nat.le_of_dvd (by omega) (Nat.dvd_sub h.sized.dvd h.samples))
  have hbytes : copies * ring.sampleSize ≤ 2 * ring.sampleSize := Nat.mul_le_mul_right _ hle
  obtain ⟨ring₁, hstore, hsame, hholds₁⟩ := hadjusted.storeCopies (d := s.bytes) hs
    (show avail + copies * ring.sampleSize ≤ ring.buflen by omega)
  have hholds : ring₁.Holds turns (avail + copies * ring.sampleSize)
      (pending ++ repeated s.bytes copies) := hholds₁
  have hsame₁ : ring.Same ring₁.toAudioRing := ⟨hsame.sampleSize, hsame.framelen, hsame.buflen,
    hsame.adjustRate⟩
  have hturn : copies ≠ 0 → ring.turn avail s =
      if ring₁.framelen ≤ avail + copies * ring₁.sampleSize then
        .ok ({ ring₁ with ir := if ring₁.ir + ring₁.framelen = ring₁.buflen then 0
            else ring₁.ir + ring₁.framelen }, avail + copies * ring₁.sampleSize - ring₁.framelen,
          if copies = 2 then 1 else 0, [ring₁.cut s])
      else .ok (ring₁, avail + copies * ring₁.sampleSize, if copies = 2 then 1 else 0, []) := by
    intro hne
    rw [SampleRing.turn, hadjust]
    cases copies with
    | zero => exact absurd rfl hne
    | succ n =>
      change (SampleRing.storeCopies s.bytes (n + 1) { ring with adjustCount := count } >>= _) = _
      rw [hstore]
      rfl
  by_cases hzero : copies = 0
  · subst hzero
    refine ⟨{ ring with adjustCount := count }, turns, avail, pending, 0, [], ?_, ⟨rfl, rfl, rfl, rfl⟩,
      hadjusted, hlt, hcopies, nofun, ?_⟩
    · rw [SampleRing.turn, hadjust]
      rfl
    · simp [cutBytes, repeated]
  · have hchange : (if copies = 2 then 1 else 0 : ℤ) = (copies : ℤ) - 1 := by
      split_ifs <;> omega
    rw [hchange, hsame₁.framelen, hsame₁.sampleSize] at hturn
    by_cases hfull : ring.framelen ≤ avail + copies * ring.sampleSize
    · have hfull₁ : ring₁.framelen ≤ avail + copies * ring.sampleSize := by
        rw [hsame₁.framelen]
        exact hfull
      obtain ⟨hdata, hoffset, hcut⟩ := hholds.cut hfull₁ s
      rw [hsame₁.framelen] at hdata hoffset
      rw [hsame₁.framelen, hsame₁.sampleSize] at hcut
      have hlength : (pending ++ repeated s.bytes copies).length =
          avail + copies * ring.sampleSize := by
        rw [← hholds.pending, SlotRing.length_window]
      refine ⟨_, _, _, _, copies, [ring₁.cut s], (hturn hzero).trans (if_pos hfull), ?_, hcut, ?_,
        hcopies, ?_, ?_⟩
      · exact ⟨rfl, rfl, hsame₁.buflen, hsame₁.adjustRate⟩
      · omega
      · intro c hc
        obtain rfl := List.mem_singleton.1 hc
        rw [hdata, List.length_take, hlength]
        rw [hsame₁.buflen] at hoffset
        exact ⟨by omega, hoffset⟩
      · rw [cutBytes, List.flatMap_singleton, hdata, List.take_append_drop]
    · exact ⟨_, _, _, _, copies, [], (hturn hzero).trans (if_neg hfull), hsame₁, hholds, by omega,
        hcopies, nofun, rfl⟩

end Turns

/-! ## Blocks -/

/-- The samples of a block, each with the number of its copies. -/
abbrev Marked := List (Bytes × ℕ)

/-- The copies of the samples. -/
def Marked.bytes (b : Marked) : Bytes := b.flatMap fun p => repeated p.1 p.2

/-- The samples that were added, less those that were dropped. -/
def Marked.correction (b : Marked) : ℤ := (b.map fun p => (p.2 : ℤ) - 1).sum

/-- Every sample is there once, but for those that the rate correction drops or doubles. -/
def Marked.Corrected (rate : ℤ) (b : Marked) : Prop := ∀ p ∈ b, Copies rate p.2

section Blocks

variable {ring : SampleRing} {turns avail : ℕ} {pending : Bytes} {samples : List Sample}

/-- **The loop.** What was there and the samples with their copies are what is cut and what is left
behind. -/
theorem loop_holds (h : ring.Holds turns avail pending) (hlt : avail < ring.framelen)
    (hs : ∀ s ∈ samples, s.bytes.length = ring.sampleSize) (correction : ℤ) :
    ∃ (ring' : SampleRing) (turns' avail' : ℕ) (pending' : Bytes) (b : Marked) (cuts : List Cut),
      SampleRing.loop samples ring avail correction =
        .ok (ring', cuts, correction + b.correction) ∧
      ring.Same ring'.toAudioRing ∧ ring'.Holds turns' avail' pending' ∧ avail' < ring.framelen ∧
      b.map Prod.fst = samples.map Sample.bytes ∧ b.Corrected ring.adjustRate ∧
      ring.Frames cuts ∧ cutBytes cuts ++ pending' = pending ++ b.bytes := by
  induction samples generalizing ring turns avail pending correction with
  | nil =>
    refine ⟨ring, turns, avail, pending, [], [], ?_, .refl _, h, hlt, rfl, nofun, nofun, ?_⟩
    · rw [SampleRing.loop, Marked.correction]
      simp
    · simp [cutBytes, Marked.bytes]
  | cons s rest ih =>
    obtain ⟨ring₁, turns₁, avail₁, pending₁, copies, cuts₁, hturn, hsame₁, hholds₁, hlt₁, hcopies,
      hframes₁, hbytes₁⟩ := turn_holds h hlt s (hs s List.mem_cons_self)
    have hs₁ : ∀ s ∈ rest, s.bytes.length = ring₁.sampleSize := by
      intro s hs'
      rw [hsame₁.sampleSize]
      exact hs s (List.mem_cons_of_mem _ hs')
    rw [← hsame₁.framelen] at hlt₁
    obtain ⟨ring₂, turns₂, avail₂, pending₂, b, cuts₂, hloop, hsame₂, hholds₂, hlt₂, hb, hcorrected,
      hframes₂, hbytes₂⟩ := ih hholds₁ hlt₁ hs₁ (correction + ((copies : ℤ) - 1))
    rw [hsame₁.framelen] at hlt₂
    rw [hsame₁.adjustRate] at hcorrected
    refine ⟨ring₂, turns₂, avail₂, pending₂, (s.bytes, copies) :: b, cuts₁ ++ cuts₂, ?_,
      hsame₁.trans hsame₂, hholds₂, hlt₂, ?_, ?_, ?_, ?_⟩
    · rw [SampleRing.loop, hturn, ok_bind]
      dsimp only
      rw [hloop, ok_bind]
      simp only [Marked.correction, List.map_cons, List.sum_cons, Int.add_assoc]
    · rw [List.map_cons, List.map_cons, hb]
    · intro p hp
      rcases List.mem_cons.1 hp with rfl | hp
      · exact hcopies
      · exact hcorrected p hp
    · intro c hc
      rcases List.mem_append.1 hc with hc | hc
      · exact hframes₁ c hc
      · exact hsame₁.frames.1 hframes₂ c hc
    · rw [cutBytes, List.flatMap_append, List.append_assoc, ← cutBytes, ← cutBytes, hbytes₂,
        ← List.append_assoc, hbytes₁, List.append_assoc]
      rfl

/-- Less than a frame is pending, so it has not been cut. -/
theorem SampleRing.Holds.pending_eq (h : ring.Holds turns avail pending)
    (hlt : avail < ring.framelen) : ring.pending = pending := by
  rw [SampleRing.pending, h.avail_eq hlt, h.ir, SlotRing.window_mod, h.pending]

/-- Between two calls less than a frame is pending. -/
theorem SampleRing.Holds.ready (h : ring.Holds turns avail pending)
    (hlt : avail < ring.framelen) : ring.Ready :=
  ⟨turns, avail, hlt, (h.pending_eq hlt).symm ▸ h⟩

/-- **A block of whole samples.** -/
theorem input_holds (h : ring.Ready) {rate : Option ℤ}
    (hs : ∀ s ∈ samples, s.bytes.length = ring.sampleSize) :
    ∃ (ring' : SampleRing) (b : Marked) (cuts : List Cut),
      ring.input rate samples = .ok (ring', cuts, b.correction) ∧ ring'.Ready ∧
      ring'.sampleSize = ring.sampleSize ∧ ring'.framelen = ring.framelen ∧
      ring'.buflen = ring.buflen ∧ ring'.adjustRate = (ring.meterCount rate).adjustRate ∧
      b.map Prod.fst = samples.map Sample.bytes ∧ b.Corrected ring'.adjustRate ∧
      ring.Frames cuts ∧ cutBytes cuts ++ ring'.pending = ring.pending ++ b.bytes := by
  obtain ⟨turns, avail, hlt, hholds⟩ := h
  have hmeter := hholds.meterCount rate
  have hsizes : (ring.meterCount rate).sampleSize = ring.sampleSize ∧
      (ring.meterCount rate).framelen = ring.framelen ∧
      (ring.meterCount rate).buflen = ring.buflen := by
    cases rate <;> exact ⟨rfl, rfl, rfl⟩
  obtain ⟨hsample, hframe, hbuf⟩ := hsizes
  have hlt' : avail < (ring.meterCount rate).framelen := by
    rw [hframe]
    exact hlt
  obtain ⟨ring', turns', avail', pending', b, cuts, hloop, hsame, hholds', havail, hb, hcorrected,
    hframes, hbytes⟩ := loop_holds hmeter hlt' (by rw [hsample]; exact hs) 0
  rw [← hsame.framelen] at havail
  refine ⟨ring', b, cuts, ?_, hholds'.ready havail, hsame.sampleSize.trans hsample,
    hsame.framelen.trans hframe, hsame.buflen.trans hbuf, hsame.adjustRate, hb, ?_, ?_, ?_⟩
  · rw [SampleRing.input, hmeter.avail_eq hlt', hloop, Int.zero_add]
  · rw [hsame.adjustRate]
    exact hcorrected
  · unfold AudioRing.Frames at hframes
    rw [hframe, hbuf] at hframes
    exact hframes
  · rw [hholds'.pending_eq havail]
    exact hbytes

/-- **A new ring.** -/
theorem newSampleRing_ready {sampleSize sampleRate framelen : ℕ} {mem : ℕ → UInt8}
    (hpos : 0 < sampleSize) (hdvd : sampleSize ∣ framelen) (htwo : 2 * sampleSize ≤ framelen)
    (hroom : 2 * framelen ≤ ringBytes sampleSize sampleRate)
    (hring : newSampleRing sampleSize sampleRate framelen mem = .ok (some ring)) :
    ring.Ready ∧ ring.pending = [] ∧ ring.sampleSize = sampleSize ∧ ring.framelen = framelen ∧
      ring.adjustRate = 0 := by
  unfold newSampleRing at hring
  rw [if_neg (show framelen ≠ 0 by omega)] at hring
  dsimp only at hring
  generalize hbytes : ringBytes sampleSize sampleRate = bytes at hring hroom
  have hmod : bytes.tmod framelen = bytes % framelen := Int.tmod_eq_emod_of_nonneg (by omega)
  have hlt : bytes % framelen < framelen := Int.emod_lt_of_pos _ (by omega)
  rw [hmod, if_neg (show ¬ bytes - bytes % framelen < 0 by omega)] at hring
  obtain rfl := Option.some.inj (Except.ok.inj hring)
  have hwhole : framelen ∣ (bytes - bytes % framelen).toNat := by
    refine Int.natCast_dvd_natCast.1 ?_
    rw [Int.toNat_of_nonneg (by omega)]
    exact Int.dvd_self_sub_emod
  -- twice the frame length is below the bytes, and what is taken off is less than a frame
  have hle : 2 * framelen ≤ (bytes - bytes % framelen).toNat := by
    obtain ⟨q, hq⟩ := hwhole
    rw [hq, Nat.mul_comm]
    refine Nat.mul_le_mul_left _ ?_
    by_contra hlt2
    have hq1 : framelen * q ≤ framelen * 1 := Nat.mul_le_mul_left _ (by omega)
    omega
  have hholds : SampleRing.Holds ⟨⟨framelen, sampleSize, sampleRate, 0, 0, 0, 0,
      (bytes - bytes % framelen).toNat, 0⟩, mem⟩ 0 0 [] :=
    ⟨⟨hpos, hdvd, htwo, hwhole, hle⟩, Nat.dvd_zero _, (Nat.zero_mod _).symm, (Nat.zero_mod _).symm,
      Nat.dvd_zero _, rfl⟩
  have hframelen : 0 < framelen := by omega
  exact ⟨hholds.ready hframelen, hholds.pending_eq hframelen, rfl, rfl, rfl⟩

end Blocks

/-! ## Runs -/

def RingOut.cut? : RingOut → Option Cut
  | .cut c => some c
  | .correction _ => none

def RingOut.correction? : RingOut → Option ℤ
  | .correction n => some n
  | .cut _ => none

/-- What was cut, in its order. -/
def cuts (os : List RingOut) : List Cut := os.filterMap RingOut.cut?

/-- The corrections that were reported. -/
def corrections (os : List RingOut) : List ℤ := os.filterMap RingOut.correction?

/-- The rate behind some calls, and the rates with which the samples of each were corrected. -/
def rates (as : List RingInput) : ℤ × List ℤ :=
  as.foldl (fun p a => (a.rate.getD p.1, p.2 ++ [a.rate.getD p.1])) (0, [])

/-- **What is cut from the input.** There are numbers of copies for the samples of each block, one
but for those that its rate correction drops or doubles, such that the frames in a row, with what
waits in the ring, are the samples with their copies; and what is reported are the samples added
less those dropped. -/
structure Framing (framelen : ℕ) (as : List RingInput) (os : List RingOut) (ring : SampleRing) :
    Prop where
  inPlace : ring.InPlace
  pending : ring.pending.length < framelen
  frames : ∀ c ∈ cuts os, c.data.length = framelen ∧ c.offset + framelen ≤ ring.buflen
  stream : ∃ blocks : List (ℤ × Marked),
    blocks.map Prod.fst = (rates as).2 ∧
    blocks.map (fun b => b.2.map Prod.fst) = as.map (fun a => a.samples.map Sample.bytes) ∧
    (∀ b ∈ blocks, b.2.Corrected b.1) ∧
    corrections os = blocks.map (fun b => b.2.correction) ∧
    cutBytes (cuts os) ++ ring.pending = blocks.flatMap fun b => b.2.bytes

/-- A block is a whole number of samples. -/
def WholeSamples (ring : SampleRing) (a : RingInput) : Prop :=
  ∀ s ∈ a.samples, s.bytes.length = ring.sampleSize

instance (ring : SampleRing) (a : RingInput) : Decidable (WholeSamples ring a) := by
  unfold WholeSamples; infer_instance

section Runs

variable {ring ring' : SampleRing} {sampleSize sampleRate framelen : ℕ} {as : List RingInput}
  {os : List RingOut} {a : RingInput}

/-- The frames of two outputs, one behind the other. -/
@[simp] theorem cuts_append (os o : List RingOut) : cuts (os ++ o) = cuts os ++ cuts o :=
  List.filterMap_append

/-- The corrections of two outputs, one behind the other. -/
@[simp] theorem corrections_append (os o : List RingOut) :
    corrections (os ++ o) = corrections os ++ corrections o :=
  List.filterMap_append

/-- The record of a call. -/
theorem cuts_call (cs : List Cut) (n : ℤ) : cuts (cs.map .cut ++ [.correction n]) = cs := by
  simp [cuts, List.filterMap_append, List.filterMap_map, Function.comp_def, RingOut.cut?]

/-- A call ends with its correction. -/
theorem corrections_call (cs : List Cut) (n : ℤ) :
    corrections (cs.map .cut ++ [.correction n]) = [n] := by
  simp [corrections, List.filterMap_append, List.filterMap_map, Function.comp_def,
    RingOut.correction?]

/-- A call sets the rate that it counts, or leaves the one before. -/
theorem rates_append (as : List RingInput) (a : RingInput) :
    rates (as ++ [a]) =
      (a.rate.getD (rates as).1, (rates as).2 ++ [a.rate.getD (rates as).1]) := by
  simp [rates, List.foldl_append]

/-- The rate of a call is what the meter has counted, if it has. -/
theorem adjustRate_meterCount (rate : Option ℤ) :
    (ring.meterCount rate).adjustRate = rate.getD ring.adjustRate := by
  cases rate <;> rfl

/-- Less than a frame waits in a ring between two calls, and its indices are in place. -/
theorem SampleRing.Ready.inPlace (h : ring.Ready) :
    ring.InPlace ∧ ring.pending.length < ring.framelen := by
  obtain ⟨turns, avail, hlt, hholds⟩ := h
  refine ⟨hholds.inPlace, ?_⟩
  rw [← hholds.pending, SlotRing.length_window]
  exact hlt

/-- What is kept by a run. -/
structure FramingKept (sampleSize framelen : ℕ) (as : List RingInput) (os : List RingOut)
    (ring : SampleRing) : Prop where
  ready : ring.Ready
  sampleSize_eq : ring.sampleSize = sampleSize
  framelen_eq : ring.framelen = framelen
  rate : ring.adjustRate = (rates as).1
  framing : Framing framelen as os ring

/-- **A call** keeps it. -/
theorem FramingKept.step (h : FramingKept sampleSize framelen as os ring) (sampleRate : ℕ)
    (ha : WholeSamples ring a) :
    ∃ ring' o, (ringMachine sampleSize sampleRate framelen).step ring a = .ok (ring', o) ∧
      FramingKept sampleSize framelen (as ++ [a]) (os ++ o) ring' := by
  obtain ⟨ring', b, cs, hinput, hready, hsample, hframe, hbuflen, hrate, hb, hcorrected, hframes,
    hbytes⟩ := @input_holds ring a.samples h.ready a.rate ha
  rw [adjustRate_meterCount, h.rate] at hrate
  obtain ⟨hinPlace, hpending⟩ := hready.inPlace
  rw [hframe, h.framelen_eq] at hpending
  refine ⟨ring', cs.map .cut ++ [.correction b.correction], ?_, hready,
    hsample.trans h.sampleSize_eq, hframe.trans h.framelen_eq, ?_, hinPlace, hpending, ?_, ?_⟩
  · simp only [ringMachine, hinput, ok_bind]
  · rw [rates_append, hrate]
  · intro c hc
    rw [cuts_append, cuts_call] at hc
    rw [hbuflen]
    rcases List.mem_append.1 hc with hc | hc
    · exact h.framing.frames c hc
    · have hframe := hframes c hc
      rw [h.framelen_eq] at hframe
      exact hframe
  · obtain ⟨blocks, hrates, hsamples, hall, hreports, hstream⟩ := h.framing.stream
    refine ⟨blocks ++ [(ring'.adjustRate, b)], ?_, ?_, ?_, ?_, ?_⟩
    · rw [rates_append, List.map_append, hrates, List.map_singleton, hrate]
    · rw [List.map_append, hsamples, List.map_append, List.map_singleton, List.map_singleton, hb]
    · intro p hp
      rcases List.mem_append.1 hp with hp | hp
      · exact hall p hp
      · obtain rfl := List.mem_singleton.1 hp
        exact hcorrected
    · rw [corrections_append, corrections_call, hreports, List.map_append, List.map_singleton]
    · rw [cuts_append, cuts_call, cutBytes, List.flatMap_append, List.append_assoc, ← cutBytes,
        ← cutBytes, hbytes, ← List.append_assoc, hstream, List.flatMap_append,
        List.flatMap_singleton]

/-- **Audio ring framing**, in every run, and every call with whole samples comes back. -/
theorem framing_run (hpos : 0 < sampleSize) (hdvd : sampleSize ∣ framelen)
    (htwo : 2 * sampleSize ≤ framelen) (hroom : 2 * framelen ≤ ringBytes sampleSize sampleRate)
    (h : (ringMachine sampleSize sampleRate framelen).Run WholeSamples as os ring) :
    Framing framelen as os ring ∧ ∀ a, WholeSamples ring a →
      ∃ ring' o, (ringMachine sampleSize sampleRate framelen).step ring a = .ok (ring', o) := by
  have hkept : FramingKept sampleSize framelen as os ring := by
    refine h.history (FramingKept sampleSize framelen) ?_ ?_
    · rintro ring ⟨mem, hring⟩
      obtain ⟨hready, hpending, hsample, hframe, hrate⟩ :=
        newSampleRing_ready hpos hdvd htwo hroom hring
      obtain ⟨hinPlace, hlt⟩ := hready.inPlace
      rw [hframe] at hlt
      refine ⟨hready, hsample, hframe, hrate, hinPlace, hlt, nofun, [], rfl, rfl, nofun, rfl, ?_⟩
      rw [hpending]
      rfl
    · intro as os ring a ring' o hkept ha hstep
      obtain ⟨ring₁, o₁, hstep₁, hkept₁⟩ := hkept.step sampleRate ha
      obtain ⟨rfl, rfl⟩ := Prod.mk.inj (Except.ok.inj (hstep₁.symm.trans hstep))
      exact hkept₁
  refine ⟨hkept.framing, fun a ha => ?_⟩
  obtain ⟨ring', o, hstep, -⟩ := hkept.step sampleRate ha
  exact ⟨ring', o, hstep⟩

end Runs

/-- A ring for frames of two bytes. -/
def smallRing : SampleRing := ⟨⟨2, 1, 8, 0, 0, 0, 0, 8, 0⟩, fun _ => 0⟩

/-- A ring of two frames of four samples. -/
theorem smallRing_init : (ringMachine 1 8 2).Init smallRing := ⟨fun _ => 0, rfl⟩

/-- Three samples, and one more that is doubled. -/
theorem framing_run_small : ∃ ring os,
    os = [.cut ⟨0, [1, 2], true⟩, .correction 0, .cut ⟨2, [3, 4], false⟩, .correction 1] ∧
    Framing 2 [⟨none, [⟨[1], true, true⟩, ⟨[2], true, true⟩, ⟨[3], true, true⟩]⟩,
      ⟨some 2, [⟨[4], true, false⟩]⟩] os ring := by
  have hrun : ∃ ring, (ringMachine 1 8 2).Run WholeSamples
      [⟨none, [⟨[1], true, true⟩, ⟨[2], true, true⟩, ⟨[3], true, true⟩]⟩,
        ⟨some 2, [⟨[4], true, false⟩]⟩]
      [.cut ⟨0, [1, 2], true⟩, .correction 0, .cut ⟨2, [3, 4], false⟩, .correction 1] ring ∧
      ring.iw = 5 :=
    Machine.Run.of_exec (fun ring => ring.iw) smallRing_init (by decide +kernel)
  obtain ⟨ring, hrun, -⟩ := hrun
  have hroom : ((2 * (2 : ℕ) : ℕ) : ℤ) ≤ ringBytes 1 8 := by decide +kernel
  exact ⟨ring, _, rfl, (framing_run (by decide) (by decide) (by decide) hroom hrun).1⟩

end Spook
