import Spook.Capture
import Spook.Rtp.H264
import Spook.Rtp.RawAudio
import Mathlib.Data.Nat.ModEq
import Mathlib.Tactic.Ring

set_option relaxedAutoImplicit false
set_option autoImplicit false

/-!
# RTP timestamps

A frame comes with a time in ticks of ten milliseconds, and `send_rtp_packet` takes times of this
kind: it multiplies them with the ratio that `set_track` chose for the format. The offset of a
packet of audio is counted in samples, and `ts_incr` of `rtp-h264.c` in units of the RTP clock; both
are added to the ticks before the multiplication.

## Main definitions

* `Spook.tick2tsratio`, `RtpClock` — the ratio and the timestamps.
* `Spook.AudioClock`, `H264Clock` — packets with the time of their media.

## Main results

* `Spook.mediaClock_iff` — which frames are sent with the time of their media.
-/

namespace Spook

/-- The `tick2tsratio` that `set_track` stores for a format. -/
def tick2tsratio : Format → Option ℕ
  | .mpeg4 | .h264 | .jpeg => some 900
  | .pcm | .adpcm => some 80
  | _ => none

/-- What `send_rtp_packet` reads of an endpoint for the timestamp. -/
structure RtpClock where
  startTimestamp : ℕ
  tick2tsratio : ℕ

/-- `last_timestamp`, as `send_rtp_packet` stores it for a packet with a time of its media. -/
def RtpClock.lastTimestamp (ep : RtpClock) (timestamp : ℕ) : ℕ :=
  (ep.startTimestamp + timestamp * ep.tick2tsratio) % 2 ^ 32

/-- A frame of audio is sent in packets that begin where a group of samples does; each has the
timestamp of the first packet and the number of the group. -/
def AudioClock (ep : RtpClock) (maxDataSize : ℤ) (f : MediaFrame) (out : RtpRawaudio) : Prop :=
  ∃ ps, Delivers (rawaudioSend maxDataSize (rawaudioProcessFrame f out).1) ps ∧
    (ps.map RtpPacket.payload).flatten = f.d ∧
    ∀ first, ps[0]? = some first → ∀ i p, ps[i]? = some p → ∃ k,
      ((ps.take i).map RtpPacket.payload).flatten.length = k * out.group ∧
        ep.lastTimestamp p.timestamp = (ep.lastTimestamp first.timestamp + k) % 2 ^ 32

/-- A frame of H.264 is sent in packets with the time of its tick. -/
def H264Clock (ep : RtpClock) (maxDataSize : ℤ) (f : MediaFrame) (out : RtpH264) : Prop :=
  ∃ ps, Delivers (h264Send maxDataSize out) ps ∧ ps ≠ [] ∧
    ∀ p ∈ ps, ep.lastTimestamp p.timestamp = (ep.startTimestamp + 900 * f.timestamp) % 2 ^ 32

/-- The frames of a stream are processed, one after the other. -/
def h264Frames : List MediaFrame → RtpH264 → Except Fault RtpH264
  | [], out => .ok out
  | f :: fs, out => do
    let (out, _) ← h264ProcessFrame f out
    h264Frames fs out

/-! ## Audio -/

section Audio

variable {start : ℕ} {maxDataSize : ℤ} {f : MediaFrame} {out : RtpRawaudio} {ps qs : List RtpPacket}

/-- Behind the last byte nothing is sent. -/
theorem rawaudioPackets_end (σ : Type) (send : RtpSend σ) {n i : ℕ} (hn : 0 < n)
    (hi : out.rawaudioData.length ≤ i) (s : σ) :
    rawaudioPackets maxDataSize out σ send n i s = .ok (s, 0) := by
  obtain ⟨n, rfl⟩ := Nat.exists_eq_succ_of_ne_zero hn.ne'
  rw [rawaudioPackets, if_neg (by omega)]

/-- A frame that fits is one packet. -/
theorem rawaudioSend_fits (hpos : 0 < out.rawaudioData.length) (hgroup : 0 < out.group)
    (hfits : (out.rawaudioData.length : ℤ) ≤ maxDataSize) :
    Delivers (rawaudioSend maxDataSize out)
      [⟨out.rawaudioData, out.timestamp % 2 ^ 32, false⟩] := by
  intro σ send hsend s
  have hplen : rawaudioPlen maxDataSize out.group (out.rawaudioData.length - (0 : ℕ)) =
      out.rawaudioData.length := by
    unfold rawaudioPlen
    rw [if_neg (by omega)]
    omega
  rw [rawaudioSend, rawaudioPackets, if_pos hpos, if_neg (by omega)]
  dsimp only
  rw [hplen, if_neg (by omega), if_neg (not_lt.2 (hsend _ _)), Int.toNat_natCast,
    rawaudioPackets_end σ send hpos (by omega)]
  simp

/-- A frame that does not fit is more than one packet, and the second begins at a later sample. -/
theorem SampleTiles.second {group timestamp : ℕ} {data : Bytes} (hmax : 0 ≤ maxDataSize)
    (h : SampleTiles maxDataSize group timestamp 0 data ps) (hlong : maxDataSize < data.length) :
    ∃ first second k, ps[0]? = some first ∧ ps[1]? = some second ∧ 0 < k ∧
      first.payload.length = k * group ∧ (first.payload.length : ℤ) ≤ maxDataSize ∧
      first.timestamp = timestamp % 2 ^ 32 ∧ second.timestamp = (timestamp + k) % 2 ^ 32 := by
  rcases ps with _ | ⟨first, _ | ⟨second, rest⟩⟩
  · have hdata : [] = data := h.flatten
    rw [← hdata, List.length_nil] at hlong
    omega
  · have hdata : first.payload = data := by simpa using h.flatten
    have hle := h.length_le first List.mem_cons_self
    rw [hdata] at hle
    omega
  · obtain ⟨k, hk, hsecond⟩ := h.start 1 second rfl
    obtain ⟨j, hj, hfirst⟩ := h.start 0 first rfl
    have hlength : first.payload.length = k * group := by simpa using hk
    have hpos : 0 < first.payload.length :=
      List.length_pos_iff.2 (h.nonempty first List.mem_cons_self)
    have hgroup : 0 < group := Nat.pos_of_mul_pos_left (hlength ▸ hpos)
    have hzero : j = 0 := by
      have : 0 = j * group := by simpa using hj
      exact (Nat.mul_eq_zero.1 this.symm).resolve_right hgroup.ne'
    refine ⟨first, second, k, rfl, rfl, Nat.pos_of_mul_pos_right (hlength ▸ hpos), hlength,
      h.length_le first List.mem_cons_self, ?_, hsecond⟩
    rw [hfirst, hzero, Nat.add_zero]

/-- Times that are multiplied by 80, modulo a number that 79 is prime to. -/
theorem dvd_of_stamp_eq {m s ts k : ℕ} (hm : Nat.Coprime m 79)
    (h : (s + (ts + k) % m * 80) % m = ((s + ts % m * 80) % m + k) % m) : m ∣ k := by
  have hmod : s + ts * 80 + (79 * k + k) ≡ s + ts * 80 + k [MOD m] := by
    calc s + ts * 80 + (79 * k + k) = s + (ts + k) * 80 := by ring
      _ ≡ s + (ts + k) % m * 80 [MOD m] := ((Nat.mod_modEq (ts + k) m).symm.mul_right 80).add_left s
      _ ≡ (s + ts % m * 80) % m + k [MOD m] := h
      _ ≡ s + ts % m * 80 + k [MOD m] := (Nat.mod_modEq _ m).add_right k
      _ ≡ s + ts * 80 + k [MOD m] := (((Nat.mod_modEq ts m).mul_right 80).add_left s).add_right k
  have hzero : 79 * k ≡ 0 [MOD m] := by
    apply Nat.ModEq.add_right_cancel' k
    rw [Nat.zero_add]
    exact hmod.add_left_cancel' _
  exact hm.dvd_of_dvd_mul_left (Nat.modEq_zero_iff_dvd.1 hzero)

/-- A time that is `k` samples later has a timestamp that is `k` later only if `k` is zero. -/
theorem lastTimestamp_audio {ep : RtpClock} (hratio : ep.tick2tsratio = 80) {ts k : ℕ}
    (hk : k < 2 ^ 31)
    (h : ep.lastTimestamp ((ts + k) % 2 ^ 32) = (ep.lastTimestamp (ts % 2 ^ 32) + k) % 2 ^ 32) :
    k = 0 := by
  unfold RtpClock.lastTimestamp at h
  rw [hratio] at h
  have hdvd : 2 ^ 32 ∣ k := dvd_of_stamp_eq (by decide) h
  exact Nat.eq_zero_of_dvd_of_lt hdvd (Nat.lt_of_lt_of_le hk (by decide))

/-- The frames of audio that are sent with the time of their media are those that fit into one
packet. -/
theorem audioClock_iff {ep : RtpClock} (hratio : ep.tick2tsratio = 80) (hgroup : 0 < out.group)
    (hmax : (out.group : ℤ) ≤ maxDataSize) (hint : f.d.length < 2 ^ 31) :
    AudioClock ep maxDataSize f out ↔ (f.d.length : ℤ) ≤ maxDataSize := by
  constructor
  · rintro ⟨ps, hdelivers, -, hclock⟩
    by_contra hlong
    obtain ⟨qs, hdelivers', htiles⟩ := rawaudioSend_spec (rawaudioProcessFrame f out).1 hgroup hmax
    obtain rfl := hdelivers.unique hdelivers'
    obtain ⟨first, second, k, hfirst, hsecond, hpos, hlength, hle, hts, hts'⟩ :=
      htiles.second (by omega) (not_le.1 hlong)
    obtain ⟨j, hj, hstamp⟩ := hclock first hfirst 1 second hsecond
    have hjk : j = k := by
      have : first.payload.length = j * out.group := by
        rw [← hj]
        obtain ⟨q, qs, rfl⟩ : ∃ q qs, ps = q :: qs := by
          cases ps with
          | nil => cases hfirst
          | cons q qs => exact ⟨q, qs, rfl⟩
        obtain rfl := Option.some.inj hfirst
        simp
      exact Nat.eq_of_mul_eq_mul_right hgroup (this.symm.trans hlength)
    rw [hts, hts', hjk] at hstamp
    have hint' : k < 2 ^ 31 := by
      have : k ≤ k * out.group := Nat.le_mul_of_pos_right k hgroup
      have hlong' : maxDataSize < f.d.length := not_le.1 hlong
      have hlength' : first.payload.length = k * out.group := hlength
      omega
    exact hpos.ne' (lastTimestamp_audio hratio hint' hstamp)
  · intro hfits
    by_cases hnil : f.d.length = 0
    · have hd : f.d = [] := List.length_eq_zero_iff.1 hnil
      refine ⟨[], fun σ send _ s => ?_, by simp [hd], by simp⟩
      exact rawaudioPackets_end σ send (Nat.succ_pos _) (by simp [rawaudioProcessFrame, hd]) s
    · refine ⟨_, @rawaudioSend_fits _ (rawaudioProcessFrame f out).1 (Nat.pos_of_ne_zero hnil)
        hgroup hfits, by simp [rawaudioProcessFrame], ?_⟩
      intro first hfirst i p hp
      obtain rfl := Option.some.inj hfirst
      cases i with
      | zero =>
        obtain rfl := Option.some.inj hp
        exact ⟨0, by simp, by simp [RtpClock.lastTimestamp]⟩
      | succ i => cases hp

end Audio

/-! ## H.264 -/

section Video

variable {maxDataSize : ℤ} {f : MediaFrame} {out out' : RtpH264} {ps : List RtpPacket}

/-- All fragments have the time stamp of their NAL unit. -/
theorem Fragments.timestamp {timestamp c : ℕ} {indicator type : UInt8} {start : Bool} {rest : Bytes}
    (h : Fragments timestamp c indicator type start rest ps) :
    ps ≠ [] ∧ ∀ p ∈ ps, p.timestamp = timestamp := by
  induction h with
  | last _ => simp
  | more _ _ ih => simpa using ih.2

/-- All packets of a frame have its time. -/
theorem h264Send_timestamp (hmax : 3 ≤ maxDataSize) (out : RtpH264) :
    ∃ ps, Delivers (h264Send maxDataSize out) ps ∧ ps ≠ [] ∧
      ∀ p ∈ ps, p.timestamp = out.timestamp := by
  rcases hd : out.d with _ | ⟨b, body⟩
  · refine ⟨[⟨[], out.timestamp, true⟩], fun σ send hsend s => ?_, by simp, by simp⟩
    unfold h264Send
    rw [hd, if_neg (by simp; omega)]
    dsimp only
    rw [if_neg (not_lt.2 (hsend _ _))]
    rfl
  · obtain ⟨ps, hdelivers, hps⟩ := h264Send_spec hd hmax
    refine ⟨ps, hdelivers, ?_⟩
    cases hps with
    | single _ => simp
    | fragments _ _ hps => exact hps.timestamp

/-- The time of a frame that is accepted. -/
theorem h264ProcessFrame_timestamp (h : h264ProcessFrame f out = .ok (out', 1)) :
    out'.timestamp =
      if f.timestamp ≠ 0 then f.timestamp else (out.timestamp + out.tsIncr) % 2 ^ 32 := by
  have hscan : ∀ is, h264Scan f out is = .ok (out', 1) → ∃ i, out' = h264Take f out i := by
    intro is
    induction is with
    | nil =>
      intro h
      cases h
    | cons i is ih =>
      intro h
      obtain ⟨b, -, h⟩ := bind_eq_ok.1 h
      by_cases h₁ : b = 1
      · rw [if_pos h₁] at h
        exact ⟨i, (Prod.mk.inj (Except.ok.inj h)).1.symm⟩
      · rw [if_neg h₁] at h
        split_ifs at h with h₀
        · cases h
        · exact ih h
  obtain ⟨b₀, -, h⟩ := bind_eq_ok.1 h
  split_ifs at h with h₀
  · cases h
  obtain ⟨b₁, -, h⟩ := bind_eq_ok.1 h
  split_ifs at h with h₁
  · cases h
  obtain ⟨i, rfl⟩ := hscan _ h
  rfl

/-- The frames of H.264 that are sent with the time of their media: those with a tick, and those to
which the tick before them and `ts_incr` happen to give a multiple of 2³⁰. -/
theorem h264Clock_iff {ep : RtpClock} (hratio : ep.tick2tsratio = 900) (hmax : 3 ≤ maxDataSize)
    (h : h264ProcessFrame f out = .ok (out', 1)) :
    H264Clock ep maxDataSize f out' ↔ f.timestamp ≠ 0 ∨ 2 ^ 30 ∣ out.timestamp + out.tsIncr := by
  obtain ⟨ps, hdelivers, hne, hts⟩ := h264Send_timestamp hmax out'
  have hclock : H264Clock ep maxDataSize f out' ↔
      ep.lastTimestamp out'.timestamp = (ep.startTimestamp + 900 * f.timestamp) % 2 ^ 32 := by
    constructor
    · rintro ⟨qs, hqs, -, hclock⟩
      obtain rfl := hdelivers.unique hqs
      obtain ⟨p, hp⟩ := List.exists_mem_of_ne_nil ps hne
      rw [← hts p hp]
      exact hclock p hp
    · intro heq
      refine ⟨ps, hdelivers, hne, fun p hp => ?_⟩
      rw [hts p hp]
      exact heq
  rw [hclock, h264ProcessFrame_timestamp h, RtpClock.lastTimestamp, hratio]
  by_cases hzero : f.timestamp = 0
  · rw [if_neg (not_not.2 hzero), hzero]
    simp only [ne_eq, not_true_eq_false, false_or]
    omega
  · rw [if_pos hzero]
    simp only [ne_eq, hzero, not_false_eq_true, true_or, iff_true]
    rw [Nat.mul_comm]

end Video

/-- **Media clocks.** A frame of audio is sent with the timestamps of its samples if and only if it
fits into one packet; and a frame of H.264, whatever was before it in the stream, is sent with the
timestamp of its tick if and only if the tick is not zero, unless `ts_incr` leads to a multiple of
2³⁰ anyway. -/
theorem mediaClock_iff (maxDataSize : ℤ) (f : MediaFrame) :
    (∀ format ∈ [Format.pcm, Format.adpcm], ∀ ep : RtpClock,
      tick2tsratio format = some ep.tick2tsratio → ∀ out : RtpRawaudio, 0 < out.group →
      (out.group : ℤ) ≤ maxDataSize → f.d.length < 2 ^ 31 →
      (AudioClock ep maxDataSize f out ↔ (f.d.length : ℤ) ≤ maxDataSize)) ∧
    (∀ ep : RtpClock, tick2tsratio .h264 = some ep.tick2tsratio →
      ∀ (fs : List MediaFrame) (first out out' : RtpH264), 3 ≤ maxDataSize →
      h264Frames fs first = .ok out → h264ProcessFrame f out = .ok (out', 1) →
      (H264Clock ep maxDataSize f out' ↔
        f.timestamp ≠ 0 ∨ 2 ^ 30 ∣ out.timestamp + out.tsIncr)) := by
  refine ⟨fun format hformat ep hratio out hgroup hmax hint => ?_,
    fun ep hratio fs first out out' hmax _ h => ?_⟩
  · have h80 : tick2tsratio format = some 80 := by
      rcases List.mem_cons.1 hformat with rfl | hformat
      · rfl
      · obtain rfl := List.mem_singleton.1 hformat
        rfl
    exact audioClock_iff (Option.some.inj (hratio.symm.trans h80)) hgroup hmax hint
  · exact h264Clock_iff (Option.some.inj hratio).symm hmax h

/-- A frame of audio in one packet, and the second frame of a stream of H.264, just behind the wrap
of the timestamps. -/
theorem mediaClock_iff_samples :
    AudioClock ⟨7, 80⟩ 1400 ⟨[1, 2, 3, 4], 5⟩ ⟨[], 2, 2, 0⟩ ∧
      H264Clock ⟨4294967000, 900⟩ 1400 ⟨[0, 0, 1, 0x65], 1⟩ ⟨[0x65], true, 3600, 1⟩ :=
  ⟨((mediaClock_iff 1400 ⟨[1, 2, 3, 4], 5⟩).1 .pcm (by decide) ⟨7, 80⟩ rfl ⟨[], 2, 2, 0⟩ (by decide)
      (by decide) (by decide)).2 (by decide),
    ((mediaClock_iff 1400 ⟨[0, 0, 1, 0x65], 1⟩).2 ⟨4294967000, 900⟩ rfl
      [⟨[0, 0, 1, 0x61], 4294967295⟩] ⟨[], true, 3600, 0⟩ ⟨[0x61], true, 3600, 4294967295⟩
      ⟨[0x65], true, 3600, 1⟩ (by decide) rfl rfl).2 (.inl (by decide))⟩

/-- Of a frame of 1600 bytes of two-byte samples the second packet begins at the sample 700, with a
timestamp that is 56000 later; and a frame with the tick 0 behind one with the tick 5 is sent with
the time of the tick 3605. -/
theorem mediaClock_wrong :
    ¬ AudioClock ⟨7, 80⟩ 1400 ⟨List.replicate 1600 1, 5⟩ ⟨[], 2, 1, 0⟩ ∧
    h264ProcessFrame ⟨[0, 0, 1, 0x65], 0⟩ ⟨[], true, 3600, 5⟩ = .ok (⟨[0x65], true, 3600, 3605⟩, 1) ∧
      ¬ H264Clock ⟨7, 900⟩ 1400 ⟨[0, 0, 1, 0x65], 0⟩ ⟨[0x65], true, 3600, 3605⟩ := by
  have hframe : h264ProcessFrame ⟨[0, 0, 1, 0x65], 0⟩ ⟨[], true, 3600, 5⟩ =
      .ok (⟨[0x65], true, 3600, 3605⟩, 1) := rfl
  have hlength : (List.replicate 1600 (1 : UInt8)).length = 1600 := List.length_replicate
  refine ⟨fun h => ?_, hframe, fun h => ?_⟩
  · have hfits := (audioClock_iff rfl (by decide) (by decide) (by rw [hlength]; decide)).1 h
    rw [hlength] at hfits
    exact absurd hfits (by decide)
  · have htick := (h264Clock_iff rfl (by decide) hframe).1 h
    exact absurd htick (by decide)

end Spook
