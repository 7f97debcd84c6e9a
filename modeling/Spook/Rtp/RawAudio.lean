import Spook.Rtp.Media
import Mathlib.Algebra.Order.Ring.Int
import Mathlib.Algebra.Order.Group.Nat

set_option relaxedAutoImplicit false
set_option autoImplicit false

/-!
# Audio

`rtp-rawaudio.c`: the samples of a frame are sent in packets that begin where a group of samples of
all channels begins.

## Main definitions

* `Spook.rawaudioProcessFrame`, `rawaudioSend` — the functions of the source.
* `Spook.SampleTiles` — packets with the samples of a frame.

## Main results

* `Spook.rawaudioSend_spec` — what is sent.
-/

namespace Spook

/-- The fields of `struct rtp_rawaudio` that the functions of this file use, with the bytes below
`rawaudio_len`. -/
structure RtpRawaudio where
  rawaudioData : Bytes
  sampsize : ℕ
  channels : ℕ
  timestamp : ℕ

/-- `rawaudio_process_frame`. -/
def rawaudioProcessFrame (f : MediaFrame) (out : RtpRawaudio) : RtpRawaudio × ℤ :=
  ({ out with
    rawaudioData := f.d
    timestamp := if f.timestamp ≠ 0 then f.timestamp else out.timestamp }, 1)

/-- The bytes of one sample of each channel. -/
def RtpRawaudio.group (out : RtpRawaudio) : ℕ := out.channels * out.sampsize

/-- `plen` when `left` bytes are left. -/
def rawaudioPlen (maxDataSize : ℤ) (group : ℕ) (left : ℤ) : ℤ :=
  if maxDataSize < left then maxDataSize - maxDataSize.tmod group else left

section Send

variable (maxDataSize : ℤ) (out : RtpRawaudio) (σ : Type) (send : RtpSend σ)

/-- The loop of `rawaudio_send`, at most `n` times. -/
def rawaudioPackets (n i : ℕ) (s : σ) : Except Fault (σ × ℤ) :=
  match n with
  | 0 => .error .loop
  | n + 1 =>
    if i < out.rawaudioData.length then
      if out.group = 0 then .error .divZero
      else
        let plen := rawaudioPlen maxDataSize out.group (out.rawaudioData.length - i)
        if plen < 0 then .error .negativeLength
        else
          let (s, ret) := send ⟨(out.rawaudioData.drop i).take plen.toNat,
            (out.timestamp + i / out.channels / out.sampsize) % 2 ^ 32, false⟩ s
          if ret < 0 then .ok (s, -1)
          else rawaudioPackets n (i + plen.toNat) s
    else .ok (s, 0)

/-- `rawaudio_send`. -/
def rawaudioSend (s : σ) : Except Fault (σ × ℤ) :=
  rawaudioPackets maxDataSize out σ send (out.rawaudioData.length + 1) 0 s

end Send

/-! ## What is sent -/

/-- The packets, none of them empty, carry the bytes `data` from `offset` on. Each begins at a group
of samples, and has the number of that group as its timestamp, counted from `timestamp` on. -/
structure SampleTiles (maxDataSize : ℤ) (group timestamp offset : ℕ) (data : Bytes)
    (ps : List RtpPacket) : Prop where
  flatten : (ps.map RtpPacket.payload).flatten = data
  nonempty : ∀ p ∈ ps, p.payload ≠ []
  length_le : ∀ p ∈ ps, (p.payload.length : ℤ) ≤ maxDataSize
  start : ∀ i p, ps[i]? = some p → ∃ k,
    offset + ((ps.take i).map RtpPacket.payload).flatten.length = k * group ∧
      p.timestamp = (timestamp + k) % 2 ^ 32

section Tiles

variable {maxDataSize : ℤ} {group timestamp offset k : ℕ} {data : Bytes} {p : RtpPacket}
  {ps : List RtpPacket}

/-- No packets and no samples. -/
theorem SampleTiles.nil : SampleTiles maxDataSize group timestamp offset [] [] :=
  ⟨rfl, by simp, by simp, by simp⟩

/-- A packet in front of the packets with the samples behind its own. -/
theorem SampleTiles.cons {all : Bytes} (hall : p.payload ++ data = all)
    (h : SampleTiles maxDataSize group timestamp (offset + p.payload.length) data ps)
    (hne : p.payload ≠ []) (hle : (p.payload.length : ℤ) ≤ maxDataSize) (hk : offset = k * group)
    (hp : p.timestamp = (timestamp + k) % 2 ^ 32) :
    SampleTiles maxDataSize group timestamp offset all (p :: ps) := by
  refine ⟨by simp [h.flatten, hall], ?_, ?_, ?_⟩
  · intro q hq
    rcases List.mem_cons.1 hq with rfl | hq
    · exact hne
    · exact h.nonempty q hq
  · intro q hq
    rcases List.mem_cons.1 hq with rfl | hq
    · exact hle
    · exact h.length_le q hq
  · intro i q hq
    cases i with
    | zero =>
      obtain rfl := Option.some.inj hq
      exact ⟨k, by simpa using hk, hp⟩
    | succ i =>
      obtain ⟨m, hm, hq⟩ := h.start i q hq
      refine ⟨m, ?_, hq⟩
      rw [← hm]
      simp [Nat.add_assoc]

/-- What the loop of `rawaudio_send` sends. The offset is at a group of samples as long as any are
left.

**Proof sketch.** By induction on the fuel. The length of a packet is all that is left, or the
largest whole number of groups that fits; so the next packet begins at a group again, and its time
stamp is that many groups later. -/
theorem rawaudioPackets_spec {out : RtpRawaudio} (hgroup : 0 < out.group)
    (hmax : (out.group : ℤ) ≤ maxDataSize) {n i : ℕ} (hi : out.rawaudioData.drop i = data)
    (hoff : data ≠ [] → out.group ∣ i) (hn : data.length < n) :
    ∃ ps, Delivers (fun σ send => rawaudioPackets maxDataSize out σ send n i) ps ∧
      SampleTiles maxDataSize out.group out.timestamp i data ps := by
  induction n generalizing i data with
  | zero => exact absurd hn (Nat.not_lt_zero _)
  | succ n ih =>
    have hlength : out.rawaudioData.length - i = data.length := by rw [← hi, List.length_drop]
    by_cases hnil : data = []
    · subst hnil
      refine ⟨[], fun σ send _ s => ?_, .nil⟩
      show rawaudioPackets maxDataSize out σ send (n + 1) i s = _
      rw [rawaudioPackets, if_neg (by rw [List.length_nil] at hlength; omega)]
      rfl
    · have hpos : 0 < data.length := List.length_pos_iff.2 hnil
      -- `plen`, which is at least one group, or all that is left.
      obtain ⟨m, hm, hmpos, hmle, hmmax, hmgroup⟩ : ∃ m : ℕ,
          rawaudioPlen maxDataSize out.group (out.rawaudioData.length - i) = m ∧ 0 < m ∧
            m ≤ data.length ∧ (m : ℤ) ≤ maxDataSize ∧ (m < data.length → out.group ∣ m) := by
        obtain ⟨c, rfl⟩ := Int.eq_ofNat_of_zero_le (show 0 ≤ maxDataSize by omega)
        have hmod : ((c : ℤ).tmod out.group) = ((c % out.group : ℕ) : ℤ) := (Int.ofNat_tmod c _).symm
        have hlt := Nat.mod_lt c hgroup
        have hdiv := Nat.mod_add_div c out.group
        unfold rawaudioPlen
        split_ifs with hlong
        · refine ⟨c - c % out.group, by rw [hmod]; omega, by omega, by omega, by omega, fun _ => ?_⟩
          exact Nat.dvd_sub_mod c
        · exact ⟨data.length, by omega, hpos, le_rfl, by omega, fun h => absurd h (lt_irrefl _)⟩
      obtain ⟨k, hk⟩ := hoff hnil
      have hdrop : out.rawaudioData.drop (i + m) = data.drop m := by rw [← hi, List.drop_drop]
      have htake : (data.take m).length = m := List.length_take_of_le hmle
      obtain ⟨ps, hdelivers, htiles⟩ := ih hdrop
        (by
          intro hne
          have hlt : m < data.length := by
            rw [← not_le]
            exact fun hle => hne (List.drop_eq_nil_of_le hle)
          exact Nat.dvd_add ⟨k, hk⟩ (hmgroup hlt))
        (by rw [List.length_drop]; omega)
      have hnumber : i / out.channels / out.sampsize = k := by
        rw [Nat.div_div_eq_div_mul, hk]
        exact Nat.mul_div_cancel_left k hgroup
      have htiles : SampleTiles maxDataSize out.group out.timestamp i data
          (⟨data.take m, (out.timestamp + k) % 2 ^ 32, false⟩ :: ps) := by
        apply SampleTiles.cons (k := k) (List.take_append_drop m data)
        · rwa [htake]
        · apply List.ne_nil_of_length_pos
          rwa [htake]
        · rwa [htake]
        · rw [hk, Nat.mul_comm]
        · rfl
      refine ⟨_, hdelivers.cons fun σ send hsend s => ?_, htiles⟩
      show rawaudioPackets maxDataSize out σ send (n + 1) i s = _
      rw [rawaudioPackets, if_pos (by omega), if_neg (by omega)]
      dsimp only
      rw [hm, if_neg (by omega), hnumber, Int.toNat_natCast, hi, if_neg (not_lt.2 (hsend _ _))]

end Tiles

/-- Specification of `rawaudio_send`. -/
theorem rawaudioSend_spec (out : RtpRawaudio) {maxDataSize : ℤ} (hgroup : 0 < out.group)
    (hmax : (out.group : ℤ) ≤ maxDataSize) :
    ∃ ps, Delivers (rawaudioSend maxDataSize out) ps ∧
      SampleTiles maxDataSize out.group out.timestamp 0 out.rawaudioData ps :=
  rawaudioPackets_spec hgroup hmax rfl (fun _ => Nat.dvd_zero _) (Nat.lt_succ_self _)

end Spook
