import Spook.Exchanger
import Spook.Lib.CString

set_option relaxedAutoImplicit false
set_option autoImplicit false

/-!
# Recorded packets

A recording endpoint unpacks the RTP packets it receives into frames that it takes from its exchanger:
`udp_rtp_read` of `rtp.c` those of its socket, `interleave_recv` of `rtsp.c` those of a connection. The
two are copies of each other that have drifted apart, and both copy from the start of the packet.

A packet with fewer than 12 bytes asks `malloc` for a length below zero, which it does not have. What
the buffer of `udp_rtp_read` holds behind a packet is what the stack held.

## Main definitions

* `Spook.RecordFrame`, `RecordEndpoint` — a frame, and the endpoint.
* `Spook.udpRtpReadFrame`, `interleaveRecvFrame` — the two functions.
* `Spook.Recorded` — an endpoint after some packets.
* `Spook.UnpackedAlike` — both deliver the packet, and the exchanger goes on.
* `Spook.UnpacksRight` — the packets and frames of which this holds.

## Main results

* `Spook.Recorded.start` — what `recv_start_ts` is after some packets.
* `Spook.unpackedAlike_iff` — when both deliver the packet.
-/

namespace Spook

/-- The fields of `struct frame` that are written here. -/
structure RecordFrame where
  length : ℤ
  format : ℤ
  width : ℤ
  height : ℤ
  key : Bool
  seq : ℕ
  timestamp : ℕ
  d : Bytes
  deriving DecidableEq

/-- The fields of a recording `struct rtp_endpoint` that are used here. -/
structure RecordEndpoint where
  maxDataSize : ℕ
  recvStartTs : ℕ
  ex : Exchanger RecordFrame

section Unpack

/-- `GET_16` of the bytes of a buffer. -/
def bufGet16 (buf : ℕ → UInt8) (i : ℕ) : ℕ := (buf i).toNat * 256 + (buf (i + 1)).toNat

/-- `GET_32` of the bytes of a buffer. -/
def bufGet32 (buf : ℕ → UInt8) (i : ℕ) : ℕ := bufGet16 buf i * 65536 + bufGet16 buf (i + 2)

/-- The size of the buffer of `udp_rtp_read`. -/
def udpBufSize : ℕ := 1024

/-- The bytes at and behind a packet. -/
def packetBuf (p : Bytes) (behind : ℕ → UInt8) (i : ℕ) : UInt8 := p.getD i (behind i)

/-- `f->length` of a packet of `n` bytes. -/
def frameLength (n : ℕ) (maxDataSize : ℕ) : ℤ :=
  if (n : ℤ) - 12 > maxDataSize then maxDataSize else (n : ℤ) - 12

/-- The first `n` bytes of a buffer, which `memcpy` copies. -/
def copyBuf (buf : ℕ → UInt8) (n : ℕ) : Bytes := (List.range n).map buf

/-- The frame that was taken is filled and delivered, or dropped when `malloc` fails. -/
def finishFrame (ep : RecordEndpoint) (f : RecordFrame) (buf : ℕ → UInt8) (mallocOk : Bool) :
    RecordEndpoint × Option RecordFrame :=
  if 0 ≤ f.length ∧ mallocOk then
    let f := { f with d := copyBuf buf f.length.toNat }
    ({ ep with ex := ep.ex.deliverFrame f }, some f)
  else (ep, none)

/-- `udp_rtp_read` of a packet, with the frame that it delivers. For a packet without a byte `read`
returns 0, and only the session is torn down. -/
def udpRtpReadFrame (ep : RecordEndpoint) (p : Bytes) (behind : ℕ → UInt8) (mallocOk : Bool) :
    RecordEndpoint × Option RecordFrame :=
  let buf := packetBuf (p.take udpBufSize) behind
  let ret := (p.take udpBufSize).length
  if ret > 0 then
    let ep := if ep.recvStartTs = 0 then { ep with recvStartTs := bufGet32 buf 4 } else ep
    match ep.ex.getNextFrame with
    | (ex, some f) =>
      finishFrame { ep with ex }
        { f with
          length := frameLength ret ep.maxDataSize, format := 0, width := 0, height := 0,
          seq := bufGet16 buf 2,
          timestamp := (bufGet32 buf 4 + (2 ^ 32 - ep.recvStartTs)) % 2 ^ 32,
          key := buf 1 &&& 0x80 ≠ 0 } buf mallocOk
    | (ex, none) => ({ ep with ex }, none)
  else (ep, none)

/-- `interleave_recv` of a packet on an RTP channel, with the frame that it delivers. -/
def interleaveRecvFrame (ep : RecordEndpoint) (p : Bytes) (behind : ℕ → UInt8) (mallocOk : Bool) :
    RecordEndpoint × Option RecordFrame :=
  let d := packetBuf p behind
  match ep.ex.getNextFrame with
  | (ex, some f) =>
    finishFrame { ep with ex }
      { f with
        length := frameLength p.length ep.maxDataSize, format := 0, width := 0, height := 0,
        key := d 1 &&& 0x80 ≠ 0 } d mallocOk
  | (ex, none) => ({ ep with ex }, none)

end Unpack

/-! ## The first packet -/

section Start

/-- What `recv_start_ts` is after packets with some timestamps: the first that is not zero. -/
def startAfter (ts : List ℕ) : ℕ := (ts.find? (· ≠ 0)).getD 0

/-- The timestamp in the buffer of `udp_rtp_read`. -/
def packetTimestamp (p : Bytes) (behind : ℕ → UInt8) : ℕ :=
  bufGet32 (packetBuf (p.take udpBufSize) behind) 4

/-- An endpoint that has read packets with the timestamps `ts` from its socket; a packet without a
byte would have been the last one. Meanwhile the master thread may have done anything with the
exchanger. -/
inductive Recorded : List ℕ → RecordEndpoint → Prop
  | new (ep : RecordEndpoint) (hstart : ep.recvStartTs = 0) : Recorded [] ep
  | read {ts : List ℕ} {ep : RecordEndpoint} (h : Recorded ts ep) (p : Bytes) (behind : ℕ → UInt8)
      (mallocOk : Bool) (hp : p ≠ []) :
      Recorded (ts ++ [packetTimestamp p behind]) (udpRtpReadFrame ep p behind mallocOk).1
  | master {ts : List ℕ} {ep : RecordEndpoint} (h : Recorded ts ep) (ex : Exchanger RecordFrame) :
      Recorded ts { ep with ex }

/-- The start is the first time stamp that is not zero. -/
theorem startAfter_concat (ts : List ℕ) (t : ℕ) :
    startAfter (ts ++ [t]) = if startAfter ts = 0 then t else startAfter ts := by
  unfold startAfter
  rw [List.find?_append]
  cases hfind : ts.find? (· ≠ 0) with
  | none =>
    by_cases ht : t = 0 <;> simp [ht]
  | some t' =>
    have hne : t' ≠ 0 := by simpa using List.find?_some hfind
    simp [hne]

/-- The start of the timestamps is the first one exactly if that is not zero, or all are. -/
theorem startAfter_eq_head {t : ℕ} {ts : List ℕ} :
    startAfter (t :: ts) = t ↔ (t = 0 → ∀ t' ∈ ts, t' = 0) := by
  unfold startAfter
  by_cases ht : t = 0
  · subst ht
    rw [List.find?_cons_of_neg (by simp)]
    constructor
    · intro h _ t' ht'
      by_contra hne
      cases hfind : ts.find? (· ≠ 0) with
      | none => exact absurd ((List.find?_eq_none.1 hfind) t' ht') (by simpa using hne)
      | some t₀ =>
        rw [hfind] at h
        exact absurd (show t₀ = 0 from h) (by simpa using List.find?_some hfind)
    · intro h
      have hnone : ts.find? (· ≠ 0) = none := by
        rw [List.find?_eq_none]
        intro t' ht'
        simp [h rfl t' ht']
      rw [hnone]
      rfl
  · rw [List.find?_cons_of_pos (by simpa using ht)]
    exact iff_of_true rfl fun h => absurd h ht

/-- A packet with a byte shows in the buffer. -/
theorem length_take_udpBufSize_pos {p : Bytes} (hp : p ≠ []) : (p.take udpBufSize).length > 0 := by
  rw [List.length_take]
  exact lt_min (by decide) (List.length_pos_iff.2 hp)

/-- The first timestamp is kept, unless it is zero. -/
theorem udpRtpReadFrame_recvStartTs (ep : RecordEndpoint) {p : Bytes} (behind : ℕ → UInt8)
    (mallocOk : Bool) (hp : p ≠ []) : (udpRtpReadFrame ep p behind mallocOk).1.recvStartTs =
      if ep.recvStartTs = 0 then packetTimestamp p behind else ep.recvStartTs := by
  unfold udpRtpReadFrame
  dsimp only
  rw [if_pos (length_take_udpBufSize_pos hp)]
  split
  · unfold finishFrame
    split_ifs <;> rfl
  · split_ifs <;> rfl

/-- What `recv_start_ts` is after some packets. -/
theorem Recorded.start {ts : List ℕ} {ep : RecordEndpoint} (h : Recorded ts ep) :
    ep.recvStartTs = startAfter ts := by
  induction h with
  | new ep hstart => rw [hstart]; rfl
  | read h p behind mallocOk hp ih =>
    rw [udpRtpReadFrame_recvStartTs _ _ _ hp, startAfter_concat, ih]
  | master h ex ih => exact ih

end Start

/-! ## The bytes that are copied -/

section Copy

variable {p : Bytes} {behind : ℕ → UInt8} {k m : ℕ}

/-- What is copied from the buffer is the packet, as far as it goes. -/
theorem copyBuf_packetBuf (hk : k ≤ p.length) : copyBuf (packetBuf p behind) k = p.take k := by
  refine List.ext_getElem? fun i => ?_
  rw [copyBuf, List.getElem?_map]
  by_cases hi : i < k
  · rw [List.getElem?_range hi, List.getElem?_take_of_lt hi, Option.map_some]
    simp [packetBuf, List.getD_eq_getElem?_getD, show i < p.length by omega]
  · rw [List.getElem?_eq_none (by simpa using hi), List.getElem?_eq_none (by simp; omega)]
    rfl

/-- The start of a packet is what is behind its header if the bytes repeat. -/
theorem take_eq_drop_iff : p.take (min (p.length - 12) m) = (p.drop 12).take m ↔
    ∀ i < m, i + 12 < p.length → p[i]? = p[i + 12]? := by
  constructor
  · intro heq i him hin
    have hget : (p.take (min (p.length - 12) m))[i]? = ((p.drop 12).take m)[i]? := by rw [heq]
    rw [List.getElem?_take_of_lt (by omega), List.getElem?_take_of_lt him, List.getElem?_drop] at hget
    rw [hget, Nat.add_comm]
  · intro hrepeat
    refine List.ext_getElem? fun i => ?_
    by_cases hi : i < min (p.length - 12) m
    · rw [List.getElem?_take_of_lt hi, List.getElem?_take_of_lt (by omega), List.getElem?_drop,
        Nat.add_comm]
      exact hrepeat i (by omega) (by omega)
    · rw [List.getElem?_eq_none (by rw [List.length_take]; omega),
        List.getElem?_eq_none (by rw [List.length_take, List.length_drop]; omega)]

/-- The frame is as long as the packet without its header, up to the room. -/
theorem toNat_frameLength (hp : 12 ≤ p.length) :
    (frameLength p.length m).toNat = min (p.length - 12) m := by
  unfold frameLength
  split_ifs <;> omega

/-- Only a packet that is shorter than the header gives a negative length. -/
theorem frameLength_nonneg : 0 ≤ frameLength p.length m ↔ 12 ≤ p.length := by
  unfold frameLength
  split_ifs <;> omega

end Copy

/-! ## What is delivered -/

section Alike

variable {ep : RecordEndpoint} {p : Bytes} {behind : ℕ → UInt8} {mallocOk : Bool} {f : RecordFrame}
  {ts : List ℕ} {first : ℕ}

/-- A frame holds the bytes of a packet behind its header, cut to `maxDataSize`, with its marker, its
sequence number and its timestamp from `first` on. -/
structure Unpacked (p : Bytes) (maxDataSize first : ℕ) (g : RecordFrame) : Prop where
  d : g.d = (p.drop 12).take maxDataSize
  key : g.key = decide (p.getD 1 0 &&& 0x80 ≠ 0)
  seq : g.seq = bufGet16 (p.getD · 0) 2
  timestamp : g.timestamp = (bufGet32 (p.getD · 0) 4 + (2 ^ 32 - first)) % 2 ^ 32

/-- Both functions deliver the packet, from the timestamp `first` on; if it is too short or `malloc`
fails, then the exchanger has the next frame. -/
def UnpackedAlike (ep : RecordEndpoint) (first : ℕ) (p : Bytes) (behind : ℕ → UInt8)
    (mallocOk : Bool) : Prop :=
  if 12 ≤ p.length ∧ mallocOk then
    ∃ g g', (udpRtpReadFrame ep p behind mallocOk).2 = some g ∧
      (interleaveRecvFrame ep p behind mallocOk).2 = some g' ∧
      Unpacked p ep.maxDataSize first g ∧ Unpacked p ep.maxDataSize first g'
  else
    (udpRtpReadFrame ep p behind mallocOk).1.ex.getNextFrame.2.isSome ∧
      (interleaveRecvFrame ep p behind mallocOk).1.ex.getNextFrame.2.isSome

/-- The packets and the frames that are unpacked right: the packet has a header, and its bytes repeat
from there on; the buffer has room for what is to be delivered; the first timestamp is not zero, unless
all are; and the frame holds the sequence number and the timestamp already. -/
structure UnpacksRight (p : Bytes) (maxDataSize : ℕ) (f : RecordFrame) (first : ℕ) (ts : List ℕ)
    (mallocOk : Bool) : Prop where
  header : 12 ≤ p.length
  mallocOk : mallocOk = true
  repeats : ∀ i < maxDataSize, i + 12 < p.length → p[i]? = p[i + 12]?
  room : p.length ≤ udpBufSize ∨ maxDataSize + 12 ≤ udpBufSize
  seq : f.seq = bufGet16 (p.getD · 0) 2
  timestamp : f.timestamp = (bufGet32 (p.getD · 0) 4 + (2 ^ 32 - first)) % 2 ^ 32
  start : first = 0 → ∀ t ∈ ts, t = 0

/-- The slot whose frame was taken has none for the next call. -/
theorem getNextFrame_taken {ex ex' : Exchanger RecordFrame} (h : ex.getNextFrame = (ex', some f)) :
    ex'.getNextFrame.2 = none := by
  unfold Exchanger.getNextFrame at h
  dsimp only at h
  split_ifs at h with hpending
  · obtain ⟨rfl, -⟩ := Prod.mk.inj h
    simp [Exchanger.getNextFrame]
  · cases (Prod.mk.inj h).2

/-- A header is read alike in the packet and in a buffer that holds it. -/
theorem packetBuf_header {q : Bytes} (hq : q <+: p) (hlen : 12 ≤ q.length) {i : ℕ} (hi : i < 12) :
    packetBuf q behind i = p.getD i 0 := by
  obtain ⟨rest, rfl⟩ := hq
  simp [packetBuf, List.getD_eq_getElem?_getD, List.getElem?_append_left (show i < q.length by omega),
    show i < q.length by omega]

/-- The sequence number is inside the header. -/
theorem bufGet16_header {q : Bytes} (hq : q <+: p) (hlen : 12 ≤ q.length) :
    bufGet16 (packetBuf q behind) 2 = bufGet16 (p.getD · 0) 2 := by
  simp only [bufGet16, packetBuf_header hq hlen (by decide : 2 < 12),
    packetBuf_header hq hlen (by decide : 2 + 1 < 12)]

/-- The time stamp is inside the header. -/
theorem bufGet32_header {q : Bytes} (hq : q <+: p) (hlen : 12 ≤ q.length) :
    bufGet32 (packetBuf q behind) 4 = bufGet32 (p.getD · 0) 4 := by
  simp only [bufGet32, bufGet16, packetBuf_header hq hlen (by decide : 4 < 12),
    packetBuf_header hq hlen (by decide : 4 + 1 < 12),
    packetBuf_header hq hlen (by decide : 4 + 2 < 12),
    packetBuf_header hq hlen (by decide : 4 + 2 + 1 < 12)]

/-- A frame that is filled and delivered. -/
theorem finishFrame_ok {buf : ℕ → UInt8} (hlen : 0 ≤ f.length) :
    (finishFrame ep f buf true).2 = some { f with d := copyBuf buf f.length.toNat } := by
  rw [finishFrame, if_pos ⟨hlen, rfl⟩]

/-- A frame that is dropped. -/
theorem finishFrame_drop {buf : ℕ → UInt8} (h : ¬ (0 ≤ f.length ∧ mallocOk = true)) :
    (finishFrame ep f buf mallocOk).1 = ep := by
  rw [finishFrame, if_neg h]

/-- The frame that `udp_rtp_read` delivers of a packet with a header. -/
theorem udpRtpReadFrame_delivers {ex : Exchanger RecordFrame} (hget : ep.ex.getNextFrame = (ex, some f))
    (hp : 12 ≤ p.length) (hstart : ep.recvStartTs = startAfter ts) :
    ∃ g, (udpRtpReadFrame ep p behind true).2 = some g ∧
      g.d = (p.take udpBufSize).take (min ((p.take udpBufSize).length - 12) ep.maxDataSize) ∧
      g.key = decide (p.getD 1 0 &&& 0x80 ≠ 0) ∧ g.seq = bufGet16 (p.getD · 0) 2 ∧
      g.timestamp = (bufGet32 (p.getD · 0) 4 +
        (2 ^ 32 - startAfter (ts ++ [packetTimestamp p behind]))) % 2 ^ 32 := by
  have hlen : 12 ≤ (p.take udpBufSize).length := by
    rw [List.length_take]
    exact le_min (by decide) hp
  have hprefix := List.take_prefix udpBufSize p
  unfold udpRtpReadFrame
  dsimp only
  rw [if_pos (show (p.take udpBufSize).length > 0 by omega)]
  set ep' := if ep.recvStartTs = 0 then
    { ep with recvStartTs := bufGet32 (packetBuf (p.take udpBufSize) behind) 4 } else ep with hep
  have hex : ep'.ex = ep.ex := by rw [hep]; split_ifs <;> rfl
  have hmax : ep'.maxDataSize = ep.maxDataSize := by rw [hep]; split_ifs <;> rfl
  have hts : ep'.recvStartTs = startAfter (ts ++ [packetTimestamp p behind]) := by
    rw [hep, startAfter_concat, hstart]
    split_ifs
    · rfl
    · exact hstart
  rw [hex, hget]
  dsimp only
  rw [finishFrame_ok (frameLength_nonneg.2 hlen)]
  refine ⟨_, rfl, ?_, ?_, bufGet16_header hprefix hlen, ?_⟩
  · dsimp only
    rw [toNat_frameLength hlen, copyBuf_packetBuf (by omega), hmax]
  · dsimp only
    rw [packetBuf_header hprefix hlen (by decide : 1 < 12)]
  · dsimp only
    rw [bufGet32_header hprefix hlen, hts]

/-- The frame that `interleave_recv` delivers of a packet with a header. -/
theorem interleaveRecvFrame_delivers (behind : ℕ → UInt8) {ex : Exchanger RecordFrame}
    (hget : ep.ex.getNextFrame = (ex, some f)) (hp : 12 ≤ p.length) :
    ∃ g, (interleaveRecvFrame ep p behind true).2 = some g ∧
      g.d = p.take (min (p.length - 12) ep.maxDataSize) ∧
      g.key = decide (p.getD 1 0 &&& 0x80 ≠ 0) ∧ g.seq = f.seq ∧ g.timestamp = f.timestamp := by
  unfold interleaveRecvFrame
  dsimp only
  rw [hget]
  dsimp only
  rw [finishFrame_ok (frameLength_nonneg.2 hp)]
  refine ⟨_, rfl, ?_, ?_, rfl, rfl⟩
  · dsimp only
    rw [toNat_frameLength hp, copyBuf_packetBuf (by omega)]
  · dsimp only
    rw [packetBuf_header (List.prefix_refl p) hp (by decide : 1 < 12)]

/-- A packet that is dropped leaves its slot without a frame. -/
theorem interleaveRecvFrame_drop (behind : ℕ → UInt8) {ex : Exchanger RecordFrame}
    (hget : ep.ex.getNextFrame = (ex, some f)) (h : ¬ (12 ≤ p.length ∧ mallocOk = true)) :
    (interleaveRecvFrame ep p behind mallocOk).1.ex.getNextFrame.2 = none := by
  unfold interleaveRecvFrame
  dsimp only
  rw [hget]
  dsimp only
  rw [finishFrame_drop fun h' => h ⟨frameLength_nonneg.1 h'.1, h'.2⟩]
  exact getNextFrame_taken hget

/-- Four bytes are 32 bits. -/
theorem bufGet32_lt (buf : ℕ → UInt8) (i : ℕ) : bufGet32 buf i < 2 ^ 32 := by
  have h₀ := (buf i).toNat_lt
  have h₁ := (buf (i + 1)).toNat_lt
  have h₂ := (buf (i + 2)).toNat_lt
  have h₃ := (buf (i + 2 + 1)).toNat_lt
  simp only [bufGet32, bufGet16]
  omega

/-- The timestamps of packets are words. -/
theorem Recorded.timestamp_lt (h : Recorded ts ep) : ∀ t ∈ ts, t < 2 ^ 32 := by
  induction h with
  | new ep hstart => simp
  | read h p behind mallocOk _ ih =>
    intro t ht
    rcases List.mem_append.1 ht with ht | ht
    · exact ih t ht
    · rw [List.mem_singleton.1 ht]
      exact bufGet32_lt _ _
  | master h ex ih => exact ih

/-- The start is one of the time stamps. -/
theorem startAfter_lt (h : ∀ t ∈ ts, t < 2 ^ 32) : startAfter ts < 2 ^ 32 := by
  unfold startAfter
  cases hfind : ts.find? (· ≠ 0) with
  | none => exact Nat.two_pow_pos 32
  | some t => exact h t (List.mem_of_find?_eq_some hfind)

/-- The bytes that `udp_rtp_read` copies are those behind the header if those that `interleave_recv`
copies are, and the buffer has room for them. -/
theorem udpCopy_iff {m : ℕ} (hp : 12 ≤ p.length)
    (hrepeat : ∀ i < m, i + 12 < p.length → p[i]? = p[i + 12]?) :
    (p.take udpBufSize).take (min ((p.take udpBufSize).length - 12) m) = (p.drop 12).take m ↔
      p.length ≤ udpBufSize ∨ m + 12 ≤ udpBufSize := by
  have hcopy := take_eq_drop_iff.2 hrepeat
  rw [List.take_take, List.length_take]
  constructor
  · intro heq
    have hlen := congrArg List.length heq
    simp only [List.length_take, List.length_drop] at hlen
    unfold udpBufSize at hlen ⊢
    omega
  · intro hroom
    have hmin : min (min (min udpBufSize p.length - 12) m) udpBufSize = min (p.length - 12) m := by
      unfold udpBufSize at hroom ⊢
      omega
    rw [hmin, hcopy]

end Alike

/-- **Recorded packets.** When a frame waits for the next packet, both functions deliver the packet,
and go on behind one that cannot be delivered, exactly if the packet and the frame are of the kind that
is unpacked right. -/
theorem unpackedAlike_iff {ts : List ℕ} {ep : RecordEndpoint} (hrecorded : Recorded ts ep)
    {f : RecordFrame} (hframe : ep.ex.getNextFrame.2 = some f) (p : Bytes) (behind : ℕ → UInt8)
    (mallocOk : Bool) :
    UnpackedAlike ep ((ts ++ [packetTimestamp p behind]).headD 0) p behind mallocOk ↔
      UnpacksRight p ep.maxDataSize f ((ts ++ [packetTimestamp p behind]).headD 0)
        (ts ++ [packetTimestamp p behind]) mallocOk := by
  obtain ⟨ex, hget⟩ : ∃ ex, ep.ex.getNextFrame = (ex, some f) := ⟨_, by rw [← hframe]⟩
  by_cases hok : 12 ≤ p.length ∧ mallocOk = true
  · obtain ⟨hp, rfl⟩ := hok
    have hwords : ∀ t ∈ ts ++ [packetTimestamp p behind], t < 2 ^ 32 := by
      intro t ht
      rcases List.mem_append.1 ht with ht | ht
      · exact hrecorded.timestamp_lt t ht
      · rw [List.mem_singleton.1 ht]
        exact bufGet32_lt _ _
    obtain ⟨g, hg, hgd, hgkey, hgseq, hgts⟩ := udpRtpReadFrame_delivers hget hp hrecorded.start
    obtain ⟨g', hg', hgd', hgkey', hgseq', hgts'⟩ := interleaveRecvFrame_delivers behind hget hp
    have hstartLt := startAfter_lt hwords
    obtain ⟨first, rest, hts⟩ : ∃ first rest, ts ++ [packetTimestamp p behind] = first :: rest :=
      List.exists_cons_of_ne_nil (by simp)
    rw [hts] at hgts hwords hstartLt ⊢
    rw [List.headD_cons]
    have hfirstLt : first < 2 ^ 32 := hwords first List.mem_cons_self
    have hstart : startAfter (first :: rest) = first ↔
        (first = 0 → ∀ t ∈ first :: rest, t = 0) := by
      rw [startAfter_eq_head]
      refine forall_congr' fun h => ?_
      simp [h]
    rw [UnpackedAlike, if_pos ⟨hp, rfl⟩]
    constructor
    · rintro ⟨g₁, g₁', hg₁, hg₁', hudp, hinter⟩
      obtain rfl := Option.some.inj (hg.symm.trans hg₁)
      obtain rfl := Option.some.inj (hg'.symm.trans hg₁')
      have hrepeat := take_eq_drop_iff.1 (hgd'.symm.trans hinter.d)
      have hroom := (udpCopy_iff hp hrepeat).1 (hgd.symm.trans hudp.d)
      have hsame : startAfter (first :: rest) = first := by
        have hword := hgts.symm.trans hudp.timestamp
        omega
      exact ⟨hp, rfl, hrepeat, hroom, hgseq'.symm.trans hinter.seq,
        hgts'.symm.trans hinter.timestamp, hstart.1 hsame⟩
    · intro h
      have hinterd := hgd'.trans (take_eq_drop_iff.2 h.repeats)
      have hudpd := hgd.trans ((udpCopy_iff hp h.repeats).2 h.room)
      rw [hstart.2 h.start] at hgts
      exact ⟨g, g', hg, hg', ⟨hudpd, hgkey, hgseq, hgts⟩,
        ⟨hinterd, hgkey', hgseq'.trans h.seq, hgts'.trans h.timestamp⟩⟩
  · rw [UnpackedAlike, if_neg hok]
    refine iff_of_false (fun h => ?_) fun h => hok ⟨h.header, h.mallocOk⟩
    have hnone := interleaveRecvFrame_drop behind hget hok
    rw [hnone] at h
    cases h.2

/-- An endpoint whose exchanger has the frame `f` for the next packet. -/
def recordingWith (f : RecordFrame) : RecordEndpoint :=
  ⟨1400, 0, (Exchanger.newExchanger 2).exchangeFrame f |>.1⟩

/-- A frame as `new_frame` gives it, that held the packet `seq` before. -/
def staleFrame (seq : ℕ) : RecordFrame := ⟨0, 0, 0, 0, false, seq, 0, []⟩

/-- The frame that waits is what the slave gets. -/
theorem getNextFrame_recordingWith (f : RecordFrame) :
    (recordingWith f).ex.getNextFrame.2 = some f := by
  simp [recordingWith, Exchanger.newExchanger, Exchanger.exchangeFrame, Exchanger.getNextFrame]

/-- The header of the packet 7, with the timestamp 9 and the marker. -/
def packetHeader : Bytes := [0x80, 0xE0, 0, 7, 0, 0, 0, 9, 0, 0, 0, 0]

/-- A packet whose two bytes of data are those of its header, in a frame that held a packet of the same
number. -/
theorem unpackedAlike_iff_repeated :
    UnpackedAlike (recordingWith (staleFrame 7))
      (([] ++ [packetTimestamp (packetHeader ++ [0x80, 0xE0]) fun _ => 0]).headD 0)
      (packetHeader ++ [0x80, 0xE0]) (fun _ => 0) true := by
  refine (unpackedAlike_iff (.new (recordingWith (staleFrame 7)) rfl)
    (getNextFrame_recordingWith (staleFrame 7)) (packetHeader ++ [0x80, 0xE0]) (fun _ => 0) true).2 ?_
  constructor
  · decide
  · rfl
  · intro i _ hi
    have hi : i < 2 := Nat.lt_of_add_lt_add_right (n := 12) hi
    match i, hi with
    | 0, _ | 1, _ => rfl
  · decide
  · decide
  · decide
  · intro h
    exact absurd h (by decide)

/-- A packet with two bytes of data: `interleave_recv` delivers its first two bytes, and so does
`udp_rtp_read`. -/
theorem unpacked_header : ¬ UnpackedAlike (recordingWith (staleFrame 7)) 9
    (packetHeader ++ [0xAA, 0xBB]) (fun _ => 0) true := by
  rw [UnpackedAlike, if_pos (by decide)]
  rintro ⟨g, g', -, hg', -, hinter⟩
  have hframe := getNextFrame_recordingWith (staleFrame 7)
  have hget : (recordingWith (staleFrame 7)).ex.getNextFrame =
      ((recordingWith (staleFrame 7)).ex.getNextFrame.1, some (staleFrame 7)) := by rw [← hframe]
  obtain ⟨g₁, hg₁, hd, -⟩ := interleaveRecvFrame_delivers (fun _ => 0) hget
    (show 12 ≤ (packetHeader ++ [0xAA, 0xBB]).length by decide)
  obtain rfl := Option.some.inj (hg'.symm.trans hg₁)
  have hbytes := hd.symm.trans hinter.d
  exact absurd hbytes (by decide)

end Spook
