import Spook.HttpAuth
import Spook.Rtp.Clock
import Spook.Tcp.Units

set_option relaxedAutoImplicit false
set_option autoImplicit false

/-!
# RTP packets on the wire

`send_rtp_packet` for an endpoint that is connected by UDP, with the bytes that it writes. Whether the
socket takes a datagram is left open for every call, and so is what `rtcp_send` returns, which has no
value to return.

## Main definitions

* `Spook.RtpEndpoint`, `RtpEndpoint.rtphdr` — the endpoint and the header of a packet.
* `Spook.UdpLink`, `sendUdp` — the function of the source.
* `Spook.rtpParse` — a receiver of RFC 3550.
* `Spook.sendAll`, `Hands` — packets that are sent until one fails.
* `Spook.Linked` — what the socket took are some packets, numbered one after the other.

## Main results

* `Spook.sendUdp_linked` — one call.
* `Spook.sendAll_linked` — all packets of a frame.
-/

namespace Spook

/-! ## The function of the source -/

/-- `struct rtp_endpoint` as `send_rtp_packet` sees it. -/
structure RtpEndpoint where
  payload : ℕ
  ssrc : ℕ
  clock : RtpClock
  lastTimestamp : ℕ
  seqnum : ℕ
  packetCount : Int32
  octetCount : Int32
  forceRtcp : Bool

/-- `rtphdr`. -/
def RtpEndpoint.rtphdr (ep : RtpEndpoint) (marker : Bool) : Bytes :=
  let byte := UInt8.ofNat ep.payload
  (2 : UInt8) <<< 6 :: (if marker then byte ||| 0x80 else byte) ::
    (put16 ep.seqnum ++ put32 ep.lastTimestamp ++ put32 ep.ssrc)

/-- An endpoint with its socket: the calls of `sendmsg` so far, and the datagrams that it took. -/
structure UdpLink where
  ep : RtpEndpoint
  calls : ℕ
  sent : List Bytes

/-- `send_rtp_packet` of an endpoint that is connected by UDP. -/
def sendUdp (sendmsgOk : ℕ → Bool) (rtcpRet : ℤ) : RtpSend UdpLink := fun p l =>
  let ep := { l.ep with lastTimestamp := l.ep.clock.lastTimestamp p.timestamp }
  if sendmsgOk l.calls then
    let sent := l.sent ++ [ep.rtphdr p.marker ++ p.payload]
    let ep := { ep with
      octetCount := ep.octetCount + Int32.ofNat p.payload.length
      packetCount := ep.packetCount + 1 }
    if ep.forceRtcp ∧ rtcpRet < 0 then (⟨{ ep with forceRtcp := false }, l.calls + 1, sent⟩, -1)
    else
      let ep := { ep with forceRtcp := false, seqnum := (ep.seqnum + 1) % 65536 }
      (⟨ep, l.calls + 1, sent⟩, 0)
  else (⟨ep, l.calls + 1, l.sent⟩, -1)

/-! ## The receiver -/

/-- A packet as its receiver sees it. -/
structure RtpReceived where
  payloadType : ℕ
  marker : Bool
  seqnum : ℕ
  timestamp : ℕ
  ssrc : ℕ
  data : Bytes
  deriving DecidableEq

/-- `GET_32` of four bytes. -/
def get32 (b₃ b₂ b₁ b₀ : UInt8) : ℕ := get16 b₃ b₂ * 65536 + get16 b₁ b₀

/-- A packet of RFC 3550 without padding, extension and contributing sources. -/
def rtpParse : Bytes → Option RtpReceived
  | v :: pt :: s₁ :: s₀ :: t₃ :: t₂ :: t₁ :: t₀ :: c₃ :: c₂ :: c₁ :: c₀ :: data =>
    if v = 0x80 then
      some ⟨(pt &&& 0x7F).toNat, pt &&& 0x80 ≠ 0, get16 s₁ s₀, get32 t₃ t₂ t₁ t₀,
        get32 c₃ c₂ c₁ c₀, data⟩
    else none
  | _ => none

/-- How the receiver sees a packet that an endpoint sends as its packet number `k`. -/
def RtpEndpoint.received (ep : RtpEndpoint) (k : ℕ) (p : RtpPacket) : RtpReceived :=
  ⟨ep.payload, p.marker, (ep.seqnum + k) % 65536, ep.clock.lastTimestamp p.timestamp,
    ep.ssrc % 2 ^ 32, p.payload⟩

/-- Two bytes of a number, in network order. -/
theorem get16_bytes (v : ℕ) : get16 (UInt8.ofNat (v / 256)) (UInt8.ofNat v) = v % 65536 := by
  simp only [get16, UInt8.toNat_ofNat']
  omega

/-- Four bytes of a number, in network order. -/
theorem get32_bytes (v : ℕ) :
    get32 (UInt8.ofNat (v / 2 ^ 24)) (UInt8.ofNat (v / 2 ^ 16)) (UInt8.ofNat (v / 2 ^ 8))
      (UInt8.ofNat v) = v % 2 ^ 32 := by
  simp only [get32, get16, UInt8.toNat_ofNat']
  omega

/-- The marker and the payload type share a byte. -/
theorem payloadByte (n : ℕ) (hn : n < 128) (marker : Bool) :
    let byte := if marker then UInt8.ofNat n ||| 0x80 else UInt8.ofNat n
    (byte &&& 0x7F).toNat = n ∧ decide (byte &&& 0x80 ≠ 0) = marker := by
  revert n marker
  decide +kernel

/-- The receiver reads the header as it was written. -/
theorem rtpParse_rtphdr (ep : RtpEndpoint) (hpayload : ep.payload < 128) (marker : Bool)
    (data : Bytes) :
    rtpParse (ep.rtphdr marker ++ data) = some ⟨ep.payload, marker, ep.seqnum % 65536,
      ep.lastTimestamp % 2 ^ 32, ep.ssrc % 2 ^ 32, data⟩ := by
  obtain ⟨htype, hmarker⟩ := payloadByte ep.payload hpayload marker
  simp only [RtpEndpoint.rtphdr, put16, put32, List.cons_append, List.nil_append, rtpParse]
  rw [if_pos (by decide), htype, hmarker, get16_bytes, get32_bytes, get32_bytes]

/-! ## Packets that are sent until one fails -/

/-- Packets that are sent in order until one fails, and whether all of them were sent. -/
def sendAll {σ : Type} (send : RtpSend σ) : List RtpPacket → σ → σ × ℤ
  | [], s => (s, 0)
  | p :: ps, s => if (send p s).2 < 0 then ((send p s).1, -1) else sendAll send ps (send p s).1

/-- A function that sends hands over the packets `ps`, in order, until one fails. -/
def Hands (f : (σ : Type) → RtpSend σ → σ → Except Fault (σ × ℤ)) (ps : List RtpPacket) : Prop :=
  ∀ (σ : Type) (send : RtpSend σ) (s : σ), f σ send s = .ok (sendAll send ps s)

/-! ## A run of packets -/

/-- From the endpoint `ep` on, the socket took the packets `ps`, numbered one after the other, and
they were counted; a report that is still to be sent will not seem to fail. -/
structure Linked (rtcpRet : ℤ) (ep : RtpEndpoint) (ps : List RtpPacket) (l : UdpLink) : Prop where
  payload : l.ep.payload = ep.payload
  ssrc : l.ep.ssrc = ep.ssrc
  clock : l.ep.clock = ep.clock
  seqnum : l.ep.seqnum % 65536 = (ep.seqnum + ps.length) % 65536
  packetCount : l.ep.packetCount = ep.packetCount + .ofNat ps.length
  octetCount : l.ep.octetCount =
    ep.octetCount + .ofNat (ps.map fun p => p.payload.length).sum
  forceRtcp : l.ep.forceRtcp = true → 0 ≤ rtcpRet
  sent : l.sent.map rtpParse = ps.mapIdx fun k p => some (ep.received k p)

section Run

variable {sendmsgOk : ℕ → Bool} {rtcpRet : ℤ} {ep : RtpEndpoint} {ps : List RtpPacket}
  {l : UdpLink}

/-- Nothing was sent yet. -/
theorem Linked.start (hforce : ep.forceRtcp = true → 0 ≤ rtcpRet) (calls : ℕ) :
    Linked rtcpRet ep [] ⟨ep, calls, []⟩ :=
  ⟨rfl, rfl, rfl, rfl, (Int32.add_zero _).symm, (Int32.add_zero _).symm, hforce, rfl⟩

/-- **A call of `send_rtp_packet`** sends the packet and returns `0`, or sends nothing and returns
`-1`. -/
theorem sendUdp_linked (hpayload : ep.payload < 128) (h : Linked rtcpRet ep ps l) (p : RtpPacket) :
    (sendUdp sendmsgOk rtcpRet p l).2 = 0 ∧
        Linked rtcpRet ep (ps ++ [p]) (sendUdp sendmsgOk rtcpRet p l).1 ∨
      (sendUdp sendmsgOk rtcpRet p l).2 = -1 ∧
        Linked rtcpRet ep ps (sendUdp sendmsgOk rtcpRet p l).1 := by
  have hforce : ¬ (l.ep.forceRtcp = true ∧ rtcpRet < 0) := fun hf =>
    not_lt.2 (h.forceRtcp hf.1) hf.2
  unfold sendUdp
  by_cases hok : sendmsgOk l.calls = true
  · left
    simp only [hok, hforce, if_true, if_false]
    refine ⟨trivial, h.payload, h.ssrc, h.clock, ?_, ?_, ?_, fun hf => absurd hf (by simp), ?_⟩
    · have := h.seqnum
      simp only [List.length_append, List.length_singleton]
      omega
    · simp [h.packetCount, Int32.add_assoc, Int32.ofNat_add]
    · simp [h.octetCount, Int32.add_assoc, Int32.ofNat_add]
    · rw [List.map_append, h.sent, List.mapIdx_concat, List.map_singleton,
        rtpParse_rtphdr _ (by simpa [h.payload] using hpayload)]
      simp [RtpEndpoint.received, h.payload, h.ssrc, h.clock, h.seqnum, RtpClock.lastTimestamp]
  · right
    simp only [hok, Bool.false_eq_true, if_false]
    exact ⟨trivial, h.payload, h.ssrc, h.clock, h.seqnum, h.packetCount, h.octetCount, h.forceRtcp,
      h.sent⟩

/-- **The packets of a frame**: those in front of the first one that the socket refuses. -/
theorem sendAll_linked (hpayload : ep.payload < 128) (qs : List RtpPacket)
    (h : Linked rtcpRet ep ps l) :
    ∃ j ≤ qs.length,
      Linked rtcpRet ep (ps ++ qs.take j) (sendAll (sendUdp sendmsgOk rtcpRet) qs l).1 ∧
      ((sendAll (sendUdp sendmsgOk rtcpRet) qs l).2 = 0 ↔ j = qs.length) := by
  induction qs generalizing ps l with
  | nil => exact ⟨0, le_rfl, by simpa [sendAll] using h, by simp [sendAll]⟩
  | cons q qs ih =>
    unfold sendAll
    rcases @sendUdp_linked sendmsgOk _ _ _ _ hpayload h q with ⟨hret, hnext⟩ | ⟨hret, hnext⟩
    · obtain ⟨j, hj, hlinked, hall⟩ := ih hnext
      rw [if_neg (by omega)]
      refine ⟨j + 1, by simpa using hj, by simpa using hlinked, by simpa using hall⟩
    · rw [if_pos (by omega)]
      exact ⟨0, by simp, by simpa using hnext, by simp⟩

end Run

end Spook
