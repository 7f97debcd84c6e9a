import Spook.Live.Reap

set_option relaxedAutoImplicit false
set_option autoImplicit false

/-!
# What `send_rtp_packet` returns

`send_rtp_packet` should return `0` for a packet that the transport accepted and `-1` for one that
it did not. A full send buffer of an interleaved connection is not noticed, and `rtcp_send` has a
say in the value although the packet is out already. The counters of the endpoint are `int`s that
count what is sent, so they start over behind the greatest of them; the values of the counters are
compared here, not what is left of them in 32 bits.

## Main definitions

* `Spook.TellsTruth` — the value and the endpoint agree with what happened to the packet.
* `Spook.Server.Takes` — the transport of an endpoint takes the packet.
* `Spook.Endpoint.Counts` — another packet does not bring the counters round.
* `Spook.SendsTruly` — the packet is refused by a socket, or taken, counted and reported.

## Main results

* `Spook.tellsTruth_iff` — exactly then the value tells the truth.
-/

namespace Spook

/-- The value is `0` exactly if the packet was accepted; then the counters are greater by the packet
and its length, and the endpoint goes on with the next sequence number. If the value is `-1` they
are as they were. -/
def TellsTruth (e len : ℕ) (E : Endpoint) : Except Fault ((ℤ × Bool) × Server) → Prop
  | .error _ => False
  | .ok ((ret, accepted), s') =>
    (ret = 0 ↔ accepted = true) ∧
    (ret = 0 → ∃ E', s'.endpoints e = some E' ∧ E'.seqnum = (E.seqnum + 1) % 65536 ∧
      E'.seqnum % 65536 ≠ E.seqnum % 65536 ∧ E'.packetCount.toInt = E.packetCount.toInt + 1 ∧
      E'.octetCount.toInt = E.octetCount.toInt + len) ∧
    (ret = -1 → accepted = false ∧ ∃ E', s'.endpoints e = some E' ∧ E'.seqnum = E.seqnum ∧
      E'.packetCount = E.packetCount ∧ E'.octetCount = E.octetCount) ∧
    (ret = 0 ∨ ret = -1)

/-- The transport of the endpoint takes a packet of `len` bytes behind the header. -/
def Server.Takes (s : Server) (E : Endpoint) (len : ℕ) (sendmsgOk : Bool) : Prop :=
  match E.trans with
  | .udp | .mc => sendmsgOk = true
  | .inter c _ _ => ∃ C, s.conns c = some C ∧ 12 + len + 4 ≤ C.availSendBuf
  | .none => False

/-- The counters have room for a packet of `len` bytes. -/
def Endpoint.Counts (E : Endpoint) (len : ℕ) : Prop :=
  E.packetCount.toInt + 1 < 2 ^ 31 ∧ E.octetCount.toInt + len < 2 ^ 31

/-- The socket refuses the packet; or the transport takes it, the counters have room for it, and if
a report is due the client is not given up and `rtcp_send` does not seem to fail. -/
def SendsTruly (s : Server) (E : Endpoint) (len : ℕ) (sendmsgOk : Bool) (w : Sending) : Prop :=
  (E.trans = .udp ∨ E.trans = .mc) ∧ sendmsgOk = false ∨
    s.Takes E len sendmsgOk ∧ E.Counts len ∧
      (E.forceRtcp = true → ¬ E.TimesOut w.now ∧ 0 ≤ w.rtcpRet)

variable {mc : Bool} {e len : ℕ} {s s' : Server} {E : Endpoint} {ok : Bool} {w : Sending}

/-- A counter of 32 bits is greater by a number exactly if that does not bring it round. -/
theorem toInt_add_ofNat (x : Int32) (k : ℕ) :
    (x + .ofNat k).toInt = x.toInt + k ↔ x.toInt + k < 2 ^ 31 := by
  have hlow := x.le_toInt
  have hsum : (x + .ofNat k).toInt = (x.toInt + k).bmod 4294967296 := by
    rw [Int32.toInt_add, Int32.toInt_ofNat']
    exact Int.add_bmod_bmod
  rw [hsum]
  constructor
  · intro h
    rw [← h]
    exact Int.bmod_lt (by decide)
  · intro h
    rw [Int.bmod_eq_of_le (by omega) (by omega)]

/-- Both counters advance exactly if they have room. -/
theorem Endpoint.counts_iff (E : Endpoint) (len : ℕ) :
    (E.count len).packetCount.toInt = E.packetCount.toInt + 1 ∧
      (E.count len).octetCount.toInt = E.octetCount.toInt + len ↔ E.Counts len :=
  and_congr (toInt_add_ofNat E.packetCount 1) (toInt_add_ofNat E.octetCount len)

/-- A packet that is not refused was taken if the transport accepted it. -/
theorem takes_of_transmit (hok : E.trans = .udp ∨ E.trans = .mc → ok = true)
    (h : (s.transmit len E.trans).2 = true) : s.Takes E len ok := by
  unfold Server.Takes
  unfold Server.transmit at h
  rcases htrans : E.trans with _ | _ | _ | ⟨c, a, b⟩ <;> rw [htrans] at h hok
  · cases h
  · exact hok (.inl rfl)
  · exact hok (.inr rfl)
  · unfold Server.interleave at h
    dsimp only at h ⊢
    rcases hC : s.conns c with _ | C <;> rw [hC] at h
    · cases h
    · dsimp only at h
      split_ifs at h with hfull
      exact ⟨C, rfl, not_lt.1 hfull⟩

/-- The transport does what it should with a packet that it takes. -/
theorem wp_transportPacket_takes (hE : s.endpoints e = some E) (h : s.Takes E len ok) :
    wp (transportPacket mc e len ok) (fun r s' => r = (none, true) ∧ s'.endpoints e = some E)
      (fun _ => False) s := by
  unfold transportPacket
  rw [wp_bind, wp_getEndpoint]
  refine ⟨fun E' hE' => ?_, fun hnone => absurd (hE.symm.trans hnone) (by simp)⟩
  obtain rfl : E = E' := Option.some.inj (hE.symm.trans hE')
  unfold Server.Takes at h
  rcases htrans : E.trans with _ | _ | _ | ⟨c, a, b⟩ <;> rw [htrans] at h
  · exact h.elim
  · exact (wp_ite ..).2 ⟨fun _ => ⟨rfl, hE⟩, fun hnot => absurd h hnot⟩
  · exact (wp_ite ..).2 ⟨fun _ => ⟨rfl, hE⟩, fun hnot => absurd h hnot⟩
  · obtain ⟨C, hC, hroom⟩ := h
    dsimp only
    unfold interleaveSend
    simp only [wp_bind, wp_getConn, wp_ite, wp_modifyConn, wp_pure]
    refine ⟨fun C' hC' => ?_, fun hnone => absurd (hC.symm.trans hnone) (by simp)⟩
    obtain rfl : C = C' := Option.some.inj (hC.symm.trans hC')
    refine ⟨fun hfull => absurd hroom (by omega), fun _ => ?_⟩
    refine ⟨fun C' _ => ⟨fun C'' _ => ?_, fun hnone => ?_⟩, fun hnone => ?_⟩
    · exact ⟨fun hneg => absurd hneg (by decide), fun _ => ⟨rfl, hE⟩⟩
    · simp at hnone
    · exact absurd (hC.symm.trans hnone) (by simp)

/-- `rtcp_send` for a client that is not given up. -/
theorem wp_rtcpSend_quiet (hE : s.endpoints e = some E) (htime : ¬ E.TimesOut w.now) :
    wp (rtcpSend mc e w.now w.rtcpRet) (fun r s' => r = w.rtcpRet ∧
      s' = s.onEndpoint e { E with forceRtcp := false }) (fun _ => False) s := by
  unfold rtcpSend
  rw [wp_bind, wp_modifyEndpoint_some hE, wp_bind, wp_getEndpoint]
  refine ⟨fun E' hE' => ?_, fun hnone => ?_⟩
  · obtain rfl := Option.some.inj ((s.onEndpoint_self e _).symm.trans hE')
    rw [wp_ite]
    exact ⟨fun h => absurd ⟨h.1, h.2.2⟩ htime, fun _ => ⟨rfl, rfl⟩⟩
  · exact absurd ((s.onEndpoint_self e _).symm.trans hnone) (by simp)

/-- A packet that the transport takes and that is reported, if that is due, counts. -/
theorem wp_sendRtpPacket_takes (hE : s.endpoints e = some E) (h : s.Takes E len ok)
    (hforce : E.forceRtcp = true → ¬ E.TimesOut w.now ∧ 0 ≤ w.rtcpRet) :
    wp (sendRtpPacket mc e len ok w) (fun r s' => r = (0, true) ∧
      s'.endpoints e = some (E.sent len)) (fun _ => False) s := by
  unfold sendRtpPacket
  refine (wp_transportPacket_takes hE h).seq fun r s₁ h₁ => ?_
  obtain ⟨rfl, hE₁⟩ := h₁
  dsimp only
  rw [wp_bind, wp_modifyEndpoint_some hE₁, wp_bind, wp_getEndpoint]
  have hE₂ := s₁.onEndpoint_self e
    { E with octetCount := E.octetCount + .ofNat len, packetCount := E.packetCount + 1 }
  refine ⟨fun E₂ hE₂' => ?_, fun hnone => absurd (hE₂.symm.trans hnone) (by simp)⟩
  obtain rfl := Option.some.inj (hE₂.symm.trans hE₂')
  rw [wp_ite]
  refine ⟨fun hf => ?_, fun hf => ?_⟩
  · have hdue : E.forceRtcp = true := hf
    refine (wp_rtcpSend_quiet hE₂ (hforce hdue).1).seq fun ret s₂ h₂ => ?_
    obtain ⟨rfl, rfl⟩ := h₂
    rw [wp_ite]
    refine ⟨fun hneg => absurd hneg (not_lt.2 (hforce hdue).2), fun _ => ?_⟩
    rw [wp_bind, wp_modifyEndpoint_some (Server.onEndpoint_self ..), wp_bind]
    unfold nextSeqnum
    rw [wp_modifyEndpoint_some (Server.onEndpoint_self ..)]
    refine ⟨rfl, ?_⟩
    rw [Server.onEndpoint_self]
    simp [Endpoint.sent, Endpoint.count, hdue]
  · have hdue : E.forceRtcp = false := by simpa using hf
    rw [wp_bind]
    unfold nextSeqnum
    rw [wp_modifyEndpoint_some (Server.onEndpoint_self ..)]
    refine ⟨rfl, ?_⟩
    rw [Server.onEndpoint_self]
    simp [Endpoint.sent, Endpoint.count, hdue]

/-- A packet that a socket refuses changes nothing. -/
theorem wp_sendRtpPacket_refused (hE : s.endpoints e = some E)
    (htrans : E.trans = .udp ∨ E.trans = .mc) :
    wp (sendRtpPacket mc e len false w) (fun r s' => r = (-1, false) ∧ s' = s)
      (fun _ => False) s := by
  unfold sendRtpPacket transportPacket
  rw [wp_bind, wp_bind, wp_getEndpoint]
  refine ⟨fun E' hE' => ?_, fun hnone => absurd (hE.symm.trans hnone) (by simp)⟩
  obtain rfl : E = E' := Option.some.inj (hE.symm.trans hE')
  rcases htrans with htrans | htrans <;> rw [htrans] <;> exact ⟨rfl, rfl⟩

/-- A teardown does not put an endpoint back. -/
theorem EndpointDown.endpoints {E' : Endpoint} (h : EndpointDown mc e E s s')
    (hE' : s'.endpoints e = some E') : s.endpoints e = some E' := by
  rcases h with ⟨-, rfl⟩ | ⟨p, -, h⟩
  · exact hE'
  · exact h.endpoints hE'

/-- **What `send_rtp_packet` returns is true** exactly for a packet that a socket refuses, and for
one that the transport takes when the counters have room for it and a report that is due neither
gives up the client nor seems to fail.

**Proof sketch.** From the left, every other outcome of `send_rtp_packet` contradicts one part of
`TellsTruth`: a packet that is dropped is reported as `0`, one that was counted as `-1`. From the
right, the call is executed: `wp_sendRtpPacket_refused` and `wp_sendRtpPacket_takes`. -/
theorem tellsTruth_iff (mc : Bool) (len : ℕ) (ok : Bool) (w : Sending)
    (hE : s.endpoints e = some E) :
    TellsTruth e len E ((sendRtpPacket mc e len ok w).run s) ↔ SendsTruly s E len ok w := by
  constructor
  · intro htruth
    have hsent : wp (sendRtpPacket mc e len ok w)
        (fun r s' => PacketSent mc e len ok w s E r s') (fun _ => True) s :=
      wp_sendRtpPacket len ok w hE
    unfold wp at hsent
    rcases hrun : (sendRtpPacket mc e len ok w).run s with err | ⟨⟨ret, accepted⟩, s'⟩ <;>
      rw [hrun] at hsent htruth
    · exact htruth.elim
    obtain ⟨hiff, hcounts, hfail, -⟩ := htruth
    -- an endpoint that has counted a packet is not as it was
    have hcounted : ∀ {s₁ : Server} {E₁ : Endpoint}, E₁.packetCount = E.packetCount + 1 →
        s₁.endpoints e = some E₁ → ¬ ∃ E', s₁.endpoints e = some E' ∧ E'.seqnum = E.seqnum ∧
          E'.packetCount = E.packetCount ∧ E'.octetCount = E.octetCount := by
      rintro s₁ E₁ hcount hE₁ ⟨E', hE', -, hsame, -⟩
      obtain rfl := Option.some.inj (hE₁.symm.trans hE')
      exact absurd (Int32.add_eq_left.1 (hcount.symm.trans hsame)) (by decide)
    cases hsent with
    | refused hok htrans => exact .inl ⟨htrans, hok⟩
    | sent hok hforce =>
      obtain ⟨E', hE', -, -, hcount⟩ := hcounts rfl
      rw [Server.onEndpoint_self] at hE'
      obtain rfl := Option.some.inj hE'
      exact .inr ⟨takes_of_transmit hok (hiff.1 rfl), (E.counts_iff len).1 hcount, hforce⟩
    | unreported => exact absurd (hfail rfl).2 (hcounted rfl (Server.onEndpoint_self ..))
    | timedOut _ _ _ hdown =>
      obtain ⟨-, E', hE', hsame⟩ := hfail rfl
      refine absurd ⟨E', hE', hsame⟩ (hcounted ?_ hE')
      have hbefore := hdown.endpoints hE'
      rw [Server.onEndpoint_self] at hbefore
      rw [← Option.some.inj hbefore]
      rfl
  · rintro (⟨htrans, rfl⟩ | ⟨htakes, hcounts, hforce⟩)
    · have hrefused : wp (sendRtpPacket mc e len false w)
          (fun r s' => r = (-1, false) ∧ s' = s) (fun _ => False) s :=
        wp_sendRtpPacket_refused hE htrans
      unfold wp at hrefused
      rcases hrun : (sendRtpPacket mc e len false w).run s with err | ⟨r, s'⟩ <;>
        rw [hrun] at hrefused
      · exact hrefused.elim
      · obtain ⟨rfl, rfl⟩ := hrefused
        exact ⟨by decide, fun h => absurd h (by decide), fun _ => ⟨rfl, E, hE, rfl, rfl, rfl⟩,
          .inr rfl⟩
    · have hsent : wp (sendRtpPacket mc e len ok w) (fun r s' => r = (0, true) ∧
          s'.endpoints e = some (E.sent len)) (fun _ => False) s :=
        wp_sendRtpPacket_takes hE htakes hforce
      unfold wp at hsent
      rcases hrun : (sendRtpPacket mc e len ok w).run s with err | ⟨r, s'⟩ <;> rw [hrun] at hsent
      · exact hsent.elim
      · obtain ⟨rfl, hE'⟩ := hsent
        refine ⟨by decide, fun _ => ⟨_, hE', rfl, ?_, (E.counts_iff len).2 hcounts⟩,
          fun h => absurd h (by decide), .inl rfl⟩
        change (E.seqnum + 1) % 65536 % 65536 ≠ E.seqnum % 65536
        omega

/-! ## Two clients -/

/-- The first packet of a client over UDP is taken, and reported. -/
theorem tellsTruth_iff_udp : ∃ s E, (liveMachine false openBlocks).Run Machine.anyStep
    [.accept 3, .read 0 setupUdpText (askEnv setupUdp), .read 0 playUdpText (askEnv playUdp)] [] s ∧
    s.endpoints 2 = some E ∧ E.forceRtcp = true ∧
    TellsTruth 2 100 E ((sendRtpPacket false 2 100 true sendingAll).run s) := by
  obtain ⟨s, hrun, hs⟩ := Machine.Run.of_exec (M := liveMachine false openBlocks)
    (G := Machine.anyStep) (fun s : Server => (s.endpoints 2).map fun E : Endpoint =>
      (E.trans, E.forceRtcp && decide (E.packetCount = 0) && decide (E.octetCount = 0),
        E.lastRtcpRecv.sec)) openServer_init
    (show ((liveMachine false openBlocks).exec _ (configured openBlocks)
      [.accept 3, .read 0 setupUdpText (askEnv setupUdp),
        .read 0 playUdpText (askEnv playUdp)]).map _ =
      some ([], some (.udp, true, 0)) by decide +kernel)
  obtain ⟨E, hE, hfields⟩ := Option.map_eq_some_iff.1 hs
  simp only [Prod.mk.injEq, Bool.and_eq_true, decide_eq_true_eq] at hfields
  obtain ⟨htrans, ⟨⟨hforce, hpackets⟩, hoctets⟩, hsec⟩ := hfields
  refine ⟨s, E, hrun, hE, hforce,
    (tellsTruth_iff false 100 true sendingAll hE).2 (.inr ⟨?_, ?_, ?_⟩)⟩
  · unfold Server.Takes
    rw [htrans]
  · unfold Endpoint.Counts
    rw [hpackets, hoctets]
    decide
  · refine fun _ => ⟨fun hout => ?_, by decide⟩
    have hlate := hout.2
    rw [hsec] at hlate
    exact absurd hlate (by decide)

/-- A SETUP of the track of `openBlocks` over its connection. -/
def setupTcp : RtspRequest :=
  .setup (some 0) 0 true (some (.tcp .any)) none (setupEnv "s")

def setupTcpText : Bytes :=
  str "SETUP rtsp://h/cam/track0 RTSP/1.0\r\nTransport: RTP/AVP/TCP\r\n\r\n"

/-- A client that does not read: a frame of seven packets fills the send buffer of its connection,
and the next packet is dropped and counted as sent. -/
theorem full_buffer_lies : ∃ s E, (liveMachine false openBlocks).Run Machine.anyStep
    [.accept 3, .read 0 setupTcpText (askEnv setupTcp), .read 0 playUdpText (askEnv playUdp),
      .frame 0 true (fun _ => List.replicate 7 8180) true, .deliver sendingAll,
      .deliver sendingAll] [.keyFrame 2 7 (List.replicate 7 true)] s ∧
    s.endpoints 2 = some E ∧ E.trans = .inter 0 0 1 ∧
    ¬ TellsTruth 2 8180 E ((sendRtpPacket false 2 8180 true sendingAll).run s) := by
  obtain ⟨s, hrun, hs⟩ := Machine.Run.of_exec (M := liveMachine false openBlocks)
    (G := Machine.anyStep) (fun s : Server => ((s.endpoints 2).map fun E : Endpoint => E.trans,
      ((sendRtpPacket false 2 8180 true sendingAll).run s).toOption.map fun r => r.1))
    openServer_init
    (show ((liveMachine false openBlocks).exec _ (configured openBlocks)
      [.accept 3, .read 0 setupTcpText (askEnv setupTcp), .read 0 playUdpText (askEnv playUdp),
        .frame 0 true (fun _ => List.replicate 7 8180) true, .deliver sendingAll,
        .deliver sendingAll]).map _ =
      some ([.keyFrame 2 7 (List.replicate 7 true)], some (.inter 0 0 1), some ((0 : ℤ), false)) by
        decide +kernel)
  obtain ⟨htrans, hret⟩ := Prod.mk.inj hs
  obtain ⟨E, hE, htrans⟩ := Option.map_eq_some_iff.1 htrans
  refine ⟨s, E, hrun, hE, htrans, fun htruth => ?_⟩
  rcases hsend : (sendRtpPacket false 2 8180 true sendingAll).run s with err | ⟨r, s'⟩ <;>
    rw [hsend] at hret htruth
  · cases hret
  · obtain rfl : r = (0, false) := Option.some.inj hret
    exact absurd (htruth.1.1 rfl) (by decide)

end Spook
