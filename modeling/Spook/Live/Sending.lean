import Spook.Live.Handled

set_option relaxedAutoImplicit false
set_option autoImplicit false

/-!
# What sending does

The functions that send to an endpoint, up to the delivery of a frame, in terms of the changes they
make: besides their own endpoint they change only the session that it belongs to.

## Main definitions

* `Spook.Works` — sequences of changes and teardowns.
* `Spook.Sends`, `Offers` — what is done on behalf of one endpoint.
* `Spook.RtcpSent`, `PacketSent`, `FrameSent`, `FrameOffered`, `Continued` — what each function leaves.

## Main results

* `Spook.wp_rtcpSend`, `wp_sendRtpPacket`, `wp_rtpSend` — packets.
* `Spook.wp_offerFrame`, `wp_visitSession`, `wp_continueFrame` — frames.

## Notes on the design

A transport that fails in the middle of sending tears down the session of its endpoint. A relation
for sending therefore names that endpoint and that session, and says nothing of the way in which the
teardown came about; the delivery of a frame is any number of such steps.
-/

namespace Spook

/-- Changes of the kinds `A`, teardowns of the endpoints that `D` gives for a session, and what is
done besides. -/
def Works (mc : Bool) (A : Set Kind) (D : ℕ → ℕ → Prop) : Server → Server → Prop :=
  Relation.ReflTransGen fun s s' => Alike s s' ∨ (∃ k ∈ A, Change mc k s s') ∨
    ∃ p e, D p e ∧ TornDown mc p (some e) s s'

instance (mc : Bool) (A : Set Kind) (D : ℕ → ℕ → Prop) : IsPreorder Server (Works mc A D) where
  refl _ := .refl
  trans _ _ _ h h' := h.trans h'

section Works

variable {mc : Bool} {A B : Set Kind} {D D' : ℕ → ℕ → Prop} {s s' : Server}

/-- More kinds of changes, and more teardowns. -/
theorem Works.mono (h : Works mc A D s s') (hAB : A ⊆ B) (hD : ∀ p e, D p e → D' p e) :
    Works mc B D' s s' := by
  refine Relation.ReflTransGen.mono (fun _ _ hstep => ?_) _ _ h
  rcases hstep with halike | ⟨k, hk, hchange⟩ | ⟨p, e, hp, hdown⟩
  · exact .inl halike
  · exact .inr (.inl ⟨k, hAB hk, hchange⟩)
  · exact .inr (.inr ⟨p, e, hD p e hp, hdown⟩)

/-- A single change. -/
theorem Works.one {k : Kind} (hk : k ∈ A) (h : Change mc k s s') : Works mc A D s s' :=
  .single (.inr (.inl ⟨k, hk, h⟩))

/-- What is done besides changes. -/
theorem Works.alike (h : Alike s s') : Works mc A D s s' := .single (.inl h)

/-- A single teardown of an endpoint. -/
theorem Works.torn {p e : ℕ} (hp : D p e) (h : TornDown mc p (some e) s s') : Works mc A D s s' :=
  .single (.inr (.inr ⟨p, e, hp, h⟩))

/-- **What every change and every teardown keeps is kept.** -/
theorem Works.keeps {I : Server → Prop} (h : Works mc A D s s') (hs : I s)
    (halike : ∀ s s', I s → Alike s s' → I s')
    (hchange : ∀ k ∈ A, ∀ s s', I s → Change mc k s s' → I s')
    (hdown : ∀ p e s s', D p e → I s → TornDown mc p (some e) s s' → I s') : I s' := by
  induction h with
  | refl => exact hs
  | tail _ hstep ih =>
    rcases hstep with h | ⟨k, hk, h⟩ | ⟨p, e, hp, h⟩
    · exact halike _ _ ih h
    · exact hchange k hk _ _ ih h
    · exact hdown p e _ _ hp ih h

/-- The changes among what is done. -/
theorem Works.steps (h : Works mc A D s s') :
    Steps mc (A ∪ {k | ∃ p e, D p e ∧ (k = .removed p e ∨ k = .closed p)}) s s' := by
  refine h.keeps (I := Steps mc _ s) .refl (fun _ _ hs h => hs.trans (Steps.alike h))
    (fun k hk _ _ hs h => hs.trans (Steps.one (.inl hk) h)) fun p e _ _ hp hs h => hs.trans ?_
  refine h.steps.mono ?_
  rintro k (⟨e', rfl, hnone | he⟩ | rfl)
  · cases hnone
  · cases he
    exact .inr ⟨p, e, hp, .inl rfl⟩
  · exact .inr ⟨p, e, hp, .inr rfl⟩

end Works

/-- What sending to the endpoint `e` of the session `o` does. -/
abbrev Sends (mc : Bool) (e : ℕ) (o : Option ℕ) : Server → Server → Prop :=
  Works mc {.counted e} fun p e' => o = some p ∧ e' = e

/-- What the offer of a frame to the endpoint `e` of the session `o` does. -/
abbrev Offers (mc : Bool) (e : ℕ) (o : Option ℕ) : Server → Server → Prop :=
  Works mc {.counted e, .logged, .flagged e} fun p e' => o = some p ∧ e' = e

/-- Nothing was sent. -/
theorem Endpoint.Counted.refl (E : Endpoint) : E.Counted E := ⟨rfl, rfl, rfl, rfl⟩

/-- Two packets, one after the other. -/
theorem Endpoint.Counted.comp {E E' E'' : Endpoint} (h : E.Counted E') (h' : E'.Counted E'') :
    E.Counted E'' :=
  ⟨h'.session.trans h.session, h'.trans.trans h.trans, h'.bLostKeyFrame.trans h.bLostKeyFrame,
    h'.ex.trans h.ex⟩

/-! ## Packets -/

/-- `rtcp_send` gives up on the client of the endpoint. -/
def Endpoint.TimesOut (E : Endpoint) (now : TimeVal) : Prop :=
  E.trans = .udp ∧ now.sec - E.lastRtcpRecv.sec > 15

/-- The endpoint with one more packet, of `len` bytes. -/
def Endpoint.count (E : Endpoint) (len : ℕ) : Endpoint :=
  { E with octetCount := E.octetCount + .ofNat len, packetCount := E.packetCount + 1 }

/-- The endpoint when `send_rtp_packet` is through with a packet of `len` bytes. -/
def Endpoint.sent (E : Endpoint) (len : ℕ) : Endpoint :=
  { E.count len with
    seqnum := (E.seqnum + 1) % 65536
    rtcpSendEvent := E.rtcpSendEvent || E.forceRtcp
    forceRtcp := false }

/-- What is left of the connection `c` with a packet of `len` bytes behind the header in its send
buffer, and whether it is there. -/
def Server.interleave (s : Server) (c len : ℕ) : Server × Bool :=
  match s.conns c with
  | some C =>
    if C.availSendBuf < 12 + len + 4 then (s, false)
    else (s.setConn c ((C.sendData 4).1.sendData (12 + len)).1, true)
  | none => (s, false)

/-- What the transport of an endpoint does with a packet that the socket does not refuse. -/
def Server.transmit (s : Server) (len : ℕ) : Trans → Server × Bool
  | .udp | .mc => (s, true)
  | .inter c _ _ => s.interleave c len
  | .none => (s, false)

/-- The teardown of the session of an endpoint, if it has one. -/
def EndpointDown (mc : Bool) (e : ℕ) (E : Endpoint) (s s' : Server) : Prop :=
  E.session = none ∧ s' = s ∨ ∃ p, E.session = some p ∧ TornDown mc p (some e) s s'

/-- What `rtcp_send` leaves, by its value: it gives up on the client, or returns no value. -/
inductive RtcpSent (mc : Bool) (e : ℕ) (now : TimeVal) (ret : ℤ) (s : Server) (E : Endpoint) :
    ℤ → Server → Prop
  | unreported : ¬ E.TimesOut now →
      RtcpSent mc e now ret s E ret (s.onEndpoint e { E with forceRtcp := false })
  | timedOut {s' : Server} : E.TimesOut now →
      EndpointDown mc e E (s.onEndpoint e { E with forceRtcp := false }) s' →
      RtcpSent mc e now ret s E (-1) s'

/-- What `send_rtp_packet` leaves, by its value and whether the transport accepted the packet. -/
inductive PacketSent (mc : Bool) (e len : ℕ) (ok : Bool) (w : Sending) (s : Server) (E : Endpoint) :
    ℤ × Bool → Server → Prop
  /-- The socket refuses the packet. -/
  | refused : ok = false → E.trans = .udp ∨ E.trans = .mc →
      PacketSent mc e len ok w s E (-1, false) s
  | sent : (E.trans = .udp ∨ E.trans = .mc → ok = true) →
      (E.forceRtcp = true → ¬ E.TimesOut w.now ∧ 0 ≤ w.rtcpRet) →
      PacketSent mc e len ok w s E (0, (s.transmit len E.trans).2)
        ((s.transmit len E.trans).1.onEndpoint e (E.sent len))
  /-- `rtcp_send` returns no value, and it is taken for a failure. -/
  | unreported : (E.trans = .udp ∨ E.trans = .mc → ok = true) → E.forceRtcp = true →
      ¬ E.TimesOut w.now → w.rtcpRet < 0 →
      PacketSent mc e len ok w s E (-1, (s.transmit len E.trans).2)
        ((s.transmit len E.trans).1.onEndpoint e { E.count len with forceRtcp := false })
  | timedOut {s' : Server} : (E.trans = .udp ∨ E.trans = .mc → ok = true) → E.forceRtcp = true →
      E.TimesOut w.now → EndpointDown mc e E ((s.transmit len E.trans).1.onEndpoint e
        { E.count len with forceRtcp := false }) s' →
      PacketSent mc e len ok w s E (-1, (s.transmit len E.trans).2) s'

section Packets

variable {mc : Bool} {e : ℕ} {s s' : Server} {E : Endpoint}

/-- The teardown of the session of an endpoint. -/
theorem wp_teardownEndpoint (mc : Bool) (e : ℕ) (E : Endpoint) (s : Server) :
    wp (teardownEndpoint mc E e) (fun _ s' => EndpointDown mc e E s s') (fun _ => True) s := by
  unfold teardownEndpoint
  cases hp : E.session with
  | none => exact .inl ⟨hp, rfl⟩
  | some p => exact (wp_liveTeardown p (some e)).imp fun _ s' h => .inr ⟨p, hp, h⟩

/-- A teardown because of a transport that failed belongs to sending. -/
theorem EndpointDown.sends (h : EndpointDown mc e E s s') : Sends mc e E.session s s' := by
  rcases h with ⟨-, rfl⟩ | ⟨p, hp, h⟩
  · exact .refl
  · exact .torn ⟨hp, rfl⟩ h

/-- A change of an endpoint that is there. -/
theorem wp_modifyEndpoint_some {f : Endpoint → Endpoint} {Q : Unit → Server → Prop}
    {F : Fault → Prop} (hE : s.endpoints e = some E) :
    wp (modifyEndpoint e f) Q F s ↔ Q () (s.onEndpoint e (f E)) := by
  rw [wp_modifyEndpoint]
  constructor
  · exact fun h => h.1 E hE
  · refine fun h => ⟨fun E' hE' => ?_, fun hnone => ?_⟩
    · obtain rfl : E = E' := Option.some.inj (hE.symm.trans hE')
      exact h
    · rw [hE] at hnone
      cases hnone

/-- The endpoint that was stored is there. -/
theorem Server.onEndpoint_self (s : Server) (e : ℕ) (E : Endpoint) :
    (s.onEndpoint e E).endpoints e = some E :=
  Function.update_self ..

/-- The second of two stores to an endpoint stays. -/
theorem Server.onEndpoint_onEndpoint (s : Server) (e : ℕ) (E E' : Endpoint) :
    (s.onEndpoint e E).onEndpoint e E' = s.onEndpoint e E' := by
  simp [Server.onEndpoint]

/-- `rtcp_send` sends a report, and takes the endpoint down where the transport fails. -/
theorem wp_rtcpSend (now : TimeVal) (ret : ℤ) (hE : s.endpoints e = some E) :
    wp (rtcpSend mc e now ret) (fun r s' => RtcpSent mc e now ret s E r s') (fun _ => True) s := by
  unfold rtcpSend
  rw [wp_bind, wp_modifyEndpoint_some hE, wp_bind, wp_getEndpoint]
  refine ⟨fun E' hE' => ?_, fun _ => trivial⟩
  obtain rfl := Option.some.inj ((s.onEndpoint_self e _).symm.trans hE')
  rw [wp_ite]
  refine ⟨fun htime => ?_, fun htime => .unreported fun h => htime ?_⟩
  · rw [wp_bind]
    exact (wp_teardownEndpoint mc e _ _).imp fun _ s' h => .timedOut ⟨htime.1, htime.2.2⟩ h
  · exact ⟨h.1, .inl (lt_trans (by decide) h.2), h.2⟩

/-- `interleave_send` returns 0 if the packet was queued and 1 if it was dropped. -/
theorem wp_interleaveSend (c len : ℕ) :
    wp (interleaveSend c (12 + len)) (fun ret s' => s' = (s.interleave c len).1 ∧
      (ret = 0 ∧ (s.interleave c len).2 = true ∨ ret = 1 ∧ (s.interleave c len).2 = false))
      (fun _ => True) s := by
  unfold interleaveSend Server.interleave
  rw [wp_bind, wp_getConn]
  refine ⟨fun C hC => ?_, fun _ => trivial⟩
  rw [hC, wp_ite]
  dsimp only
  refine ⟨fun hfull => ?_, fun hfull => ?_⟩
  · rw [if_pos hfull]
    exact ⟨rfl, .inr ⟨rfl, rfl⟩⟩
  · rw [if_neg hfull, wp_bind, wp_modifyConn]
    refine ⟨fun C' hC' => ?_, fun _ => trivial⟩
    obtain rfl : C = C' := Option.some.inj (hC.symm.trans hC')
    rw [wp_bind, wp_modifyConn]
    refine ⟨fun C' hC' => ?_, fun _ => trivial⟩
    dsimp only at hC'
    rw [Function.update_self] at hC'
    obtain rfl := Option.some.inj hC'
    refine ⟨?_, .inl ⟨rfl, rfl⟩⟩
    simp [Server.setConn]

/-- **The transport** refuses a packet, or does with it what it can. -/
theorem wp_transportPacket (len : ℕ) (ok : Bool) (hE : s.endpoints e = some E) :
    wp (transportPacket mc e len ok) (fun r s' =>
      r = (some (-1), false) ∧ ok = false ∧ (E.trans = .udp ∨ E.trans = .mc) ∧ s' = s ∨
      r = (none, (s.transmit len E.trans).2) ∧ (E.trans = .udp ∨ E.trans = .mc → ok = true) ∧
        s' = (s.transmit len E.trans).1) (fun _ => True) s := by
  unfold transportPacket
  rw [wp_bind, wp_getEndpoint]
  refine ⟨fun E' hE' => ?_, fun _ => trivial⟩
  obtain rfl : E = E' := Option.some.inj (hE.symm.trans hE')
  cases E.trans with
  | none => exact .inr ⟨rfl, by simp, rfl⟩
  | udp | mc =>
    dsimp only
    rw [wp_ite]
    exact ⟨fun h => .inr ⟨rfl, fun _ => h, rfl⟩, fun h => .inl ⟨rfl, by simpa using h, by simp, rfl⟩⟩
  | inter c a b =>
    refine (wp_interleaveSend c len).seq fun ret s₁ h => ?_
    obtain ⟨rfl, h⟩ := h
    have hret : ¬ ret < 0 := by omega
    rw [wp_ite]
    refine ⟨fun h => absurd h hret, fun _ => .inr ⟨?_, by simp, rfl⟩⟩
    unfold Server.transmit
    dsimp only
    rcases h with ⟨rfl, h⟩ | ⟨rfl, h⟩ <;> rw [h] <;> rfl

/-- The bytes of a packet do not matter to the live sessions. -/
theorem alike_transmit (s : Server) (len : ℕ) (t : Trans) : Alike s (s.transmit len t).1 := by
  have hself := refl (r := Alike) s
  cases t with
  | none | udp | mc => exact hself
  | inter c a b =>
    unfold Server.transmit Server.interleave
    dsimp only
    cases hC : s.conns c with
    | none => exact hself
    | some C =>
      dsimp only
      split_ifs
      · exact hself
      · exact ⟨alike_update hC ((connAlike_sendData 4 C).trans (connAlike_sendData _ _)), rfl, rfl,
          rfl, rfl, rfl, rfl, rfl, rfl, le_rfl, [], (List.append_nil s.log).symm, by simp⟩

/-- **Sending a packet.** -/
theorem wp_sendRtpPacket (len : ℕ) (ok : Bool) (w : Sending) (hE : s.endpoints e = some E) :
    wp (sendRtpPacket mc e len ok w) (fun r s' => PacketSent mc e len ok w s E r s')
      (fun _ => True) s := by
  unfold sendRtpPacket
  refine (wp_transportPacket len ok hE).seq fun r s₁ h₁ => ?_
  rcases h₁ with ⟨rfl, hok, htrans, rfl⟩ | ⟨rfl, hok, rfl⟩
  · exact .refused hok htrans
  have hE₁ : (s.transmit len E.trans).1.endpoints e = some E := by
    rw [(alike_transmit s len E.trans).endpoints, hE]
  dsimp only
  rw [wp_bind, wp_modifyEndpoint_some hE₁, wp_bind, wp_getEndpoint]
  refine ⟨fun E₂ hE₂ => ?_, fun _ => trivial⟩
  obtain rfl := Option.some.inj ((Server.onEndpoint_self ..).symm.trans hE₂)
  rw [wp_ite]
  have hsent : ∀ E', E' = E.sent len → (E.forceRtcp = true → ¬ E.TimesOut w.now ∧ 0 ≤ w.rtcpRet) →
      PacketSent mc e len ok w s E (0, (s.transmit len E.trans).2)
        ((s.transmit len E.trans).1.onEndpoint e E') := by
    rintro E' rfl hforce
    exact .sent hok hforce
  refine ⟨fun hforce => ?_, fun hforce => ?_⟩
  · refine (wp_rtcpSend w.now w.rtcpRet hE₂).seq fun ret s₂ h₂ => ?_
    rw [wp_ite]
    cases h₂ with
    | unreported htime =>
      rw [Server.onEndpoint_onEndpoint]
      refine ⟨fun hret => .unreported hok hforce htime hret, fun hret => ?_⟩
      rw [wp_bind, wp_modifyEndpoint_some (Server.onEndpoint_self ..), wp_bind]
      unfold nextSeqnum
      rw [wp_modifyEndpoint_some (Server.onEndpoint_self ..)]
      simp only [Server.onEndpoint_onEndpoint]
      have hforced : E.forceRtcp = true := hforce
      exact hsent _ (by simp [Endpoint.sent, Endpoint.count, hforced])
        fun _ => ⟨htime, not_lt.1 hret⟩
    | timedOut htime hdown =>
      rw [Server.onEndpoint_onEndpoint] at hdown
      exact ⟨fun _ => .timedOut hok hforce htime hdown, fun h => absurd h (by decide)⟩
  · rw [wp_bind]
    unfold nextSeqnum
    rw [wp_modifyEndpoint_some (Server.onEndpoint_self ..)]
    simp only [Server.onEndpoint_onEndpoint]
    have hforced : E.forceRtcp = false := by simpa using hforce
    exact hsent _ (by simp [Endpoint.sent, Endpoint.count, hforced]) fun h => absurd h hforce

/-- What `send` of a media leaves of packets that are numbered from `k` on: the first one that fails
is the last one that is sent. -/
inductive FrameSent (mc : Bool) (e : ℕ) (w : Sending) :
    ℕ → List ℕ → Server → Endpoint → ℤ × List Bool → Server → Prop
  | done {k : ℕ} {s : Server} {E : Endpoint} : FrameSent mc e w k [] s E (0, []) s
  | failed {k len : ℕ} {packets : List ℕ} {s s' : Server} {E : Endpoint} {ret : ℤ} {accepted : Bool} :
      PacketSent mc e len (w.sendmsgOk k) w s E (ret, accepted) s' → ret < 0 →
      FrameSent mc e w k (len :: packets) s E (-1, [accepted]) s'
  | next {k len : ℕ} {packets : List ℕ} {s s₁ s' : Server} {E : Endpoint} {accepted : Bool}
      {ret : ℤ} {outcomes : List Bool} :
      PacketSent mc e len (w.sendmsgOk k) w s E (0, accepted) s₁ →
      FrameSent mc e w (k + 1) packets s₁ (E.sent len) (ret, outcomes) s' →
      FrameSent mc e w k (len :: packets) s E (ret, accepted :: outcomes) s'

/-- A packet that is sent leaves its endpoint. -/
theorem PacketSent.endpoint {len : ℕ} {ok : Bool} {w : Sending} {ret : ℤ} {accepted : Bool}
    (h : PacketSent mc e len ok w s E (ret, accepted) s') (hret : 0 ≤ ret) :
    ret = 0 ∧ s'.endpoints e = some (E.sent len) := by
  cases h with
  | sent => exact ⟨rfl, Server.onEndpoint_self ..⟩
  | refused | unreported | timedOut => exact absurd hret (by decide)

/-- **Sending a frame** to an endpoint. -/
theorem wp_rtpSend (w : Sending) (k : ℕ) (packets : List ℕ) (hE : s.endpoints e = some E) :
    wp (rtpSend mc e w k packets) (fun r s' => FrameSent mc e w k packets s E r s')
      (fun _ => True) s := by
  induction packets generalizing k s E with
  | nil => exact .done
  | cons len packets ih =>
    unfold rtpSend
    refine (wp_sendRtpPacket len (w.sendmsgOk k) w hE).seq fun r s₁ h₁ => ?_
    obtain ⟨ret, accepted⟩ := r
    dsimp only
    rw [wp_ite]
    refine ⟨fun hret => .failed h₁ hret, fun hret => ?_⟩
    obtain ⟨rfl, hE₁⟩ := h₁.endpoint (not_lt.1 hret)
    exact (ih (k + 1) hE₁).seq fun r s' h => .next h₁ h

/-- A change of the counters of an endpoint. -/
theorem sends_onEndpoint {o : Option ℕ} {E' : Endpoint} (hE : s.endpoints e = some E)
    (hcounted : E.Counted E') : Sends mc e o s (s.onEndpoint e E') :=
  .one rfl (.counted hE hcounted)

/-- What `rtcp_send` did belongs to sending. -/
theorem RtcpSent.sends {now : TimeVal} {ret r : ℤ} (h : RtcpSent mc e now ret s E r s')
    (hE : s.endpoints e = some E) : Sends mc e E.session s s' := by
  have hforce : E.Counted { E with forceRtcp := false } := ⟨rfl, rfl, rfl, rfl⟩
  cases h with
  | unreported => exact sends_onEndpoint hE hforce
  | timedOut _ hdown => exact (sends_onEndpoint hE hforce).trans hdown.sends

/-- What `send_rtp_packet` did belongs to sending. -/
theorem PacketSent.sends {len : ℕ} {ok : Bool} {w : Sending} {r : ℤ × Bool}
    (h : PacketSent mc e len ok w s E r s') (hE : s.endpoints e = some E) :
    Sends mc e E.session s s' := by
  have halike := alike_transmit s len E.trans
  have hE₁ : (s.transmit len E.trans).1.endpoints e = some E := by rw [halike.endpoints, hE]
  have hcount : ∀ {E'}, E.Counted E' →
      Sends mc e E.session s ((s.transmit len E.trans).1.onEndpoint e E') :=
    fun h => (Works.alike halike).trans (sends_onEndpoint hE₁ h)
  cases h with
  | refused => exact .refl
  | sent | unreported => exact hcount ⟨rfl, rfl, rfl, rfl⟩
  | timedOut _ _ _ hdown =>
    have hcounted : E.Counted { E.count len with forceRtcp := false } := ⟨rfl, rfl, rfl, rfl⟩
    exact (hcount hcounted).trans hdown.sends

/-- What the packets of a frame did belongs to sending: by induction on them. -/
theorem FrameSent.sends {w : Sending} {k : ℕ} {packets : List ℕ} {r : ℤ × List Bool}
    (h : FrameSent mc e w k packets s E r s') (hE : s.endpoints e = some E) :
    Sends mc e E.session s s' := by
  induction h with
  | done => exact .refl
  | failed hpacket _ => exact hpacket.sends hE
  | next hpacket _ ih =>
    exact (hpacket.sends hE).trans (ih (hpacket.endpoint le_rfl).2)

end Packets

/-! ## Frames -/

/-- What the delivery of a frame does, once the track is ready. -/
abbrev Streams (mc : Bool) : Server → Server → Prop :=
  Works mc {k | k = .delivering ∨ k = .logged ∨ ∃ e, k = .counted e ∨ k = .flagged e} fun _ _ => True

/-- Sending is part of an offer. -/
theorem Sends.offers {mc : Bool} {e : ℕ} {o : Option ℕ} {s s' : Server} (h : Sends mc e o s s') :
    Offers mc e o s s' :=
  h.mono (by simp) fun _ _ h => h

/-- An offer is part of a delivery. -/
theorem Offers.streams {mc : Bool} {e : ℕ} {o : Option ℕ} {s s' : Server}
    (h : Offers mc e o s s') : Streams mc s s' := by
  refine h.mono ?_ fun _ _ _ => trivial
  rintro k (rfl | rfl | rfl) <;> simp

section Frames

variable {mc : Bool} {e : ℕ} {s : Server} {E : Endpoint}

/-- What the offer of a frame to an endpoint leaves. -/
inductive FrameOffered (mc : Bool) (d : Delivery) (e : ℕ) (w : Sending) (s : Server) (E : Endpoint) :
    Server → Prop
  /-- A key frame is not sent while nothing is. -/
  | heldKey : w.stopSend = true → d.key = true → FrameOffered mc d e w s E
      (Server.onEndpoint { s with
        log := s.log ++ [.keyFrame e (d.packets E.maxDataSize).length []] } e
        { E with bLostKeyFrame := true })
  | held : w.stopSend = true → d.key = false →
      FrameOffered mc d e w s E { s with log := s.log ++ [.stopped e] }
  | key {ret : ℤ} {outcomes : List Bool} {s₁ : Server} {E₁ : Endpoint} : w.stopSend = false →
      d.key = true → FrameSent mc e w 0 (d.packets E.maxDataSize) s E (ret, outcomes) s₁ →
      s₁.endpoints e = some E₁ → FrameOffered mc d e w s E
        (Server.onEndpoint { s₁ with
          log := s₁.log ++ [.keyFrame e (d.packets E.maxDataSize).length outcomes] } e
          { E₁ with bLostKeyFrame := ret ≠ 0 })
  | delta {r : ℤ × List Bool} {s' : Server} : w.stopSend = false → d.key = false →
      FrameSent mc e w 0 (d.packets E.maxDataSize) { s with log := s.log ++ [.deltaFrame e] } E r s' →
      FrameOffered mc d e w s E s'

/-- **The offer of a frame** to an endpoint. -/
theorem wp_offerFrame (d : Delivery) (w : Sending) (hE : s.endpoints e = some E) :
    wp (offerFrame mc d e w) (fun _ s' => FrameOffered mc d e w s E s') (fun _ => True) s := by
  unfold offerFrame
  rw [wp_bind, wp_getEndpoint]
  refine ⟨fun E' hE' => ?_, fun _ => trivial⟩
  obtain rfl : E = E' := Option.some.inj (hE.symm.trans hE')
  rw [wp_ite, wp_ite, wp_ite]
  refine ⟨fun hstop => ⟨fun hkey => ?_, fun hkey => ?_⟩,
    fun hstop => ⟨fun hkey => ?_, fun hkey => ?_⟩⟩
  · rw [wp_bind, wp_record, wp_modifyEndpoint_some (by exact hE)]
    exact .heldKey hstop hkey
  · rw [wp_record]
    exact .held hstop (by simpa using hkey)
  · refine (wp_rtpSend w 0 _ hE).seq fun r s₁ h => ?_
    rw [wp_bind, wp_record, wp_modifyEndpoint]
    exact ⟨fun E₁ hE₁ => .key (by simpa using hstop) hkey h hE₁, fun _ => trivial⟩
  · rw [wp_bind, wp_record]
    refine (wp_rtpSend w 0 (d.packets E.maxDataSize) (by exact hE)).seq fun r s' h => ?_
    exact .delta (by simpa using hstop) (by simpa using hkey) h

/-- A frame that is offered is gated, or sent with its flag. -/
theorem FrameOffered.offers {d : Delivery} {w : Sending} {s' : Server}
    (h : FrameOffered mc d e w s E s') (hE : s.endpoints e = some E) :
    Offers mc e E.session s s' := by
  have hlog : ∀ (s₁ : Server) (ev : Event), ¬ ev.IsTunnel →
      Offers mc e E.session s₁ { s₁ with log := s₁.log ++ [ev] } :=
    fun s₁ ev hev => .one (by simp) (.logged hev)
  have hflag : ∀ {s₁ : Server} {E₁ : Endpoint} (b : Bool), s₁.endpoints e = some E₁ →
      Offers mc e E.session s₁ (s₁.onEndpoint e { E₁ with bLostKeyFrame := b }) :=
    fun b hE₁ => .one (by simp) (.flagged b hE₁)
  cases h with
  | heldKey => exact (hlog s _ id).trans (hflag true hE)
  | held => exact hlog s _ id
  | @key ret _ s₁ _ _ _ hsent hE₁ =>
    exact (hsent.sends hE).offers.trans ((hlog s₁ _ id).trans (hflag (ret ≠ 0) hE₁))
  | delta _ _ hsent => exact (hlog s _ id).trans (hsent.sends hE).offers

/-- The frame is skipped for these endpoints. -/
def Server.skipping (s : Server) (es : List ℕ) : Server :=
  { s with log := s.log ++ es.map .skipped }

/-- Nothing is skipped. -/
theorem Server.skipping_nil (s : Server) : s.skipping [] = s := by
  unfold skipping
  rw [List.map_nil, List.append_nil]

/-- One is skipped, and then the others. -/
theorem Server.skipping_cons (s : Server) (e : ℕ) (es : List ℕ) :
    Server.skipping { s with log := s.log ++ [.skipped e] } es = s.skipping (e :: es) := by
  unfold skipping
  dsimp only
  rw [List.append_assoc]
  rfl

/-- **The loop over the slots** of a session skips endpoints, until it finds one that it sends to or
comes to its end. -/
theorem wp_selectEndpoint (d : Delivery) (entry : LiveEntry) (S : Session) (js : List ℕ) :
    wp (selectEndpoint d entry S js) (fun o s' => (∃ es, s' = s.skipping es) ∧ ∀ e, o = some e →
      S.playing = true ∧ ∃ j ∈ js, entry.tracklist j = some d.track ∧ S.ep j = some e)
      (fun _ => True) s := by
  induction js generalizing s with
  | nil => exact ⟨⟨[], s.skipping_nil.symm⟩, fun e h => by cases h⟩
  | cons j js ih =>
    have hlater : ∀ {o : Option ℕ}, (∀ e, o = some e → S.playing = true ∧ ∃ j ∈ js,
        entry.tracklist j = some d.track ∧ S.ep j = some e) → ∀ e, o = some e →
          S.playing = true ∧ ∃ k ∈ j :: js, entry.tracklist k = some d.track ∧ S.ep k = some e := by
      intro o h e he
      obtain ⟨hplay, j', hj', hfound⟩ := h e he
      exact ⟨hplay, j', List.mem_cons_of_mem j hj', hfound⟩
    unfold selectEndpoint
    rw [wp_ite]
    refine ⟨fun ht => ?_, fun _ => ih.imp fun _ _ h => ⟨h.1, hlater h.2⟩⟩
    cases he : S.ep j with
    | none => exact ⟨⟨[], s.skipping_nil.symm⟩, fun e h => by cases h⟩
    | some e =>
      dsimp only
      rw [wp_ite]
      refine ⟨fun hplay => ?_, fun _ => ⟨⟨[], s.skipping_nil.symm⟩, fun e h => by cases h⟩⟩
      rw [wp_bind, wp_getEndpoint]
      refine ⟨fun E _ => ?_, fun _ => trivial⟩
      rw [wp_ite]
      refine ⟨fun _ => ?_, fun _ => ⟨⟨[], s.skipping_nil.symm⟩, fun e' h => ?_⟩⟩
      · rw [wp_bind, wp_record]
        refine ih.imp fun _ s' h => ⟨?_, hlater h.2⟩
        obtain ⟨⟨es, rfl⟩, -⟩ := h
        exact ⟨e :: es, s.skipping_cons e es⟩
      · obtain rfl := Option.some.inj h
        exact ⟨hplay, j, List.mem_cons_self, ht, he⟩

/-- **One session of a delivery**: endpoints are skipped, and a frame may be offered to one. -/
theorem wp_visitSession (d : Delivery) (n p : ℕ) (w : Sending) :
    wp (visitSession mc d n p w) (fun _ s' => ∃ es, s' = s.skipping es ∨ ∃ S j e E,
      s.sessions p = some S ∧ S.playing = true ∧ j < maxTracks ∧
      (s.entries n).tracklist j = some d.track ∧ S.ep j = some e ∧ s.endpoints e = some E ∧
      FrameOffered mc d e w (s.skipping es) E s') (fun _ => True) s := by
  unfold visitSession
  rw [wp_bind, wp_getSession]
  refine ⟨fun S hS => ?_, fun _ => trivial⟩
  rw [wp_bind, wp_get]
  refine (wp_selectEndpoint d _ S _).seq fun o s₁ h => ?_
  obtain ⟨⟨es, rfl⟩, hselect⟩ := h
  cases o with
  | none => exact ⟨es, .inl rfl⟩
  | some e =>
    obtain ⟨hplay, j, hj, ht, he⟩ := hselect e rfl
    dsimp only
    cases hE : (s.skipping es).endpoints e with
    | none => simp [offerFrame, hE]
    | some E =>
      refine (wp_offerFrame d w hE).imp fun _ s' h => ⟨es, .inr ?_⟩
      exact ⟨S, j, e, E, hS, hplay, List.mem_range.1 hj, ht, he, hE, h⟩

/-- Where a delivery is. -/
def Server.deliver (s : Server) (o : Option Delivery) : Server := { s with delivery := o }

/-- What a piece of a delivery leaves. -/
inductive Continued (mc : Bool) (w : Sending) (s : Server) : Server → Prop
  | idle : s.delivery = none → Continued mc w s s
  /-- The loop leaves an entry. -/
  | left {d : Delivery} : s.delivery = some d → d.rest = some [] →
      Continued mc w s (s.deliver (some { d with i := d.i + 1, rest := none }))
  /-- The loop sends no frame to a session. -/
  | passed {d : Delivery} {p : ℕ} {rest es : List ℕ} : s.delivery = some d →
      d.rest = some (p :: rest) →
      Continued mc w s ((s.deliver (some { d with rest := some rest })).skipping es)
  | offered {d : Delivery} {n p j e : ℕ} {rest es : List ℕ} {S : Session} {E : Endpoint}
      {s' : Server} : s.delivery = some d → d.rest = some (p :: rest) →
      (s.tracks d.track).entrylist[d.i]? = some n → s.sessions p = some S → S.playing = true →
      j < maxTracks → (s.entries n).tracklist j = some d.track → S.ep j = some e →
      s.endpoints e = some E →
      FrameOffered mc d e w ((s.deliver (some { d with rest := some rest })).skipping es) E s' →
      Continued mc w s s'
  /-- The loop is through with the entries. -/
  | ended {d : Delivery} : s.delivery = some d → d.rest = none →
      (s.tracks d.track).entrylist[d.i]? = none → Continued mc w s (s.deliver none)
  /-- The frame goes to the endpoint that all share. -/
  | multicast {d : Delivery} {n e : ℕ} {E : Endpoint} {r : ℤ × List Bool} {s₁ : Server} :
      s.delivery = some d → d.rest = none → (s.tracks d.track).entrylist[d.i]? = some n →
      (s.tracks d.track).rtp = some (.endpoint e) → s.endpoints e = some E →
      FrameSent mc e w 0 (d.packets E.maxDataSize) { s with log := s.log ++ [.shared e] } E r s₁ →
      Continued mc w s (s₁.deliver none)
  /-- The loop comes to an entry. -/
  | entered {d : Delivery} {n : ℕ} : s.delivery = some d → d.rest = none →
      (s.tracks d.track).entrylist[d.i]? = some n → (s.tracks d.track).rtp = some .null →
      Continued mc w s (s.deliver (some { d with rest := some (s.entries n).sessList }))

/-- **A piece of a delivery.** -/
theorem wp_continueFrame (w : Sending) :
    wp (continueFrame mc w) (fun _ s' => Continued mc w s s') (fun _ => True) s := by
  unfold continueFrame
  rw [wp_bind, wp_get]
  cases hd : s.delivery with
  | none => exact .idle hd
  | some d =>
    dsimp only
    cases hrest : d.rest with
    | some l =>
      cases l with
      | nil => exact .left hd hrest
      | cons p rest =>
        dsimp only
        rw [wp_bind, wp_modify]
        cases hn : (s.tracks d.track).entrylist[d.i]? with
        | none =>
          have hpassed := @Continued.passed mc w s d p rest [] hd hrest
          rwa [Server.skipping_nil] at hpassed
        | some n =>
          refine (wp_visitSession d n p w).imp fun _ s' h => ?_
          obtain ⟨es, rfl | ⟨S, j, e, E, hS, hplay, hj, ht, he, hE, h⟩⟩ := h
          · exact .passed hd hrest
          · exact .offered hd hrest hn hS hplay hj ht he hE h
    | none =>
      dsimp only
      cases hn : (s.tracks d.track).entrylist[d.i]? with
      | none => exact .ended hd hrest hn
      | some n =>
        rcases hrtp : (s.tracks d.track).rtp with _ | _ | _ | e
        · trivial
        · exact .entered hd hrest hn hrtp
        · trivial
        · dsimp only
          rw [wp_bind, wp_record, wp_bind, wp_getEndpoint]
          refine ⟨fun E hE => ?_, fun _ => trivial⟩
          exact (wp_rtpSend w 0 _ hE).seq fun _ s₁ h => .multicast hd hrest hn hrtp hE h

/-- Where the delivery is does not matter to the live side. -/
theorem streams_deliver (s : Server) (o : Option Delivery) : Streams mc s (s.deliver o) :=
  .one (.inl rfl) (.delivering o)

/-- A record of the slots that were passed over. -/
theorem streams_skipping (s : Server) (es : List ℕ) : Streams mc s (s.skipping es) := by
  induction es generalizing s with
  | nil =>
    rw [s.skipping_nil]
    exact .refl
  | cons e es ih =>
    rw [← s.skipping_cons]
    have hlogged : Streams mc s { s with log := s.log ++ [.skipped e] } := .one (by simp) (.logged id)
    exact hlogged.trans (ih _)

/-- Every step of a delivery does what deliveries do. -/
theorem Continued.streams {w : Sending} {s' : Server} (h : Continued mc w s s') :
    Streams mc s s' := by
  cases h with
  | idle => exact .refl
  | left | ended | entered => exact streams_deliver s _
  | passed => exact (streams_deliver s _).trans (streams_skipping _ _)
  | offered _ _ _ _ _ _ _ _ hE h =>
    exact ((streams_deliver s _).trans (streams_skipping _ _)).trans (h.offers hE).streams
  | @multicast _ _ e _ _ _ _ _ _ _ hE h =>
    have hlogged : Streams mc s { s with log := s.log ++ [.shared e] } := .one (by simp) (.logged id)
    exact (hlogged.trans (h.sends hE).offers.streams).trans (streams_deliver _ _)

/-- The start of a delivery, which may be the first frame of the track. -/
theorem wp_deliverToTrack (t : ℕ) (key : Bool) (packets : ℕ → List ℕ) (ok : Bool) :
    wp (deliverToTrack t key packets ok) (fun _ s' => s' = s ∨
      (s.tracks t).srcstream = some true ∧ (s.tracks t).rtp ≠ none ∧ ∃ s₁,
        ((s.tracks t).ready = true ∧ s₁ = s ∨ (s.tracks t).ready = false ∧
          s₁ = (s.onTrack t fun T => { T with srcstream := some false, ready := true })) ∧
        s' = { s₁ with delivery := some { track := t, key, packets, i := 0, rest := none } })
      (fun _ => True) s := by
  unfold deliverToTrack
  rw [wp_bind, wp_get, wp_ite]
  refine ⟨fun hsrc => ?_, fun _ => .inl rfl⟩
  unfold nextLiveFrame
  rw [wp_bind, wp_get, wp_bind, wp_found]
  refine ⟨fun x hx => ?_, fun _ => trivial⟩
  have hrtp : (s.tracks t).rtp ≠ none := by simp [hx]
  rw [wp_ite]
  refine ⟨fun _ => ?_, fun _ => .inl rfl⟩
  unfold makeReady
  rw [wp_bind, wp_bind, wp_get, wp_ite]
  refine ⟨fun hready => .inr ⟨hsrc, hrtp, s, .inl ⟨hready, rfl⟩, rfl⟩, fun hready => ?_⟩
  rw [wp_bind, wp_setWaiting]
  refine ⟨fun _ => ?_, fun _ => trivial⟩
  rw [wp_modifyTrack]
  have hready : (s.tracks t).ready = false := by simpa using hready
  refine .inr ⟨hsrc, hrtp, _, .inr ⟨hready, rfl⟩, ?_⟩
  simp [Server.onTrack]

end Frames

end Spook
