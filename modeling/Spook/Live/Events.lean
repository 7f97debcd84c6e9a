import Spook.Live.Sending

set_option relaxedAutoImplicit false
set_option autoImplicit false

/-!
# Events and the live sessions

What each event of the server does to the live sessions. HTTP, the tunnels and the writing to
connections leave them alone; what is left are the requests, the end of a connection, the frames,
the timers and the UDP sockets.

## Main definitions

* `Spook.Quiet` — a program leaves the live sessions alone, and a connection without RTSP.

## Main results

* `Spook.keeps_liveAct` — an event keeps what the parts keep that matter.
* `Spook.keeps_event`, `keeps_run_of` — an event, and a run, keep what every change keeps.
-/

namespace Spook

/-! ## What leaves the live sessions alone -/

/-- The connection does not speak RTSP. -/
def NotRtsp (o : Option ℕ) (s : Server) : Prop :=
  ∀ c, o = some c → ∀ C, s.conns c = some C → C.proto ≠ .rtsp

/-- The program leaves the live side of the server as it was, and the protocol of a connection. -/
abbrev Quiet {α : Type} (o : Option ℕ) (x : M α) : Prop :=
  Within (NotRtsp o) Alike (fun _ => True) x

section Quiet

variable {o : Option ℕ}

/-- A quiet program leaves the live side as it was. -/
theorem Quiet.leavesLive {α : Type} {x : M α} (h : Quiet none x) : LeavesLive x :=
  fun s _ => (h s fun c hc => by cases hc).imp fun _ _ h' => ⟨trivial, h'.2⟩

/-- A look at a connection. -/
theorem quiet_getConn (c : ℕ) : Quiet o (getConn c) :=
  within_bind within_get fun _ => within_found trivial

/-- A connection changes, and none but one without RTSP may lose its channels. -/
theorem quiet_setConn {c : ℕ} {f : Conn → Conn} {s : Server} (hs : NotRtsp o s)
    (h : ∀ C, s.conns c = some C → ConnAlike C (f C)) (hp : ∀ C, (f C).proto = C.proto) :
    wp (modifyConn c f) (fun _ s' => NotRtsp o s' ∧ Alike s s') (fun _ => True) s := by
  rw [wp_modifyConn]
  refine ⟨fun C hC => ⟨fun c' hc' C' hC' => ?_, alike_update hC (h C hC), rfl, rfl, rfl, rfl, rfl,
    rfl, rfl, rfl, le_rfl, [], by simp, by simp⟩, fun _ => trivial⟩
  dsimp only at hC'
  by_cases hc : c' = c
  · rw [hc, Function.update_self] at hC'
    cases hC'
    rw [hp]
    exact hs c (hc ▸ hc') C hC
  · rw [Function.update_of_ne hc] at hC'
    exact hs c' hc' C' hC'

/-- A change of a connection that leaves its channels and its protocol. -/
theorem quiet_modifyConn {c : ℕ} {f : Conn → Conn} (h : ∀ C, ConnAlike C (f C))
    (hp : ∀ C, (f C).proto = C.proto) : Quiet o (modifyConn c f) :=
  fun _ hs => quiet_setConn hs (fun C _ => h C) hp

/-- A change of the HTTP side. -/
theorem quiet_http (f : Server → ℕ → HttpLocation) (g : Server → ℕ → Option StreamSession) :
    Quiet o (modify fun s => { s with httpLocs := f s, streams := g s } : M Unit) :=
  within_modify fun s hs => ⟨hs, (refl (r := Alike) s).conns, rfl, rfl, rfl, rfl, rfl, rfl, rfl, rfl,
    le_rfl, [], by simp, by simp⟩

/-- `send_data` leaves the live side as it was. -/
theorem quiet_sendData (c : ℕ) (d : Bytes) : Quiet o (sendData c d) := by
  refine within_bind (quiet_getConn c) fun C => ?_
  refine within_bind (quiet_modifyConn (connAlike_sendData _) fun C => ?_) fun _ => within_pure _
  unfold Conn.sendData
  split_ifs <;> rfl

/-- The connection is to be dropped when everything is written. -/
theorem quiet_dropAfter (c : ℕ) : Quiet o (modifyConn c fun C => { C with dropAfter := true }) :=
  quiet_modifyConn (fun _ => ⟨id, .inl rfl⟩) fun _ => rfl

/-- A message is printed into the buffer. -/
theorem quiet_sendPmsgText (c : ℕ) (text : Bytes) (len : ℕ) : Quiet o (sendPmsgText c text len) := by
  refine within_bind (quiet_getConn c) fun C => within_ite (fun _ => within_pure _) fun _ => ?_
  exact within_bind (quiet_sendData c text) fun _ => within_pure _

/-- An HTTP error is printed into the buffer. -/
theorem quiet_httpSendError (c code : ℕ) (reply t : String) :
    Quiet o (httpSendError c code reply t) := by
  refine within_bind (quiet_dropAfter c) fun _ => within_bind (quiet_sendPmsgText c _ _) fun ret => ?_
  refine within_ite (fun _ => ?_) fun _ => within_pure _
  exact within_bind (quiet_sendData c _) fun _ => within_pure _

/-- A picture goes into the buffer. -/
theorem quiet_sendFrameWithJfif (l c : ℕ) : Quiet o (sendFrameWithJfif l c) := by
  refine within_bind (within_bind within_get fun _ => within_found trivial) fun frame => ?_
  refine within_bind within_get fun s => within_ite (fun _ => ?_) fun _ => ?_
  · refine within_bind (quiet_sendData c _) fun _ => ?_
    exact within_bind (quiet_sendData c _) fun _ => within_pure _
  · exact within_bind (quiet_sendData c _) fun _ => within_pure _

/-- A part of a multipart response goes into the buffer. -/
theorem quiet_sendMultipartFrame (l c : ℕ) : Quiet o (sendMultipartFrame l c) := by
  refine within_bind within_get fun s => within_bind (quiet_getConn c) fun C => ?_
  refine within_ite (fun _ => within_pure _) fun _ => ?_
  exact within_bind (quiet_sendData c _) fun _ => quiet_sendFrameWithJfif l c

/-- A stream of images takes the `proto_state` of a connection that does not speak RTSP. -/
theorem quiet_addHttpStreamSession (l c : ℕ) : Quiet (some c) (addHttpStreamSession l c) := by
  have hfresh : Quiet (some c) fresh := by
    intro s hs
    rw [wp_fresh]
    exact ⟨hs, (refl (r := Alike) s).conns, rfl, rfl, rfl, rfl, rfl, rfl, rfl, rfl, Nat.le_succ _, [],
      by simp, by simp⟩
  refine within_bind hfresh fun p => within_bind (quiet_http _ _) fun _ =>
    within_bind (quiet_http _ _) fun _ => fun s hs => ?_
  exact quiet_setConn hs (fun C hC => ⟨id, .inr ⟨hs c rfl C hC, id⟩⟩) fun _ => rfl

/-- HTTP requests touch stream sessions and locations, which are no part of the live side. -/
theorem quiet_httpHandleMsg (c : ℕ) (method uri : Bytes) :
    Quiet (some c) (httpHandleMsg c method uri) := by
  refine within_ite (fun _ => ?_) fun _ => quiet_httpSendError c _ _ _
  refine within_bind within_get fun s => within_bind (quiet_getConn c) fun C => ?_
  split
  · exact quiet_httpSendError c _ _ _
  · exact quiet_httpSendError c _ _ _
  · refine within_bind (quiet_sendPmsgText c _ _) fun _ => ?_
    exact within_bind (quiet_addHttpStreamSession _ c) fun _ => quiet_sendMultipartFrame _ c
  · refine within_bind (quiet_dropAfter c) fun _ => within_bind within_get fun s => ?_
    refine within_bind (quiet_sendPmsgText c _ _) fun ret => ?_
    exact within_ite (fun _ => quiet_sendFrameWithJfif _ c) fun _ => within_pure _

/-- Pictures go out over HTTP. -/
theorem quiet_jpegNextFrame (l : ℕ) (d : Bytes) : Quiet o (jpegNextFrame l d) := by
  have hsend : ∀ ps, Quiet o (sendFrames l ps) := by
    intro ps
    induction ps with
    | nil => exact within_pure _
    | cons p ps ih =>
      refine within_bind (within_bind within_get fun _ => within_found trivial) fun S => ?_
      exact within_bind (quiet_sendMultipartFrame l _) fun _ => ih
  refine within_ite (fun _ => ?_) fun _ => within_pure _
  exact within_bind (quiet_http _ _) fun _ => within_bind within_get fun s => hsend _

/-- A stream session is unlinked and freed, which is no part of the live side. -/
theorem quiet_httpConnDisconnect (c : ℕ) : Quiet o (httpConnDisconnect c) := by
  refine within_bind (quiet_getConn c) fun C => ?_
  split
  · exact within_throw trivial
  · exact within_throw trivial
  · refine within_bind (within_bind within_get fun _ => within_found trivial) fun S => ?_
    exact within_bind (quiet_http _ _) fun _ => quiet_http _ _

end Quiet

section Requests

/-- A tunnel changes what a connection speaks, but no channels. -/
theorem leavesLive_handleQTTunnel (c : ℕ) (m : Pmsg) (post : Bool) :
    LeavesLive (handleQTTunnel c m post) := by
  have hlift : ∀ {α : Type} (x : Except Fault α), LeavesLive (lift x) := by
    intro α x s _
    rw [wp_lift]
    exact ⟨fun a _ => ⟨trivial, refl s⟩, fun _ _ => trivial⟩
  have hsend : ∀ text, LeavesLive (sendData c text) := fun text => (quiet_sendData c text).leavesLive
  have hrefuse : ∀ text, LeavesLive (do
      let _ ← sendData c text
      modifyConn c fun C => { C with dropAfter := true }) := fun text =>
    within_bind (hsend text) fun _ => (quiet_dropAfter c).leavesLive
  have hlog : ∀ ev : Event, ev.IsTunnel → LeavesLive (record ev) := fun ev hev =>
    within_modify fun s _ => ⟨trivial, (refl (r := Alike) s).conns, rfl, rfl, rfl, rfl, rfl, rfl, rfl,
      rfl, le_rfl, [ev], rfl, by simpa using hev⟩
  have hconn : ∀ (c : ℕ) (f : Conn → Conn), (∀ C, (f C).protoState = C.protoState) →
      (∀ C, C.proto = .rtsp → (f C).proto = .rtsp) → LeavesLive (modifyConn c f) :=
    fun c f hstate hproto => leavesLive_modifyConn fun C => ⟨hproto C, .inl (hstate C)⟩
  refine within_bind (hlift _) fun o => ?_
  cases o with
  | none => exact within_bind (hrefuse _) fun _ => within_pure _
  | some t =>
    refine within_ite (fun _ => within_bind (hrefuse _) fun _ => within_pure _) fun _ => ?_
    refine within_ite (fun _ => ?_) fun _ => ?_
    · refine within_bind (hconn c _ (fun _ => rfl) fun _ => id) fun _ => ?_
      refine within_bind (hsend _) fun _ => ?_
      refine within_bind (hconn c _ (fun _ => rfl) fun _ _ => rfl) fun _ => ?_
      exact within_bind (hlog _ trivial) fun _ => within_pure _
    · refine within_bind within_get fun s => ?_
      dsimp only
      split
      · exact within_bind (hrefuse _) fun _ => within_pure _
      · refine within_bind (leavesLive_getConn _) fun C => ?_
        refine within_bind (hconn _ _ (fun _ => rfl) fun _ => id) fun _ => ?_
        refine within_bind (hconn c _ (fun _ => rfl) fun _ => id) fun _ => ?_
        exact within_bind (hlog _ trivial) fun _ => within_pure _

/-- A request over HTTP leaves the live sessions alone. -/
theorem wp_httpRequest {c : ℕ} {s : Server} (hnot : NotRtsp (some c) s) (m : Pmsg)
    (method uri : Bytes) :
    wp (if strCaseEq method (str "GET") then handleGET c m method uri
      else if strCaseEq method (str "POST") then handlePOST c m method uri
      else do
        httpHandleMsg c method uri
        return 0) (fun _ s' => Alike s s') (fun _ => True) s := by
  have hmsg : wp (do
      httpHandleMsg c method uri
      return (0 : ℤ)) (fun _ s' => Alike s s') (fun _ => True) s :=
    (quiet_httpHandleMsg c method uri s hnot).seq fun _ _ h => h.2
  have htunnel : ∀ post, wp (do
      if (← handleQTTunnel c m post) ≠ 0 then return -1
      return (0 : ℤ)) (fun _ s' => Alike s s') (fun _ => True) s := by
    intro post
    refine (leavesLive_handleQTTunnel c m post s trivial).seq fun ret s₁ h => ?_
    rw [wp_ite]
    exact ⟨fun _ => h.2, fun _ => h.2⟩
  rw [wp_ite, wp_ite]
  refine ⟨fun _ => ?_, fun _ => ⟨fun _ => ?_, fun _ => hmsg⟩⟩
  · unfold handleGET
    rw [wp_bind, wp_lift]
    refine ⟨fun b _ => ?_, fun _ _ => trivial⟩
    rw [wp_ite]
    exact ⟨fun _ => htunnel false, fun _ => hmsg⟩
  · unfold handlePOST
    rw [wp_bind, wp_lift]
    refine ⟨fun b _ => ?_, fun _ _ => trivial⟩
    rw [wp_ite]
    exact ⟨fun _ => htunnel true, fun _ => hmsg⟩

/-- A request that no handler takes is answered with an error. -/
theorem leavesLive_handleUnknown (c : ℕ) (r : Reply) : LeavesLive (handleUnknown c r) :=
  within_bind (quiet_dropAfter c).leavesLive fun _ => leavesLive_rtspReply c _

/-- A request over HTTP, or of no protocol, leaves the live sessions alone. -/
theorem wp_handleRequest_notRtsp {mc : Bool} {c : ℕ} {env : ReadEnv} {s : Server} {C : Conn}
    (hC : s.conns c = some C) (hproto : C.proto ≠ .rtsp) :
    wp (handleRequest mc c env) (fun _ s' => Alike s s') (fun _ => True) s := by
  have hnot : NotRtsp (some c) s := by
    intro c' hc' C' hC'
    cases hc'
    rw [hC] at hC'
    cases hC'
    exact hproto
  unfold handleRequest
  rw [wp_bind, wp_getConn]
  refine ⟨fun C' hC' => ?_, fun _ => trivial⟩
  obtain rfl : C = C' := Option.some.inj (hC.symm.trans hC')
  rw [wp_bind, wp_lift]
  refine ⟨fun o _ => ?_, fun _ _ => trivial⟩
  cases o with
  | none => exact refl s
  | some r =>
    obtain ⟨m, method, uri⟩ := r
    dsimp only
    rw [wp_bind, wp_getConn]
    refine ⟨fun C' hC' => ?_, fun _ => trivial⟩
    obtain rfl : C = C' := Option.some.inj (hC.symm.trans hC')
    cases hp : C.proto with
    | rtsp => exact absurd hp hproto
    | http => exact wp_httpRequest hnot m method uri
    | start => exact (leavesLive_handleUnknown c env.reply s trivial).seq fun _ _ h => h.2

end Requests

/-! ## The end of a connection -/

section Drop

variable {mc : Bool} {c : ℕ} {s : Server}

/-- **Disconnect.** What the loop over the channels keeps, when `k` of them are done. -/
theorem keeps_disconnectChannels {I : ℕ → Server → Prop} {n k : ℕ} (hs : I k s)
    (hskip : ∀ k s C ichan, I k s → s.conns c = some C → C.protoState = .rtspConn ichan →
      (∀ e, ichan k ≠ ⟨some e, false⟩) → I (k + 1) s)
    (hdown : ∀ k s C ichan e E p s', I k s → s.conns c = some C →
      C.protoState = .rtspConn ichan → ichan k = ⟨some e, false⟩ → s.endpoints e = some E →
      E.session = some p → TornDown mc p (some e) s s' → I (k + 1) s') :
    wp (disconnectChannels mc c (List.range' k n)) (fun _ s' => I (k + n) s') (fun _ => True) s := by
  induction n generalizing k s with
  | zero => exact hs
  | succ n ih =>
    rw [List.range'_succ]
    unfold disconnectChannels
    rw [wp_bind, wp_getConn]
    refine ⟨fun C hC => ?_, fun _ => trivial⟩
    cases hp : C.protoState with
    | null => trivial
    | stream p => trivial
    | rtspConn ichan =>
      dsimp only
      have hchannel : wp (disconnectChannel mc (ichan k)) (fun _ s' => I (k + 1) s')
          (fun _ => True) s := by
        unfold disconnectChannel
        rcases hi : ichan k with ⟨_ | e, rtcp⟩
        · exact hskip k s C ichan hs hC hp fun e h => by rw [hi] at h; cases h
        cases rtcp with
        | true => exact hskip k s C ichan hs hC hp fun e h => by rw [hi] at h; cases h
        | false =>
          dsimp only
          rw [wp_bind, wp_getEndpoint]
          refine ⟨fun E hE => ?_, fun _ => trivial⟩
          rw [wp_bind, wp_found]
          refine ⟨fun p hsession => ?_, fun _ => trivial⟩
          exact (wp_liveTeardown p (some e)).imp fun _ s' h =>
            hdown k s C ichan e E p s' hs hC hp hi hE hsession h
      refine hchannel.seq fun _ s₁ h₁ => ?_
      rw [show k + (n + 1) = k + 1 + n by omega]
      exact ih h₁

/-- **The end of a connection**: what is done about its protocol, and then it is gone. -/
theorem wp_dropConn {J : Server → Prop}
    (halike : ∀ C s', s.conns c = some C → C.proto ≠ .rtsp ∨ C.protoState = .null →
      Alike s s' → J s')
    (hrtsp : ∀ C, s.conns c = some C → C.proto = .rtsp →
      wp (rtspConnDisconnect mc c) (fun _ s' => J s') (fun _ => True) s) :
    wp (dropConn mc c) (fun _ s' => ∃ s₁, J s₁ ∧ s' = { s₁ with
      conns := Function.update s₁.conns c none, connList := s₁.connList.erase c })
      (fun _ => True) s := by
  unfold dropConn
  rw [wp_bind, wp_getConn]
  refine ⟨fun C hC => ?_, fun _ => trivial⟩
  have hproto : wp (disconnectProto mc c C.protoState C.proto) (fun _ s' => J s')
      (fun _ => True) s := by
    unfold disconnectProto
    split
    · exact halike C s hC (.inr ‹_›) (refl s)
    · refine (quiet_httpConnDisconnect (o := none) c s fun _ h => by cases h).imp fun _ s' h => ?_
      exact halike C s' hC (.inl (by rw [‹C.proto = _›]; decide)) h.2
    · exact hrtsp C hC ‹_›
    · exact halike C s hC (.inl (by rw [‹C.proto = _›]; decide)) (refl s)
  refine hproto.seq fun _ s₁ h₁ => ?_
  rw [wp_modify]
  exact ⟨s₁, h₁, rfl⟩

end Drop

/-! ## Events -/

section Events

variable {mc : Bool} {s : Server} {I : Server → Prop}

/-- A packet on a channel is noted at most. -/
theorem wp_interleaveRecv (mc : Bool) (c : ℕ) (chan : UInt8) (d : Bytes) (now : TimeVal) :
    wp (interleaveRecv c chan d now) (fun _ s' => s' = s ∨ ∃ e, Change mc (.noted e) s s')
      (fun _ => True) s := by
  unfold interleaveRecv
  rw [wp_ite]
  refine ⟨fun _ => .inl rfl, fun _ => ?_⟩
  rw [wp_bind, wp_getConn]
  refine ⟨fun C _ => ?_, fun _ => trivial⟩
  cases C.protoState with
  | null => trivial
  | stream p => trivial
  | rtspConn ichan =>
    dsimp only
    cases (ichan chan.toNat).ep with
    | none => exact .inl rfl
    | some e =>
      dsimp only
      rw [wp_ite]
      refine ⟨fun _ => ?_, fun _ => ?_⟩
      · rw [wp_modifyEndpoint]
        exact ⟨fun E hE => .inr ⟨e, .noted hE ⟨⟨rfl, rfl, rfl, rfl⟩, rfl, rfl, rfl⟩⟩, fun _ => trivial⟩
      · rw [wp_bind, wp_getEndpoint]
        refine ⟨fun E _ => ?_, fun _ => trivial⟩
        rw [wp_ite, wp_ite]
        exact ⟨fun _ => ⟨fun _ => trivial, fun _ => .inl rfl⟩, fun _ => .inl rfl⟩

/-- A connection that reads is the same for the live sessions. -/
theorem alike_setConn {c : ℕ} {C C' : Conn} (hC : s.conns c = some C)
    (h : C.proto = .rtsp → C'.proto = .rtsp) (hstate : C'.protoState = C.protoState) :
    Alike s (s.setConn c C') :=
  ⟨alike_update hC ⟨h, .inl hstate⟩, rfl, rfl, rfl, rfl, rfl, rfl, rfl, rfl, le_rfl, [],
    (List.append_nil s.log).symm, by simp⟩

/-- What was read is put into the buffers of the connection. -/
theorem alike_settled {c : ℕ} {C : Conn} (hC : s.conns c = some C) (d : Bytes) :
    Alike s (s.setConn c (C.settled d)) := by
  obtain ⟨buf, n, hreceive, -⟩ := C.receive_eq d
  refine alike_setConn hC (fun hp => ?_) ?_
  · have hproto : (C.receive d).proto = .rtsp := by rw [hreceive]; exact hp
    rw [← hproto]
    exact settle_proto (by rw [hproto]; decide) _
  · change (C.receive d).protoState = C.protoState
    rw [hreceive]

/-- A change of a connection that keeps its channels. -/
theorem keeps_modifyConn {f : Conn → Conn} (c : ℕ) (hs : I s)
    (halike : ∀ s s', I s → Alike s s' → I s') (hf : ∀ C, ConnAlike C (f C)) :
    wp (modifyConn c f) (fun _ s' => I s') (fun _ => True) s :=
  (wp_modifyConn_alike fun C _ => hf C).imp fun _ s' h => halike s s' hs h.2

/-- **Reading.** A read keeps what the requests that it may hand over keep, and the end of the
connection. -/
theorem keeps_read {c : ℕ} {d : Bytes} {env : ReadEnv} {C : Conn} (hs : I s)
    (hC : s.conns c = some C) (halike : ∀ s s', I s → Alike s s' → I s')
    (hnoted : ∀ s s' e, I s → Change mc (.noted e) s s' → I s')
    (hdrop : ∀ s, I s → wp (dropConn mc c) (fun _ s' => I s') (fun _ => True) s)
    (hrequest : ∀ q code s', C.rtspRequest d env = some q →
      Handled mc c (s.setConn c (C.settled d)) q code s' → I s') :
    wp (readChunk (connOps mc c env) d) (fun _ s' => I s') (fun _ => True) s := by
  have hclear : ∀ s, I s → wp (modifyConn c fun C => { C with reqBuf := [] }) (fun _ s' => I s')
      (fun _ => True) s := by
    intro s hs
    apply keeps_modifyConn c hs halike
    exact fun _ => ⟨id, .inl rfl⟩
  have hsettled : I (s.setConn c (C.settled d)) := halike _ _ hs (alike_settled hC d)
  cases hq : C.rtspRequest d env with
  | some q =>
    rw [wp_read_rtspRequest hC hq]
    refine (wp_rtspHandle (s.setConn_conns_self c _) (Conn.settled_proto hq) q).imp
      fun code s' h => hclear s' (hrequest q code s' hq h)
  | none =>
    have hreceived : I (s.setConn c (C.receive d)) := by
      obtain ⟨buf, n, hreceive, -⟩ := C.receive_eq d
      refine halike _ _ hs (alike_setConn hC (fun hp => ?_) ?_) <;> rw [hreceive]
      exact hp
    rw [wp_readChunk hC]
    split_ifs with hfull h64
    · exact hdrop _ hreceived
    · exact hreceived
    have hC' := s.setConn_conns_self c (C.settled d)
    refine keeps_settledRound hsettled hdrop hclear (fun ha => ?_) fun chan d' _ => ?_
    · by_cases hproto : (C.settled d).proto = .rtsp
      · -- no request was read, although there is one
        have hbuf : (C.settled d).reqBuf = (C.receive d).reqBuf := rfl
        unfold handleRequest
        rw [wp_bind, wp_getConn]
        refine ⟨fun C₁ hC₁ => ?_, fun _ => trivial⟩
        obtain rfl := Option.some.inj (hC'.symm.trans hC₁)
        rw [wp_bind, wp_lift]
        refine ⟨fun o ho => ?_, fun _ _ => trivial⟩
        cases o with
        | none => exact hsettled
        | some r =>
          obtain ⟨m, method, uri⟩ := r
          have hsome : C.rtspRequest d env = some (env.rtsp m method uri) := by
            unfold Conn.rtspRequest
            rw [if_pos ⟨⟨hfull, h64⟩, Prod.ext hproto ha⟩, ← hbuf, ho]
          rw [hq] at hsome
          cases hsome
      · exact (wp_handleRequest_notRtsp hC' hproto).imp fun _ s' h => halike _ _ hsettled h
    · refine (wp_interleaveRecv mc c chan _ env.now).imp fun _ s' h => ?_
      rcases h with rfl | ⟨e, h⟩
      · exact hsettled
      · exact hnoted _ _ e hsettled h

/-- **Events.** An event keeps what the parts keep that have to do with the live sessions.

**Proof sketch.** By the event. A connection, an endpoint or a delivery that is not there makes
nothing happen. Otherwise the event is one of the parts that the hypotheses are about, or changes
connections in a way that leaves the live sessions alone. -/
theorem keeps_liveAct {a : ServerAct} (hs : I s) (halike : ∀ s s', I s → Alike s s' → I s')
    (hnoted : ∀ s s' e, I s → Change mc (.noted e) s s' → I s')
    (haccept : ∀ s s', I s → Change mc .accepted s s' → I s')
    (hdrop : ∀ s c, I s → wp (dropConn mc c) (fun _ s' => I s') (fun _ => True) s)
    (hrequest : ∀ c d env C q code s', a = .read c d env → s.conns c = some C →
      C.rtspRequest d env = some q → Handled mc c (s.setConn c (C.settled d)) q code s' → I s')
    (hframe : ∀ t key packets ok, a = .frame t key packets ok →
      wp (deliverToTrack t key packets ok) (fun _ s' => I s') (fun _ => True) s)
    (hdeliver : ∀ w, a = .deliver w →
      wp (continueFrame mc w) (fun _ s' => I s') (fun _ => True) s)
    (htimer : ∀ e now ret E, a = .timer e now ret → s.endpoints e = some E →
      E.rtcpSendEvent = true → wp (rtcpFire mc e now ret) (fun _ s' => I s') (fun _ => True) s)
    (hudp : ∀ e now E, a = .udp e .failed now → s.endpoints e = some E →
      wp (teardownEndpoint mc E e) (fun _ s' => I s') (fun _ => True) s) :
    wp (serverAct mc a) (fun _ s' => I s') (fun _ => True) s := by
  have hif : ∀ (c : ℕ) (x : M Unit), (∀ C, s.conns c = some C →
      wp x (fun _ s' => I s') (fun _ => True) s) →
      wp (do if (← get).hasConn c then x) (fun _ s' => I s') (fun _ => True) s := by
    intro c x hx
    rw [wp_bind, wp_get, wp_ite]
    refine ⟨fun hc => ?_, fun _ => hs⟩
    obtain ⟨C, hC⟩ := Option.isSome_iff_exists.1 hc
    exact hx C hC
  cases a with
  | accept fd =>
    unfold serverAct acceptConn
    rw [wp_bind, wp_fresh, wp_modify]
    exact haccept s _ hs (.accepted fd)
  | read c d env =>
    refine hif c _ fun C hC => ?_
    apply keeps_read hs hC halike hnoted fun s hs => hdrop s c hs
    exact fun q code s' hq h => hrequest c d env C q code s' rfl hC hq h
  | close c => exact hif c _ fun _ _ => hdrop s c hs
  | closeSecond c =>
    refine hif c _ fun C _ => ?_
    apply keeps_modifyConn c hs halike
    exact fun _ => ⟨id, .inl rfl⟩
  | write c rs =>
    refine hif c _ fun C _ => keeps_connWrite rs hs trivial (fun s hs => hdrop s c hs) fun s n hs => ?_
    apply keeps_modifyConn c hs halike
    exact fun _ => ⟨id, .inl rfl⟩
  | jpeg l d =>
    exact ((quiet_jpegNextFrame l d).leavesLive s trivial).imp fun _ s' h => halike s s' hs h.2
  | frame t key packets ok => exact hframe t key packets ok rfl
  | deliver w => exact hdeliver w rfl
  | timer e now ret =>
    unfold serverAct
    rw [wp_bind, wp_get]
    cases hE : s.endpoints e with
    | none => exact hs
    | some E =>
      dsimp only
      rw [wp_ite]
      exact ⟨fun hevent => htimer e now ret E rfl hE hevent, fun _ => hs⟩
  | udp e r now =>
    unfold serverAct
    rw [wp_bind, wp_get]
    cases hE : s.endpoints e with
    | none => exact hs
    | some E =>
      dsimp only
      rw [wp_ite]
      refine ⟨fun _ => ?_, fun _ => hs⟩
      unfold udpRead
      cases r with
      | alive =>
        rw [wp_modifyEndpoint]
        refine ⟨fun E' hE' => ?_, fun _ => trivial⟩
        exact hnoted _ _ e hs (.noted hE' ⟨⟨rfl, rfl, rfl, rfl⟩, rfl, rfl, rfl⟩)
      | other => exact hs
      | failed =>
        dsimp only
        rw [wp_bind, wp_getEndpoint]
        refine ⟨fun E' hE' => ?_, fun _ => trivial⟩
        exact hudp e now E' rfl hE'

/-- The changes that requests make. -/
def Kind.OfRequest : Kind → Prop
  | .opened | .added _ _ | .connected _ | .registered _ | .played _ | .woken | .removed _ _
  | .closed _ => True
  | .readied | .delivering | .logged | .flagged _ | .counted _ | .noted _ | .accepted
  | .dropped => False

/-- What a request leaves is the outcome of its changes. -/
theorem Handled.changes {c : ℕ} {q : RtspRequest} {code : Option ℕ} {s' : Server}
    (h : Handled mc c s q code s') : Steps mc {k | k.OfRequest} s s' := by
  have hone : ∀ {k : Kind} {s s' : Server}, Change mc k s s' → k.OfRequest →
      Steps mc {k | k.OfRequest} s s' := fun h hk => .one hk h
  have hdown : ∀ {p : ℕ} {ep : Option ℕ} {s s' : Server}, TornDown mc p ep s s' →
      Steps mc {k | k.OfRequest} s s' := by
    intro p ep s s' h
    refine h.steps.mono ?_
    rintro k (⟨e, rfl, -⟩ | rfl) <;> exact trivial
  have hsetup : ∀ {p j : ℕ} {isNew : Bool} {t : Transport} {env : SetupEnv} {s : Server} {k : ℕ}
      {s' : Server}, SetUp mc c p j isNew t env s k s' → Steps mc {k | k.OfRequest} s s' := by
    intro p j isNew t env s k s' h
    cases h with
    | taken _ _ halike => exact .alike halike
    | refused _ halike => exact .alike halike
    | refusedNew _ halike h => exact (Steps.alike halike).trans (hdown h)
    | unconnected hadd _ _ _ _ halike h =>
      exact (hone hadd trivial).trans ((Steps.alike halike).trans (hdown h))
    | @done _ s₂ _ _ _ _ hadd hslot hconn halike =>
      refine (hone hadd trivial).trans (Relation.ReflTransGen.trans (b := s₂) ?_ ?_)
      · rcases hconn with ⟨-, rfl⟩ | hconn
        · exact .refl
        · exact hone hconn trivial
      · refine Relation.ReflTransGen.trans ?_ (Steps.alike halike)
        unfold Server.register
        split_ifs
        · refine hone (.registered p env.id ?_) trivial
          rcases hconn with ⟨-, rfl⟩ | hconn
          · simp [hslot.after]
          · simp [hconn.connected_sessions, hslot.after]
        · exact .refl
  cases h with
  | answered _ _ halike => exact .alike halike
  | described _ halike h =>
    exact (hone (.opened _) trivial).trans ((Steps.alike halike).trans (hdown h))
  | announced _ halike => exact (hone (.opened _) trivial).trans (Steps.alike halike)
  | setupNew _ _ _ _ h => exact (hone (.opened _) trivial).trans (hsetup h)
  | setupOld _ _ _ _ _ h => exact hsetup h
  | played _ h halike =>
    refine Relation.ReflTransGen.trans (h.changes.mono ?_) (Steps.alike halike)
    rintro k (rfl | rfl) <;> exact trivial
  | tornDown _ _ h halike => exact (hdown h).trans (Steps.alike halike)

/-- A request drops no connection. -/
theorem Handled.steps {c : ℕ} {q : RtspRequest} {code : Option ℕ} {s' : Server}
    (h : Handled mc c s q code s') : Steps mc {.dropped}ᶜ s s' := by
  refine h.changes.mono fun k hk => ?_
  rintro rfl
  exact hk

/-- The changes that the end of a connection makes. -/
def Kind.OfEnd : Kind → Prop
  | .removed _ _ | .closed _ | .dropped => True
  | .opened | .added _ _ | .connected _ | .registered _ | .played _ | .woken | .readied
  | .delivering | .logged | .flagged _ | .counted _ | .noted _ | .accepted => False

/-- The end of a connection is the outcome of its changes. -/
theorem changes_dropConn (c : ℕ) :
    wp (dropConn mc c) (fun _ s' => Steps mc {k | k.OfEnd} s s') (fun _ => True) s := by
  refine (wp_dropConn (J := fun s' => Steps mc {k | k.OfEnd} s s') (fun C s' _ _ h => .alike h)
    fun C _ _ => ?_).imp fun _ s' h => ?_
  · unfold rtspConnDisconnect
    rw [List.range_eq_range']
    refine keeps_disconnectChannels (I := fun _ s' => Steps mc {k | k.OfEnd} s s') .refl
      (fun _ _ _ _ h _ _ _ => h) fun _ _ _ _ _ _ _ _ h _ _ _ _ _ h' => ?_
    refine h.trans (h'.steps.mono ?_)
    rintro k (⟨e, rfl, -⟩ | rfl) <;> exact trivial
  · obtain ⟨s₁, h, rfl⟩ := h
    have hend : Kind.dropped.OfEnd := trivial
    exact h.trans (Steps.one hend (.dropped c))

/-- `drop_conn` tears down the sessions of the connection and removes it. -/
theorem steps_dropConn (c : ℕ) :
    wp (dropConn mc c) (fun _ s' => Steps mc Set.univ s s') (fun _ => True) s :=
  (changes_dropConn c).imp fun _ _ h => h.mono (Set.subset_univ _)

/-- **Every event is a sequence of changes**, with the end of a connection. -/
theorem keeps_event (a : ServerAct) (hs : I s) (halike : ∀ s s', I s → Alike s s' → I s')
    (hchange : ∀ k, k ≠ .dropped → ∀ s s', I s → Change mc k s s' → I s')
    (hdrop : ∀ s c, I s → wp (dropConn mc c) (fun _ s' => I s') (fun _ => True) s) :
    wp (serverAct mc a) (fun _ s' => I s') (fun _ => True) s := by
  have hsteps : ∀ {A : Set Kind} {s s' : Server}, I s → A ⊆ {.dropped}ᶜ → Steps mc A s s' → I s' :=
    fun hs hA h => h.keeps hs halike fun k hk s s' => hchange k (hA hk) s s'
  have hsending : ∀ {e : ℕ} {o : Option ℕ} {s s' : Server}, I s → Sends mc e o s s' → I s' := by
    intro e o s s' hs h
    refine hsteps hs ?_ h.steps
    rintro k (rfl | ⟨p, e', -, rfl | rfl⟩) hk <;> cases hk
  refine keeps_liveAct hs halike (fun s s' e hs => hchange _ (by simp) s s' hs)
    (fun s s' hs => hchange _ (by simp) s s' hs) hdrop ?_ ?_ ?_ ?_ ?_
  · intro c d env C q code s' _ hC _ h
    exact hsteps (halike _ _ hs (alike_settled hC d)) subset_rfl h.steps
  · intro t key packets ok _
    refine (wp_deliverToTrack t key packets ok).imp fun _ s' h => ?_
    rcases h with rfl | ⟨-, -, s₁, ⟨-, rfl⟩ | ⟨hready, rfl⟩, rfl⟩
    · exact hs
    · exact hchange .delivering (by simp) _ _ hs (.delivering _)
    · refine hchange .delivering (by simp) _ _ ?_ (.delivering _)
      exact hchange .readied (by simp) _ _ hs (.readied t hready)
  · intro w _
    refine (wp_continueFrame w).imp fun _ s' h => hsteps hs ?_ h.streams.steps
    rintro k ((rfl | rfl | ⟨e, rfl | rfl⟩) | ⟨p, e, -, rfl | rfl⟩) hk <;> cases hk
  · intro e now ret E _ hE _
    exact (wp_rtcpSend now ret hE).seq fun _ s' h => hsending hs (h.sends hE)
  · intro e now E _ _
    exact (wp_teardownEndpoint ..).imp fun _ s' h => hsending hs h.sends

/-- **What every change keeps is kept over runs**, with the end of a connection. -/
theorem keeps_run_of {M : Machine Server ServerAct Event Fault} (hstep : M.step = serverStep mc)
    {G : Server → ServerAct → Prop} (hinit : ∀ s, M.Init s → I s)
    (halike : ∀ s s', I s → Alike s s' → I s')
    (hchange : ∀ k, k ≠ .dropped → ∀ s s', I s → Change mc k s s' → I s')
    (hdrop : ∀ s c, I s → wp (dropConn mc c) (fun _ s' => I s') (fun _ => True) s) {s : Server}
    (h : M.Reachable G s) : I s := by
  refine h.invariant I hinit fun s a s' os hs _ ha => ?_
  rw [hstep] at ha
  exact serverStep_ok hs (keeps_event a hs halike hchange hdrop) ha

/-- **What every change keeps is kept over runs.** -/
theorem keeps_run {M : Machine Server ServerAct Event Fault} (hstep : M.step = serverStep mc)
    {G : Server → ServerAct → Prop} (hinit : ∀ s, M.Init s → I s)
    (halike : ∀ s s', I s → Alike s s' → I s')
    (hchange : ∀ k s s', I s → Change mc k s s' → I s') {s : Server} (h : M.Reachable G s) :
    I s :=
  keeps_run_of hstep hinit halike (fun k _ => hchange k)
    (fun _ c hs => (steps_dropConn c).imp fun _ _ h =>
      h.keeps hs halike fun k _ s s' => hchange k s s') h

end Events

end Spook
