import Spook.Live.Packets
import Spook.Tcp.SendBuf

set_option relaxedAutoImplicit false
set_option autoImplicit false

/-!
# Frames from a client

`parse_client_data` hands a `$` frame to `interleave_recv`, which looks its channel up in the
`rtsp_conn` of the connection. That exists from the first SETUP over the connection on, and
`interleave_recv` does not check that it does.

## Main definitions

* `Spook.Unrecorded` — no endpoint has an exchanger.
* `Spook.Server.ChannelSafe` — the channel of a frame can be looked up.
* `Spook.FrameTaken` — a frame leaves the connection usable.

## Main results

* `Spook.unrecorded_run` — the first in every run.
* `Spook.frame_taken_iff` — which frames leave the connection usable.
-/

namespace Spook

/-! ## Endpoints that record -/

/-- No endpoint has an exchanger. -/
def Unrecorded (s : Server) : Prop :=
  ∀ e E, s.endpoints e = some E → E.ex = false

namespace Unrecorded

variable {mc : Bool} {s s' : Server}

/-- An endpoint is written. -/
theorem update (h : Unrecorded s) {e : ℕ} {o : Option Endpoint}
    (hendpoints : s'.endpoints = Function.update s.endpoints e o)
    (ho : ∀ E, o = some E → E.ex = false) : Unrecorded s' := by
  intro e' E' hE'
  rw [hendpoints, Function.update_apply] at hE'
  split_ifs at hE'
  · exact ho E' hE'
  · exact h e' E' hE'

/-- Every change keeps it. -/
theorem change (h : Unrecorded s) {k : Kind} (hc : Change mc k s s') : Unrecorded s' := by
  have hwrite : ∀ {e : ℕ} {E E' : Endpoint}, s.endpoints e = some E → E'.ex = E.ex →
      ∀ E'', some E' = some E'' → E''.ex = false := by
    intro e E E' hE hex E'' heq
    obtain rfl := Option.some.inj heq
    exact hex.trans (h e E hE)
  cases hc with
  | added _ _ _ _ _ _ _ hfresh | newShared _ _ _ _ _ _ _ hfresh =>
    refine h.update rfl fun E' heq => ?_
    obtain rfl := Option.some.inj heq
    exact hfresh.ex
  | shared _ _ _ _ _ hE => exact h.update rfl (hwrite hE rfl)
  | interleaved hE | udp hE | flagged _ hE => exact h.update rfl (hwrite hE rfl)
  | counted hE hcount => exact h.update rfl (hwrite hE hcount.ex)
  | noted hE hnote => exact h.update rfl (hwrite hE hnote.ex)
  | removed | removedLast | leftLast =>
    refine h.update rfl fun E' heq => ?_
    cases heq
  | opened | registered | played | woken | left | closed | readied | delivering | logged | accepted
  | dropped => exact h

end Unrecorded

/-- In every run. -/
theorem unrecorded_run {mc : Bool} {blocks : List (List ConfigLine)}
    {G : Server → ServerAct → Prop} {s : Server} (h : (liveMachine mc blocks).Reachable G s) :
    Unrecorded s := by
  refine keeps_run (M := liveMachine mc blocks) rfl (fun s hs e E hE => ?_)
    (fun s s' h ha e E hE => h e E (ha.endpoints ▸ hE)) (fun _ _ _ h hc => h.change hc) h
  obtain ⟨s₀, h₀, hconf⟩ := hs
  rw [(configured_of_configure h₀ hconf).endpoints] at hE
  cases hE

/-! ## One frame -/

/-- The channel `chan` of the connection holds an endpoint. -/
def Conn.HasChannel (C : Conn) (chan : UInt8) : Prop :=
  chan.toNat < maxInterleaveChannels ∧
    ∃ ichan, C.protoState = .rtspConn ichan ∧ (ichan chan.toNat).ep ≠ none

/-- The channel `chan` of the connection is out of range, or the connection has channels and what
this one holds is there. -/
def Server.ChannelSafe (s : Server) (C : Conn) (chan : UInt8) : Prop :=
  maxInterleaveChannels ≤ chan.toNat ∨ ∃ ichan, C.protoState = .rtspConn ichan ∧
    ∀ e, (ichan chan.toNat).ep = some e → s.endpoints e ≠ none

/-- A read with a frame for the channel `chan` leaves the connection as it was, but for what is
received; and if the channel holds no endpoint nothing else is done. -/
def FrameTaken (s : Server) (c : ℕ) (C : Conn) (chan : UInt8) :
    Except Fault (Server × List Event) → Prop
  | .error _ => False
  | .ok (s', _) => ∃ proto n buf, ∃ C' : Conn,
      C' = { C with proto := proto, base64Count := n, reqBuf := buf } ∧
      s'.conns c = some C' ∧ (¬ C.HasChannel chan → s' = s.setConn c C')

section Frame

variable {mc : Bool} {c : ℕ} {chan : UInt8} {s : Server} {C : Conn} {d : Bytes}

/-- `interleave_recv` of any packet. -/
theorem wp_interleaveRecv_safe (hs : Unrecorded s) (hC : s.conns c = some C) (now : TimeVal) :
    wp (interleaveRecv c chan d now) (fun _ s' => s.ChannelSafe C chan ∧
        s'.conns = s.conns ∧ (¬ C.HasChannel chan → s' = s))
      (fun _ => ¬ s.ChannelSafe C chan) s := by
  unfold interleaveRecv
  rw [wp_ite]
  refine ⟨fun hchan => ⟨.inl hchan, rfl, fun _ => rfl⟩, fun hchan => ?_⟩
  rw [wp_bind, wp_getConn]
  refine ⟨fun C' hC' => ?_, fun hnone => absurd (hC.symm.trans hnone) (by simp)⟩
  obtain rfl : C = C' := Option.some.inj (hC.symm.trans hC')
  -- with `proto_state` of another type the channel cannot be looked up
  have hunsafe : (∀ ichan, C.protoState ≠ .rtspConn ichan) → ¬ s.ChannelSafe C chan := by
    rintro hno (hsafe | ⟨ichan, hp, -⟩)
    · exact hchan hsafe
    · exact hno ichan hp
  cases hp : C.protoState with
  | null => exact hunsafe fun ichan h => by rw [hp] at h; cases h
  | stream p => exact hunsafe fun ichan h => by rw [hp] at h; cases h
  | rtspConn ichan =>
    dsimp only
    cases he : (ichan chan.toNat).ep with
    | none =>
      refine ⟨.inr ⟨ichan, hp, fun e he' => ?_⟩, rfl, fun _ => rfl⟩
      rw [he] at he'
      cases he'
    | some e =>
      have hhas : C.HasChannel chan := ⟨not_le.1 hchan, ichan, hp, by simp [he]⟩
      have hsafe : ∀ E, s.endpoints e = some E → s.ChannelSafe C chan := by
        intro E hE
        refine .inr ⟨ichan, hp, fun e' he' => ?_⟩
        obtain rfl := Option.some.inj (he.symm.trans he')
        simp [hE]
      have hfreed : s.endpoints e = none → ¬ s.ChannelSafe C chan := by
        rintro hnone (hsafe | ⟨ichan', hp', hsafe⟩)
        · exact hchan hsafe
        · rw [hp] at hp'
          cases hp'
          exact hsafe e he hnone
      dsimp only
      rw [wp_ite, wp_modifyEndpoint, wp_bind, wp_getEndpoint]
      refine ⟨fun _ => ⟨fun E hE => ?_, hfreed⟩, fun _ => ⟨fun E hE => ?_, hfreed⟩⟩
      · exact ⟨hsafe E hE, rfl, fun hno => absurd hhas hno⟩
      · rw [if_neg (by simp [hs e E hE])]
        exact ⟨hsafe E hE, rfl, fun _ => rfl⟩

/-- What is left to do once the protocol is known goes by the protocol and the buffer. -/
theorem settle_snd (proto : ConnProto) (buf : Bytes) :
    (settle proto buf).2 = clientAction (settle proto buf).1 buf := by
  unfold settle
  split <;> simp_all

/-- A complete frame. -/
theorem wp_settledRound_packet {env : ReadEnv} {p : Bytes} (hs : Unrecorded s)
    (hC : s.conns c = some C) :
    wp (settledRound mc c env (.packet chan p)) (fun _ s' => s.ChannelSafe C chan ∧
        s'.conns c = some { C with reqBuf := [] } ∧
        (¬ C.HasChannel chan → s' = s.setConn c { C with reqBuf := [] }))
      (fun _ => ¬ s.ChannelSafe C chan) s := by
  unfold settledRound
  rw [wp_bind]
  refine (wp_interleaveRecv_safe hs hC env.now).mono (fun _ s₁ h => ?_) fun _ h => h
  obtain ⟨hsafe, hconns, hsame⟩ := h
  have hC₁ : s₁.conns c = some C := by rw [hconns, hC]
  rw [wp_modifyConn]
  refine ⟨fun C' hC' => ?_, fun hnone => absurd (hC₁.symm.trans hnone) (by simp)⟩
  obtain rfl : C = C' := Option.some.inj (hC₁.symm.trans hC')
  refine ⟨hsafe, Function.update_self .., fun hno => ?_⟩
  rw [hsame hno]
  rfl

/-- A read changes the connection in what is received only. -/
theorem Conn.settled_eq (C : Conn) (d : Bytes) : ∃ proto n buf,
    C.settled d = { C with proto := proto, base64Count := n, reqBuf := buf } := by
  obtain ⟨buf, n, hreceive, -⟩ := C.receive_eq d
  unfold Conn.settled
  rw [hreceive]
  exact ⟨_, n, buf, rfl⟩

/-- **Frames.** Whatever a frame holds, the connection stays usable exactly when the frame leaves
room in the request buffer, and its channel can be looked up once it is complete.

**Proof sketch.** A read is put into the buffers. If the request buffer is full the connection is
dropped. If the frame, or a group of base64, is not complete, the read is over and nothing is looked
up. Otherwise the frame goes to its channel, which faults exactly where the channel cannot be looked
up, and changes at most the time of the endpoint. -/
theorem frame_taken_iff {blocks : List (List ConfigLine)} {env : ReadEnv} {hi lo : UInt8}
    {rest : Bytes} (h : (liveMachine mc blocks).Reachable Machine.anyStep s)
    (hidle : s.delivery = none) (hC : s.conns c = some C)
    (hproto : (settle (C.receive d).proto (C.receive d).reqBuf).1 = .rtsp)
    (hbuf : (C.receive d).reqBuf = 36 :: chan :: hi :: lo :: rest) :
    FrameTaken s c C chan (serverStep mc s (.read c d env)) ↔
      rest.length + 4 ≠ reqBufSize - 1 ∧
        ((C.receive d).base64Count ≤ 0 → get16 hi lo ≤ rest.length → s.ChannelSafe C chan) := by
  obtain ⟨proto, n, buf, hsettled⟩ := C.settled_eq d
  have hlen : (C.receive d).reqBuf.length = rest.length + 4 := by simp [hbuf]
  have hact : wp (serverAct mc (.read c d env)) (fun _ s' => ∀ os,
      FrameTaken s c C chan (.ok (s', os)) ↔ rest.length + 4 ≠ reqBufSize - 1 ∧
        ((C.receive d).base64Count ≤ 0 → get16 hi lo ≤ rest.length → s.ChannelSafe C chan))
      (fun _ => ¬ (rest.length + 4 ≠ reqBufSize - 1 ∧
        ((C.receive d).base64Count ≤ 0 → get16 hi lo ≤ rest.length → s.ChannelSafe C chan))) s := by
    unfold serverAct
    rw [wp_bind, wp_get, wp_ite]
    refine ⟨fun _ => ?_, fun hno => absurd (by simp [Server.hasConn, hC]) hno⟩
    rw [wp_readChunk hC, hlen]
    split_ifs with hfull h64
    · -- the buffer is full, and the connection is dropped
      refine (wp_dropConn_gone mc c _).mono (fun _ s' hgone os => ?_) fun _ _ hroom => hroom.1 hfull
      refine iff_of_false (fun htaken => ?_) fun hroom => hroom.1 hfull
      obtain ⟨_, _, _, C', _, hC', _⟩ := htaken
      rw [hgone] at hC'
      cases hC'
    · -- the last characters of a tunnelled frame are missing
      obtain ⟨buf', n', hreceive, -⟩ := C.receive_eq d
      refine fun os => iff_of_true ?_ ⟨hfull, fun hle => absurd hle (by omega)⟩
      exact ⟨C.proto, n', buf', _, hreceive, s.setConn_conns_self c _, fun _ => rfl⟩
    have h64 : (C.receive d).base64Count ≤ 0 := by omega
    have haction : (settle (C.receive d).proto (C.receive d).reqBuf).2 =
        if rest.length < get16 hi lo then .wait else .packet chan (rest.take (get16 hi lo)) := by
      rw [settle_snd, hproto, hbuf]
      simp [clientAction, packetAction]
    rw [haction]
    split_ifs with hwait
    · refine fun os => iff_of_true ?_ ⟨hfull, fun _ hle => absurd hwait (by omega)⟩
      exact ⟨proto, n, buf, _, hsettled, s.setConn_conns_self c _, fun _ => rfl⟩
    · have hs : Unrecorded (s.setConn c (C.settled d)) := fun e E hE => unrecorded_run h e E hE
      have hsafe : (s.setConn c (C.settled d)).ChannelSafe (C.settled d) chan ↔
          s.ChannelSafe C chan := by
        rw [hsettled]
        exact Iff.rfl
      have hhas : (C.settled d).HasChannel chan ↔ C.HasChannel chan := by
        rw [hsettled]
        exact Iff.rfl
      refine (wp_settledRound_packet hs (s.setConn_conns_self c _)).mono (fun _ s' h os => ?_)
        fun _ hnot hroom => hnot (hsafe.2 (hroom.2 h64 (by omega)))
      obtain ⟨hok, hconn, hsame⟩ := h
      refine iff_of_true ?_ ⟨hfull, fun _ _ => hsafe.1 hok⟩
      rw [hsettled] at hconn
      refine ⟨proto, n, [], _, rfl, hconn, fun hno => ?_⟩
      rw [hsame fun h => hno (hhas.1 h), Server.setConn_setConn, hsettled]
  unfold wp at hact
  unfold serverStep
  rw [if_pos (by simp [Server.enabled, hidle])]
  rcases hrun : (serverAct mc (.read c d env)).run s with err | ⟨u, s'⟩ <;> rw [hrun] at hact
  · exact iff_of_false (fun h => h) hact
  · exact hact _

/-- In unicast mode the channels of an RTSP connection hold nothing that is gone. -/
theorem channelSafe_unicast {blocks : List (List ConfigLine)}
    (h : (liveMachine false blocks).Reachable Machine.anyStep s) (hC : s.conns c = some C) :
    s.ChannelSafe C chan ↔ maxInterleaveChannels ≤ chan.toNat ∨ C.protoState.IsRtsp := by
  refine or_congr Iff.rfl ⟨fun ⟨ichan, hp, _⟩ => by rw [hp]; trivial, fun hr => ?_⟩
  cases hp : C.protoState with
  | null | stream p =>
    rw [hp] at hr
    exact hr.elim
  | rtspConn ichan =>
    refine ⟨ichan, rfl, fun e he => ?_⟩
    obtain ⟨E, -, -, hE, -⟩ := (channels_run h).1 c C ichan chan.toNat e hC hp he
    simp [hE]

end Frame

/-! ## Two connections -/

/-- A frame on the channel `1`, which carries nothing. -/
def frameText : Bytes := [36, 1, 0, 0]

def optionsAlone : Bytes := str "OPTIONS * RTSP/1.0\r\n\r\n"

/-- Behind a SETUP over the connection the frame is taken. -/
theorem frame_taken_setup : ∃ s C, (liveMachine false openBlocks).Run Machine.anyStep
    [.accept 3, .read 0 setupTcpText (askEnv setupTcp)] [] s ∧ s.conns 0 = some C ∧
    FrameTaken s 0 C 1 (serverStep false s (.read 0 frameText (askEnv .unknown))) := by
  obtain ⟨s, hrun, hs⟩ := Machine.Run.of_exec (M := liveMachine false openBlocks)
    (G := Machine.anyStep) (fun s : Server => (s.delivery.isNone, (s.conns 0).any fun C =>
      C.proto = .rtsp && C.base64Count = -1 && C.reqBuf.isEmpty &&
        C.protoState matches .rtspConn _)) openServer_init
    (show ((liveMachine false openBlocks).exec _ (configured openBlocks)
      [.accept 3, .read 0 setupTcpText (askEnv setupTcp)]).map _ =
      some ([], true, true) by decide +kernel)
  simp only [Prod.mk.injEq, Option.any_eq_true, Option.isNone_iff_eq_none, Bool.and_eq_true,
    decide_eq_true_eq, List.isEmpty_iff] at hs
  obtain ⟨hidle, C, hC, ⟨⟨hproto, h64⟩, hbuf⟩, hstate⟩ := hs
  have hreceive : (C.receive frameText).reqBuf = frameText := by
    simp [Conn.receive, h64, hbuf]
  have hchannels : C.protoState.IsRtsp := by
    cases hp : C.protoState with
    | rtspConn ichan => trivial
    | null | stream p =>
      rw [hp] at hstate
      cases hstate
  refine ⟨s, C, hrun, hC, (frame_taken_iff ⟨_, _, hrun⟩ hidle hC ?_ hreceive).2
    ⟨by decide, fun _ _ => (channelSafe_unicast ⟨_, _, hrun⟩ hC).2 (.inr hchannels)⟩⟩
  rw [hreceive, settle_proto] <;> simp [Conn.receive, h64, hproto]

/-- Behind an OPTIONS it is not. -/
theorem frame_without_setup : ∃ s C, (liveMachine false openBlocks).Run Machine.anyStep
    [.accept 3, .read 0 optionsAlone (askEnv .options)] [] s ∧ s.conns 0 = some C ∧
    C.proto = .rtsp ∧
    ¬ FrameTaken s 0 C 1 (serverStep false s (.read 0 frameText (askEnv .unknown))) := by
  obtain ⟨s, hrun, hs⟩ := Machine.Run.of_exec (M := liveMachine false openBlocks)
    (G := Machine.anyStep) (fun s : Server => ((s.conns 0).map fun C => C.proto,
      faultOf (serverStep false s (.read 0 frameText (askEnv .unknown))))) openServer_init
    (show ((liveMachine false openBlocks).exec _ (configured openBlocks)
      [.accept 3, .read 0 optionsAlone (askEnv .options)]).map _ =
      some ([], some .rtsp, some Fault.nullDeref) by decide +kernel)
  obtain ⟨hproto, hfault⟩ := Prod.mk.inj hs
  obtain ⟨C, hC, hproto⟩ := Option.map_eq_some_iff.1 hproto
  refine ⟨s, C, hrun, hC, hproto, fun htaken => ?_⟩
  rw [of_faultOf hfault] at htaken
  exact htaken

end Spook
