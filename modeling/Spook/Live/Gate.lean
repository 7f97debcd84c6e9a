import Spook.Live.Connected
import Spook.Live.Offered
import Spook.Live.Packets

set_option relaxedAutoImplicit false
set_option autoImplicit false

/-!
# The gate in front of the frames

A client that joins in the middle, or that has lost a key frame, gets no frame until the next key
frame. `next_live_frame` closes the gate of an endpoint when `send` fails for a key frame. A full
send buffer of an interleaved connection is no failure, and leaves the gate open.

## Main definitions

* `Spook.latestKey`, `Arrived` — the key frame that was offered last to an endpoint.
* `Spook.Gated` — no frame is sent behind a key frame that did not arrive.
* `Spook.KeyFramesFit` — the key frames fit into the send buffers.
* `Spook.Hushed` — what does not touch the gates.
* `Spook.Gates` — the endpoints with an open gate have got the latest key frame.

## Main results

* `Spook.wp_serverAct_offers` — the one thing that does.
* `Spook.gated_run` — the gates in every run whose key frames fit.
-/

namespace Spook

/-! ## Key frames -/

/-- The packets of a key frame for the endpoint `e`, and what the transport did with them. -/
def Event.keyOf (e : ℕ) : Event → Option (ℕ × List Bool)
  | .keyFrame e' packets outcomes => if e' = e then some (packets, outcomes) else none
  | .deltaFrame _ | .skipped _ | .stopped _ | .shared _ | .tunnelGet _ _ | .tunnelPost _ _ _ => none

/-- The endpoint of a frame that is passed to `send`, or of a key frame that `g_bStopSend` holds
back. -/
def Event.offeredTo : Event → Option ℕ
  | .keyFrame e _ _ | .deltaFrame e => some e
  | .skipped _ | .stopped _ | .shared _ | .tunnelGet _ _ | .tunnelPost _ _ _ => none

/-- The key frame that was offered last to the endpoint `e`. -/
def latestKey (e : ℕ) (os : List Event) : Option (ℕ × List Bool) :=
  (os.filterMap (Event.keyOf e)).getLast?

/-- All packets of that key frame were accepted. -/
def Arrived (e : ℕ) (os : List Event) : Prop :=
  ∃ packets, latestKey e os = some (packets, List.replicate packets true)

/-- A frame that is no key frame is sent only if the latest key frame has arrived. -/
def Gated (os : List Event) : Prop :=
  ∀ os₁ e, os₁ ++ [.deltaFrame e] <+: os → Arrived e os₁

section Keys

variable {e : ℕ} {os : List Event} {ev : Event}

/-- A tunnel is no frame. -/
theorem Event.IsTunnel.offeredTo_eq (h : ev.IsTunnel) : ev.offeredTo = none := by
  cases ev with
  | keyFrame | deltaFrame => exact h.elim
  | skipped | stopped | shared | tunnelGet | tunnelPost => rfl

/-- What offers no frame offers no key frame. -/
theorem Event.keyOf_eq_none (h : ev.offeredTo = none) (e : ℕ) : ev.keyOf e = none := by
  cases ev with
  | keyFrame | deltaFrame => cases h
  | skipped | stopped | shared | tunnelGet | tunnelPost => rfl

/-- A key frame whose packets were all sent has arrived. -/
theorem arrived_append_key (packets : ℕ) :
    Arrived e (os ++ [.keyFrame e packets (List.replicate packets true)]) := by
  refine ⟨packets, ?_⟩
  simp [latestKey, Event.keyOf]

/-- What has arrived stays so until the next key frame. -/
theorem Arrived.append (h : Arrived e os) (hev : ev.keyOf e = none) : Arrived e (os ++ [ev]) := by
  obtain ⟨packets, h⟩ := h
  refine ⟨packets, ?_⟩
  unfold latestKey at h ⊢
  simp [hev, h]

/-- One event more, which is no delta frame behind a lost key frame. -/
theorem Gated.append (h : Gated os) (hev : ∀ e, ev = .deltaFrame e → Arrived e os) :
    Gated (os ++ [ev]) := by
  intro os₁ e hprefix
  rcases List.prefix_concat_iff.1 hprefix with heq | hprefix
  · obtain ⟨rfl, hlast⟩ := List.append_inj' heq rfl
    exact hev e (List.singleton_inj.1 hlast).symm
  · exact h os₁ e hprefix

/-- Nothing was sent. -/
theorem gated_nil : Gated [] := by
  intro os₁ e hprefix
  have hlen := hprefix.length_le
  simp at hlen

end Keys

/-! ## Room -/

/-- One behind the other the packets, with their headers, find room in the send buffer. -/
def Conn.HasRoom : Conn → List ℕ → Prop
  | _, [] => True
  | C, len :: packets => 12 + len + 4 ≤ C.availSendBuf ∧
      HasRoom ((C.sendData 4).1.sendData (12 + len)).1 packets

instance Conn.decidableHasRoom : (C : Conn) → (packets : List ℕ) → Decidable (C.HasRoom packets)
  | _, [] => .isTrue trivial
  | C, len :: packets =>
    haveI := decidableHasRoom ((C.sendData 4).1.sendData (12 + len)).1 packets
    inferInstanceAs (Decidable (12 + len + 4 ≤ C.availSendBuf ∧
      HasRoom ((C.sendData 4).1.sendData (12 + len)).1 packets))

/-- The packets fit into the send buffer of an interleaved endpoint. -/
def Server.HasRoom (s : Server) (E : Endpoint) (packets : List ℕ) : Prop :=
  match E.trans with
  | .inter c _ _ => ∀ C ∈ s.conns c, C.HasRoom packets
  | .udp | .mc | .none => True

instance (s : Server) (E : Endpoint) (packets : List ℕ) : Decidable (s.HasRoom E packets) := by
  unfold Server.HasRoom
  split <;> infer_instance

/-- A key frame that is sent to an interleaved endpoint fits into its send buffer, unless `rtcp_send`
seems to fail behind its first packet. -/
def KeyFramesFit (s : Server) : ServerAct → Prop
  | .deliver w => ∀ x ∈ s.nextSend, ∀ E ∈ x.2.2.endpoints x.2.1,
      w.stopSend = false → x.1.key = true → (E.forceRtcp = true → 0 ≤ w.rtcpRet) →
        x.2.2.HasRoom E (x.1.packets E.maxDataSize)
  | _ => True

instance (s : Server) (a : ServerAct) : Decidable (KeyFramesFit s a) := by
  unfold KeyFramesFit
  cases a <;> infer_instance

/-- **A frame that is sent without a failure** to a connected endpoint with room is accepted. -/
theorem FrameSent.accepted {mc : Bool} {e k : ℕ} {w : Sending} {packets : List ℕ} {s s' : Server}
    {E : Endpoint} {r : ℤ × List Bool} (h : FrameSent mc e w k packets s E r s')
    (hE : E.Connected) (hroom : ∀ c a b, E.trans = .inter c a b →
      ∃ C, s.conns c = some C ∧ C.HasRoom packets) (hret : r.1 = 0) :
    r.2 = List.replicate packets.length true := by
  induction h with
  | done => rfl
  | failed => exact absurd hret (by simp)
  | @next _ len packets s _ _ E accepted _ _ hpacket _ ih =>
    cases hpacket with
    | sent hok _ =>
      have htrans : (E.sent len).trans = E.trans := rfl
      dsimp only at ih ⊢
      rw [List.length_cons, List.replicate_succ]
      rcases hE with hudp | ⟨c, a, b, hinter⟩
      · rw [ih (.inl hudp) (fun c a b h => ?_) hret]
        · rw [hudp]
          rfl
        · rw [htrans, hudp] at h
          cases h
      · obtain ⟨C, hC, hfit, hrest⟩ := hroom c a b hinter
        have hsent : s.transmit len E.trans =
            (s.setConn c ((C.sendData 4).1.sendData (12 + len)).1, true) := by
          unfold Server.transmit
          rw [hinter]
          dsimp only
          unfold Server.interleave
          rw [hC]
          dsimp only
          rw [if_neg (not_lt.2 hfit)]
        rw [hsent] at ih ⊢
        rw [ih (.inr ⟨c, a, b, hinter⟩) (fun c' a' b' h => ?_) hret]
        rw [htrans, hinter] at h
        cases h
        exact ⟨_, s.setConn_conns_self c _, hrest⟩

/-- A frame with packets is sent without a failure only if `rtcp_send` does not seem to fail. -/
theorem FrameSent.reported {mc : Bool} {e k : ℕ} {w : Sending} {packets : List ℕ} {s s' : Server}
    {E : Endpoint} {r : ℤ × List Bool} (h : FrameSent mc e w k packets s E r s')
    (hret : r.1 = 0) : packets = [] ∨ (E.forceRtcp = true → 0 ≤ w.rtcpRet) := by
  cases h with
  | done => exact .inl rfl
  | failed => exact absurd hret (by simp)
  | next hpacket _ =>
    cases hpacket with
    | sent _ hforce => exact .inr fun h => (hforce h).2

/-! ## What leaves the gates alone -/

/-- No frame is offered, and no gate opens. -/
structure Hushed (s s' : Server) : Prop where
  log : ∃ l, s'.log = s.log ++ l ∧ ∀ ev ∈ l, ev.offeredTo = none
  gate : ∀ e E', s'.endpoints e = some E' → E'.bLostKeyFrame = false →
    ∃ E, s.endpoints e = some E ∧ E.bLostKeyFrame = false

section Hushed

variable {mc : Bool} {s s' s'' : Server}

/-- Nothing was sent. -/
theorem Hushed.refl (s : Server) : Hushed s s :=
  ⟨⟨[], (List.append_nil _).symm, by simp⟩, fun _ E hE hopen => ⟨E, hE, hopen⟩⟩

/-- Nothing was sent, twice. -/
theorem Hushed.trans (h : Hushed s s') (h' : Hushed s' s'') : Hushed s s'' := by
  obtain ⟨l, hl, hquiet⟩ := h.log
  obtain ⟨l', hl', hquiet'⟩ := h'.log
  refine ⟨⟨l ++ l', by rw [hl', hl, List.append_assoc], fun ev hev => ?_⟩, fun e E'' hE'' hopen => ?_⟩
  · rcases List.mem_append.1 hev with hev | hev
    · exact hquiet ev hev
    · exact hquiet' ev hev
  · obtain ⟨E', hE', hopen⟩ := h'.gate e E'' hE'' hopen
    exact h.gate e E' hE' hopen

/-- What is done besides sends no frame. -/
theorem Alike.hushed (h : Alike s s') : Hushed s s' := by
  obtain ⟨l, hlog, htunnel⟩ := h.log
  refine ⟨⟨l, hlog, fun ev hev => (htunnel ev hev).offeredTo_eq⟩, fun _ E' hE' hopen => ?_⟩
  exact ⟨E', h.endpoints ▸ hE', hopen⟩

/-- What is recorded offers no frame. -/
theorem hushed_log (s : Server) (l : List Event) (hl : ∀ ev ∈ l, ev.offeredTo = none) :
    Hushed s { s with log := s.log ++ l } :=
  ⟨⟨l, rfl, hl⟩, fun _ E hE hopen => ⟨E, hE, hopen⟩⟩

/-- A record of what was passed over sends no frame. -/
theorem hushed_skipping (s : Server) (es : List ℕ) : Hushed s (s.skipping es) := by
  refine hushed_log s _ fun ev hev => ?_
  obtain ⟨e, -, rfl⟩ := List.mem_map.1 hev
  rfl

/-- **Every change** but those that the delivery of a frame makes leaves the gates alone. -/
theorem Change.hushed {k : Kind} (h : Change mc k s s') (hlog : k ≠ .logged)
    (hflag : ∀ e, k ≠ .flagged e) : Hushed s s' := by
  have hupdate : ∀ {e : ℕ} {o : Option Endpoint}, s'.log = s.log →
      s'.endpoints = Function.update s.endpoints e o →
      (∀ E', o = some E' → E'.bLostKeyFrame = false →
        ∃ E, s.endpoints e = some E ∧ E.bLostKeyFrame = false) → Hushed s s' := by
    intro _ o heq hendpoints ho
    refine ⟨⟨[], by rw [heq, List.append_nil], by simp⟩, fun e' E' hE' hopen => ?_⟩
    rw [hendpoints, Function.update_apply] at hE'
    split_ifs at hE' with he
    · exact he ▸ ho E' hE' hopen
    · exact ⟨E', hE', hopen⟩
  have hsame : ∀ {e : ℕ} {E E' : Endpoint}, s.endpoints e = some E →
      E'.bLostKeyFrame = E.bLostKeyFrame → ∀ E'', some E' = some E'' → E''.bLostKeyFrame = false →
        ∃ E, s.endpoints e = some E ∧ E.bLostKeyFrame = false := by
    intro _ E E' hE heq E'' heq' hopen
    obtain rfl := Option.some.inj heq'
    exact ⟨E, hE, heq ▸ hopen⟩
  cases h with
  | logged => exact absurd rfl hlog
  | flagged => exact absurd rfl (hflag _)
  | added _ _ _ _ _ _ _ hfresh | newShared _ _ _ _ _ _ _ hfresh =>
    refine hupdate rfl rfl ?_
    rintro _ ⟨⟩ hopen
    rw [hfresh.bLostKeyFrame] at hopen
    cases hopen
  | shared _ _ _ _ _ hE | interleaved hE | udp hE => exact hupdate rfl rfl (hsame hE rfl)
  | counted hE hcount => exact hupdate rfl rfl (hsame hE hcount.bLostKeyFrame)
  | noted hE hnote => exact hupdate rfl rfl (hsame hE hnote.bLostKeyFrame)
  | removed | removedLast | leftLast =>
    refine hupdate rfl rfl ?_
    rintro _ ⟨⟩
  | opened | registered | played | woken | left | closed | readied | delivering | accepted
  | dropped => exact ⟨⟨[], (List.append_nil _).symm, by simp⟩, fun _ E hE hopen => ⟨E, hE, hopen⟩⟩

/-- Changes that neither record a frame nor set `bLostKeyFrame`. -/
theorem Steps.hushed {A : Set Kind} (h : Steps mc A s s') (hlog : Kind.logged ∉ A)
    (hflag : ∀ e, Kind.flagged e ∉ A) : Hushed s s' :=
  h.keeps (.refl s) (fun _ _ h ha => h.trans ha.hushed) fun _ hk _ _ h hc =>
    h.trans (hc.hushed (fun heq => hlog (heq ▸ hk)) fun e heq => hflag e (heq ▸ hk))

end Hushed

/-! ## The delivery of a frame -/

section Offers

variable {mc : Bool} {s s' : Server} {d : Delivery} {e : ℕ} {w : Sending}

/-- The loop over the slots stops at an endpoint of a session that plays, if its gate is open or the
frame is a key frame. -/
theorem wp_selectEndpoint_open (entry : LiveEntry) (S : Session) (js : List ℕ) :
    wp (selectEndpoint d entry S js) (fun o _ => ∀ e, o = some e →
      S.playing = true ∧ (∃ j, S.ep j = some e) ∧
        ∃ E, s.endpoints e = some E ∧ (E.bLostKeyFrame = false ∨ d.key = true))
      (fun _ => True) s := by
  induction js generalizing s with
  | nil => exact fun e h => by cases h
  | cons j js ih =>
    unfold selectEndpoint
    rw [wp_ite]
    refine ⟨fun _ => ?_, fun _ => ih⟩
    cases he : S.ep j with
    | none => exact fun e h => by cases h
    | some e =>
      dsimp only
      rw [wp_ite]
      refine ⟨fun hplay => ?_, fun _ => fun e h => by cases h⟩
      rw [wp_bind, wp_getEndpoint]
      refine ⟨fun E hE => ?_, fun _ => trivial⟩
      rw [wp_ite, wp_bind, wp_record]
      refine ⟨fun _ => ih, fun hopen e' h => ?_⟩
      obtain rfl := Option.some.inj h
      refine ⟨hplay, ⟨j, he⟩, E, hE, ?_⟩
      cases hlost : E.bLostKeyFrame with
      | false => exact .inl rfl
      | true => exact .inr (by simpa [hlost] using hopen)

/-- What a step that offers a frame does. -/
structure StepOffers (mc : Bool) (s : Server) (w : Sending) (d : Delivery) (e : ℕ) (s₁ : Server)
    (E : Endpoint) (s' : Server) : Prop where
  sendsTo : s.SendsTo d e s₁
  playing : ∃ p S j, s.sessions p = some S ∧ S.playing = true ∧ S.ep j = some e
  endpoint : s₁.endpoints e = some E
  gate : E.bLostKeyFrame = false ∨ d.key = true
  offered : FrameOffered mc d e w s₁ E s'

/-- The packets of a frame record no frame: it is recorded behind them. -/
theorem FrameSent.hushed {k : ℕ} {packets : List ℕ} {r : ℤ × List Bool} {E : Endpoint}
    (h : FrameSent mc e w k packets s E r s') (hE : s.endpoints e = some E) : Hushed s s' :=
  (h.sends hE).steps.hushed (by simp) (by simp)

/-- **A piece of a delivery** offers a frame, or leaves the gates alone. -/
theorem wp_continueFrame_offers (w : Sending) :
    wp (continueFrame mc w) (fun _ s' => Hushed s s' ∨
      ∃ d e s₁ E, StepOffers mc s w d e s₁ E s') (fun _ => True) s := by
  have hdeliver : ∀ (s : Server) (o : Option Delivery), Hushed s (s.deliver o) := by
    intro s o
    have hchange : Change mc .delivering s (s.deliver o) := .delivering o
    exact hchange.hushed (by simp) (by simp)
  refine (wp_continueFrame_sends w).imp fun _ s' h => ?_
  rcases h with ⟨-, -, o, es, rfl⟩ | ⟨d, e, s₁, E, hto, hE, hoffered⟩ |
    ⟨d, e, E, r, s₁, -, hE, hsent, rfl⟩
  · exact .inl ((hdeliver s o).trans (hushed_skipping _ es))
  · have hstate := hto.state
    refine .inr ⟨d, e, s₁, E, hto, ?_, hE, ?_, hoffered⟩
    all_goals
      obtain ⟨-, p, rest, n, S, -, -, hS, hrun⟩ := hto
      have hopen := (wp_selectEndpoint_open (s.entries n) S (List.range maxTracks)).ok hrun
      obtain ⟨hplay, ⟨j, he⟩, E', hE', hgate⟩ := hopen e rfl
    · exact ⟨p, S, j, hS, hplay, he⟩
    · obtain ⟨p', rest', es, -, rfl⟩ := hstate
      cases hE.symm.trans hE'
      exact hgate
  · have hlogged := hushed_log s [.shared e] (by simp [Event.offeredTo])
    exact .inl ((hlogged.trans (hsent.hushed hE)).trans (hdeliver s₁ none))

/-- **An event** leaves the gates alone, but for the piece of a delivery that offers a frame. -/
theorem wp_serverAct_offers (a : ServerAct) :
    wp (serverAct mc a) (fun _ s' => Hushed s s' ∨ ∃ w d e s₁ E, a = .deliver w ∧
      StepOffers mc s w d e s₁ E s') (fun _ => True) s := by
  by_cases ha : ∃ w, a = .deliver w
  · obtain ⟨w, rfl⟩ := ha
    refine (wp_continueFrame_offers w).imp fun _ s' h => h.imp_right ?_
    rintro ⟨d, e, s₁, E, h⟩
    exact ⟨w, d, e, s₁, E, rfl, h⟩
  have hsending : ∀ {e : ℕ} {o : Option ℕ} {s s' : Server}, Sends mc e o s s' → Hushed s s' :=
    fun h => h.steps.hushed (by simp) (by simp)
  suffices h : wp (serverAct mc a) (fun _ s' => Hushed s s') (fun _ => True) s from
    h.imp fun _ _ h => .inl h
  refine keeps_liveAct (.refl s) (fun _ _ h h' => h.trans h'.hushed)
    (fun _ _ _ h hc => h.trans (hc.hushed (by simp) (by simp)))
    (fun _ _ h hc => h.trans (hc.hushed (by simp) (by simp))) (fun s₁ c h => ?_) ?_ ?_ ?_ ?_ ?_
  · refine (changes_dropConn c).imp fun _ _ hsteps => h.trans (hsteps.hushed ?_ ?_)
    · exact id
    · exact fun _ => id
  · intro c d env C q code s' _ hC _ hhandled
    refine (alike_settled hC d).hushed.trans (hhandled.changes.hushed ?_ ?_)
    · exact id
    · exact fun _ => id
  · intro t key packets ok _
    have hone : ∀ {k : Kind} {s s' : Server}, Change mc k s s' → k ≠ .logged →
        (∀ e, k ≠ .flagged e) → Hushed s s' := fun h => h.hushed
    refine (wp_deliverToTrack t key packets ok).imp fun _ s' h => ?_
    rcases h with rfl | ⟨-, -, s₁, ⟨-, rfl⟩ | ⟨hready, rfl⟩, rfl⟩
    · exact .refl s'
    · exact hone (.delivering _) (by simp) (by simp)
    · exact (hone (.readied t hready) (by simp) (by simp)).trans
        (hone (.delivering _) (by simp) (by simp))
  · exact fun w hw => absurd ⟨w, hw⟩ ha
  · intro e now ret E _ hE _
    exact (wp_rtcpSend now ret hE).seq fun _ s' h => hsending (h.sends hE)
  · intro e now E _ _
    exact (wp_teardownEndpoint ..).imp fun _ s' h => hsending h.sends

end Offers

/-! ## The gates in a run -/

/-- No frame was sent behind a key frame that did not arrive, and the endpoints with an open gate
have got the latest one. -/
structure Gates (os : List Event) (s : Server) : Prop where
  gated : Gated os
  arrived : ∀ e E, s.endpoints e = some E → E.bLostKeyFrame = false → Arrived e os

/-- A session that plays has the endpoint `e`. -/
def Server.PlaysOn (s : Server) (e : ℕ) : Prop :=
  ∃ p S j, s.sessions p = some S ∧ S.playing = true ∧ S.ep j = some e

section Gates

variable {mc : Bool} {s s' : Server} {os l : List Event} {d : Delivery} {e : ℕ} {w : Sending}
  {E : Endpoint}

/-- What offers no frame keeps the gates. -/
theorem Gates.quiet (h : Gates os s) (hl : ∀ ev ∈ l, ev.offeredTo = none) : Gates (os ++ l) s := by
  induction l generalizing os with
  | nil => rwa [List.append_nil]
  | cons ev l ih =>
    have hev := hl ev List.mem_cons_self
    have hone : Gates (os ++ [ev]) s := by
      refine ⟨h.gated.append fun e heq => ?_, fun e E hE hopen => ?_⟩
      · rw [heq] at hev
        cases hev
      · exact (h.arrived e E hE hopen).append (Event.keyOf_eq_none hev e)
    rw [List.append_cons]
    exact ih hone fun ev' hev' => hl ev' (List.mem_cons_of_mem ev hev')

/-- What leaves the gates alone keeps them. -/
theorem Gates.hushed (h : Gates os s) (hs : Hushed s s') :
    ∃ l, s'.log = s.log ++ l ∧ Gates (os ++ l) s' := by
  obtain ⟨l, hlog, hquiet⟩ := hs.log
  obtain ⟨hgated, harrived⟩ := h.quiet hquiet
  refine ⟨l, hlog, hgated, fun e E' hE' hopen => ?_⟩
  obtain ⟨E, hE, hopen⟩ := hs.gate e E' hE' hopen
  exact harrived e E hE hopen

/-- A key frame is offered to `e`, and its gate is open behind it only if the frame has arrived. -/
theorem Gates.keyFrame (h : Gates os s) {packets : ℕ} {outcomes : List Bool} (E' : Endpoint)
    (hopen : E'.bLostKeyFrame = false → outcomes = List.replicate packets true) :
    Gates (os ++ [.keyFrame e packets outcomes]) (Server.onEndpoint
      { s with log := s.log ++ [.keyFrame e packets outcomes] } e E') := by
  refine ⟨h.gated.append fun e heq => (by cases heq), fun e' E₁ hE₁ hopen₁ => ?_⟩
  by_cases he : e' = e
  · subst he
    rw [Server.onEndpoint_self] at hE₁
    obtain rfl := Option.some.inj hE₁
    rw [hopen hopen₁]
    exact arrived_append_key packets
  · dsimp only [Server.onEndpoint] at hE₁
    rw [Function.update_of_ne he] at hE₁
    exact (h.arrived e' E₁ hE₁ hopen₁).append (if_neg (Ne.symm he))

/-- A frame is offered to one endpoint. -/
theorem FrameOffered.log (h : FrameOffered mc d e w s E s') (hE : s.endpoints e = some E) :
    ∃ l, s'.log = s.log ++ l ∧ ∀ ev ∈ l, ev.offeredTo = none ∨ ev.offeredTo = some e := by
  cases h with
  | heldKey | held => exact ⟨_, rfl, by simp [Event.offeredTo]⟩
  | @key ret outcomes s₁ E₁ _ _ hframe _ =>
    obtain ⟨l, hlog, hquiet⟩ := (hframe.hushed hE).log
    refine ⟨l ++ [.keyFrame e (d.packets E.maxDataSize).length outcomes], ?_, fun ev hev => ?_⟩
    · rw [← List.append_assoc, ← hlog]
      rfl
    · rcases List.mem_append.1 hev with hev | hev
      · exact .inl (hquiet ev hev)
      · rw [List.mem_singleton.1 hev]
        exact .inr rfl
  | delta _ _ hframe =>
    obtain ⟨l, hlog, hquiet⟩ := (hframe.hushed (by exact hE)).log
    refine ⟨.deltaFrame e :: l, by rw [List.append_cons]; exact hlog, fun ev hev => ?_⟩
    rcases List.mem_cons.1 hev with rfl | hev
    · exact .inr rfl
    · exact .inl (hquiet ev hev)

/-- **The offer of a frame** keeps the gates, if a key frame that is sent without a failure is
accepted. -/
theorem Gates.offered (h : Gates os s) (hE : s.endpoints e = some E)
    (hgate : E.bLostKeyFrame = false ∨ d.key = true) (hoffered : FrameOffered mc d e w s E s')
    (hsent : ∀ r s₁, w.stopSend = false → d.key = true →
      FrameSent mc e w 0 (d.packets E.maxDataSize) s E r s₁ → r.1 = 0 →
        r.2 = List.replicate (d.packets E.maxDataSize).length true) :
    ∃ l, s'.log = s.log ++ l ∧ Gates (os ++ l) s' := by
  cases hoffered with
  | heldKey =>
    exact ⟨_, rfl, h.keyFrame { E with bLostKeyFrame := true } fun hopen => (by cases hopen)⟩
  | held => exact h.hushed (hushed_log s [.stopped e] (by simp [Event.offeredTo]))
  | @key ret outcomes s₁ E₁ hstop hkey hframe hE₁ =>
    obtain ⟨l, hlog, hgates⟩ := h.hushed (hframe.hushed hE)
    refine ⟨l ++ [.keyFrame e (d.packets E.maxDataSize).length outcomes], ?_, ?_⟩
    · rw [← List.append_assoc, ← hlog]
      rfl
    · rw [← List.append_assoc]
      exact hgates.keyFrame { E₁ with bLostKeyFrame := ret ≠ 0 } fun hopen =>
        hsent _ _ hstop hkey hframe (by simpa using hopen)
  | delta _ hkey hframe =>
    have hopen : E.bLostKeyFrame = false := hgate.resolve_right (by simp [hkey])
    -- the frame is logged before it is sent
    have hlogged : Gates (os ++ [.deltaFrame e]) { s with log := s.log ++ [.deltaFrame e] } := by
      refine ⟨h.gated.append fun e' heq => ?_, fun e' E' hE' hopen' => ?_⟩
      · obtain rfl : e = e' := by injection heq
        exact h.arrived e E hE hopen
      · exact (h.arrived e' E' hE' hopen').append rfl
    obtain ⟨l, hlog, hgates⟩ := hlogged.hushed (hframe.hushed (by exact hE))
    refine ⟨.deltaFrame e :: l, ?_, ?_⟩ <;> rw [List.append_cons]
    · exact hlog
    · exact hgates

/-- What a step puts out. -/
theorem serverStep_cases {a : ServerAct} (hstep : serverStep mc s a = .ok (s', l)) :
    s' = s ∧ l = [] ∨ ((serverAct mc a).run s = .ok ((), s') ∧ l = s'.log.drop s.log.length) := by
  unfold serverStep at hstep
  split_ifs at hstep
  · rcases hr : (serverAct mc a).run s with e | ⟨u, s₁⟩ <;> rw [hr] at hstep <;> cases hstep
    exact .inr ⟨rfl, rfl⟩
  · cases hstep
    exact .inl ⟨rfl, rfl⟩

/-- **A frame is offered only while a session plays** that has the endpoint. -/
theorem playsOn_of_step {a : ServerAct} (hstep : serverStep mc s a = .ok (s', l)) :
    ∀ ev ∈ l, ev.offeredTo = some e → s.PlaysOn e := by
  intro ev hev hto
  rcases serverStep_cases hstep with ⟨rfl, rfl⟩ | ⟨hrun, rfl⟩
  · cases hev
  have hdrop : ∀ {l}, s'.log = s.log ++ l → ev ∈ l := by
    intro l heq
    rwa [heq, List.drop_left] at hev
  rcases (wp_serverAct_offers a).ok hrun with hhushed | ⟨w, d, e', s₁, E, rfl, hoffers⟩
  · obtain ⟨l, hlog, hquiet⟩ := hhushed.log
    rw [hquiet ev (hdrop hlog)] at hto
    cases hto
  · obtain ⟨l, hlog, hone⟩ := hoffers.offered.log hoffers.endpoint
    obtain ⟨p, rest, es, -, rfl⟩ := hoffers.sendsTo.state
    obtain ⟨l', hlog', hquiet⟩ := (hushed_skipping (s.deliver (some { d with rest := some rest })) es).log
    rw [hlog', List.append_assoc] at hlog
    have hev : ev.offeredTo = none ∨ ev.offeredTo = some e' := by
      rcases List.mem_append.1 (hdrop hlog) with hev | hev
      · exact .inl (hquiet ev hev)
      · exact hone ev hev
    rcases hev with hnone | heq
    · rw [hnone] at hto
      cases hto
    · obtain rfl := Option.some.inj (heq.symm.trans hto)
      exact hoffers.playing

end Gates

/-- **One step** keeps the gates, if the key frame that it may send fits. -/
theorem gates_step {blocks : List (List ConfigLine)} {G : Server → ServerAct → Prop} {s s' : Server}
    {a : ServerAct} {os o : List Event} (hreach : (liveMachine false blocks).Reachable G s)
    (h : Gates os s) (hfit : KeyFramesFit s a) (hstep : serverStep false s a = .ok (s', o)) :
    Gates (os ++ o) s' := by
  rcases serverStep_cases hstep with ⟨rfl, rfl⟩ | ⟨hrun, rfl⟩
  · rwa [List.append_nil]
  suffices hout : ∃ l, s'.log = s.log ++ l ∧ Gates (os ++ l) s' by
    obtain ⟨l, hlog, hgates⟩ := hout
    rwa [hlog, List.drop_left]
  rcases (wp_serverAct_offers a).ok hrun with hhushed | ⟨w, d, e, s₁, E, rfl, hoffers⟩
  · exact h.hushed hhushed
  have hfits := hfit _ (Server.sendsTo_iff.1 hoffers.sendsTo) E hoffers.endpoint
  obtain ⟨p, rest, es, -, rfl⟩ := hoffers.sendsTo.state
  have hE : s.endpoints e = some E := hoffers.endpoint
  have hdelivering : Gates os (s.deliver (some { d with rest := some rest })) := ⟨h.gated, h.arrived⟩
  -- the endpoints that are skipped before the offer
  obtain ⟨l, hlog, hskipped⟩ := hdelivering.hushed (hushed_skipping _ es)
  suffices hout : ∃ l', s'.log = s.log ++ l ++ l' ∧ Gates (os ++ l ++ l') s' by
    obtain ⟨l', hout⟩ := hout
    rw [List.append_assoc, List.append_assoc] at hout
    exact ⟨l ++ l', hout⟩
  rw [show s.log ++ l = _ from hlog.symm]
  refine hskipped.offered hoffers.endpoint hoffers.gate hoffers.offered
    fun r s₂ hstop hkey hsent hret => ?_
  rcases hsent.reported hret with hnil | hforce
  · rw [hnil] at hsent ⊢
    cases hsent
    rfl
  · refine hsent.accepted (connected_run hreach hE) (fun c a b hinter => ?_) hret
    obtain ⟨-, -, -, C, ichan, hC, -⟩ := (paired_run hreach).2.occupies e E c a b hE hinter
    refine ⟨C, hC, ?_⟩
    have hroom := hfits hstop hkey hforce
    unfold Server.HasRoom at hroom
    rw [hinter] at hroom
    exact hroom C hC

/-- **Key-frame gating.** In every run of a unicast server whose key frames fit into the send
buffers, a frame that is no key frame is sent to an endpoint only if all packets of the key frame
that was offered last to it were accepted; and what a step offers, it offers while a session plays
that has the endpoint. -/
theorem gated_run {blocks : List (List ConfigLine)} {as : List ServerAct} {os : List Event}
    {s : Server} (h : (liveMachine false blocks).Run KeyFramesFit as os s) :
    Gated os ∧ ∀ a s' o, (liveMachine false blocks).step s a = .ok (s', o) →
      ∀ ev ∈ o, ∀ e, ev.offeredTo = some e → s.PlaysOn e := by
  refine ⟨?_, fun a s' o hstep ev hev e => playsOn_of_step hstep ev hev⟩
  suffices hgates : Gates os s from hgates.gated
  induction h with
  | init hinit =>
    obtain ⟨s₀, h₀, hconf⟩ := hinit
    refine ⟨gated_nil, fun e E hE => ?_⟩
    rw [(configured_of_configure h₀ hconf).endpoints] at hE
    cases hE
  | step hrun hfit hstep ih => exact gates_step ⟨_, _, hrun⟩ ih hfit hstep

/-! ## A client that does not read -/

/-- The track is ready when a client comes that plays it over its connection. It gets a key frame of
`k` packets and another frame. -/
def keyThenDelta (k : ℕ) : List ServerAct :=
  [.accept 3, .frame 0 true (fun _ => []) true] ++ List.replicate 3 (.deliver sendingAll) ++
  [.read 0 setupTcpText (askEnv setupTcp), .read 0 playUdpText (askEnv playUdp),
    .frame 0 true (fun _ => List.replicate k 8180) true] ++ List.replicate 4 (.deliver sendingAll) ++
  [.frame 0 false (fun _ => [100]) true] ++ List.replicate 2 (.deliver sendingAll)

/-- Seven packets fit into the send buffer. -/
theorem gated_run_seven : ∃ s, (liveMachine false openBlocks).Run KeyFramesFit (keyThenDelta 7)
    [.keyFrame 2 7 (List.replicate 7 true), .deltaFrame 2] s ∧
    Gated [.keyFrame 2 7 (List.replicate 7 true), .deltaFrame 2] := by
  obtain ⟨s, hrun, -⟩ := Machine.Run.of_exec (M := liveMachine false openBlocks)
    (G := KeyFramesFit) (fun _ => ()) openServer_init
    (show ((liveMachine false openBlocks).exec _ (configured openBlocks) (keyThenDelta 7)).map _ =
      some ([.keyFrame 2 7 (List.replicate 7 true), .deltaFrame 2], ()) by decide +kernel)
  exact ⟨s, hrun, (gated_run hrun).1⟩

/-- The eighth does not, and the frame behind is sent. -/
theorem eighth_packet_dropped : ∃ s, (liveMachine false openBlocks).Run Machine.anyStep
    (keyThenDelta 8) [.keyFrame 2 8 (List.replicate 7 true ++ [false]), .deltaFrame 2] s ∧
    ¬ Gated [.keyFrame 2 8 (List.replicate 7 true ++ [false]), .deltaFrame 2] := by
  obtain ⟨s, hrun, -⟩ := Machine.Run.of_exec (M := liveMachine false openBlocks)
    (G := Machine.anyStep) (fun _ => ()) openServer_init
    (show ((liveMachine false openBlocks).exec _ (configured openBlocks) (keyThenDelta 8)).map _ =
      some ([.keyFrame 2 8 (List.replicate 7 true ++ [false]), .deltaFrame 2], ()) by decide +kernel)
  refine ⟨s, hrun, fun hgated => ?_⟩
  obtain ⟨packets, hlatest⟩ := hgated [.keyFrame 2 8 (List.replicate 7 true ++ [false])] 2 List.prefix_rfl
  have heq : latestKey 2 [.keyFrame 2 8 (List.replicate 7 true ++ [false])] =
      some (8, List.replicate 7 true ++ [false]) := rfl
  obtain ⟨rfl, hall⟩ := Prod.mk.inj (Option.some.inj (heq.symm.trans hlatest))
  exact absurd hall (by decide)

end Spook
