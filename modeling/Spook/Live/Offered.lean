import Spook.Lib.Refine
import Spook.Live.Reap

set_option relaxedAutoImplicit false
set_option autoImplicit false

/-!
# The endpoint of a frame while it is sent

`next_live_frame` stores into the endpoint that it has sent a key frame to. The first packet that
leaves for an endpoint checks whether the client has been heard of, and tears its session down if
it has not; the endpoint is freed then.

## Main definitions

* `Spook.Server.SendsTo`, `SendsAll` — the next piece of a delivery calls `send` for an endpoint.
* `Spook.Endpoint.GivesUp` — the client of an endpoint is given up when a frame is sent.
* `Spook.Server.nextSend` — the next piece as a function.

## Main results

* `Spook.registered_after_send_iff` — the endpoints that are there when `send` returns.
* `Spook.wp_continueFrame_sends` — the next piece calls `send` once at most.
-/

namespace Spook

/-- The next piece of the delivery calls `send` with the frame `d` for the endpoint `e`, in the
state `s₁`. -/
def Server.SendsTo (s : Server) (d : Delivery) (e : ℕ) (s₁ : Server) : Prop :=
  s.delivery = some d ∧ ∃ p rest n S, d.rest = some (p :: rest) ∧
    (s.tracks d.track).entrylist[d.i]? = some n ∧ s.sessions p = some S ∧
    (selectEndpoint d (s.entries n) S (List.range maxTracks)).run
      (s.deliver (some { d with rest := some rest })) = .ok (some e, s₁)

/-- The next piece of the delivery sends the frame `d` to the endpoint `e` that all share. -/
def Server.SendsAll (s : Server) (d : Delivery) (e : ℕ) : Prop :=
  s.delivery = some d ∧ d.rest = none ∧ ((s.tracks d.track).entrylist[d.i]?).isSome ∧
    (s.tracks d.track).rtp = some (.endpoint e)

/-- The socket takes the first packet of the frame, and behind it `rtcp_send` tears down the session
of the endpoint. -/
def Endpoint.GivesUp (E : Endpoint) (w : Sending) (packets : List ℕ) : Prop :=
  packets ≠ [] ∧ w.sendmsgOk 0 = true ∧ E.forceRtcp = true ∧ E.TimesOut w.now ∧ E.session ≠ none

/-- Before `send` is called, endpoints may have been skipped. -/
theorem Server.SendsTo.state {s s₁ : Server} {d : Delivery} {e : ℕ} (h : s.SendsTo d e s₁) :
    ∃ p rest es, d.rest = some (p :: rest) ∧
      s₁ = (s.deliver (some { d with rest := some rest })).skipping es := by
  obtain ⟨-, p, rest, n, S, hrest, -, -, hrun⟩ := h
  obtain ⟨⟨es, rfl⟩, -⟩ := (wp_selectEndpoint d (s.entries n) S _).ok hrun
  exact ⟨p, rest, es, hrest, rfl⟩

/-! ## Multicast -/

/-- No endpoint has a session. -/
def Server.Unowned (s : Server) : Prop :=
  ∀ e E, s.endpoints e = some E → E.session = none

section Unowned

variable {s s' : Server}

/-- An endpoint without a session is stored. -/
theorem Server.Unowned.onEndpoint (h : s.Unowned) {e : ℕ} {E : Endpoint} (hE : E.session = none) :
    (s.onEndpoint e E).Unowned := by
  intro e' E' hE'
  dsimp only [Server.onEndpoint] at hE'
  rw [Function.update_apply] at hE'
  split_ifs at hE' with he
  · cases hE'
    exact hE
  · exact h e' E' hE'

/-- Over multicast no endpoint belongs to a session. -/
theorem Server.Unowned.change (h : s.Unowned) {k : Kind} (hc : Change true k s s') :
    s'.Unowned := by
  cases hc with
  | added hmc | removed hmc | removedLast hmc => cases hmc
  | shared _ _ _ _ _ hE => exact h.onEndpoint rfl
  | newShared _ _ _ _ _ hsession => exact h.onEndpoint hsession
  | interleaved hE | udp hE | flagged _ hE =>
    have hnone := h _ _ hE
    exact h.onEndpoint hnone
  | counted hE hE' => exact h.onEndpoint (hE'.session.trans (h _ _ hE))
  | noted hE hE' => exact h.onEndpoint (hE'.session.trans (h _ _ hE))
  | @leftLast _ _ _ _ _ e' =>
    intro e E hE
    dsimp only [Server.onTrack, Server.delete, Server.setSlot] at hE
    rw [Function.update_apply] at hE
    split_ifs at hE
    exact h e E hE
  | opened | registered | played | woken | left | closed | readied | delivering | logged
  | accepted | dropped => exact h

/-- **In every state of every run** of a multicast server no endpoint has a session. -/
theorem unowned_run {blocks : List (List ConfigLine)} {G : Server → ServerAct → Prop}
    (h : (liveMachine true blocks).Reachable G s) : s.Unowned := by
  refine keeps_run (M := liveMachine true blocks) rfl (fun s hs => ?_) (fun _ _ h ha => ?_)
    (fun _ _ _ h hc => h.change hc) h
  · obtain ⟨s₀, h₀, hconf⟩ := hs
    intro e E hE
    rw [(configured_of_configure h₀ hconf).endpoints] at hE
    cases hE
  · intro e E hE
    rw [ha.endpoints] at hE
    exact h e E hE

end Unowned

/-! ## Sending -/

section Sending

variable {mc : Bool} {e k : ℕ} {s s' : Server} {E : Endpoint} {w : Sending} {packets : List ℕ}

/-- What belongs to a session belongs to a session of a unicast server. -/
def Endpoint.Owned (mc : Bool) (s : Server) (E : Endpoint) : Prop :=
  E.session ≠ none → mc = false ∧ Sound s

/-- Without the check for time-outs nothing happens to the endpoint. -/
theorem FrameSent.registered {r : ℤ × List Bool} (h : FrameSent mc e w k packets s E r s')
    (hE : s.endpoints e = some E) (hforce : E.forceRtcp = false) : (s'.endpoints e).isSome := by
  induction h with
  | done => exact Option.isSome_of_eq_some hE
  | failed hpacket hret =>
    cases hpacket with
    | refused => exact Option.isSome_of_eq_some hE
    | sent => exact absurd hret (lt_irrefl 0)
    | unreported _ hforced | timedOut _ hforced =>
      rw [hforce] at hforced
      cases hforced
  | next hpacket _ ih => exact ih (hpacket.endpoint le_rfl).2 rfl

/-- The teardown of an endpoint deletes it. -/
theorem EndpointDown.registered_iff {E' : Endpoint} (h : EndpointDown mc e E s s')
    (hE' : s.endpoints e = some E') (hsession : E'.session = E.session) (howned : E.Owned mc s) :
    (s'.endpoints e).isSome ↔ E.session = none := by
  rcases h with ⟨hnone, rfl⟩ | ⟨p, hp, hdown⟩
  · simp [hE', hnone]
  · obtain ⟨rfl, hsound⟩ := howned (by simp [hp])
    simp [hsound.not_endpoint hdown hE' (hsession.trans hp), hp]

/-- **What is left of an endpoint** that one packet is sent to. -/
theorem PacketSent.registered_iff {len : ℕ} {ok : Bool} {r : ℤ × Bool}
    (h : PacketSent mc e len ok w s E r s') (hE : s.endpoints e = some E)
    (howned : E.Owned mc s) : (s'.endpoints e).isSome ↔
      ¬ (ok = true ∧ E.forceRtcp = true ∧ E.TimesOut w.now ∧ E.session ≠ none) := by
  cases h with
  | refused hok => simp [hE, hok]
  | sent _ hforce =>
    rw [Server.onEndpoint_self]
    exact iff_of_true rfl fun h => (hforce h.2.1).1 h.2.2.1
  | unreported _ _ htime =>
    rw [Server.onEndpoint_self]
    exact iff_of_true rfl fun h => htime h.2.2.1
  | timedOut hok hforce htime hdown =>
    have halike := alike_transmit s len E.trans
    have hE₁ : (s.transmit len E.trans).1.endpoints e = some E := by rw [halike.endpoints, hE]
    rw [hdown.registered_iff (Server.onEndpoint_self ..) rfl fun h => ?_]
    · simp [hok (.inl htime.1), hforce, htime]
    · obtain ⟨hmc, hsound⟩ := howned h
      exact ⟨hmc, (hsound.alike halike).onEndpoint hE₁ rfl⟩

/-- **What is left of an endpoint** that a frame is sent to. -/
theorem FrameSent.registered_iff {r : ℤ × List Bool} (h : FrameSent mc e w 0 packets s E r s')
    (hE : s.endpoints e = some E) (howned : E.Owned mc s) :
    (s'.endpoints e).isSome ↔ ¬ E.GivesUp w packets := by
  cases h with
  | done => simp [hE, Endpoint.GivesUp]
  | failed hpacket _ =>
    rw [hpacket.registered_iff hE howned]
    simp [Endpoint.GivesUp]
  | next hpacket hrest =>
    have hE₁ := (hpacket.endpoint le_rfl).2
    have hkept := hpacket.registered_iff hE howned
    rw [hE₁] at hkept
    refine iff_of_true (hrest.registered hE₁ rfl) fun h => ?_
    exact hkept.1 rfl h.2

end Sending

/-- **No use of an endpoint after its teardown.** In every state of every run, when `send` returns
inside `next_live_frame`, its endpoint is there if and only if `send` has not given the client up. -/
theorem registered_after_send_iff {mc : Bool} {blocks : List (List ConfigLine)} {s s₁ s' : Server}
    {d : Delivery} {e : ℕ} {E : Endpoint} {w : Sending} {r : ℤ × List Bool}
    (h : (liveMachine mc blocks).Reachable Machine.anyStep s) (hto : s.SendsTo d e s₁)
    (hE : s₁.endpoints e = some E)
    (hsend : (rtpSend mc e w 0 (d.packets E.maxDataSize)).run s₁ = .ok (r, s')) :
    (s'.endpoints e).isSome ↔ ¬ E.GivesUp w (d.packets E.maxDataSize) := by
  obtain ⟨p, rest, es, -, rfl⟩ := hto.state
  refine ((wp_rtpSend w 0 _ hE).ok hsend).registered_iff hE fun howned => ?_
  cases mc with
  | false => exact ⟨rfl, (sound_run h).of_same rfl rfl rfl (fun _ => Iff.rfl) le_rfl⟩
  | true => exact absurd (unowned_run h e E hE) howned

/-! ## The next piece -/

/-- The endpoint that the next piece of a delivery is sent to. -/
def Server.nextSend (s : Server) : Option (Delivery × ℕ × Server) :=
  s.delivery.bind fun d =>
    match d.rest, (s.tracks d.track).entrylist[d.i]? with
    | some (p :: rest), some n => (s.sessions p).bind fun S =>
      match (selectEndpoint d (s.entries n) S (List.range maxTracks)).run
        (s.deliver (some { d with rest := some rest })) with
      | .ok (some e, s₁) => some (d, e, s₁)
      | .ok (none, _) | .error _ => none
    | _, _ => none

/-- What a run sends next can be computed. -/
theorem Server.sendsTo_iff {s s₁ : Server} {d : Delivery} {e : ℕ} :
    s.SendsTo d e s₁ ↔ s.nextSend = some (d, e, s₁) := by
  constructor
  · rintro ⟨hd, p, rest, n, S, hrest, hn, hS, hselect⟩
    unfold nextSend
    rw [hd, Option.bind_some, hrest, hn]
    dsimp only
    rw [hS, Option.bind_some, hselect]
  · intro h
    unfold nextSend at h
    obtain ⟨d', hd, h⟩ := Option.bind_eq_some_iff.1 h
    split at h
    · rename_i p rest n hrest hn
      obtain ⟨S, hS, h⟩ := Option.bind_eq_some_iff.1 h
      split at h
      · rename_i e' s₂ hselect
        cases h
        exact ⟨hd, p, rest, n, S, hrest, hn, hS, hselect⟩
      · cases h
      · cases h
    · cases h

/-- **A piece of a delivery** sends a frame to one endpoint, to the one that all share, or to none.

**Proof sketch.** By the loop that the delivery is in and what it finds there. Only the visit of a
session can select an endpoint, which is then the one of `SendsTo`, and only an entry of a multicast
track sends to the endpoint that all share; in all other branches neither relation holds, since its
parts would contradict what was found. -/
theorem wp_continueFrame_sends {mc : Bool} {s : Server} (w : Sending) :
    wp (continueFrame mc w) (fun _ s' =>
      ((∀ d e s₁, ¬ s.SendsTo d e s₁) ∧ (∀ d e, ¬ s.SendsAll d e) ∧
        ∃ o es, s' = (s.deliver o).skipping es) ∨
      (∃ d e s₁ E, s.SendsTo d e s₁ ∧ s₁.endpoints e = some E ∧ FrameOffered mc d e w s₁ E s') ∨
      ∃ d e E r s₁, s.SendsAll d e ∧ s.endpoints e = some E ∧
        FrameSent mc e w 0 (d.packets E.maxDataSize) { s with log := s.log ++ [.shared e] } E r s₁ ∧
        s' = s₁.deliver none)
      (fun _ => True) s := by
  unfold continueFrame
  rw [wp_bind, wp_get]
  cases hd : s.delivery with
  | none =>
    refine .inl ⟨fun d e s₁ hto => ?_, fun d e hall => ?_, s.delivery, [], s.skipping_nil.symm⟩
    · cases hd.symm.trans hto.1
    · cases hd.symm.trans hall.1
  | some d =>
    dsimp only
    cases hrest : d.rest with
    | some l =>
      have hall : ∀ d e, ¬ s.SendsAll d e := by
        rintro d' e ⟨hd', hnone, -⟩
        cases hd.symm.trans hd'
        cases hrest.symm.trans hnone
      cases l with
      | nil =>
        refine .inl ⟨?_, hall, _, [], (Server.skipping_nil _).symm⟩
        rintro d' e s₁ ⟨hd', p, rest, n, S, hcons, -⟩
        cases hd.symm.trans hd'
        cases hrest.symm.trans hcons
      | cons p rest =>
        dsimp only
        rw [wp_bind, wp_modify]
        cases hn : (s.tracks d.track).entrylist[d.i]? with
        | none =>
          refine .inl ⟨?_, hall, _, [], (Server.skipping_nil _).symm⟩
          rintro d' e s₁ ⟨hd', p', rest', n, S, -, hn', -⟩
          cases hd.symm.trans hd'
          cases hn.symm.trans hn'
        | some n =>
          dsimp only
          unfold visitSession
          rw [wp_bind, wp_getSession]
          refine ⟨fun S hS => ?_, fun _ => trivial⟩
          rw [wp_bind, wp_get, wp_bind]
          have hselect := (wp_selectEndpoint d (s.entries n) S (List.range maxTracks)
            (s := s.deliver (some { d with rest := some rest }))).and wp_run
          refine hselect.mono (fun o s₁ h => ?_) fun _ _ => trivial
          obtain ⟨⟨⟨es, rfl⟩, -⟩, hrun⟩ := h
          cases o with
          | none =>
            refine .inl ⟨?_, hall, _, es, rfl⟩
            rintro d' e s₁ ⟨hd', p', rest', n', S', hcons, hn', hS', hrun'⟩
            cases hd.symm.trans hd'
            cases hrest.symm.trans hcons
            cases hn.symm.trans hn'
            cases hS.symm.trans hS'
            cases hrun.symm.trans hrun'
          | some e =>
            have hto : s.SendsTo d e ((s.deliver (some { d with rest := some rest })).skipping es) :=
              ⟨hd, p, rest, n, S, hrest, hn, hS, hrun⟩
            dsimp only
            cases hE : ((s.deliver (some { d with rest := some rest })).skipping es).endpoints e with
            | none => simp [offerFrame, hE]
            | some E =>
              exact (wp_offerFrame d w hE).imp fun _ s' h => .inr (.inl ⟨d, e, _, E, hto, hE, h⟩)
    | none =>
      dsimp only
      have hto : ∀ d e s₁, ¬ s.SendsTo d e s₁ := by
        rintro d' e s₁ ⟨hd', p, rest, n, S, hcons, -⟩
        cases hd.symm.trans hd'
        cases hrest.symm.trans hcons
      cases hn : (s.tracks d.track).entrylist[d.i]? with
      | none =>
        refine .inl ⟨hto, ?_, _, [], (Server.skipping_nil _).symm⟩
        rintro d' e ⟨hd', -, hsome, -⟩
        cases hd.symm.trans hd'
        rw [hn] at hsome
        cases hsome
      | some n =>
        rcases hrtp : (s.tracks d.track).rtp with _ | _ | _ | e
        · trivial
        · refine .inl ⟨hto, ?_, _, [], (Server.skipping_nil _).symm⟩
          rintro d' e ⟨hd', -, -, hrtp'⟩
          cases hd.symm.trans hd'
          cases hrtp.symm.trans hrtp'
        · trivial
        · have hall : s.SendsAll d e := ⟨hd, hrest, by rw [hn]; rfl, hrtp⟩
          dsimp only
          rw [wp_bind, wp_record, wp_bind, wp_getEndpoint]
          refine ⟨fun E hE => ?_, fun _ => trivial⟩
          refine (wp_rtpSend w 0 _ hE).seq fun r s₁ h => .inr (.inr ⟨d, e, E, r, s₁, hall, hE, ?_, rfl⟩)
          rw [← hd]
          exact h

/-! ## A client that comes late -/

/-- The execution of the next piece of a delivery until `send` returns: the endpoint that it is for,
and whether it is there then. -/
def Server.sendOf (mc : Bool) (s : Server) (w : Sending) : Option (ℕ × Bool) :=
  s.nextSend.bind fun (d, e, s₁) => (s₁.endpoints e).bind fun E =>
    match (rtpSend mc e w 0 (d.packets E.maxDataSize)).run s₁ with
    | .ok (_, s') => some (e, (s'.endpoints e).isSome)
    | .error _ => none

/-- A frame is sent to an endpoint, which is there afterwards or is not. -/
theorem Server.SendsTo.of_sendOf {mc : Bool} {s : Server} {w : Sending} {e : ℕ} {b : Bool}
    (h : s.sendOf mc w = some (e, b)) : ∃ d s₁ E r s', s.SendsTo d e s₁ ∧
      s₁.endpoints e = some E ∧
      (rtpSend mc e w 0 (d.packets E.maxDataSize)).run s₁ = .ok (r, s') ∧
      (s'.endpoints e).isSome = b := by
  unfold sendOf at h
  obtain ⟨⟨d, e', s₁⟩, hto, h⟩ := Option.bind_eq_some_iff.1 h
  obtain ⟨E, hE, h⟩ := Option.bind_eq_some_iff.1 h
  split at h
  · rename_i r s' hsend
    obtain ⟨rfl, rfl⟩ := Prod.mk.inj (Option.some.inj h)
    exact ⟨d, s₁, E, r, s', sendsTo_iff.2 hto, hE, hsend, rfl⟩
  · cases h

/-- A client that plays the track of `openBlocks`, and its first frame when the loop comes to it. -/
def firstFrame : List ServerAct :=
  [.accept 3, .read 0 setupUdpText (askEnv setupUdp), .read 0 playUdpText (askEnv playUdp),
    .frame 0 true (fun _ => [100]) true, .deliver sendingAll]

/-- The client has played at once. -/
theorem registered_after_send_iff_first : ∃ s d s₁ E r s',
    (liveMachine false openBlocks).Run Machine.anyStep firstFrame [] s ∧ s.SendsTo d 2 s₁ ∧
    s₁.endpoints 2 = some E ∧
    (rtpSend false 2 sendingAll 0 (d.packets E.maxDataSize)).run s₁ = .ok (r, s') ∧
    (s'.endpoints 2).isSome ∧ ¬ E.GivesUp sendingAll (d.packets E.maxDataSize) := by
  obtain ⟨s, hrun, hs⟩ := Machine.Run.of_exec (M := liveMachine false openBlocks)
    (G := Machine.anyStep) (fun s => s.sendOf false sendingAll) openServer_init
    (show ((liveMachine false openBlocks).exec _ (configured openBlocks) firstFrame).map _ =
      some ([], some (2, true)) by decide +kernel)
  obtain ⟨d, s₁, E, r, s', hto, hE, hsend, hkept⟩ := Server.SendsTo.of_sendOf hs
  exact ⟨s, d, s₁, E, r, s', hrun, hto, hE, hsend, hkept,
    (registered_after_send_iff ⟨_, _, hrun⟩ hto hE hsend).1 hkept⟩

/-- The client plays sixteen seconds behind its SETUP. -/
def sendingLate : Sending := { sendingAll with now := ⟨16, 0⟩ }

/-- Its endpoint is freed by the first packet of the key frame, and its flag is stored behind. -/
theorem freed_before_flag : ∃ s d s₁ E r s',
    (liveMachine false openBlocks).Run Machine.anyStep firstFrame [] s ∧ s.SendsTo d 2 s₁ ∧
    s₁.endpoints 2 = some E ∧
    (rtpSend false 2 sendingLate 0 (d.packets E.maxDataSize)).run s₁ = .ok (r, s') ∧
    s'.endpoints 2 = none ∧ serverStep false s (.deliver sendingLate) = .error .freedEndpoint := by
  obtain ⟨s, hrun, hs⟩ := Machine.Run.of_exec (M := liveMachine false openBlocks)
    (G := Machine.anyStep) (fun s => (s.sendOf false sendingLate,
      faultOf (serverStep false s (.deliver sendingLate)))) openServer_init
    (show ((liveMachine false openBlocks).exec _ (configured openBlocks) firstFrame).map _ =
      some ([], some (2, false), some .freedEndpoint) by decide +kernel)
  obtain ⟨hsends, hfault⟩ := Prod.mk.inj hs
  obtain ⟨d, s₁, E, r, s', hto, hE, hsend, hgone⟩ := Server.SendsTo.of_sendOf hsends
  exact ⟨s, d, s₁, E, r, s', hrun, hto, hE, hsend, by simpa using hgone, of_faultOf hfault⟩

end Spook
