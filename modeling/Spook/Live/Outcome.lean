import Spook.Live.Freed
import Spook.Live.Offered

set_option relaxedAutoImplicit false
set_option autoImplicit false

/-!
# What an event does to the tracks

An event of a unicast server frees endpoints, adds one to a track, plays a session, or makes a track
ready. What it frees, and which of the others it is, is said of the state before it.

## Main definitions

* `Spook.ServerAct.Frees` — an event frees an endpoint.
* `Spook.Server.Joins`, `Refuses`, `Readies` — what else it may do.
* `Spook.Happens` — what it leaves.

## Main results

* `Spook.wp_continueFrame_happens`, `wp_rtcpFire_happens`, `wp_teardownEndpoint_happens` — the
  deliveries, the timers and the sockets.
-/

namespace Spook

/-! ## Events -/

/-- The request frees the endpoint: it is a TEARDOWN of its session, or of its track. -/
inductive RtspRequest.Frees (s : Server) : RtspRequest → ℕ → Prop
  | teardown {loc : Option ℕ} {track : ℤ} {id : Option Bytes} {rs : RtspSession} {S : Session}
      {j e : ℕ} : (s.location loc).isSome → track < maxTracks → s.rtspSession id = some rs →
      s.sessions rs.sess = some S → S.ep j = some e →
      track < 0 ∨ S.ep track.toNat = none ∨ S.ep track.toNat = some e →
      Frees s (.teardown loc track id) e

/-- The event frees the endpoint. -/
inductive ServerAct.Frees (s : Server) : ServerAct → ℕ → Prop
  | dropped {a : ServerAct} {c e x y : ℕ} {E : Endpoint} : s.Drops c a → s.endpoints e = some E →
      E.trans = .inter c x y → Frees s a e
  | tornDown {c e : ℕ} {d : Bytes} {env : ReadEnv} {C : Conn} {q : RtspRequest} :
      s.conns c = some C → C.rtspRequest d env = some q → q.Frees s e → Frees s (.read c d env) e
  /-- `rtcp_send` gives up the client of an endpoint that a frame is sent to. -/
  | sent {w : Sending} {d : Delivery} {e : ℕ} {s₁ : Server} {E : Endpoint} : s.SendsTo d e s₁ →
      w.stopSend = false → s₁.endpoints e = some E → E.GivesUp w (d.packets E.maxDataSize) →
      Frees s (.deliver w) e
  | sentAll {w : Sending} {d : Delivery} {e : ℕ} {E : Endpoint} : s.SendsAll d e →
      s.endpoints e = some E → E.GivesUp w (d.packets E.maxDataSize) → Frees s (.deliver w) e
  | timedOut {e : ℕ} {now : TimeVal} {ret : ℤ} {E : Endpoint} : s.endpoints e = some E →
      E.rtcpSendEvent = true → E.TimesOut now → Frees s (.timer e now ret) e
  | unread {e : ℕ} {now : TimeVal} {E : Endpoint} : s.endpoints e = some E →
      E.trans = .udp ∨ E.trans = .mc → Frees s (.udp e .failed now) e

/-- A SETUP that adds an endpoint on the track `t` to a session, which plays or not. -/
inductive RtspRequest.Adds (s : Server) (transport : Transport) (env : SetupEnv) (t : ℕ) :
    RtspRequest → Bool → Prop
  | new {loc : Option ℕ} {track : ℤ} {auth : Bool} {l : RtspLocation} : s.location loc = some l →
      0 ≤ track → track < maxTracks → (l.realm ≠ [] → auth = true) →
      (s.entries l.entry).tracklist track.toNat = some t → (s.tracks t).rtp ≠ none →
      Adds s transport env t (.setup loc track auth (some transport) none env) false
  | old {loc : Option ℕ} {track : ℤ} {auth : Bool} {id : Bytes} {l : RtspLocation}
      {rs : RtspSession} {S : Session} : s.location loc = some l → 0 ≤ track → track < maxTracks →
      (l.realm ≠ [] → auth = true) → s.rtspSession (some id) = some rs →
      s.sessions rs.sess = some S → S.ep track.toNat = none →
      (s.entries S.liventry).tracklist track.toNat = some t → (s.tracks t).rtp ≠ none →
      Adds s transport env t (.setup loc track auth (some transport) (some id) env) S.playing

/-- A session that plays gets an endpoint on the track. -/
def Server.Joins (s : Server) (t : ℕ) : ServerAct → Prop
  | .read c d env => ∃ C q transport senv, s.conns c = some C ∧ C.rtspRequest d env = some q ∧
    q.Adds s transport senv t true ∧ ¬ transport.Refused (C.settled d) senv
  | _ => False

/-- A session gets an endpoint on the track that is torn down at once. -/
def Server.Refuses (s : Server) (t : ℕ) : ServerAct → Prop
  | .read c d env => ∃ C q transport senv b, s.conns c = some C ∧ C.rtspRequest d env = some q ∧
    q.Adds s transport senv t b ∧ transport.Refused (C.settled d) senv
  | _ => False

/-- The event is the first frame of the track. -/
def Server.Readies (s : Server) (t : ℕ) : ServerAct → Prop
  | .frame t' _ _ ok =>
    t' = t ∧ ok = true ∧ (s.tracks t).ready = false ∧ (s.tracks t).srcstream = some true
  | _ => False

/-- What an event leaves of the tracks. -/
inductive Happens (s : Server) (a : ServerAct) : Server → Prop
  /-- Endpoints are freed at most. -/
  | loses {s' : Server} : Loses s s' →
      (∀ e E, s.endpoints e = some E → (s'.endpoints e = none ↔ a.Frees s e)) → Happens s a s'
  | added {s' : Server} {t n e : ℕ} {b : Bool} : (b = true → s.Joins t a) →
      s'.tracks = s.tracks → (∀ t' n' b' e', s'.On t' n' b' e' ↔
        s.On t' n' b' e' ∨ t' = t ∧ n' = n ∧ b' = b ∧ e' = e) → Happens s a s'
  /-- An endpoint is added and freed. -/
  | refused {s' : Server} {t : ℕ} : s.Refuses t a → (∀ t' n b e, s'.On t' n b e ↔ s.On t' n b e) →
      (∀ t', (s'.tracks t').ready = (s.tracks t').ready) →
      (∀ t', (s'.tracks t').rtp = (s.tracks t').rtp) →
      (∀ t', (s'.tracks t').srcstream = (s.tracks t').srcstream ∨
        t' = t ∧ (s'.tracks t).srcstream = some false ∧ ¬ s.Heard t) → Happens s a s'
  | played {s' : Server} : (∀ t, s.Active t → s'.Active t) →
      (∀ t, (s'.tracks t).ready = (s.tracks t).ready) →
      (∀ t, (s'.tracks t).rtp = (s.tracks t).rtp) →
      (∀ t, (s.tracks t).srcstream = some true → (s'.tracks t).srcstream = some true) →
      (∀ t, (s'.tracks t).srcstream = some true → (s.tracks t).srcstream = some true ∨ s'.Active t) →
      (∀ t, s'.Active t → (s'.tracks t).srcstream = some true ∨ s.Active t) → Happens s a s'
  | readied {s' : Server} {t : ℕ} : s.Readies t a → (∀ t' n b e, s'.On t' n b e ↔ s.On t' n b e) →
      s'.tracks = Function.update s.tracks t
        { s.tracks t with srcstream := some false, ready := true } → Happens s a s'

/-! ## Sending -/

section Sending

variable {s s' : Server} {e e' : ℕ} {E E' : Endpoint} {w : Sending} {d : Delivery}

/-- Sending takes endpoints from tracks, when a transport fails. -/
theorem Sends.loses {o : Option ℕ} (h : Sends false e o s s') (hs : Sound s) : Loses s s' := by
  refine h.steps.loses hs ?_
  rintro k (rfl | ⟨p, e, -, rfl | rfl⟩) <;> exact id

/-- Only the endpoint that is sent to can be freed. -/
theorem Sends.freed {o : Option ℕ} (h : Sends false e o s s') (hE' : s.endpoints e' = some E')
    (hgone : s'.endpoints e' = none) : e' = e := by
  obtain ⟨p, hk⟩ := h.steps.removed_mem hE' hgone
  rcases hk with hk | ⟨p, e, ⟨-, rfl⟩, hk | hk⟩ <;> cases hk
  rfl

/-- **A frame** that is sent frees its endpoint at most. -/
theorem FrameSent.freed_iff {packets : List ℕ} {r : ℤ × List Bool}
    (h : FrameSent false e w 0 packets s E r s') (hs : Sound s) (hE : s.endpoints e = some E)
    (hE' : s.endpoints e' = some E') :
    s'.endpoints e' = none ↔ e' = e ∧ E.GivesUp w packets := by
  have hregistered := h.registered_iff hE fun _ => ⟨rfl, hs⟩
  rw [Option.isSome_iff_ne_none] at hregistered
  constructor
  · intro hgone
    obtain rfl := (h.sends hE).freed hE' hgone
    exact ⟨rfl, not_not.1 fun hnot => hregistered.2 hnot hgone⟩
  · rintro ⟨rfl, hup⟩
    exact not_not.1 fun hsome => hregistered.1 hsome hup

/-- `next_live_frame` frees an endpoint if its client is given up. -/
theorem FrameOffered.freed_iff (h : FrameOffered false d e w s E s') (hs : Sound s)
    (hE : s.endpoints e = some E) (hE' : s.endpoints e' = some E') :
    s'.endpoints e' = none ↔ e' = e ∧ w.stopSend = false ∧ E.GivesUp w (d.packets E.maxDataSize) := by
  have hupdate : ∀ {s : Server} {E₁ : Endpoint}, s.endpoints e' ≠ none →
      (s.onEndpoint e E₁).endpoints e' ≠ none := by
    intro s E₁ hsome
    dsimp only [Server.onEndpoint]
    rw [Function.update_apply]
    split_ifs
    · simp
    · exact hsome
  cases h with
  | heldKey hstop =>
    refine iff_of_false (hupdate (by simp [hE'])) fun h => ?_
    rw [hstop] at h
    cases h.2.1
  | held hstop =>
    refine iff_of_false (by simp [hE']) fun h => ?_
    rw [hstop] at h
    cases h.2.1
  | @key ret outcomes s₁ E₁ hstop _ hframe hE₁ =>
    have hkept : ∀ e' E', s.endpoints e' = some E' → s₁.endpoints e' ≠ none ∧
        ¬ (e' = e ∧ E.GivesUp w (d.packets E.maxDataSize)) := by
      intro e' E' hE'
      have hiff := hframe.freed_iff hs hE hE'
      by_cases he : e' = e
      · subst he
        have hsome : s₁.endpoints e' ≠ none := by simp [hE₁]
        exact ⟨hsome, fun h => hsome (hiff.2 h)⟩
      · exact ⟨fun hnone => he (hiff.1 hnone).1, fun h => he h.1⟩
    obtain ⟨hsome, hnot⟩ := hkept e' E' hE'
    exact iff_of_false (hupdate hsome) fun h => hnot ⟨h.1, h.2.2⟩
  | delta hstop _ hframe =>
    have hs₁ : Sound { s with log := s.log ++ [.deltaFrame e] } :=
      hs.of_same rfl rfl rfl (fun _ => Iff.rfl) le_rfl
    rw [hframe.freed_iff hs₁ hE hE']
    simp [hstop]

/-- **A piece of a delivery.** -/
theorem wp_continueFrame_happens (hs : Sound s) (w : Sending) :
    wp (continueFrame false w) (fun _ s' => Happens s (.deliver w) s') (fun _ => True) s := by
  have hloses : wp (continueFrame false w) (fun _ s' => Loses s s') (fun _ => True) s := by
    refine (wp_continueFrame w).imp fun _ s' h => h.streams.steps.loses hs ?_
    rintro k ((rfl | rfl | ⟨e, rfl | rfl⟩) | ⟨p, e, -, rfl | rfl⟩) <;> exact id
  refine ((wp_continueFrame_sends w).and hloses).mono (fun _ s' h => ?_) fun _ _ => trivial
  obtain ⟨hsends, hloses⟩ := h
  refine .loses hloses fun e' E' hE' => ?_
  have hnot : ∀ c, ¬ s.Drops c (.deliver w) := fun c => id
  rcases hsends with ⟨hto, hall, o, es, rfl⟩ | ⟨d, e, s₁, E, hto, hE, hoffered⟩ |
    ⟨d, e, E, r, s₁, hall, hE, hsent, rfl⟩
  · refine iff_of_false (by simp [Server.skipping, Server.deliver, hE']) fun hfrees => ?_
    cases hfrees with
    | dropped hdrops => exact hnot _ hdrops
    | sent h => exact hto _ _ _ h
    | sentAll h => exact hall _ _ h
  · have hsame : s₁.endpoints = s.endpoints ∧ Sound s₁ := by
      obtain ⟨p, rest, es, -, rfl⟩ := hto.state
      exact ⟨rfl, hs.of_same rfl rfl rfl (fun _ => Iff.rfl) le_rfl⟩
    rw [hoffered.freed_iff hsame.2 hE (hsame.1 ▸ hE')]
    constructor
    · rintro ⟨rfl, hstop, hup⟩
      exact .sent hto hstop hE hup
    · intro hfrees
      cases hfrees with
      | dropped hdrops => exact absurd hdrops (hnot _)
      | sent hto' hstop hE₁ hup =>
        cases (Server.sendsTo_iff.1 hto).symm.trans (Server.sendsTo_iff.1 hto')
        cases hE.symm.trans hE₁
        exact ⟨rfl, hstop, hup⟩
      | sentAll hall =>
        obtain ⟨hd, p, rest, n, S, hrest, -⟩ := hto
        cases hd.symm.trans hall.1
        cases hrest.symm.trans hall.2.1
  · have hgone : (s₁.deliver none).endpoints e' = s₁.endpoints e' := rfl
    have hs₁ : Sound { s with log := s.log ++ [.shared e] } :=
      hs.of_same rfl rfl rfl (fun _ => Iff.rfl) le_rfl
    rw [hgone, hsent.freed_iff hs₁ hE hE']
    constructor
    · rintro ⟨rfl, hup⟩
      exact .sentAll hall hE hup
    · intro hfrees
      cases hfrees with
      | dropped hdrops => exact absurd hdrops (hnot _)
      | sent hto =>
        obtain ⟨hd, p, rest, n, S, hrest, -⟩ := hto
        cases hd.symm.trans hall.1
        cases hrest.symm.trans hall.2.1
      | sentAll hall' hE₁ hup =>
        cases hall.1.symm.trans hall'.1
        cases hall.2.2.2.symm.trans hall'.2.2.2
        cases hE.symm.trans hE₁
        exact ⟨rfl, hup⟩

/-- **The timer of an endpoint.** -/
theorem wp_rtcpFire_happens (hs : Sound s) {now : TimeVal} {ret : ℤ} (hE : s.endpoints e = some E)
    (hevent : E.rtcpSendEvent = true) :
    wp (rtcpFire false e now ret) (fun _ s' => Happens s (.timer e now ret) s') (fun _ => True) s := by
  refine (wp_rtcpSend now ret hE).seq fun r s' h => ?_
  refine .loses ((h.sends hE).loses hs) fun e' E' hE' => ?_
  have hfrees : (ServerAct.timer e now ret).Frees s e' ↔ e' = e ∧ E.TimesOut now := by
    constructor
    · intro hfrees
      cases hfrees with
      | dropped hdrops => exact hdrops.elim
      | timedOut hE₁ _ htime =>
        cases hE.symm.trans hE₁
        exact ⟨rfl, htime⟩
    · rintro ⟨rfl, htime⟩
      exact .timedOut hE hevent htime
  rw [hfrees]
  cases h with
  | unreported htime =>
    refine iff_of_false ?_ fun h => htime h.2
    dsimp only [Server.onEndpoint]
    rw [Function.update_apply]
    split_ifs <;> simp [hE']
  | timedOut htime hdown =>
    have hs₁ : Sound (s.onEndpoint e { E with forceRtcp := false }) := hs.onEndpoint hE rfl
    obtain ⟨E₁, hE₁⟩ : ∃ E₁, (s.onEndpoint e { E with forceRtcp := false }).endpoints e' = some E₁ := by
      by_cases he : e' = e
      · subst he
        exact ⟨_, Server.onEndpoint_self ..⟩
      · exact ⟨E', by rw [← hE']; exact Function.update_of_ne he ..⟩
    have hdown' : EndpointDown false e { E with forceRtcp := false }
        (s.onEndpoint e { E with forceRtcp := false }) s' := hdown
    rw [hdown'.freed_iff hs₁ (Server.onEndpoint_self ..) hE₁]
    exact (and_iff_left htime).symm

/-- **A socket that cannot be read.** -/
theorem wp_teardownEndpoint_happens (hs : Sound s) {now : TimeVal} (hE : s.endpoints e = some E)
    (htrans : E.trans = .udp ∨ E.trans = .mc) :
    wp (teardownEndpoint false E e) (fun _ s' => Happens s (.udp e .failed now) s') (fun _ => True)
      s := by
  refine (wp_teardownEndpoint false e E s).imp fun _ s' h => ?_
  refine .loses (h.sends.loses hs) fun e' E' hE' => ?_
  rw [h.freed_iff hs hE hE']
  constructor
  · rintro rfl
    exact .unread hE htrans
  · intro hfrees
    cases hfrees with
    | dropped hdrops => exact hdrops.elim
    | unread => rfl

end Sending

end Spook
