import Spook.Live.Interleaved
import Spook.Live.Leak

set_option relaxedAutoImplicit false
set_option autoImplicit false

/-!
# Clients that are gone

A client that is gone leaves its session behind, and something has to notice it: the end of its
connection when its endpoints are interleaved, and the timer of `rtcp_send` when they are not. The
timer of an endpoint is enabled behind its first packet.

## Main definitions

* `Spook.Reapable` — something notices when the client of a session is gone.
* `Spook.Watching` — what holds of the sessions and their endpoints.

## Main results

* `Spook.watching_run` — it holds in every state of every run.
* `Spook.reapable_iff` — which sessions are noticed.
-/

namespace Spook

/-- Every registered session has endpoints, and each of them is interleaved on a connection that is
there, or has a timer that is enabled. -/
def Reapable (s : Server) : Prop :=
  ∀ rs ∈ s.rtspSessList, ∃ S, s.sessions rs.sess = some S ∧ (∃ j e, S.ep j = some e) ∧
    ∀ j e, S.ep j = some e → ∃ E, s.endpoints e = some E ∧
      ((∃ c a b, E.trans = .inter c a b ∧ (s.conns c).isSome) ∨
        E.trans = .udp ∧ E.rtcpSendEvent = true)

/-- The endpoint is connected, and its timer is enabled when it has sent a packet. -/
def Endpoint.Watched (E : Endpoint) : Prop :=
  (E.trans = .udp ∨ ∃ c a b, E.trans = .inter c a b) ∧ E.rtcpSendEvent = !E.forceRtcp

/-- The registered sessions have endpoints, and all endpoints are watched but `x`. -/
structure Watching (x : Option ℕ) (s : Server) : Prop where
  sound : Sound s
  registered : ∀ rs ∈ s.rtspSessList, ∃ S, s.sessions rs.sess = some S ∧ ∃ j e, S.ep j = some e
  watched : ∀ e E, s.endpoints e = some E → x ≠ some e → E.Watched

section Watching

variable {x : Option ℕ} {s s' : Server}

/-- What touches neither sessions nor endpoints. -/
theorem Watching.of_same (h : Watching x s) (hs : Sound s')
    (hlist : s'.rtspSessList = s.rtspSessList) (hsessions : s'.sessions = s.sessions)
    (hendpoints : s'.endpoints = s.endpoints) : Watching x s' := by
  constructor
  · exact hs
  · rw [hlist, hsessions]
    exact h.registered
  · rw [hendpoints]
    exact h.watched

/-- What is done besides changes neither endpoints nor sessions. -/
theorem Watching.alike (h : Watching x s) (ha : Alike s s') : Watching x s' :=
  h.of_same (h.sound.alike ha) ha.rtspSessList ha.sessions ha.endpoints

/-- An endpoint changes that belongs where it did. -/
theorem Watching.onEndpoint (h : Watching x s) {e : ℕ} {E E' : Endpoint}
    (hE : s.endpoints e = some E) (hsession : E'.session = E.session)
    (hE' : x ≠ some e → E'.Watched) : Watching x (s.onEndpoint e E') := by
  refine ⟨h.sound.onEndpoint hE hsession, h.registered, fun e₁ E₁ hE₁ hx => ?_⟩
  dsimp only [Server.onEndpoint] at hE₁
  rw [Function.update_apply] at hE₁
  split_ifs at hE₁ with he
  · cases hE₁
    exact hE' (he ▸ hx)
  · exact h.watched e₁ E₁ hE₁ hx

/-- After a teardown there are fewer endpoints to watch. -/
theorem Watching.tornDown (h : Watching x s) {p : ℕ} {ep : Option ℕ}
    (hdown : TornDown false p ep s s') : Watching x s' := by
  refine ⟨h.sound.steps hdown.steps, ?_, fun e E hE => h.watched e E (hdown.endpoints hE)⟩
  intro rs hrs
  cases hdown with
  | @kept S S' _ hempty hmore =>
    rw [hempty.fewer.rtspSessList] at hrs
    obtain ⟨S₀, hS₀, j, e, he⟩ := h.registered rs hrs
    by_cases hp : rs.sess = p
    · -- another endpoint is left
      rw [hp]
      refine ⟨S', hempty.after, ?_⟩
      rw [not_or, not_forall] at hmore
      obtain ⟨hnone, j', hmore⟩ := hmore
      rw [not_or] at hmore
      obtain ⟨e', he'⟩ := Option.ne_none_iff_exists'.1 hmore.1
      exact ⟨j', e', hempty.slot he' hnone fun heq => hmore.2 (he'.trans heq.symm)⟩
    · exact ⟨S₀, (hempty.others hp).trans hS₀, j, e, he⟩
  | @closed S S' s₁ hempty hnone =>
    dsimp only [Server.closed] at hrs ⊢
    rw [List.mem_filter, hempty.fewer.rtspSessList] at hrs
    have hp : rs.sess ≠ p := by simpa using hrs.2
    obtain ⟨S₀, hS₀, hep⟩ := h.registered rs hrs.1
    refine ⟨S₀, ?_, hep⟩
    rw [Function.update_of_ne hp, hempty.others hp, hS₀]

/-- The endpoint that was not watched is torn down. -/
theorem Watching.gone {p e : ℕ} (h : Watching (some e) s) {E : Endpoint}
    (hE : s.endpoints e = some E) (hp : E.session = some p)
    (hdown : TornDown false p (some e) s s') : Watching none s' := by
  have h' := h.tornDown hdown
  refine ⟨h'.sound, h'.registered, fun e' E' hE' _ => h'.watched e' E' hE' ?_⟩
  rintro ⟨⟩
  rw [h.sound.not_endpoint hdown hE hp] at hE'
  cases hE'

/-- Nothing else is asked of one endpoint. -/
theorem Watching.but (h : Watching none s) (e : ℕ) : Watching (some e) s :=
  ⟨h.sound, h.registered, fun e' E hE _ => h.watched e' E hE (by simp)⟩

/-- The endpoint that was not watched is. -/
theorem Watching.onEndpoint_but {e : ℕ} (h : Watching (some e) s) {E E' : Endpoint}
    (hE : s.endpoints e = some E) (hsession : E'.session = E.session) (hE' : E'.Watched) :
    Watching none (s.onEndpoint e E') := by
  have h' := h.onEndpoint hE hsession fun _ => hE'
  refine ⟨h'.sound, h'.registered, fun e₁ E₁ hE₁ _ => ?_⟩
  by_cases he : e₁ = e
  · rw [he, Server.onEndpoint_self] at hE₁
    cases hE₁
    exact hE'
  · exact h'.watched e₁ E₁ hE₁ fun heq => he (Option.some.inj heq).symm

/-! ## Requests -/

/-- A new session is not registered and has no endpoints. -/
theorem Watching.opened (h : Watching x s) (n : ℕ) : Watching x (s.opened n) := by
  refine ⟨h.sound.opened n, fun rs hrs => ?_, h.watched⟩
  obtain ⟨S, hS, hep⟩ := h.registered rs hrs
  refine ⟨S, ?_, hep⟩
  dsimp only [Server.opened]
  rw [Function.update_of_ne (h.sound.session_lt _ S hS).ne, hS]

/-- A new endpoint is not watched. -/
theorem Watching.added {p j e : ℕ} {S : Session} {E : Endpoint} (h : Watching none s)
    (hslot : SlotAdded false p j S e E s s') (hadd : Change false (.added p j) s s') :
    Watching (some e) s' := by
  obtain ⟨-, -, -, hendpoints⟩ := hslot.fresh hadd
  refine ⟨h.sound.change hadd, fun rs hrs => ?_, fun e' E' hE' hx => ?_⟩
  · have hlist : s'.rtspSessList = s.rtspSessList := by cases hadd <;> rfl
    rw [hlist] at hrs
    obtain ⟨S₀, hS₀, hep⟩ := h.registered rs hrs
    by_cases hp : rs.sess = p
    · rw [hp]
      exact ⟨_, hslot.after, j, e, Function.update_self ..⟩
    · refine ⟨S₀, ?_, hep⟩
      rw [hslot.sessions, Function.update_of_ne hp, hS₀]
  · rw [hendpoints, Function.update_of_ne fun heq => hx (congrArg some heq.symm)] at hE'
    exact h.watched e' E' hE' (by simp)

/-- An endpoint that a SETUP connects has sent nothing, and so its timer need not be enabled. -/
theorem Watching.setUp {c p j k : ℕ} {isNew : Bool} {t : Transport} {env : SetupEnv}
    (h : Watching none s) (hsetup : SetUp false c p j isNew t env s k s') : Watching none s' := by
  cases hsetup with
  | taken _ _ halike => exact h.alike halike
  | refused _ halike => exact h.alike halike
  | refusedNew _ halike hdown => exact (h.alike halike).tornDown hdown
  | @unconnected s₁ s₂ _ S C e E hadd hslot _ _ _ halike hdown =>
    obtain ⟨-, hp, -, -⟩ := hslot.fresh hadd
    have hE : s₂.endpoints e = some E := by rw [halike.endpoints, hslot.endpoint]
    exact ((h.added hslot hadd).alike halike).gone hE hp hdown
  | @done s₁ s₂ _ S e E hadd hslot hconn halike =>
    obtain ⟨hfresh, -, -, -⟩ := hslot.fresh hadd
    have hconn : Change false (.connected e) s₁ s₂ := by
      rcases hconn with ⟨hmc, -⟩ | hconn
      · rw [hslot.trans rfl] at hmc
        cases hmc
      · exact hconn
    have h₁ := h.added hslot hadd
    have h₂ : Watching none s₂ := by
      obtain ⟨E₁, E', hE₁, hendpoints, htrans, hsession, hevent, hforce⟩ := hconn.connected_endpoint
      cases hslot.endpoint.symm.trans hE₁
      have hE' : E'.Watched := by
        refine ⟨htrans, ?_⟩
        rw [hevent, hforce, hfresh.rtcpSendEvent, hfresh.forceRtcp]
        rfl
      have hto := h₁.onEndpoint_but hE₁ hsession hE'
      have hlist : s₂.rtspSessList = s₁.rtspSessList := by cases hconn <;> rfl
      exact hto.of_same (h₁.sound.change hconn) hlist hconn.connected_sessions hendpoints
    -- the session that is registered has the endpoint
    have h₃ : Watching none (s₂.register p env.id isNew) := by
      unfold Server.register
      split_ifs
      · refine ⟨h₂.sound.of_same rfl rfl rfl (fun _ => Iff.rfl) le_rfl, fun rs hrs => ?_, h₂.watched⟩
        rcases List.mem_cons.1 hrs with rfl | hrs
        · refine ⟨{ S with ep := Function.update S.ep j (some e) }, ?_, j, e,
            Function.update_self ..⟩
          dsimp only
          rw [hconn.connected_sessions, hslot.after]
        · exact h₂.registered rs hrs
      · exact h₂
    exact h₃.alike halike

/-- A session starts to play, or a track is woken. -/
theorem Watching.played {p : ℕ} {S : Session} (h : Watching x s)
    (hplayed : Played false p S s s') : Watching x s' := by
  refine hplayed.changes.keeps h (fun _ _ h ha => h.alike ha) fun k hk s s' h hc => ?_
  have hs := h.sound.change hc
  rcases hk with rfl | rfl
  · cases hc with
    | @played _ _ S₁ hS =>
      refine ⟨hs, fun rs hrs => ?_, h.watched⟩
      obtain ⟨S₀, hS₀, hep⟩ := h.registered rs hrs
      by_cases hp : rs.sess = p
      · rw [hp] at hS₀ ⊢
        cases hS.symm.trans hS₀
        exact ⟨{ S₁ with playing := true }, Function.update_self .., hep⟩
      · refine ⟨S₀, ?_, hep⟩
        dsimp only
        rw [Function.update_of_ne hp, hS₀]
  · cases hc
    exact h.of_same hs rfl rfl rfl

/-- Every request: only SETUP makes endpoints, and it connects or deletes them. -/
theorem Watching.handled {c : ℕ} {q : RtspRequest} {code : Option ℕ} (h : Watching none s)
    (hhandled : Handled false c s q code s') : Watching none s' := by
  cases hhandled with
  | answered _ _ halike => exact h.alike halike
  | described _ halike hdown => exact ((h.opened _).alike halike).tornDown hdown
  | announced _ halike => exact (h.opened _).alike halike
  | setupNew _ _ _ _ hsetup => exact (h.opened _).setUp hsetup
  | setupOld _ _ _ _ _ hsetup => exact h.setUp hsetup
  | tornDown _ _ hdown halike => exact (h.tornDown hdown).alike halike
  | played _ hplayed halike => exact (h.played hplayed).alike halike

/-! ## Packets -/

section Packets

variable {e : ℕ} {E : Endpoint}

/-- Every endpoint has a session. -/
theorem Sound.session (h : Sound s) (hE : s.endpoints e = some E) : ∃ p, E.session = some p := by
  obtain ⟨p, -, -, hp, -⟩ := h.covered e E hE
  exact ⟨p, hp⟩

/-- The client has timed out: whether its endpoint was watched does not matter. -/
theorem Watching.endpointDown (h : Watching (some e) s) {E' : Endpoint}
    (hE : s.endpoints e = some E') (hsession : E'.session = E.session)
    (hdown : EndpointDown false e E s s') : Watching none s' := by
  rcases hdown with ⟨hnone, -⟩ | ⟨p, hp, hdown⟩
  · obtain ⟨p, hp⟩ := h.sound.session hE
    rw [hsession, hnone] at hp
    cases hp
  · exact h.gone hE (hsession.trans hp) hdown

/-- **A packet** enables the timer, or the endpoint is gone. -/
theorem Watching.packetSent (h : Watching none s) (hE : s.endpoints e = some E) {len : ℕ} {ok : Bool}
    {w : Sending} (hw : 0 ≤ w.rtcpRet) {r : ℤ × Bool}
    (hsent : PacketSent false e len ok w s E r s') : Watching none s' := by
  have halike := alike_transmit s len E.trans
  have h₁ := h.alike halike
  have hE₁ : (s.transmit len E.trans).1.endpoints e = some E := by rw [halike.endpoints, hE]
  obtain ⟨htrans, hevent⟩ := h.watched e E hE (by simp)
  cases hsent with
  | refused => exact h
  | sent =>
    refine h₁.onEndpoint hE₁ rfl fun _ => ⟨htrans, ?_⟩
    dsimp only [Endpoint.sent]
    rw [hevent]
    cases E.forceRtcp <;> rfl
  | unreported _ _ _ hret => exact absurd hw (not_le.2 hret)
  | timedOut _ _ _ hdown =>
    have h₂ := (h₁.but e).onEndpoint hE₁ (show { E.count len with forceRtcp := false }.session =
      E.session from rfl) fun hx => absurd rfl hx
    exact h₂.endpointDown (Server.onEndpoint_self ..) rfl hdown

/-- The first packet of an endpoint enables its timer; by induction on the packets. -/
theorem Watching.frameSent (h : Watching none s) (hE : s.endpoints e = some E) {w : Sending}
    (hw : 0 ≤ w.rtcpRet) {k : ℕ} {packets : List ℕ} {r : ℤ × List Bool}
    (hsent : FrameSent false e w k packets s E r s') : Watching none s' := by
  induction hsent with
  | done => exact h
  | failed hpacket _ => exact h.packetSent hE hw hpacket
  | next hpacket _ ih => exact ih (h.packetSent hE hw hpacket) (hpacket.endpoint le_rfl).2

/-- What is recorded does not matter. -/
theorem Watching.log (h : Watching none s) (ev : Event) :
    Watching none { s with log := s.log ++ [ev] } :=
  h.of_same (h.sound.of_same rfl rfl rfl (fun _ => Iff.rfl) le_rfl) rfl rfl rfl

/-- What is passed over does not matter. -/
theorem Watching.skipping (h : Watching none s) (es : List ℕ) : Watching none (s.skipping es) :=
  h.of_same (h.sound.of_same rfl rfl rfl (fun _ => Iff.rfl) le_rfl) rfl rfl rfl

/-- `bLostKeyFrame` does not matter. -/
theorem Watching.flag (h : Watching none s) (hE : s.endpoints e = some E) (b : Bool) :
    Watching none (s.onEndpoint e { E with bLostKeyFrame := b }) :=
  h.onEndpoint hE rfl fun hx => h.watched e E hE hx

/-- A frame that is offered is sent, or its flag is set. -/
theorem Watching.frameOffered (h : Watching none s) (hE : s.endpoints e = some E) {d : Delivery}
    {w : Sending} (hw : 0 ≤ w.rtcpRet) (hoffered : FrameOffered false d e w s E s') :
    Watching none s' := by
  cases hoffered with
  | heldKey => exact (h.log _).flag hE true
  | held => exact h.log _
  | key _ _ hsent hE₁ => exact ((h.frameSent hE hw hsent).log _).flag hE₁ _
  | delta _ _ hsent => exact (h.log _).frameSent hE hw hsent

/-- One step of a delivery. -/
theorem Watching.continued (h : Watching none s) {w : Sending} (hw : 0 ≤ w.rtcpRet)
    (hcontinued : Continued false w s s') : Watching none s' := by
  have hto : ∀ {s : Server} (o : Option Delivery), Watching none s → Watching none (s.deliver o) :=
    fun o h => h.of_same (h.sound.of_same rfl rfl rfl (fun _ => Iff.rfl) le_rfl) rfl rfl rfl
  cases hcontinued with
  | idle => exact h
  | left | ended | entered => exact hto _ h
  | passed => exact (hto _ h).skipping _
  | offered _ _ _ _ _ _ _ _ hE hoffered =>
    refine Watching.frameOffered ((hto _ h).skipping _) ?_ hw hoffered
    exact hE
  | multicast _ _ _ _ hE hsent => exact hto _ ((h.log _).frameSent (by exact hE) hw hsent)

end Packets

end Watching

/-! ## Over runs -/

/-- The call of `rtcp_send` that returns no value is not taken for a failure. -/
def RtcpReturns (_ : Server) : ServerAct → Prop
  | .deliver w => 0 ≤ w.rtcpRet
  | _ => True

instance (s : Server) (a : ServerAct) : Decidable (RtcpReturns s a) :=
  match a with
  | .deliver w => inferInstanceAs (Decidable (0 ≤ w.rtcpRet))
  | .accept _ | .read _ _ _ | .close _ | .closeSecond _ | .write _ _ | .jpeg _ _ | .frame _ _ _ _
  | .timer _ _ _ | .udp _ _ _ => inferInstanceAs (Decidable True)

section Runs

variable {s : Server}

/-- The end of a connection. -/
theorem watching_drop (c : ℕ) (h : Watching none s) :
    wp (dropConn false c) (fun _ s' => Watching none s') (fun _ => True) s := by
  refine (wp_dropConn (J := Watching none) (fun _ _ _ _ ha => h.alike ha) fun _ _ _ => ?_).imp
    fun _ s' h' => ?_
  · unfold rtspConnDisconnect
    rw [List.range_eq_range']
    refine keeps_disconnectChannels (I := fun _ s => Watching none s) h
      (fun _ _ _ _ h _ _ _ => h) fun _ _ _ _ _ _ _ _ h _ _ _ _ _ hdown => ?_
    exact h.tornDown hdown
  · obtain ⟨s₁, h₁, rfl⟩ := h'
    exact h₁.of_same (h₁.sound.change (.dropped c)) rfl rfl rfl

/-- Every action of the server keeps the endpoints watched, as long as RTCP reports do not fail. -/
theorem watching_serverAct {a : ServerAct} (h : Watching none s) (hguard : RtcpReturns s a) :
    wp (serverAct false a) (fun _ s' => Watching none s') (fun _ => True) s := by
  refine keeps_liveAct h (fun _ _ h ha => h.alike ha) (fun s s' e h hc => ?_) (fun s s' h hc => ?_)
    (fun s c h => watching_drop c h) ?_ ?_ ?_ ?_ ?_
  · cases hc with
    | noted hE hnoted =>
      refine h.onEndpoint hE hnoted.session fun hx => ?_
      have hwatched := h.watched e _ hE hx
      unfold Endpoint.Watched at hwatched ⊢
      rw [hnoted.trans, hnoted.rtcpSendEvent, hnoted.forceRtcp]
      exact hwatched
  · have hs := h.sound.change hc
    cases hc
    exact h.of_same hs rfl rfl rfl
  · intro c d env C q code s' _ hC _ hhandled
    exact (h.alike (alike_settled hC d)).handled hhandled
  · intro t key packets ok _
    refine (wp_deliverToTrack t key packets ok).imp fun _ s' h' => ?_
    have hto : ∀ {k : Kind} {s s' : Server}, Watching none s → Change false k s s' →
        s'.rtspSessList = s.rtspSessList → s'.sessions = s.sessions →
        s'.endpoints = s.endpoints → Watching none s' :=
      fun h hc hlist hsessions hendpoints =>
        h.of_same (h.sound.change hc) hlist hsessions hendpoints
    rcases h' with rfl | ⟨-, -, s₁, ⟨-, rfl⟩ | ⟨hready, rfl⟩, rfl⟩
    · exact h
    · exact hto h (.delivering _) rfl rfl rfl
    · exact hto (hto h (.readied t hready) rfl rfl rfl) (.delivering _) rfl rfl rfl
  · rintro w rfl
    exact (wp_continueFrame w).imp fun _ s' hcontinued => h.continued hguard hcontinued
  · intro e now ret E _ hE hevent
    refine (wp_rtcpSend now ret hE).seq fun r s' hsent => ?_
    obtain ⟨htrans, hforce⟩ := h.watched e E hE (by simp)
    have h₁ : Watching none (s.onEndpoint e { E with forceRtcp := false }) :=
      h.onEndpoint hE rfl fun _ => ⟨htrans, hevent⟩
    cases hsent with
    | unreported => exact h₁
    | timedOut _ hdown =>
      exact (h₁.but e).endpointDown (Server.onEndpoint_self ..) rfl hdown
  · intro e now E _ hE
    refine (wp_teardownEndpoint false e E s).imp fun _ s' hdown => ?_
    exact (h.but e).endpointDown hE rfl hdown

/-- There are no endpoints at first. -/
theorem Configured.watching (h : Configured s) : Watching none s := by
  refine ⟨h.sound, fun rs hrs => ?_, fun e E hE => ?_⟩
  · rw [h.rtspSessList] at hrs
    cases hrs
  · rw [h.endpoints] at hE
    cases hE

/-- In every reachable state all endpoints are watched. -/
theorem watching_run {blocks : List (List ConfigLine)}
    (h : (liveMachine false blocks).Reachable RtcpReturns s) : Watching none s := by
  refine h.invariant (Watching none) (fun s hs => ?_) fun s a s' os hs hguard ha => ?_
  · obtain ⟨s₀, h₀, hconf⟩ := hs
    exact (configured_of_configure h₀ hconf).watching
  · exact serverStep_ok hs (watching_serverAct hs hguard) ha

/-- **Which sessions are noticed**: when the missing value of `rtcp_send` is not taken for a
failure, something notices that any client is gone if and only if every UDP endpoint of a registered
session has sent its first packet, which clears `force_rtcp`. -/
theorem reapable_iff {blocks : List (List ConfigLine)}
    (h : (liveMachine false blocks).Reachable RtcpReturns s) : Reapable s ↔
      ∀ rs ∈ s.rtspSessList, ∀ S j e E, s.sessions rs.sess = some S → S.ep j = some e →
        s.endpoints e = some E → E.trans = .udp → E.forceRtcp = false := by
  have hwatching := watching_run h
  constructor
  · intro hreap rs hrs S j e E hS he hE htrans
    obtain ⟨S', hS', -, hall⟩ := hreap rs hrs
    cases hS.symm.trans hS'
    obtain ⟨E', hE', hdone⟩ := hall j e he
    cases hE.symm.trans hE'
    rcases hdone with ⟨c, a, b, hinter, -⟩ | ⟨-, hevent⟩
    · rw [htrans] at hinter
      cases hinter
    · have hforce := (hwatching.watched e E hE (by simp)).2
      rw [hevent] at hforce
      simpa using hforce.symm
  · intro hsent rs hrs
    obtain ⟨S, hS, hsome⟩ := hwatching.registered rs hrs
    refine ⟨S, hS, hsome, fun j e he => ?_⟩
    obtain ⟨E, hE, -⟩ := hwatching.sound.live rs.sess S j e hS he
    obtain ⟨htrans, hevent⟩ := hwatching.watched e E hE (by simp)
    refine ⟨E, hE, ?_⟩
    rcases htrans with hudp | ⟨c, a, b, hinter⟩
    · right
      rw [hevent, hsent rs hrs S j e E hS he hE hudp]
      exact ⟨hudp, rfl⟩
    · left
      obtain ⟨-, -, -, C, -, hC, -⟩ := (paired_run h).2.occupies e E c a b hE hinter
      exact ⟨c, a, b, hinter, by simp [hC]⟩

end Runs

/-! ## Clients over UDP -/

/-- A SETUP of the track of `openBlocks` over UDP. -/
def setupUdp : RtspRequest :=
  .setup (some 0) 0 true (some (.udp true)) none (setupEnv "s")

def setupUdpText : Bytes :=
  str "SETUP rtsp://h/cam/track0 RTSP/1.0\r\nTransport: RTP/AVP/UDP;client_port=4000-4001\r\n\r\n"

/-- A PLAY of its session. -/
def playUdp : RtspRequest := .play (some (str "s")) true

def playUdpText : Bytes := str "PLAY rtsp://h/cam RTSP/1.0\r\nSession: s\r\nRange: npt=0.0-\r\n\r\n"

/-- Everything that is sent arrives. -/
def sendingAll : Sending :=
  { stopSend := false, sendmsgOk := fun _ => true, now := ⟨0, 0⟩, rtcpRet := 0 }

/-- The server with one open location starts like this. -/
theorem openServer_init : (liveMachine false openBlocks).Init (configured openBlocks) :=
  configured_init false (by decide +kernel)

/-- A client that plays is noticed behind its first frame. -/
theorem reapable_iff_play : ∃ s, (liveMachine false openBlocks).Run RtcpReturns
    [.accept 3, .read 0 setupUdpText (askEnv setupUdp), .read 0 playUdpText (askEnv playUdp),
      .frame 0 true (fun _ => [100]) true, .deliver sendingAll, .deliver sendingAll]
    [.keyFrame 2 1 [true]] s ∧ s.rtspSessList.map (·.sess) = [1] ∧ Reapable s := by
  obtain ⟨s, hrun, hs⟩ := Machine.Run.of_exec (M := liveMachine false openBlocks)
    (G := RtcpReturns) (fun s => (s.rtspSessList.map (·.sess), s.next,
      (List.range 3).map fun e => (s.endpoints e).map (·.forceRtcp))) openServer_init
    (show ((liveMachine false openBlocks).exec _ (configured openBlocks)
      [.accept 3, .read 0 setupUdpText (askEnv setupUdp), .read 0 playUdpText (askEnv playUdp),
        .frame 0 true (fun _ => [100]) true, .deliver sendingAll, .deliver sendingAll]).map _ =
      some ([.keyFrame 2 1 [true]], [1], 3, [none, none, some false]) by decide +kernel)
  simp only [Prod.mk.injEq] at hs
  obtain ⟨hlist, hnext, hforce⟩ := hs
  refine ⟨s, hrun, hlist, (reapable_iff ⟨_, _, hrun⟩).2 fun rs _ S j e E _ _ hE _ => ?_⟩
  have he : e < 3 := hnext ▸ (watching_run ⟨_, _, hrun⟩).sound.endpoint_lt e E hE
  have hmem := congrArg (·[e]?) hforce
  obtain rfl | rfl | rfl : e = 0 ∨ e = 1 ∨ e = 2 := by omega
  all_goals simp [hE] at hmem
  exact hmem

/-- A client that is gone before its PLAY is not: its connection has ended, and its timer is off. -/
theorem setup_not_reapable : ∃ s, (liveMachine false openBlocks).Run Machine.anyStep
    [.accept 3, .read 0 setupUdpText (askEnv setupUdp), .close 0] [] s ∧
    s.conns 0 = none ∧ s.rtspSessList.map (·.sess) = [1] ∧ ¬ Reapable s := by
  obtain ⟨s, hrun, hs⟩ := Machine.Run.of_exec (M := liveMachine false openBlocks)
    (G := Machine.anyStep) (fun s : Server => (s.rtspSessList.map (·.sess), (s.conns 0).isNone,
      (s.sessions 1).bind (·.ep 0),
      (s.endpoints 2).map fun E : Endpoint => decide (E.trans = .udp) && !E.rtcpSendEvent)) openServer_init
    (show ((liveMachine false openBlocks).exec _ (configured openBlocks)
      [.accept 3, .read 0 setupUdpText (askEnv setupUdp), .close 0]).map _ =
      some ([], [1], true, some 2, some true) by decide +kernel)
  simp only [Prod.mk.injEq] at hs
  obtain ⟨hlist, hconn, hslot, hoff⟩ := hs
  refine ⟨s, hrun, by simpa using hconn, hlist, fun hreap => ?_⟩
  obtain ⟨rs, hrs, hsess⟩ := List.mem_map.1 (show 1 ∈ s.rtspSessList.map (·.sess) by simp [hlist])
  obtain ⟨S, hS, -, hall⟩ := hreap rs hrs
  rw [hsess] at hS
  rw [hS] at hslot
  obtain ⟨E, hE, hdone⟩ := hall 0 2 hslot
  simp only [hE, Option.map_some, Option.some.injEq, Bool.and_eq_true, decide_eq_true_eq,
    Bool.not_eq_true'] at hoff
  rcases hdone with ⟨c, a, b, hinter, -⟩ | ⟨-, hevent⟩
  · rw [hoff.1] at hinter
    cases hinter
  · rw [hoff.2] at hevent
    cases hevent

end Spook
