import Spook.Live.Effect

set_option relaxedAutoImplicit false
set_option autoImplicit false

/-!
# What an RTSP request leaves

The handlers of `rtsp.c` in terms of what they do to the live sessions, with the code of the
response, and the request that a read of a connection hands to them.

## Main definitions

* `Spook.Server.location`, `Server.rtspSession` — what a request names.
* `Spook.Handled` — what the handlers leave.
* `Spook.Conn.rtspRequest`, `Handles` — the request that a read hands over.

## Main results

* `Spook.wp_rtspHandle` — every handler leaves what `Handled` says.
* `Spook.wp_read_rtspRequest`, `Handles.step` — a read that hands a request over.
-/

namespace Spook

/-! ## What a request names -/

/-- The location number `loc`. -/
def Server.location (s : Server) (loc : Option ℕ) : Option RtspLocation :=
  loc.bind (s.rtspLocList[·]?)

/-- The `rtsp_session` of an id. -/
def Server.rtspSession (s : Server) (id : Option Bytes) : Option RtspSession :=
  id.bind fun id => s.rtspSessList.find? (·.id = id)

/-- A SETUP. -/
def RtspRequest.IsSetup : RtspRequest → Prop
  | .setup .. => True
  | .options | .announce .. | .describe .. | .play .. | .pause _ | .teardown .. | .unknown => False

/-- An ANNOUNCE whose URI names a location. -/
def RtspRequest.Announces (s : Server) : RtspRequest → Prop
  | .announce loc _ _ => (s.location loc).isSome
  | .options | .describe .. | .setup .. | .play .. | .pause _ | .teardown .. | .unknown => False

/-- What the handlers leave, by the code of the response. -/
inductive Handled (mc : Bool) (c : ℕ) (s : Server) :
    RtspRequest → Option ℕ → Server → Prop
  /-- The answer is all that is done. -/
  | answered {q : RtspRequest} {code : Option ℕ} {s' : Server} : ¬ q.Announces s →
      (q.IsSetup → code ≠ some 200) → Alike s s' → Handled mc c s q code s'
  | described {loc : Option ℕ} {auth : Bool} {code : Option ℕ} {l : RtspLocation}
      {s₁ s' : Server} : s.location loc = some l → Alike (s.opened l.entry) s₁ →
      TornDown mc s.next none s₁ s' → Handled mc c s (.describe loc auth) code s'
  | announced {loc : Option ℕ} {auth setSdp : Bool} {code : Option ℕ} {l : RtspLocation}
      {s' : Server} : s.location loc = some l → Alike (s.opened l.entry) s' →
      Handled mc c s (.announce loc auth setSdp) code s'
  /-- A SETUP without a session. -/
  | setupNew {loc : Option ℕ} {track : ℤ} {auth : Bool} {t : Transport} {env : SetupEnv}
      {l : RtspLocation} {k : ℕ} {s' : Server} : s.location loc = some l → 0 ≤ track →
      track < maxTracks → (l.realm ≠ [] → auth = true) →
      SetUp mc c s.next track.toNat true t env (s.opened l.entry) k s' →
      Handled mc c s (.setup loc track auth (some t) none env) (some k) s'
  /-- A SETUP of a session that is there. -/
  | setupOld {loc : Option ℕ} {track : ℤ} {auth : Bool} {t : Transport} {id : Bytes}
      {env : SetupEnv} {l : RtspLocation} {rs : RtspSession} {k : ℕ} {s' : Server} :
      s.location loc = some l → 0 ≤ track → track < maxTracks → (l.realm ≠ [] → auth = true) →
      s.rtspSession (some id) = some rs → SetUp mc c rs.sess track.toNat false t env s k s' →
      Handled mc c s (.setup loc track auth (some t) (some id) env) (some k) s'
  | played {id : Option Bytes} {haveStart : Bool} {code : Option ℕ} {rs : RtspSession}
      {S : Session} {s₁ s' : Server} : s.rtspSession id = some rs →
      Played mc rs.sess S s s₁ → Alike s₁ s' → Handled mc c s (.play id haveStart) code s'
  | tornDown {loc : Option ℕ} {track : ℤ} {id : Option Bytes} {code : Option ℕ}
      {rs : RtspSession} {S : Session} {s₁ s' : Server} : s.rtspSession id = some rs →
      s.sessions rs.sess = some S →
      TornDown mc rs.sess (if track < 0 then none else S.ep track.toNat) s s₁ → Alike s₁ s' →
      Handled mc c s (.teardown loc track id) code s'

/-! ## The handlers -/

section Handlers

variable {mc : Bool} {c : ℕ} {s : Server} {r : Reply}

/-- The location of the request. -/
theorem wp_findLocation {loc : Option ℕ} {Q : Option RtspLocation → Server → Prop}
    {E : Fault → Prop} : wp (findLocation loc) Q E s ↔ Q (s.location loc) s := Iff.rfl

/-- The session of the request. -/
theorem wp_getRtspSession {id : Option Bytes} {Q : Option RtspSession → Server → Prop}
    {E : Fault → Prop} : wp (getRtspSession id) Q E s ↔ Q (s.rtspSession id) s := by
  cases id <;> exact Iff.rfl

/-- `live_get_sdp` changes nothing. -/
theorem wp_liveGetSdp (p : ℕ) :
    wp (liveGetSdp p) (fun _ s' => s' = s) (fun _ => True) s := by
  unfold liveGetSdp
  rw [wp_bind, wp_getSession]
  refine ⟨fun S _ => ?_, fun _ => trivial⟩
  rw [wp_bind, wp_get]
  dsimp only
  split
  · trivial
  · split <;> exact rfl

/-- An answer, and nothing else. -/
theorem wp_answered {q : RtspRequest} {k : ℕ} (h : ¬ q.Announces s) (hk : q.IsSetup → k ≠ 200) :
    wp (rtspAnswer c r k) (fun code s' => Handled mc c s q code s') (fun _ => True) s :=
  (wp_rtspAnswer c r k s).imp fun code s' h' =>
    .answered h (fun hq => by simpa [h'.1] using hk hq) h'.2

/-- DESCRIBE opens a session and tears it down again. -/
theorem wp_handleDescribe (loc : Option ℕ) (auth : Bool) :
    wp (handleDescribe mc c r loc auth)
      (fun code s' => Handled mc c s (.describe loc auth) code s') (fun _ => True) s := by
  unfold handleDescribe
  rw [wp_bind, wp_findLocation]
  cases hl : s.location loc with
  | none => exact wp_answered id fun h => h.elim
  | some l =>
    have hend : ∀ k, wp (do
        let code ← rtspAnswer c r k
        liveTeardown mc s.next none
        return code) (fun code s' => Handled mc c s (.describe loc auth) code s') (fun _ => True)
        (s.opened l.entry) := by
      intro k
      refine (wp_rtspAnswer c r k _).seq fun code s₁ h => ?_
      rw [wp_bind]
      exact (wp_liveTeardown s.next none).imp fun _ s' h' => .described hl h.2 h'
    refine (wp_liveOpen l.entry s).seq fun p s₁ h => ?_
    obtain ⟨rfl, rfl⟩ := h
    rw [wp_ite]
    refine ⟨fun _ => hend 401, fun _ => ?_⟩
    refine (wp_liveGetSdp s.next).seq fun n s₁ h => ?_
    subst h
    exact hend _

/-- ANNOUNCE opens a session and keeps it. -/
theorem wp_handleAnnounce (loc : Option ℕ) (auth setSdp : Bool) :
    wp (handleAnnounce c r loc auth setSdp)
      (fun code s' => Handled mc c s (.announce loc auth setSdp) code s') (fun _ => True) s := by
  unfold handleAnnounce
  rw [wp_bind, wp_findLocation]
  cases hl : s.location loc with
  | none =>
    refine wp_answered (fun h => ?_) fun h => h.elim
    simp [RtspRequest.Announces, hl] at h
  | some l =>
    refine (wp_liveOpen l.entry s).seq fun p s₁ h => ?_
    obtain ⟨rfl, rfl⟩ := h
    rw [wp_ite, wp_ite]
    refine ⟨fun _ => ?_, fun _ => ⟨fun _ => trivial, fun _ => .announced hl (refl _)⟩⟩
    exact (wp_rtspAnswer c r 401 _).imp fun code s' h => .announced hl h.2

/-- SETUP opens a session or finds one, and adds an endpoint. -/
theorem wp_handleSetup {C : Conn} (hC : s.conns c = some C) (hproto : C.proto = .rtsp)
    (loc : Option ℕ) (track : ℤ) (auth : Bool) (transport : Option Transport)
    (id : Option Bytes) (env : SetupEnv) :
    wp (handleSetup mc c r loc track auth transport id env)
      (fun code s' => Handled mc c s (.setup loc track auth transport id env) code s')
      (fun _ => True) s := by
  have hanswer : ∀ k, k ≠ 200 → wp (rtspAnswer c r k)
      (fun code s' => Handled mc c s (.setup loc track auth transport id env) code s')
      (fun _ => True) s :=
    fun k hk => wp_answered (fun h => h) fun _ => hk
  unfold handleSetup
  rw [wp_bind, wp_findLocation]
  cases hl : s.location loc with
  | none => exact hanswer 404 (by decide)
  | some l =>
    dsimp only
    rw [wp_ite, wp_ite]
    refine ⟨fun _ => hanswer 404 (by decide), fun htrack => ⟨fun _ => hanswer 401 (by decide),
      fun hauth => ?_⟩⟩
    have hlow : 0 ≤ track := by omega
    have hhigh : track < maxTracks := by omega
    have hauth : l.realm ≠ [] → auth = true := fun h => by simpa [h] using hauth
    cases transport with
    | none => exact hanswer 461 (by decide)
    | some t =>
      cases id with
      | none =>
        refine (wp_liveOpen l.entry s).seq fun p s₁ h => ?_
        obtain ⟨rfl, rfl⟩ := h
        refine (wp_setupTrack (s := s.opened l.entry) true t env hC hproto).imp fun code s' h => ?_
        obtain ⟨k, rfl, h⟩ := h
        exact .setupNew hl hlow hhigh hauth h
      | some id =>
        dsimp only
        rw [wp_bind, wp_getRtspSession]
        cases hrs : s.rtspSession (some id) with
        | none => exact hanswer 454 (by decide)
        | some rs =>
          refine (wp_setupTrack false t env hC hproto).imp fun code s' h => ?_
          obtain ⟨k, rfl, h⟩ := h
          exact .setupOld hl hlow hhigh hauth hrs h

/-- The `RTP-Info` only reads. -/
theorem wp_rtpInfo (p : ℕ) (is : List ℕ) :
    wp (rtpInfo p is) (fun _ s' => s' = s) (fun _ => True) s := by
  induction is with
  | nil => exact rfl
  | cons i is ih =>
    unfold rtpInfo
    rw [wp_bind, wp_getSession]
    refine ⟨fun S _ => ?_, fun _ => trivial⟩
    cases S.ep i with
    | none => exact ih
    | some e =>
      dsimp only
      rw [wp_bind, wp_getEndpoint]
      exact ⟨fun _ _ => ih, fun _ => trivial⟩

/-- PLAY of a listed session. -/
theorem wp_handlePlay (id : Option Bytes) (haveStart : Bool) :
    wp (handlePlay c r id haveStart)
      (fun code s' => Handled mc c s (.play id haveStart) code s') (fun _ => True) s := by
  unfold handlePlay
  rw [wp_bind, wp_getRtspSession]
  cases hrs : s.rtspSession id with
  | none => exact wp_answered (fun h => h) fun h => h.elim
  | some rs =>
    refine (wp_livePlay mc rs.sess haveStart).seq fun start s₁ h => ?_
    obtain ⟨S, h⟩ := h
    have hanswer : wp (rtspAnswer c r 200)
        (fun code s' => Handled mc c s (.play id haveStart) code s') (fun _ => True) s₁ :=
      (wp_rtspAnswer c r 200 s₁).imp fun code s' h' => .played hrs h h'.2
    rw [wp_bind, wp_ite]
    refine ⟨fun _ => (wp_rtpInfo rs.sess _).imp fun _ s₂ h₂ => ?_, fun _ => hanswer⟩
    rw [h₂]
    exact hanswer

/-- **TEARDOWN** of what is there, and of what is not. -/
theorem wp_handleTeardown_torn (loc : Option ℕ) (track : ℤ) (id : Option Bytes) :
    wp (handleTeardown mc c r loc track id) (fun _ s' =>
      (∃ rs S s₁, (s.location loc).isSome ∧ track < maxTracks ∧ s.rtspSession id = some rs ∧
        s.sessions rs.sess = some S ∧
        TornDown mc rs.sess (if track < 0 then none else S.ep track.toNat) s s₁ ∧ Alike s₁ s') ∨
      ¬ ((s.location loc).isSome ∧ track < maxTracks ∧ (s.rtspSession id).isSome) ∧ Alike s s')
      (fun _ => True) s := by
  have hanswer : ∀ k, wp (rtspAnswer c r k) (fun _ s' => Alike s s') (fun _ => True) s :=
    fun k => (wp_rtspAnswer c r k s).imp fun _ s' h => h.2
  unfold handleTeardown
  rw [wp_bind, wp_findLocation]
  cases hl : s.location loc with
  | none => exact (hanswer 404).imp fun _ s' h => .inr ⟨fun h => Bool.noConfusion h.1, h⟩
  | some l =>
    dsimp only
    rw [wp_ite]
    refine ⟨fun hhigh => ?_, fun hlow => ?_⟩
    · exact (hanswer 404).imp fun _ s' h => .inr ⟨fun h => absurd h.2.1 (not_lt.2 hhigh), h⟩
    rw [wp_bind, wp_getRtspSession]
    cases hrs : s.rtspSession id with
    | none => exact (hanswer 454).imp fun _ s' h => .inr ⟨fun h => Bool.noConfusion h.2.2, h⟩
    | some rs =>
      dsimp only
      rw [wp_bind, wp_getSession]
      refine ⟨fun S hS => ?_, fun _ => trivial⟩
      refine (wp_liveTeardown rs.sess _).seq fun _ s₁ h => ?_
      refine (wp_rtspAnswer c r 200 s₁).imp fun code s' h' => .inl ?_
      exact ⟨rs, S, s₁, rfl, not_le.1 hlow, rfl, hS, h, h'.2⟩

/-- TEARDOWN of a listed session, or of one of its endpoints. -/
theorem wp_handleTeardown (loc : Option ℕ) (track : ℤ) (id : Option Bytes) :
    wp (handleTeardown mc c r loc track id)
      (fun code s' => Handled mc c s (.teardown loc track id) code s') (fun _ => True) s := by
  refine (wp_handleTeardown_torn loc track id).imp fun code s' h => ?_
  rcases h with ⟨rs, S, s₁, -, -, hrs, hS, h, halike⟩ | ⟨-, halike⟩
  · exact .tornDown hrs hS h halike
  · exact .answered (fun h => h) (fun h => h.elim) halike

/-- **Requests.** Every handler leaves what `Handled` says. -/
theorem wp_rtspHandle {C : Conn} (hC : s.conns c = some C) (hproto : C.proto = .rtsp)
    (q : RtspRequest) :
    wp (rtspHandle mc c r q) (fun code s' => Handled mc c s q code s') (fun _ => True) s := by
  cases q with
  | options | unknown => exact wp_answered (fun h => h) fun h => h.elim
  | announce loc auth setSdp => exact wp_handleAnnounce loc auth setSdp
  | describe loc auth => exact wp_handleDescribe loc auth
  | setup loc track auth transport id env =>
    exact wp_handleSetup hC hproto loc track auth transport id env
  | play id haveStart => exact wp_handlePlay id haveStart
  | pause id =>
    unfold rtspHandle handlePause
    rw [wp_bind, wp_getRtspSession]
    cases s.rtspSession id <;> exact wp_answered (fun h => h) fun h => h.elim
  | teardown loc track id => exact wp_handleTeardown loc track id

end Handlers

/-! ## The request of a read -/

/-- The request that a read of an RTSP connection hands to `rtsp_handle_msg`. -/
def Conn.rtspRequest (C : Conn) (d : Bytes) (env : ReadEnv) : Option RtspRequest :=
  if C.parses d ∧ settle (C.receive d).proto (C.receive d).reqBuf = (.rtsp, .request) then
    match readRequest env.blank (C.receive d).reqBuf with
    | .ok (some (m, method, uri)) => some (env.rtsp m method uri)
    | .ok none | .error _ => none
  else none

section Read

variable {mc : Bool} {c : ℕ} {s : Server} {C : Conn} {d : Bytes} {env : ReadEnv} {q : RtspRequest}

/-- The connection that a request comes from speaks RTSP. -/
theorem Conn.settled_proto (hq : C.rtspRequest d env = some q) : (C.settled d).proto = .rtsp := by
  unfold rtspRequest at hq
  split_ifs at hq with h
  exact congrArg Prod.fst h.2

/-- **A request.** What a read does that hands one over. -/
theorem wp_read_rtspRequest {Q : Unit → Server → Prop} {F : Fault → Prop}
    (hC : s.conns c = some C) (hq : C.rtspRequest d env = some q) :
    wp (readChunk (connOps mc c env) d) Q F s ↔
      wp (rtspHandle mc c env.reply q) (fun _ s' =>
        wp (modifyConn c fun C => { C with reqBuf := [] }) Q F s') F (s.setConn c (C.settled d)) := by
  unfold Conn.rtspRequest at hq
  split_ifs at hq with h
  obtain ⟨⟨hfull, h64⟩, hsettle⟩ := h
  rw [wp_readChunk hC, if_neg hfull, if_neg h64, hsettle]
  have hproto : (C.settled d).proto = .rtsp := congrArg Prod.fst hsettle
  have hbuf : (C.settled d).reqBuf = (C.receive d).reqBuf := rfl
  rcases hread : readRequest env.blank (C.receive d).reqBuf with e | _ | ⟨m, method, uri⟩ <;>
    rw [hread] at hq
  · cases hq
  · cases hq
  obtain rfl := Option.some.inj hq
  unfold settledRound handleRequest
  simp [hbuf, hread, hproto]

/-- In `s` a read of the connection `c` hands over the request `q`, whose handler answers with
`code` and leaves `s'`. -/
def Handles (mc : Bool) (s : Server) (c : ℕ) (d : Bytes) (env : ReadEnv) (q : RtspRequest)
    (code : Option ℕ) (s' : Server) : Prop :=
  ∃ C, s.conns c = some C ∧ C.rtspRequest d env = some q ∧
    (rtspHandle mc c env.reply q).run (s.setConn c (C.settled d)) = .ok (code, s')

/-- The outside of a read, where every text is read as the request `q`. -/
def askEnv (q : RtspRequest) : ReadEnv :=
  { blank := zeroMsg, rtsp := fun _ _ _ => q, reply := ⟨0, 0⟩, now := ⟨0, 0⟩ }

/-- A read that hands over a request hands over the one that is asked. -/
theorem Conn.rtspRequest_askEnv (h : (C.rtspRequest d (askEnv q)).isSome) :
    C.rtspRequest d (askEnv q) = some q := by
  obtain ⟨q', hq'⟩ := Option.isSome_iff_exists.1 h
  have heq := hq'
  unfold rtspRequest at heq
  split_ifs at heq
  split at heq
  · rw [hq', ← heq]
    rfl
  · cases heq
  · cases heq

/-- The execution of a handler. What is to be known of its outcome can be read off it by `f`. -/
def handleOf {β : Type} (f : Option ℕ → Server → β) (mc : Bool) (s : Server) (c : ℕ) (d : Bytes)
    (q : RtspRequest) : Option β :=
  (s.conns c).bind fun C =>
    if (C.rtspRequest d (askEnv q)).isSome then
      match (rtspHandle mc c (askEnv q).reply q).run (s.setConn c (C.settled d)) with
      | .ok (code, s') => some (f code s')
      | .error _ => none
    else none

/-- What the handler computes is what the run of the handler gives. -/
theorem Handles.of_handleOf {β : Type} {f : Option ℕ → Server → β} {x : β}
    (h : handleOf f mc s c d q = some x) :
    ∃ code s', Handles mc s c d (askEnv q) q code s' ∧ f code s' = x := by
  unfold handleOf at h
  obtain ⟨C, hC, h⟩ := Option.bind_eq_some_iff.1 h
  split_ifs at h with hread
  have hq : C.rtspRequest d (askEnv q) = some q := Conn.rtspRequest_askEnv hread
  split at h
  · rename_i code s' hrun
    exact ⟨code, s', ⟨C, hC, hq, hrun⟩, Option.some.inj h⟩
  · cases h

variable {code : Option ℕ} {s' : Server}

/-- A request that is handled leaves what `Handled` says, by its code. -/
theorem Handles.handled (h : Handles mc s c d env q code s') :
    ∃ C, s.conns c = some C ∧ Handled mc c (s.setConn c (C.settled d)) q code s' := by
  obtain ⟨C, hC, hq, hrun⟩ := h
  exact ⟨C, hC, (wp_rtspHandle (s.setConn_conns_self c _) (Conn.settled_proto hq) q).ok hrun⟩

/-- The step of the server in which a request is handled. -/
theorem Handles.step {s'' : Server} {os : List Event} (h : Handles mc s c d env q code s')
    (hidle : s.delivery = none) (hstep : serverStep mc s (.read c d env) = .ok (s'', os)) :
    Alike s' s'' := by
  obtain ⟨C, hC, hq, hrun⟩ := h
  have hact : wp (serverAct mc (.read c d env)) (fun _ s'' => Alike s' s'') (fun _ => True) s := by
    unfold serverAct
    rw [wp_bind, wp_get, wp_ite]
    refine ⟨fun _ => (wp_read_rtspRequest hC hq).2 ?_, fun hno => ?_⟩
    · unfold wp
      rw [hrun]
      exact (wp_modifyConn_alike (f := fun C => { C with reqBuf := [] })
        fun C _ => ⟨id, .inl rfl⟩).imp fun _ _ h => h.2
    · exact absurd (by simp [Server.hasConn, hC]) hno
  unfold serverStep at hstep
  rw [if_pos (by simp [Server.enabled, hidle])] at hstep
  rcases hr : (serverAct mc (.read c d env)).run s with e | ⟨u, s₁⟩ <;> rw [hr] at hstep <;>
    cases hstep
  exact hact.ok hr

end Read

end Spook
