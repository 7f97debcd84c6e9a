import Spook.Live.Outcome

set_option relaxedAutoImplicit false
set_option autoImplicit false

/-!
# What every event does to the tracks

The requests, the reads and the writes of a unicast server leave what `Happens` says, and so do all
events.

## Main results

* `Spook.SetUp.happens`, `Played.happens` — SETUP and PLAY.
* `Spook.wp_rtspHandle_happens` — every request.
* `Spook.wp_serverAct_happens` — every event.

## Notes on the design

`Happens` forgets what does not concern the tracks: it tells apart the events that only lose
endpoints, those that add one, those that wake a track and those that stop one. What `waiting` and
the deletion of endpoints need is then read off these few cases.
-/

namespace Spook

/-! ## Requests -/

section Requests

variable {s s' : Server}

/-- A read that hands over a request does not end its connection. -/
theorem Conn.not_readDrops {C : Conn} {d : Bytes} {env : ReadEnv} {q : RtspRequest}
    (hq : C.rtspRequest d env = some q) : ¬ C.ReadDrops d env := by
  unfold Conn.rtspRequest at hq
  split_ifs at hq with h
  obtain ⟨hparses, hsettle⟩ := h
  rintro (hfull | ⟨-, hbad | ⟨-, hnone⟩⟩)
  · exact hparses.1 hfull
  · rw [hsettle] at hbad
    cases hbad
  · rw [hnone] at hq
    cases hq

/-- With a request, the event frees what the request does. -/
theorem frees_request_iff {c e : ℕ} {C : Conn} {d : Bytes} {env : ReadEnv} {q : RtspRequest}
    (hC : s.conns c = some C) (hq : C.rtspRequest d env = some q) :
    (ServerAct.read c d env).Frees s e ↔ q.Frees s e := by
  constructor
  · intro h
    cases h with
    | dropped hdrops =>
      obtain ⟨rfl, C', hC', hdrops⟩ := hdrops
      cases hC.symm.trans hC'
      exact absurd hdrops (Conn.not_readDrops hq)
    | tornDown hC' hq' h =>
      cases hC.symm.trans hC'
      cases hq.symm.trans hq'
      exact h
  · exact .tornDown hC hq

/-- A transport that is refused. -/
theorem wp_setupTransport_refused {c e : ℕ} {C : Conn} {E : Endpoint} {t : Transport} {env : SetupEnv}
    (hC : s.conns c = some C) (hE : s.endpoints e = some E) (htrans : E.trans = .none)
    (hrefused : t.Refused C env) :
    wp (setupTransport c e t env) (fun ret _ => ret < 0) (fun _ => True) s := by
  unfold setupTransport
  rw [wp_bind, wp_getEndpoint]
  refine ⟨fun E' hE' => ?_, fun _ => trivial⟩
  obtain rfl : E = E' := Option.some.inj (hE.symm.trans hE')
  rw [htrans]
  cases t with
  | unknown => exact (by decide : (-1 : ℤ) < 0)
  | udp clientPort =>
    dsimp only
    unfold rtspUdpSetup
    rw [wp_ite]
    refine ⟨fun hyes => ?_, fun _ => (by decide : (-1 : ℤ) < 0)⟩
    have hno : (clientPort && env.udpConnect) = false := hrefused
    rw [hno] at hyes
    cases hyes
  | tcp channels =>
    dsimp only
    unfold rtspInterleaveSetup getRtspConn
    rw [wp_bind, wp_bind, wp_getConn]
    refine ⟨fun C' hC' => ?_, fun _ => trivial⟩
    obtain rfl : C = C' := Option.some.inj (hC.symm.trans hC')
    unfold Transport.Refused at hrefused
    cases hp : C.protoState with
    | stream p => trivial
    | null | rtspConn ichan =>
      rw [hp] at hrefused
      dsimp only [ProtoState.rtsp] at hrefused ⊢
      rw [wp_pure]
      rcases hpick : pickChannels _ channels with _ | ⟨a, b⟩
      · exact (by decide : (-1 : ℤ) < 0)
      · rw [hpick] at hrefused
        dsimp only
        rw [wp_ite]
        refine ⟨fun _ => (by decide : (-1 : ℤ) < 0), fun hyes => absurd ?_ hyes⟩
        rcases hrefused with hnone | ⟨hnone, halloc⟩
        · cases hnone
        · simp [hnone, halloc]

/-- A SETUP whose transport is refused does not succeed. -/
theorem wp_setupTrack_refused {c p j : ℕ} {C : Conn} {r : Reply} (isNew : Bool) {t : Transport}
    {env : SetupEnv} (hC : s.conns c = some C) (hrefused : t.Refused C env) :
    wp (setupTrack false c r p j isNew t env) (fun code _ => code ≠ some 200) (fun _ => True) s := by
  unfold setupTrack
  rw [wp_bind, wp_getSession]
  refine ⟨fun S hS => ?_, fun _ => trivial⟩
  rw [wp_ite]
  refine ⟨fun _ => (wp_rtspAnswer c r 461 s).imp fun code s' h => by simp [h.1], fun hj => ?_⟩
  have hj : S.ep j = none := by simpa using hj
  refine (wp_liveSetup hS hj).seq fun ret s₁ h => ?_
  rw [wp_ite]
  refine ⟨fun _ => ?_, fun _ => ?_⟩
  · refine (wp_rtspAnswer c r 404 s₁).seq fun code s₂ h => ?_
    obtain ⟨rfl, -⟩ := h
    rw [wp_bind, wp_ite]
    exact ⟨fun _ => (wp_liveTeardown p none).imp fun _ _ _ => by simp, fun _ => by simp⟩
  · rw [wp_bind, wp_getSession]
    refine ⟨fun S₁ hS₁ => ?_, fun _ => trivial⟩
    rcases h with rfl | ⟨-, hadd⟩
    · obtain rfl : S = S₁ := Option.some.inj (hS.symm.trans hS₁)
      rw [hj]
      trivial
    obtain ⟨S', e, E, hslot⟩ := hadd.slotAdded
    obtain rfl := Option.some.inj (hslot.after.symm.trans hS₁)
    have hC₁ : s₁.conns c = some C := by rw [hadd.added_conns, hC]
    have he : Function.update S'.ep j (some e) j = some e := Function.update_self ..
    dsimp only
    rw [he]
    refine (wp_setupTransport_refused hC₁ hslot.endpoint (hslot.trans rfl) hrefused).seq
      fun ret s₂ hret => ?_
    rw [wp_ite]
    refine ⟨fun _ => ?_, fun h => absurd hret h⟩
    refine (wp_rtspAnswer c r 461 s₂).seq fun code s₃ h => ?_
    obtain ⟨rfl, -⟩ := h
    rw [wp_bind, wp_getSession]
    refine ⟨fun S₃ _ => ?_, fun _ => trivial⟩
    rw [wp_bind]
    exact (wp_liveTeardown p _).imp fun _ _ _ => by simp

/-- SETUP is not answered with 200 where the connection refuses the transport. -/
theorem wp_handleSetup_refused {c : ℕ} {C : Conn} {r : Reply} (loc : Option ℕ) (track : ℤ)
    (auth : Bool) {t : Transport} (id : Option Bytes) {env : SetupEnv} (hC : s.conns c = some C)
    (hrefused : t.Refused C env) :
    wp (handleSetup false c r loc track auth (some t) id env) (fun code _ => code ≠ some 200)
      (fun _ => True) s := by
  have hanswer : ∀ k, k ≠ 200 → wp (rtspAnswer c r k) (fun code _ => code ≠ some 200)
      (fun _ => True) s :=
    fun k hk => (wp_rtspAnswer c r k s).imp fun code s' h => by simpa [h.1] using hk
  unfold handleSetup
  rw [wp_bind, wp_findLocation]
  cases s.location loc with
  | none => exact hanswer 404 (by decide)
  | some l =>
    dsimp only
    rw [wp_ite, wp_ite]
    refine ⟨fun _ => hanswer 404 (by decide), fun _ => ⟨fun _ => hanswer 401 (by decide), fun _ => ?_⟩⟩
    cases id with
    | none =>
      refine (wp_liveOpen l.entry s).seq fun p s₁ h => ?_
      obtain ⟨rfl, rfl⟩ := h
      exact wp_setupTrack_refused (s := s.opened l.entry) true hC hrefused
    | some id =>
      dsimp only
      rw [wp_bind, wp_getRtspSession]
      cases s.rtspSession (some id) with
      | none => exact hanswer 454 (by decide)
      | some rs => exact wp_setupTrack_refused false hC hrefused

/-- **`live_setup`** puts an endpoint on a track. -/
theorem Change.on_added {p j : ℕ} (h : Change false (.added p j) s s') :
    ∃ S t, s.sessions p = some S ∧ S.ep j = none ∧ (s.entries S.liventry).tracklist j = some t ∧
      (s.tracks t).rtp ≠ none ∧ s'.tracks = s.tracks ∧
      s'.sessions p = some { S with ep := Function.update S.ep j (some s.next) } ∧
      ∀ t' n b e, s'.On t' n b e ↔
        s.On t' n b e ∨ t' = t ∧ n = S.liventry ∧ b = S.playing ∧ e = s.next := by
  cases h with
  | shared hmc | newShared hmc => cases hmc
  | @added _ p j t S E _ hS hfree ht hrtp =>
    refine ⟨S, t, hS, hfree, ht, hrtp, rfl, Function.update_self .., fun t' n b e => ⟨?_, ?_⟩⟩
    · rintro ⟨p', S', i, hS', hentry, hplay, he, ht'⟩
      dsimp only [Server.setSlot] at hS'
      rw [Function.update_apply] at hS'
      split_ifs at hS' with hp
      · cases hS'
        dsimp only at hentry hplay he
        rw [Function.update_apply] at he
        split_ifs at he with hi
        · subst hi
          subst hentry
          exact .inr ⟨Option.some.inj (ht'.symm.trans ht), rfl, hplay.symm, (Option.some.inj he).symm⟩
        · exact .inl ⟨p, S, i, hS, hentry, hplay, he, ht'⟩
      · exact .inl ⟨p', S', i, hS', hentry, hplay, he, ht'⟩
    · rintro (⟨p', S', i, hS', hentry, hplay, he, ht'⟩ | ⟨rfl, rfl, rfl, rfl⟩)
      · by_cases hp : p' = p
        · subst hp
          cases hS.symm.trans hS'
          refine ⟨p', _, i, Function.update_self .., hentry, hplay, ?_, ht'⟩
          dsimp only
          rw [Function.update_of_ne, he]
          rintro rfl
          rw [hfree] at he
          cases he
        · exact ⟨p', S', i, by rw [← hS']; exact Function.update_of_ne hp .., hentry, hplay, he, ht'⟩
      · exact ⟨p, _, j, Function.update_self .., rfl, rfl, Function.update_self .., ht⟩

/-- A teardown takes endpoints from tracks. -/
theorem TornDown.loses (hs : Sound s) {p : ℕ} {ep : Option ℕ} (h : TornDown false p ep s s') :
    Loses s s' := by
  refine h.steps.loses hs ?_
  rintro k (⟨e, rfl, -⟩ | rfl) <;> exact id

/-- **SETUP** adds an endpoint, or adds and frees one. `s₀` is the state before the session was
opened, if it is new.

**Proof sketch.** By the way the SETUP ends. Without an endpoint nothing is heard that was not
before. Where the transport is refused, the endpoint that was added is freed again, so that only the
track that the slot has may have been stopped. Where it is done, exactly the new endpoint is on its
track. -/
theorem SetUp.happens {s₀ : Server} {a : ServerAct} {c p j k : ℕ} {isNew : Bool} {t : Transport}
    {env : SetupEnv} (hs : Sound s) (hon : ∀ t n b e, s.On t n b e ↔ s₀.On t n b e)
    (htracks : s.tracks = s₀.tracks) (hendpoints : s.endpoints = s₀.endpoints)
    (hnone : isNew = true → ∃ S, s.sessions p = some S ∧ ∀ j, S.ep j = none)
    (hfrees : ∀ e, ¬ a.Frees s₀ e)
    (hadds : ∀ S k', s.sessions p = some S → S.ep j = none →
      (s.entries S.liventry).tracklist j = some k' → (s.tracks k').rtp ≠ none →
      (S.playing = true → k = 200 → s₀.Joins k' a) ∧
        ∀ C, s.conns c = some C → t.Refused C env → s₀.Refuses k' a)
    (h : SetUp false c p j isNew t env s k s') : Happens s₀ a s' := by
  have hbase : Loses s₀ s := .of_on hon htracks
  have hkept : ∀ {s' : Server}, Alike s s' → Happens s₀ a s' := by
    intro s' halike
    refine .loses (hbase.trans (.alike halike)) fun e E hE => iff_of_false ?_ (hfrees e)
    rw [halike.endpoints, hendpoints, hE]
    simp
  cases h with
  | taken _ _ halike => exact hkept halike
  | refused _ halike => exact hkept halike
  | @refusedNew s₁ _ hnew halike hdown =>
    have hs₁ := hs.alike halike
    obtain ⟨S, hS, hbare⟩ := hnone hnew
    refine .loses ((hbase.trans (.alike halike)).trans (hdown.loses hs₁)) fun e E hE =>
      iff_of_false (fun hgone => ?_) (hfrees e)
    have hE₁ : s₁.endpoints e = some E := by rw [halike.endpoints, hendpoints, hE]
    rw [hdown.freed_iff hs₁ (by rw [halike.sessions, hS]) hE₁] at hgone
    obtain ⟨⟨i, hi⟩, -⟩ := hgone
    rw [hbare i] at hi
    cases hi
  | @unconnected s₁ s₂ _ S C e E hadd hslot htrans hC hrefused halike hdown =>
    obtain ⟨S', k', hS', hfree, ht, hrtp, htracks₁, hafter, hon₁⟩ := hadd.on_added
    obtain rfl : e = s.next := by
      have hep := congrArg (fun S : Session => S.ep j) (Option.some.inj (hslot.after.symm.trans hafter))
      simpa using hep
    have hs₂ : Sound s₂ := (hs.change hadd).alike halike
    have hs' : Sound s' := hs₂.steps hdown.steps
    have hE₂ : s₂.endpoints s.next = some E := by rw [halike.endpoints, hslot.endpoint]
    have hloses : Loses s₁ s' := (Loses.alike halike).trans (hdown.loses hs₂)
    have hfreed : ∀ e' E', s₂.endpoints e' = some E' → (s'.endpoints e' = none ↔ e' = s.next) := by
      intro e' E' hE'
      rw [hdown.freed_iff hs₂ (by rw [halike.sessions, hafter]) hE']
      constructor
      · rintro ⟨-, hnone | heq⟩
        · cases hnone
        · exact (Option.some.inj heq).symm
      · rintro rfl
        exact ⟨⟨j, Function.update_self ..⟩, .inr rfl⟩
    have hon' : ∀ t n b e, s'.On t n b e ↔ s.On t n b e := by
      intro t n b e
      constructor
      · intro h
        rcases (hon₁ ..).1 (hloses.on _ _ _ _ h) with h' | ⟨rfl, rfl, rfl, rfl⟩
        · exact h'
        · obtain ⟨E', hE'⟩ := hs'.on_some h
          rw [(hfreed _ E hE₂).2 rfl] at hE'
          cases hE'
      · intro h
        obtain ⟨E', hE'⟩ := hs.on_some h
        have hnew : e ≠ s.next := (hs.endpoint_lt e E' hE').ne
        have h₁ : s₁.On t n b e := (hon₁ ..).2 (.inl h)
        by_contra hnot
        have hgone := hloses.gone (hs.change hadd) hs' h₁ hnot
        obtain ⟨E₁, hE₁⟩ := (hs.change hadd).on_some h₁
        exact hnew ((hfreed e E₁ (by rw [halike.endpoints, hE₁])).1 hgone)
    refine .refused (t := k') ((hadds S' k' hS' hfree ht hrtp).2 C hC hrefused) (fun t n b e =>
      (hon' ..).trans (hon ..)) (fun t' => ?_) (fun t' => ?_) fun t' => ?_
    · rw [hloses.ready, htracks₁, htracks]
    · rw [hloses.rtp, htracks₁, htracks]
    · rcases hloses.srcstream t' with ⟨heq, -⟩ | ⟨hstopped, hheard, hkeeps⟩
      · exact .inl (by rw [heq, htracks₁, htracks])
      · by_cases htt : t' = k'
        · subst htt
          refine .inr ⟨rfl, hstopped, fun hheard' => hheard ?_⟩
          obtain ⟨n, hn, e', h⟩ := hheard'
          rw [← htracks, ← htracks₁, ← hloses.entrylist] at hn
          exact ⟨n, hn, e', (hon' ..).2 ((hon ..).2 h)⟩
        · refine absurd (fun n b e h => (hon' ..).2 ?_) hkeeps
          exact ((hon₁ ..).1 h).resolve_right fun h => htt h.1
  | @done s₁ s₂ _ S e E hadd hslot hconn halike =>
    obtain ⟨S', k', hS', hfree, ht, hrtp, htracks₁, -, hon₁⟩ := hadd.on_added
    have hsame : s₂.sessions = s₁.sessions ∧ s₂.entries = s₁.entries ∧ s₂.tracks = s₁.tracks := by
      rcases hconn with ⟨-, rfl⟩ | hconn
      · exact ⟨rfl, rfl, rfl⟩
      · cases hconn <;> exact ⟨rfl, rfl, rfl⟩
    obtain ⟨hsessions, hentries, htracks₂⟩ := hsame
    have hregister : (s₂.register p env.id isNew).sessions = s₂.sessions ∧
        (s₂.register p env.id isNew).entries = s₂.entries ∧
        (s₂.register p env.id isNew).tracks = s₂.tracks := by
      unfold Server.register
      split_ifs <;> exact ⟨rfl, rfl, rfl⟩
    refine .added (t := k') (n := S'.liventry) (e := s.next) (b := S'.playing) (fun hplay =>
      (hadds S' k' hS' hfree ht hrtp).1 hplay rfl) ?_ fun t' n b e => ?_
    · rw [halike.tracks, hregister.2.2, htracks₂, htracks₁, htracks]
    · have hon₂ : s'.On t' n b e ↔ s₁.On t' n b e := by
        refine Server.on_congr ?_ fun m => ?_
        · rw [halike.sessions, hregister.1, hsessions]
        · rw [halike.entries, hregister.2.1, hentries]
      rw [hon₂, hon₁, hon]

/-- What wakes tracks wakes those that a session plays. -/
theorem Steps.awoken (h : Steps false {.woken} s s') : Awoken s s' ∧ ∀ t,
    (s'.tracks t).ready = (s.tracks t).ready ∧
      ((s'.tracks t).srcstream = some true → (s.tracks t).srcstream = some true ∨ s.Active t) := by
  refine h.keeps (I := fun s' => Awoken s s' ∧ ∀ t, (s'.tracks t).ready = (s.tracks t).ready ∧
    ((s'.tracks t).srcstream = some true → (s.tracks t).srcstream = some true ∨ s.Active t))
    ⟨⟨rfl, rfl, rfl, fun _ => rfl, fun _ => id⟩, fun _ => ⟨rfl, .inl⟩⟩ (fun s₁ s₂ h ha => ?_)
    fun k hk s₁ s₂ h hc => ?_
  · refine ⟨h.1.trans ⟨ha.sessions, ha.entries, ha.endpoints, fun t => ?_, fun t => ?_⟩, ?_⟩
    · rw [ha.tracks]
    · rw [ha.tracks]
      exact id
    · rw [ha.tracks]
      exact h.2
  · obtain rfl : k = .woken := hk
    cases hc with
    | @woken _ p j t S hS hplay hep ht =>
      refine ⟨h.1.trans (awoken_onTrack _ t), fun t' => ?_⟩
      dsimp only [Server.onTrack]
      rw [Function.update_apply]
      split_ifs with htt
      · subst htt
        refine ⟨(h.2 t').1, fun _ => .inr ?_⟩
        obtain ⟨e, he⟩ := Option.isSome_iff_exists.1 hep
        rw [h.1.sessions] at hS
        rw [h.1.entries] at ht
        exact ⟨S.liventry, e, p, S, j, hS, rfl, hplay, he, ht⟩
      · exact h.2 t'

/-- **PLAY.** `s₀` is the state before the request was read. -/
theorem Played.happens {s₀ s₁ : Server} {a : ServerAct} {p : ℕ} {S : Session} (hs : Sound s)
    (halike₀ : Alike s₀ s) (h : Played false p S s s₁) (halike : Alike s₁ s') : Happens s₀ a s' := by
  obtain ⟨hawoken, hwoken⟩ := h.steps.awoken
  have hS := h.before
  -- what plays behind the request is what played, or a slot of the session
  have hon : ∀ {t n b e}, s'.On t n b e ↔ Server.On
      { s with sessions := Function.update s.sessions p (some { S with playing := true }) } t n b e := by
    intro t n b e
    rw [halike.on_iff]
    exact Server.on_congr hawoken.sessions fun m => by rw [hawoken.entries]
  have hactive : ∀ {t}, s'.Active t ↔ s.Active t ∨ ∃ j e, S.ep j = some e ∧
      (s.entries S.liventry).tracklist j = some t := by
    intro t
    constructor
    · rintro ⟨n, e, hplays⟩
      obtain ⟨p', S', j, hS', hentry, hplay, he, ht⟩ := hon.1 hplays
      dsimp only at hS'
      rw [Function.update_apply] at hS'
      split_ifs at hS' with hp
      · cases hS'
        subst hentry
        exact .inr ⟨j, e, he, ht⟩
      · exact .inl ⟨n, e, p', S', j, hS', hentry, hplay, he, ht⟩
    · rintro (⟨n, e, p', S', j, hS', hentry, hplay, he, ht⟩ | ⟨j, e, he, ht⟩)
      · refine ⟨n, e, hon.2 ?_⟩
        by_cases hp : p' = p
        · subst hp
          cases hS.symm.trans hS'
          exact ⟨p', _, j, Function.update_self .., hentry, rfl, he, ht⟩
        · exact ⟨p', S', j, by rw [← hS']; exact Function.update_of_ne hp .., hentry, hplay, he, ht⟩
      · exact ⟨S.liventry, e, hon.2 ⟨p, _, j, Function.update_self .., rfl, rfl, he, ht⟩⟩
  have htracks : s.tracks = s₀.tracks := halike₀.tracks
  refine .played (fun t ht => ?_) (fun t => ?_) (fun t => ?_) (fun t ht => ?_) (fun t ht => ?_)
    fun t ht => ?_
  · exact hactive.2 (.inl (halike₀.active_iff.2 ht))
  · rw [halike.tracks, (hwoken t).1, htracks]
  · rw [halike.tracks, hawoken.rtp, htracks]
  · rw [halike.tracks]
    exact hawoken.srcstream t (htracks ▸ ht)
  · rw [halike.tracks] at ht
    refine ((hwoken t).2 ht).imp (fun h => htracks ▸ h) fun hplays => ?_
    obtain ⟨n, e, hplays⟩ := hplays
    exact ⟨n, e, hon.2 hplays⟩
  · rcases hactive.1 ht with h' | ⟨j, e, he, htrack⟩
    · exact .inr (halike₀.active_iff.1 h')
    · refine .inl ?_
      obtain ⟨hj, hreach⟩ := hs.reaches hS he
      rw [halike.tracks]
      exact h.awake j hj hreach (by simp [he]) t htrack

/-- What is done besides does not matter. -/
theorem Happens.alike {a : ServerAct} {s₁ : Server} (h : Happens s a s₁) (ha : Alike s₁ s') :
    Happens s a s' := by
  cases h with
  | loses h hfreed =>
    refine .loses (h.trans (.alike ha)) fun e E hE => ?_
    rw [ha.endpoints, hfreed e E hE]
  | added hjoins htracks hon =>
    exact .added hjoins (by rw [ha.tracks, htracks]) fun _ _ _ _ => ha.on_iff.trans (hon ..)
  | refused hrefuses hon hready hrtp hsrc =>
    rw [← ha.tracks] at hready hrtp hsrc
    exact .refused hrefuses (fun _ _ _ _ => ha.on_iff.trans (hon ..)) hready hrtp hsrc
  | played hactive hready hrtp hsrc hwoken hawake =>
    rw [← ha.tracks] at hready hrtp hsrc hwoken hawake
    simp only [← ha.active_iff] at hactive hwoken hawake
    exact .played hactive hready hrtp hsrc hwoken hawake
  | readied hreadies hon htracks =>
    exact .readied hreadies (fun _ _ _ _ => ha.on_iff.trans (hon ..)) (by rw [ha.tracks, htracks])

/-- What leaves the tracks alone. -/
theorem Alike.happens {a : ServerAct} (h : Alike s s') (hfrees : ∀ e, ¬ a.Frees s e) :
    Happens s a s' := by
  refine .loses (.alike h) fun e E hE => iff_of_false ?_ (hfrees e)
  rw [h.endpoints, hE]
  simp

section Read

variable {c : ℕ} {C : Conn} {d : Bytes} {env : ReadEnv} {q : RtspRequest}

/-- **A request** that is no TEARDOWN.

**Proof sketch.** By what the handler leaves. DESCRIBE and ANNOUNCE open a session without
endpoints, so that no track is concerned. SETUP is `SetUp.happens`, with the session that was opened
for it or with a listed one, and PLAY is `Played.happens`. -/
theorem Handled.happens {code : Option ℕ} (hs : Sound s) (hC : s.conns c = some C)
    (hq : C.rtspRequest d env = some q) (hno : ∀ loc track id, q ≠ .teardown loc track id)
    (hset : ∀ loc track auth t id senv, q = .setup loc track auth (some t) id senv →
      code = some 200 → ¬ t.Refused (C.settled d) senv)
    (h : Handled false c (s.setConn c (C.settled d)) q code s') :
    Happens s (.read c d env) s' := by
  have halike := alike_settled hC d
  have hs₁ := hs.alike halike
  have hfrees : ∀ e, ¬ (ServerAct.read c d env).Frees s e := by
    intro e hfrees
    cases (frees_request_iff hC hq).1 hfrees with
    | teardown => exact hno _ _ _ rfl
  have hopened : ∀ n, Loses s ((s.setConn c (C.settled d)).opened n) := fun n =>
    (Loses.alike halike).trans (.of_on (fun _ _ _ _ => hs₁.on_opened n) rfl)
  cases h with
  | answered _ _ ha => exact (halike.trans ha).happens hfrees
  | @described _ _ _ l s₂ _ hl ha hdown =>
    have hs₂ : Sound s₂ := (hs₁.opened l.entry).alike ha
    refine .loses (((hopened l.entry).trans (.alike ha)).trans (hdown.loses hs₂)) fun e E hE =>
      iff_of_false (fun hgone => ?_) (hfrees e)
    have hnew : s₂.sessions s.next =
        some { liventry := l.entry, playing := false, ep := fun _ => none } := by
      rw [ha.sessions]
      exact Function.update_self ..
    obtain ⟨⟨j, hj⟩, -⟩ := (hdown.freed_iff hs₂ hnew (ha.endpoints ▸ hE)).1 hgone
    cases hj
  | announced _ ha =>
    refine .loses ((hopened _).trans (.alike ha)) fun e E hE => iff_of_false ?_ (hfrees e)
    have hgone : s'.endpoints e = s.endpoints e := by
      rw [ha.endpoints]
      rfl
    rw [hgone, hE]
    simp
  | @setupNew loc track auth t senv l k _ hl hlow hhigh hauth hsetup =>
    have hnew : ((s.setConn c (C.settled d)).opened l.entry).sessions s.next =
        some { liventry := l.entry, playing := false, ep := fun _ => none } :=
      Function.update_self ..
    refine hsetup.happens (hs₁.opened l.entry) (fun t' n b e =>
      (hs₁.on_opened l.entry).trans halike.on_iff) rfl rfl (fun _ => ⟨_, hnew, fun _ => rfl⟩) hfrees ?_
    intro S t' hS _ ht hrtp
    cases hnew.symm.trans hS
    refine ⟨fun hplay => (by cases hplay), fun C' hC' hrefused => ?_⟩
    obtain rfl := Option.some.inj ((s.setConn_conns_self c (C.settled d)).symm.trans hC')
    have htracklist : (s.entries l.entry).tracklist track.toNat = some t' := by
      rw [← ht]
      dsimp only [Server.opened]
      rw [Function.update_self]
      rfl
    exact ⟨C, _, t, senv, false, hC, hq, .new hl hlow hhigh hauth htracklist hrtp, hrefused⟩
  | @setupOld loc track auth t id senv l rs k _ hl hlow hhigh hauth hrs hsetup =>
    refine hsetup.happens hs₁ (fun t' n b e => halike.on_iff) rfl rfl (fun hnew => by cases hnew)
      hfrees fun S t' hS hfree ht hrtp => ?_
    have hadds : ∀ b, S.playing = b → RtspRequest.Adds s t senv t'
        (.setup loc track auth (some t) (some id) senv) b := by
      rintro _ rfl
      exact .old hl hlow hhigh hauth hrs hS hfree ht hrtp
    refine ⟨fun hplay hk => ?_, fun C' hC' hrefused => ?_⟩
    · refine ⟨C, _, t, senv, hC, hq, hadds _ hplay, ?_⟩
      exact hset _ _ _ _ _ _ rfl (congrArg some hk)
    · obtain rfl := Option.some.inj ((s.setConn_conns_self c (C.settled d)).symm.trans hC')
      exact ⟨C, _, t, senv, _, hC, hq, hadds _ rfl, hrefused⟩
  | played _ h ha => exact h.happens hs₁ halike ha
  | tornDown => exact absurd rfl (hno _ _ _)

/-- **A request.** -/
theorem wp_rtspHandle_happens {r : Reply} (hs : Sound s) (hC : s.conns c = some C)
    (hq : C.rtspRequest d env = some q) :
    wp (rtspHandle false c r q) (fun _ s' => Happens s (.read c d env) s') (fun _ => True)
      (s.setConn c (C.settled d)) := by
  have hC' := s.setConn_conns_self c (C.settled d)
  have halike := alike_settled hC d
  have hs₁ := hs.alike halike
  by_cases hteardown : ∃ loc track id, q = .teardown loc track id
  · obtain ⟨loc, track, id, rfl⟩ := hteardown
    refine (wp_handleTeardown_torn loc track id).imp fun _ s' h => ?_
    rcases h with ⟨rs, S, s₁, hloc, htrack, hrs, hS, hdown, ha⟩ | ⟨hno, ha⟩
    · refine .loses (((Loses.alike halike).trans (hdown.loses hs₁)).trans (.alike ha))
        fun e E hE => ?_
      rw [ha.endpoints, hdown.freed_iff hs₁ hS hE, frees_request_iff hC hq]
      constructor
      · rintro ⟨⟨j, hj⟩, hep⟩
        refine .teardown hloc htrack hrs hS hj ?_
        by_cases hlow : track < 0
        · exact .inl hlow
        · rw [if_neg hlow] at hep
          exact .inr hep
      · intro hfrees
        cases hfrees with
        | teardown _ _ hrs' hS' hj hep =>
          cases hrs.symm.trans hrs'
          cases hS.symm.trans hS'
          refine ⟨⟨_, hj⟩, ?_⟩
          by_cases hlow : track < 0
          · exact .inl (if_pos hlow)
          · rw [if_neg hlow]
            exact hep.resolve_left hlow
    · refine (halike.trans ha).happens fun e hfrees => ?_
      cases (frees_request_iff hC hq).1 hfrees with
      | teardown hloc htrack hrs => exact hno ⟨hloc, htrack, Option.isSome_of_eq_some hrs⟩
  · have hno : ∀ loc track id, q ≠ .teardown loc track id :=
      fun loc track id h => hteardown ⟨loc, track, id, h⟩
    have hcode : wp (rtspHandle false c r q) (fun code _ => ∀ loc track auth t id senv,
        q = .setup loc track auth (some t) id senv → code = some 200 →
          ¬ t.Refused (C.settled d) senv) (fun _ => True) (s.setConn c (C.settled d)) := by
      by_cases hsetup : ∃ loc track auth t id senv, q = .setup loc track auth (some t) id senv ∧
          t.Refused (C.settled d) senv
      · obtain ⟨loc, track, auth, t, id, senv, rfl, hrefused⟩ := hsetup
        refine (wp_handleSetup_refused loc track auth id hC' hrefused).imp fun code _ h => ?_
        exact fun _ _ _ _ _ _ _ h200 => absurd h200 h
      · refine (wp_rtspHandle hC' (Conn.settled_proto hq) q).imp fun _ _ _ => ?_
        exact fun loc track auth t id senv heq _ hrefused =>
          hsetup ⟨loc, track, auth, t, id, senv, heq, hrefused⟩
    refine ((wp_rtspHandle hC' (Conn.settled_proto hq) q).and hcode).mono (fun code s' h => ?_)
      fun _ _ => trivial
    exact h.1.happens hs hC hq hno h.2

end Read

end Requests

/-! ## Events -/

section Events

variable {s s' : Server} {c : ℕ}

/-- An endpoint that is interleaved on a connection has the connection. -/
theorem Paired.conn (h : Paired s) {e x y : ℕ} {E : Endpoint} (hE : s.endpoints e = some E)
    (htrans : E.trans = .inter c x y) : ∃ C, s.conns c = some C ∧ C.proto = .rtsp := by
  obtain ⟨-, -, -, C, ichan, hC, hstate, -⟩ := h.occupies e E c x y hE htrans
  exact ⟨C, hC, h.proto c C ichan hC hstate⟩

/-- **The end of a connection.** -/
theorem Ended.happens {s₁ : Server} {a : ServerAct} (hs : Sound s) (halike : Alike s s₁)
    (h : Ended c s₁ s') (hfrees : ∀ e E, s.endpoints e = some E →
      (a.Frees s e ↔ ∃ x y, E.trans = .inter c x y)) : Happens s a s' := by
  have hloses : Loses s₁ s' := by
    refine h.steps.loses (hs.alike halike) fun k hk => ?_
    cases k <;> first | exact hk.elim | exact id
  refine .loses ((Loses.alike halike).trans hloses) fun e E hE => ?_
  rw [h.freed_iff (halike.endpoints ▸ hE), hfrees e E hE]

/-- **A read.** -/
theorem wp_readChunk_happens (hs : Sound s) (hpaired : Paired s) {C : Conn} {d : Bytes} {env : ReadEnv}
    (hC : s.conns c = some C) : wp (readChunk (connOps false c env) d)
      (fun _ s' => Happens s (.read c d env) s') (fun _ => True) s := by
  cases hq : C.rtspRequest d env with
  | some q =>
    rw [wp_read_rtspRequest hC hq]
    refine (wp_rtspHandle_happens hs hC hq).imp fun _ s₁ h => ?_
    refine (wp_modifyConn_alike (f := fun C => { C with reqBuf := [] })
      fun C _ => ⟨id, .inl rfl⟩).imp fun _ s' ha => h.alike ha.2
  | none =>
    have hfrees : ∀ {e}, (ServerAct.read c d env).Frees s e → C.ReadDrops d env ∧
        ∃ E x y, s.endpoints e = some E ∧ E.trans = .inter c x y := by
      intro e h
      cases h with
      | dropped hdrops hE htrans =>
        obtain ⟨rfl, C', hC', hdrops⟩ := hdrops
        cases hC.symm.trans hC'
        exact ⟨hdrops, _, _, _, hE, htrans⟩
      | tornDown hC' hq' =>
        cases hC.symm.trans hC'
        cases hq.symm.trans hq'
    refine (wp_readChunk_leaves hs hpaired hC hq).imp fun _ s' h => ?_
    cases h with
    | quiet hno hsteps =>
      refine .loses (hsteps.loses hs ?_) fun e E hE => iff_of_false (fun hgone => ?_)
        fun h => hno (hfrees h).1
      · rintro k ⟨e, rfl⟩
        exact id
      · obtain ⟨p, e', hk⟩ := hsteps.removed_mem hE hgone
        cases hk
    | ended hdrops halike hended =>
      refine hended.happens hs halike fun e E hE => ⟨fun h => ?_, ?_⟩
      · obtain ⟨-, E', x, y, hE', htrans⟩ := hfrees h
        cases hE.symm.trans hE'
        exact ⟨x, y, htrans⟩
      · rintro ⟨x, y, htrans⟩
        obtain ⟨C', hC', hproto⟩ := hpaired.conn hE htrans
        cases hC.symm.trans hC'
        exact .dropped ⟨rfl, C, hC, hdrops.resolve_right (not_not.2 hproto)⟩ hE htrans

/-- Without a connection nothing is done. -/
theorem wp_hasConn_happens {a : ServerAct} {c : ℕ} {x : M Unit} (hconn : ∀ e, a.Frees s e → s.hasConn c)
    (hx : ∀ C, s.conns c = some C → wp x (fun _ s' => Happens s a s') (fun _ => True) s) :
    wp (do if (← get).hasConn c then x) (fun _ s' => Happens s a s') (fun _ => True) s := by
  rw [wp_bind, wp_get, wp_ite]
  refine ⟨fun hc => ?_, fun hno => (refl s : Alike s s).happens fun e h => hno (hconn e h)⟩
  obtain ⟨C, hC⟩ := Option.isSome_iff_exists.1 hc
  exact hx C hC

/-- **A new connection.** -/
theorem wp_accept_happens (hs : Sound s) (fd : ℕ) :
    wp (serverAct false (.accept fd)) (fun _ s' => Happens s (.accept fd) s') (fun _ => True) s := by
  unfold serverAct acceptConn
  rw [wp_bind, wp_fresh, wp_modify]
  have hc : Change false .accepted s _ := .accepted fd
  refine .loses (hc.loses hs id) fun e E hE => iff_of_false (by simp [hE]) fun h => ?_
  cases h with
  | dropped hdrops => exact hdrops

/-- **A read**, if there is a connection. -/
theorem wp_read_happens (hs : Sound s) (hpaired : Paired s) (c : ℕ) (d : Bytes) (env : ReadEnv) :
    wp (serverAct false (.read c d env)) (fun _ s' => Happens s (.read c d env) s') (fun _ => True)
      s := by
  refine wp_hasConn_happens (fun e h => ?_) fun C hC => wp_readChunk_happens hs hpaired hC
  cases h with
  | dropped hdrops =>
    obtain ⟨rfl, C, hC, -⟩ := hdrops
    exact Option.isSome_of_eq_some hC
  | tornDown hC => exact Option.isSome_of_eq_some hC

/-- The end of a connection frees the endpoints that are interleaved there. -/
theorem frees_close_iff {e : ℕ} {E : Endpoint} (hE : s.endpoints e = some E) :
    (ServerAct.close c).Frees s e ↔ ∃ x y, E.trans = .inter c x y := by
  constructor
  · intro h
    cases h with
    | dropped hdrops hE' htrans =>
      obtain rfl : c = _ := hdrops
      cases hE.symm.trans hE'
      exact ⟨_, _, htrans⟩
  · rintro ⟨x, y, htrans⟩
    exact .dropped rfl hE htrans

/-- **The end of a connection.** -/
theorem wp_close_happens (hs : Sound s) (hpaired : Paired s) (c : ℕ) :
    wp (serverAct false (.close c)) (fun _ s' => Happens s (.close c) s') (fun _ => True) s := by
  refine wp_hasConn_happens (fun e h => ?_) fun C hC => ?_
  · cases h with
    | dropped hdrops hE htrans =>
      obtain rfl : c = _ := hdrops
      obtain ⟨C, hC, -⟩ := hpaired.conn hE htrans
      exact Option.isSome_of_eq_some hC
  · exact (wp_dropConn_ended hs hpaired).imp fun _ s' h =>
      h.happens hs (refl s) fun e E hE => frees_close_iff hE

/-- **The end of the second connection of a tunnel.** -/
theorem wp_closeSecond_happens (c : ℕ) : wp (serverAct false (.closeSecond c))
    (fun _ s' => Happens s (.closeSecond c) s') (fun _ => True) s := by
  have hfrees : ∀ e, ¬ (ServerAct.closeSecond c).Frees s e := by
    intro e h
    cases h with
    | dropped hdrops => exact hdrops
  refine wp_hasConn_happens (fun e h => absurd h (hfrees e)) fun C _ => ?_
  exact (wp_modifyConn_alike (f := fun C => { C with secondFd := none })
    fun C _ => ⟨id, .inl rfl⟩).imp fun _ s' h => h.2.happens hfrees

/-- A write that drops the connection frees the endpoints that are interleaved there. -/
theorem frees_write_iff {e : ℕ} {C : Conn} {rs : List WriteResult} (hC : s.conns c = some C) :
    (ServerAct.write c rs).Frees s e ↔
      C.WriteDrops rs ∧ ∃ E x y, s.endpoints e = some E ∧ E.trans = .inter c x y := by
  constructor
  · intro h
    cases h with
    | dropped hdrops hE htrans =>
      obtain ⟨rfl, C', hC', hdrops⟩ := hdrops
      cases hC.symm.trans hC'
      exact ⟨hdrops, _, _, _, hE, htrans⟩
  · rintro ⟨hdrops, E, x, y, hE, htrans⟩
    exact .dropped ⟨rfl, C, hC, hdrops⟩ hE htrans

/-- **A write.** -/
theorem wp_write_happens (hs : Sound s) (hpaired : Paired s) (c : ℕ) (rs : List WriteResult) :
    wp (serverAct false (.write c rs)) (fun _ s' => Happens s (.write c rs) s') (fun _ => True) s := by
  refine wp_hasConn_happens (fun e h => ?_) fun C hC => ?_
  · cases h with
    | dropped hdrops =>
      obtain ⟨rfl, C, hC, -⟩ := hdrops
      exact Option.isSome_of_eq_some hC
  · refine (wp_connWrite_ended rs hs hpaired hC).imp fun _ s' h => ?_
    rcases h with ⟨hno, halike⟩ | ⟨hyes, s₁, halike, hended⟩
    · exact halike.happens fun e h => hno ((frees_write_iff hC).1 h).1
    · refine hended.happens hs halike fun e E hE => ?_
      rw [frees_write_iff hC, and_iff_right hyes]
      simp [hE]

/-- **A frame of a location.** -/
theorem wp_jpeg_happens (l : ℕ) (d : Bytes) :
    wp (serverAct false (.jpeg l d)) (fun _ s' => Happens s (.jpeg l d) s') (fun _ => True) s := by
  refine ((quiet_jpegNextFrame l d).leavesLive s trivial).imp fun _ s' h => h.2.happens fun e h => ?_
  cases h with
  | dropped hdrops => exact hdrops

/-- **A frame of a track** begins, or is not one. -/
theorem wp_frame_happens (t : ℕ) (key : Bool) (packets : ℕ → List ℕ) (ok : Bool) :
    wp (serverAct false (.frame t key packets ok))
      (fun _ s' => Happens s (.frame t key packets ok) s') (fun _ => True) s := by
  have hfrees : ∀ e, ¬ (ServerAct.frame t key packets ok).Frees s e := by
    intro e h
    cases h with
    | dropped hdrops => exact hdrops
  have hsame : Happens s (.frame t key packets ok) s := (refl s : Alike s s).happens hfrees
  cases ok with
  | false =>
    unfold serverAct deliverToTrack nextLiveFrame
    rw [wp_bind, wp_get, wp_ite]
    refine ⟨fun _ => ?_, fun _ => hsame⟩
    rw [wp_bind, wp_get, wp_bind, wp_found]
    exact ⟨fun _ _ => hsame, fun _ => trivial⟩
  | true =>
    refine (wp_deliverToTrack t key packets true).imp fun _ s' h => ?_
    rcases h with rfl | ⟨hsrc, -, s₁, ⟨-, rfl⟩ | ⟨hready, rfl⟩, rfl⟩
    · exact hsame
    · refine .loses (.of_same rfl (fun _ => rfl) rfl) fun e E hE => iff_of_false ?_ (hfrees e)
      simp [hE]
    · exact .readied ⟨rfl, rfl, hready, hsrc⟩ (fun _ _ _ _ => Server.on_congr rfl fun _ => rfl) rfl

/-- **The timer of an endpoint**, if it is enabled. -/
theorem wp_timer_happens (hs : Sound s) (e : ℕ) (now : TimeVal) (ret : ℤ) :
    wp (serverAct false (.timer e now ret)) (fun _ s' => Happens s (.timer e now ret) s')
      (fun _ => True) s := by
  unfold serverAct
  rw [wp_bind, wp_get]
  cases hE : s.endpoints e with
  | none =>
    refine (refl s : Alike s s).happens fun e' h => ?_
    cases h with
    | dropped hdrops => exact hdrops
    | timedOut hE' =>
      rw [hE] at hE'
      cases hE'
  | some E =>
    dsimp only
    rw [wp_ite]
    refine ⟨fun hevent => wp_rtcpFire_happens hs hE hevent, fun hno => ?_⟩
    refine (refl s : Alike s s).happens fun e' h => ?_
    cases h with
    | dropped hdrops => exact hdrops
    | timedOut hE' hevent =>
      cases hE.symm.trans hE'
      exact hno hevent

/-- Only a read that fails frees the endpoint of a socket. -/
theorem ServerAct.Frees.udp {e e' : ℕ} {r : UdpRead} {now : TimeVal}
    (h : (ServerAct.udp e r now).Frees s e') :
    r = .failed ∧ ∃ E, s.endpoints e = some E ∧ (E.trans = .udp ∨ E.trans = .mc) := by
  cases h with
  | dropped hdrops => exact hdrops.elim
  | unread hE htrans => exact ⟨rfl, _, hE, htrans⟩

/-- **A read from the sockets of an endpoint.** -/
theorem wp_udpRead_happens (hs : Sound s) {e : ℕ} {E : Endpoint} (hE : s.endpoints e = some E)
    (htrans : E.trans = .udp ∨ E.trans = .mc) (r : UdpRead) (now : TimeVal) :
    wp (udpRead false e r now) (fun _ s' => Happens s (.udp e r now) s') (fun _ => True) s := by
  unfold udpRead
  cases r with
  | alive =>
    rw [wp_modifyEndpoint]
    refine ⟨fun E' hE' => ?_, fun _ => trivial⟩
    have hc : Change false (.noted e) s (s.onEndpoint e { E' with lastRtcpRecv := now }) :=
      .noted hE' ⟨⟨rfl, rfl, rfl, rfl⟩, rfl, rfl, rfl⟩
    refine .loses (hc.loses hs id) fun e₁ E₁ hE₁ => iff_of_false ?_ fun h => ?_
    · dsimp only [Server.onEndpoint]
      rw [Function.update_apply]
      split_ifs <;> simp [hE₁]
    · cases h.udp.1
  | other =>
    refine (refl s : Alike s s).happens fun e' h => ?_
    cases h.udp.1
  | failed =>
    dsimp only
    rw [wp_bind, wp_getEndpoint]
    refine ⟨fun E' hE' => ?_, fun _ => trivial⟩
    cases hE.symm.trans hE'
    exact wp_teardownEndpoint_happens hs hE htrans

/-- **A socket**, if there is an endpoint with one. -/
theorem wp_udp_happens (hs : Sound s) (e : ℕ) (r : UdpRead) (now : TimeVal) :
    wp (serverAct false (.udp e r now)) (fun _ s' => Happens s (.udp e r now) s') (fun _ => True)
      s := by
  unfold serverAct
  rw [wp_bind, wp_get]
  cases hE : s.endpoints e with
  | none =>
    refine (refl s : Alike s s).happens fun e' h => ?_
    obtain ⟨-, E, hE', -⟩ := h.udp
    rw [hE] at hE'
    cases hE'
  | some E =>
    dsimp only
    rw [wp_ite]
    refine ⟨fun htrans => wp_udpRead_happens hs hE htrans r now, fun hno => ?_⟩
    refine (refl s : Alike s s).happens fun e' h => ?_
    obtain ⟨-, E', hE', htrans⟩ := h.udp
    cases hE.symm.trans hE'
    exact hno htrans

/-- **Every event** leaves what `Happens` says. -/
theorem wp_serverAct_happens (hs : Sound s) (hpaired : Paired s) (a : ServerAct) :
    wp (serverAct false a) (fun _ s' => Happens s a s') (fun _ => True) s := by
  cases a with
  | accept fd => exact wp_accept_happens hs fd
  | read c d env => exact wp_read_happens hs hpaired c d env
  | close c => exact wp_close_happens hs hpaired c
  | closeSecond c => exact wp_closeSecond_happens c
  | write c rs => exact wp_write_happens hs hpaired c rs
  | jpeg l d => exact wp_jpeg_happens l d
  | frame t key packets ok => exact wp_frame_happens t key packets ok
  | deliver w => exact wp_continueFrame_happens hs w
  | timer e now ret => exact wp_timer_happens hs e now ret
  | udp e r now => exact wp_udp_happens hs e r now

end Events

end Spook
