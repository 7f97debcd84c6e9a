import Spook.Live.Callbacks
import Spook.Live.Incoming

set_option relaxedAutoImplicit false
set_option autoImplicit false

/-!
# Callbacks that are assigned

The handlers look at `get_sdp`, `setup`, `play`, `pause`, `teardown` and `control_close` of a
session, all of which `new_session` or `live_open` assigns. `handle_ANNOUNCE` looks at `set_sdp`,
which neither of them does. `record_data`, which is not assigned either, is looked at for endpoints
with an exchanger only, and no live session has such an endpoint.

## Main definitions

* `Spook.NoneOpened` — no session is new.
* `Spook.Wiring` — every session has its callbacks.
* `Spook.RtspRequest.Passes` — an ANNOUNCE that gets to `set_sdp`.

## Main results

* `Spook.refines_rtspHandle`, `refines_wiredStep` — with its callbacks the server does what it does
  without, as long as it looks at none that is unassigned.
* `Spook.callbacks_assigned_iff` — it looks at one that is unassigned exactly in such an ANNOUNCE.

## Notes on the design

The server with callbacks is a second program over a larger state, which looks at a callback before
each call. It refines the server without them, with one more kind of mishap, and the invariant
`Wiring` says where that mishap cannot happen. `Wires` states both of a program at once, so that
there is one lemma for each function.
-/

namespace Spook

/-! ## What opens no session -/

/-- Every session that is there, or is listed, was so before. -/
structure NoneOpened (s s' : Server) : Prop where
  sessions : ∀ p, (s'.sessions p).isSome → (s.sessions p).isSome
  listed : ∀ rs ∈ s'.rtspSessList, rs ∈ s.rtspSessList
  next : s.next ≤ s'.next

instance : IsPreorder Server NoneOpened where
  refl _ := ⟨fun _ => id, fun _ => id, le_rfl⟩
  trans _ _ _ h h' := ⟨fun p hp => h.sessions p (h'.sessions p hp),
    fun rs hrs => h.listed rs (h'.listed rs hrs), h.next.trans h'.next⟩

/-- The program opens no session. -/
abbrev OpensNone {α : Type} (x : M α) : Prop := Within (fun _ => True) NoneOpened (fun _ => True) x

section OpensNone

variable {mc : Bool} {s s' : Server}

/-- A server with the same sessions has opened none. -/
theorem NoneOpened.of_same (hsessions : s'.sessions = s.sessions)
    (hlist : s'.rtspSessList = s.rtspSessList) (hnext : s.next ≤ s'.next) : NoneOpened s s' := by
  refine ⟨fun p hp => ?_, fun rs hrs => ?_, hnext⟩
  · rwa [hsessions] at hp
  · rwa [hlist] at hrs

/-- A session is written. -/
theorem NoneOpened.of_update {p : ℕ} {o : Option Session} (hp : (s.sessions p).isSome)
    (hsessions : s'.sessions = Function.update s.sessions p o)
    (hlist : ∀ rs ∈ s'.rtspSessList, rs ∈ s.rtspSessList) (hnext : s.next ≤ s'.next) :
    NoneOpened s s' := by
  refine ⟨fun p' hp' => ?_, hlist, hnext⟩
  rw [hsessions, Function.update_apply] at hp'
  split_ifs at hp' with h
  · rw [h]
    exact hp
  · exact hp'

/-- What is done besides opens no session. -/
theorem Alike.noneOpened (h : Alike s s') : NoneOpened s s' :=
  .of_same h.sessions h.rtspSessList h.next

/-- Only `live_open` makes a session, and only `new_rtsp_session` lists one. -/
theorem Change.noneOpened {k : Kind} (h : Change mc k s s') (hopen : k ≠ .opened)
    (hregister : ∀ p, k ≠ .registered p) : NoneOpened s s' := by
  have hsome : ∀ {p : ℕ} {S : Session}, s.sessions p = some S → (s.sessions p).isSome := by
    intro p S hS
    simp [hS]
  cases h with
  | opened n => exact absurd rfl hopen
  | registered p => exact absurd rfl (hregister p)
  | added _ hS => exact .of_update (hsome hS) rfl (fun _ => id) (Nat.le_succ _)
  | shared _ hS => exact .of_update (hsome hS) rfl (fun _ => id) le_rfl
  | newShared _ hS => exact .of_update (hsome hS) rfl (fun _ => id) (Nat.le_succ _)
  | played hS => exact .of_update (hsome hS) rfl (fun _ => id) le_rfl
  | removed _ hS | removedLast _ hS | left _ hS | leftLast _ hS =>
    exact .of_update (hsome hS) rfl (fun _ => id) le_rfl
  | closed hS => exact .of_update (hsome hS) rfl (fun _ => List.mem_of_mem_filter) le_rfl
  | accepted => exact .of_same rfl rfl (Nat.le_succ _)
  | interleaved | udp | woken | readied | delivering | logged | flagged | counted | noted
  | dropped => exact .of_same rfl rfl le_rfl

/-- Changes that neither open nor register a session. -/
theorem Steps.noneOpened {A : Set Kind} (h : Steps mc A s s') (hopen : .opened ∉ A)
    (hregister : ∀ p, .registered p ∉ A) : NoneOpened s s' := by
  refine h.keeps (I := NoneOpened s) (refl s) (fun _ _ hs ha => Trans.trans hs ha.noneOpened) ?_
  intro k hk _ _ hs hc
  refine Trans.trans hs (hc.noneOpened ?_ fun p => ?_)
  · rintro rfl
    exact hopen hk
  · rintro rfl
    exact hregister p hk

/-- A teardown opens no session. -/
theorem TornDown.noneOpened {p : ℕ} {ep : Option ℕ} (h : TornDown mc p ep s s') :
    NoneOpened s s' := by
  refine h.steps.noneOpened ?_ fun p' => ?_
  · rintro (⟨e, h, -⟩ | h) <;> cases h
  · rintro (⟨e, h, -⟩ | h) <;> cases h

/-- A program that leaves the live side as it was opens no session. -/
theorem opensNone_of_leavesLive {α : Type} {x : M α} (h : LeavesLive x) : OpensNone x :=
  fun s hs => (h s hs).imp fun _ _ h => ⟨trivial, h.2.noneOpened⟩

/-- A program that changes nothing opens no session. -/
theorem opensNone_get {α : Type} {x : M α}
    (h : ∀ s, wp x (fun _ s' => s' = s) (fun _ => True) s) : OpensNone x := by
  refine fun s _ => (h s).imp fun _ s' h => ⟨trivial, ?_⟩
  rw [h]
  exact refl s

/-- A change of a connection opens no session. -/
theorem opensNone_modifyConn (c : ℕ) (f : Conn → Conn) : OpensNone (modifyConn c f) := by
  intro s _
  rw [wp_modifyConn]
  exact ⟨fun _ _ => ⟨trivial, .of_same rfl rfl le_rfl⟩, fun _ => trivial⟩

/-- A change of an endpoint opens no session. -/
theorem opensNone_modifyEndpoint (e : ℕ) (f : Endpoint → Endpoint) :
    OpensNone (modifyEndpoint e f) := by
  intro s _
  rw [wp_modifyEndpoint]
  exact ⟨fun _ _ => ⟨trivial, .of_same rfl rfl le_rfl⟩, fun _ => trivial⟩

/-- A change of a `live_source` opens no session. -/
theorem opensNone_modifyEntry (n : ℕ) (f : LiveEntry → LiveEntry) :
    OpensNone (modifyEntry n f) := by
  intro s _
  rw [wp_modifyEntry]
  exact ⟨trivial, .of_same rfl rfl le_rfl⟩

/-- A change of a track opens no session. -/
theorem opensNone_modifyTrack (t : ℕ) (f : LiveTrack → LiveTrack) :
    OpensNone (modifyTrack t f) := by
  intro s _
  rw [wp_modifyTrack]
  exact ⟨trivial, .of_same rfl rfl le_rfl⟩

/-- A change of a session that is there opens no session. -/
theorem opensNone_modifySession (p : ℕ) (f : Session → Session) :
    OpensNone (modifySession p f) := by
  intro s _
  rw [wp_modifySession]
  refine ⟨fun S hS => ⟨trivial, ?_⟩, fun _ => trivial⟩
  exact .of_update (p := p) (by simp [hS]) rfl (fun _ => id) le_rfl

/-- A look at a session opens no session. -/
theorem opensNone_getSession (p : ℕ) : OpensNone (getSession p) :=
  within_bind within_get fun _ => within_found trivial

/-- A look at a connection opens no session. -/
theorem opensNone_getConn (c : ℕ) : OpensNone (getConn c) :=
  within_bind within_get fun _ => within_found trivial

/-- A look at an endpoint opens no session. -/
theorem opensNone_getEndpoint (e : ℕ) : OpensNone (getEndpoint e) :=
  within_bind within_get fun _ => within_found trivial

/-- A response opens no session. -/
theorem opensNone_rtspAnswer (c : ℕ) (r : Reply) (k : ℕ) : OpensNone (rtspAnswer c r k) :=
  fun s _ => (wp_rtspAnswer c r k s).imp fun _ _ h => ⟨trivial, h.2.noneOpened⟩

/-! ## The functions of a session -/

/-- The loop of `live_teardown` opens no session. -/
theorem opensNone_teardownTracks (p : ℕ) (ep : Option ℕ) :
    OpensNone (teardownTracks mc p ep (List.range maxTracks)) := by
  intro s _
  cases hS : s.sessions p with
  | none =>
    rw [show List.range maxTracks = 0 :: [1] from rfl]
    unfold teardownTracks
    simp [hS]
  | some S =>
    refine (wp_teardownTracks ep List.pairwise_lt_range hS).imp fun r s' h => ⟨trivial, ?_⟩
    refine h.1.noneOpened ?_ fun p' => ?_
    · rintro ⟨e, h, -⟩
      cases h
    · rintro ⟨e, h, -⟩
      cases h

/-- A new endpoint opens no session. -/
theorem opensNone_newRtpEndpoint (env : SetupEnv) : OpensNone (newRtpEndpoint env) := by
  intro s _
  rw [wp_newRtpEndpoint]
  exact ⟨fun _ => ⟨trivial, .of_same rfl rfl (Nat.le_succ _)⟩, fun _ => ⟨trivial, refl s⟩⟩

/-- `live_setup` opens no session. -/
theorem opensNone_liveSetup (p j : ℕ) (env : SetupEnv) : OpensNone (liveSetup mc p j env) := by
  refine within_bind (opensNone_getSession p) fun S => within_bind within_get fun s => ?_
  cases (s.entries S.liventry).tracklist j with
  | none => exact within_pure _
  | some k =>
    refine within_bind within_get fun s' => ?_
    cases (s'.tracks k).rtp with
    | none => exact within_pure _
    | some epMc =>
      refine within_ite (fun _ => ?_) fun _ => ?_
      · cases epMc with
        | wild => exact within_throw trivial
        | endpoint e =>
          refine within_bind (opensNone_modifySession _ _) fun _ => ?_
          exact within_bind (opensNone_modifyEndpoint _ _) fun _ => within_pure _
        | null =>
          refine within_bind (opensNone_newRtpEndpoint env) fun o => ?_
          cases o with
          | none => exact within_pure _
          | some e =>
            refine within_bind (opensNone_modifyTrack _ _) fun _ => ?_
            refine within_bind ?_ fun _ => ?_
            · exact within_ite (fun _ => opensNone_modifyEndpoint _ _) fun _ => within_pure _
            · exact within_bind (opensNone_modifySession _ _) fun _ => within_pure _
      · refine within_bind (opensNone_newRtpEndpoint env) fun o => ?_
        cases o with
        | none => exact within_throw trivial
        | some e =>
          refine within_bind (opensNone_modifySession _ _) fun _ => ?_
          exact within_bind (opensNone_modifyEndpoint _ _) fun _ => within_pure _

/-- The transport of a SETUP opens no session. -/
theorem opensNone_setupTransport (c e : ℕ) (t : Transport) (env : SetupEnv) :
    OpensNone (setupTransport c e t env) := by
  have hinter : ∀ channels, OpensNone (rtspInterleaveSetup c e channels env) := by
    intro channels
    refine within_bind (within_bind (opensNone_getConn c) fun C => ?_) fun rc => ?_
    · split
      · exact within_pure _
      · exact within_pure _
      · exact within_throw trivial
    · split
      · exact within_pure _
      · refine within_ite (fun _ => within_pure _) fun _ => ?_
        refine within_bind (opensNone_modifyConn _ _) fun _ => ?_
        exact within_bind (opensNone_modifyEndpoint _ _) fun _ => within_pure _
  have hudp : ∀ clientPort, OpensNone (rtspUdpSetup e clientPort env) := by
    intro clientPort
    refine within_ite (fun _ => ?_) fun _ => within_pure _
    exact within_bind (opensNone_modifyEndpoint _ _) fun _ => within_pure _
  refine within_bind (opensNone_getEndpoint e) fun E => ?_
  split
  · exact within_pure _
  · exact hinter _
  · exact hudp _
  · exact within_pure _

/-- `live_play` opens no session. -/
theorem opensNone_livePlay (p : ℕ) (haveStart : Bool) : OpensNone (livePlay p haveStart) := by
  intro s _
  refine (wp_livePlay false p haveStart).imp fun _ s' h => ⟨trivial, ?_⟩
  obtain ⟨S, h⟩ := h
  exact h.changes.noneOpened (by simp) (by simp)

/-- The end of a connection. -/
theorem opensNone_dropConn (c : ℕ) : OpensNone (dropConn mc c) := by
  intro s _
  refine (wp_dropConn (J := NoneOpened s) (fun C s' _ _ h => h.noneOpened) fun C _ _ => ?_).imp
    fun _ s' h => ⟨trivial, ?_⟩
  · unfold rtspConnDisconnect
    rw [List.range_eq_range']
    refine keeps_disconnectChannels (I := fun _ s' => NoneOpened s s') (refl s)
      (fun _ _ _ _ h _ _ _ => h) fun _ _ _ _ _ _ _ _ h _ _ _ _ _ h' => ?_
    exact Trans.trans h h'.noneOpened
  · obtain ⟨s₁, h, rfl⟩ := h
    exact Trans.trans h (NoneOpened.of_same rfl rfl le_rfl)

/-- An event other than a read. -/
theorem opensNone_serverAct {a : ServerAct} (ha : ∀ c d env, a ≠ .read c d env) :
    OpensNone (serverAct mc a) := by
  intro s _
  have hsends : ∀ {e : ℕ} {o : Option ℕ} {s s' : Server}, Sends mc e o s s' → NoneOpened s s' := by
    intro e o s s' h
    refine h.steps.noneOpened ?_ fun p => ?_
    · rintro (h | ⟨p, e', -, h | h⟩) <;> cases h
    · rintro (h | ⟨p, e', -, h | h⟩) <;> cases h
  refine (keeps_liveAct (I := NoneOpened s) (refl s)
    (fun _ _ hs h => Trans.trans hs h.noneOpened)
    (fun _ _ e hs h => Trans.trans hs (h.noneOpened (by simp) (by simp)))
    (fun _ _ hs h => Trans.trans hs (h.noneOpened (by simp) (by simp)))
    (fun s₁ c hs => (opensNone_dropConn c s₁ trivial).imp fun _ _ h => Trans.trans hs h.2)
    ?_ ?_ ?_ ?_ ?_).imp fun _ _ h => ⟨trivial, h⟩
  · intro c d env C q code s' h
    exact absurd h (ha c d env)
  · intro t key packets ok _
    refine (wp_deliverToTrack t key packets ok).imp fun _ s' h => ?_
    rcases h with rfl | ⟨-, -, s₁, ⟨-, rfl⟩ | ⟨-, rfl⟩, rfl⟩
    · exact refl s'
    · exact .of_same rfl rfl le_rfl
    · exact .of_same rfl rfl le_rfl
  · intro w _
    refine (wp_continueFrame w).imp fun _ s' h => h.streams.steps.noneOpened ?_ fun p => ?_
    · rintro ((h | h | ⟨e, h | h⟩) | ⟨p, e, -, h | h⟩) <;> cases h
    · rintro ((h | h | ⟨e, h | h⟩) | ⟨p, e, -, h | h⟩) <;> cases h
  · intro e now ret E _ hE _
    exact (wp_rtcpSend now ret hE).seq fun _ s' h => hsends (h.sends hE)
  · intro e now E _ _
    exact (wp_teardownEndpoint ..).imp fun _ s' h => hsends h.sends

end OpensNone

/-! ## Sessions with their callbacks -/

/-- The callbacks that a live session is opened with. -/
structure Fields.Live (F : Fields) : Prop where
  getSdp : F .getSdp = some .liveGetSdp
  setup : F .setup = some .liveSetup
  play : F .play = some .livePlay
  pause : F .pause = some .null
  teardown : F .teardown = some .liveTeardown
  controlClose : F .controlClose = some .null ∨ F .controlClose = some .rtspSessionClose

/-- The callbacks that `live_open` leaves are those of a live session. -/
theorem live_liveFields : liveFields.Live :=
  ⟨rfl, rfl, rfl, rfl, rfl, .inl rfl⟩

/-- `set_sdp` and `record_data` are not among them. -/
theorem liveFields_eq_none (k : Callback) :
    liveFields k = none ↔ k = .setSdp ∨ k = .recordData := by
  cases k <;> decide

/-- `new_rtsp_session`. -/
theorem Fields.Live.close {F : Fields} (h : F.Live) :
    (F.assign .controlClose .rtspSessionClose).Live :=
  ⟨h.getSdp, h.setup, h.play, h.pause, h.teardown, .inr rfl⟩

/-- Every session has its callbacks, and a session that is listed is closed through
`rtsp_session_close`. -/
structure Wiring (w : Wired) : Prop where
  live : ∀ p, (w.server.sessions p).isSome → (w.fields p).Live
  listed : ∀ rs ∈ w.server.rtspSessList, (w.fields rs.sess).Live ∧
    w.fields rs.sess .controlClose = some .rtspSessionClose ∧ rs.sess < w.server.next

/-- The session `p`, which may be on its way, has its callbacks too. -/
structure Holding (p : ℕ) (w : Wired) : Prop extends Wiring w where
  own : (w.fields p).Live
  old : p < w.server.next

section Wiring

variable {w : Wired} {s' : Server} {p : ℕ}

/-- The callbacks stay right while no session is opened. -/
theorem Wiring.noneOpened (h : Wiring w) (hs : NoneOpened w.server s') :
    Wiring { w with server := s' } := by
  refine ⟨fun p hp => h.live p (hs.sessions p hp), fun rs hrs => ?_⟩
  obtain ⟨hlive, hclose, hlt⟩ := h.listed rs (hs.listed rs hrs)
  exact ⟨hlive, hclose, hlt.trans_le hs.next⟩

/-- The same while one session is on its way. -/
theorem Holding.noneOpened (h : Holding p w) (hs : NoneOpened w.server s') :
    Holding p { w with server := s' } :=
  ⟨h.toWiring.noneOpened hs, h.own, h.old.trans_le hs.next⟩

/-- The session of an id. -/
theorem Wiring.holding {rs : RtspSession} (h : Wiring w) (hrs : rs ∈ w.server.rtspSessList) :
    Holding rs.sess w := by
  obtain ⟨hlive, -, hlt⟩ := h.listed rs hrs
  exact ⟨h, hlive, hlt⟩

end Wiring

/-! ## Refinement -/

/-- With callbacks `x` does what `y` does without, and may besides end in a mishap of `G`. -/
abbrev Wires {α : Type} (G : Mishap → Prop) (x : W α) (y : M α) (R : α → Wired → Prop)
    (w : Wired) : Prop :=
  Refines serverPart Mishap.fault G x y R w

section Wires

variable {α : Type} {G : Mishap → Prop} {w : Wired} {p : ℕ}

/-- What has no callbacks in it and opens no session. -/
theorem wires_onServer {y : M α} {R : Wired → Prop}
    (h : wp y (fun _ s' => NoneOpened w.server s') (fun _ => True) w.server)
    (hR : ∀ s', NoneOpened w.server s' → R { w with server := s' }) :
    Wires G (onServer y) y (fun _ w' => R w') w :=
  refines_zoom (h.imp fun _ s' hs => hR s' hs)

/-- A program that opens no session does with callbacks what it does without. -/
theorem Wiring.onServer {y : M α} (hw : Wiring w) (h : OpensNone y) :
    Wires G (onServer y) y (fun _ w' => Wiring w') w :=
  wires_onServer ((h w.server trivial).imp fun _ _ h => h.2) fun _ hs => hw.noneOpened hs

/-- The same while one session is on its way. -/
theorem Holding.onServer {y : M α} (hw : Holding p w) (h : OpensNone y) :
    Wires G (onServer y) y (fun _ w' => Holding p w') w :=
  wires_onServer ((h w.server trivial).imp fun _ _ h => h.2) fun _ hs => hw.noneOpened hs

/-- What only looks. -/
theorem wires_look {y : M α} {R : α → Prop}
    (h : wp y (fun a s' => s' = w.server ∧ R a) (fun _ => True) w.server) :
    Wires G (onServer y) y (fun a w' => w' = w ∧ R a) w := by
  refine refines_zoom (h.imp fun a s' h => ⟨?_, h.2⟩)
  rw [h.1]
  rfl

/-- A callback that is assigned. -/
theorem wp_callback {k : Callback} {f : Pointer} {Q : Pointer → Wired → Prop}
    {E : Mishap → Prop} (hf : w.fields p k = some f) :
    wp (Wired.callback p k) Q E w ↔ Q f w := by
  unfold Wired.callback
  rw [wp_bind, wp_get, hf]
  exact Iff.rfl

/-- A callback that is not. -/
theorem wp_callback_none {k : Callback} {Q : Pointer → Wired → Prop} {E : Mishap → Prop}
    (hf : w.fields p k = none) :
    wp (Wired.callback p k) Q E w ↔ E (.unassigned p k) := by
  unfold Wired.callback
  rw [wp_bind, wp_get, hf]
  exact Iff.rfl

/-- A call through a callback, and what comes behind it. -/
theorem wires_call {k : Callback} {f : Pointer} {x : W α} {y : M α} {R : α → Wired → Prop}
    (hf : w.fields p k = some f) (h : Wires G x y R w) :
    Wires G (do Wired.call p k f; x) y R w := by
  refine Refines.skip ?_
  unfold Wired.call
  rw [wp_bind, wp_callback hf, if_pos rfl]
  exact ⟨rfl, h⟩

/-! ## The functions of a session, with callbacks -/

variable {mc : Bool}

/-- The session is gone, and `rtsp_session_close` is called if there is something to close. -/
theorem wires_delSession (hw : Holding p w) :
    Wires G (Wired.delSession p) (delSession p) (fun _ w' => Wiring w') w := by
  unfold Wired.delSession delSession
  refine (wires_look (R := fun _ => (w.server.sessions p).isSome) ?_).bind fun S w₁ h => ?_
  · rw [wp_getSession]
    exact ⟨fun S hS => ⟨rfl, by simp [hS]⟩, fun _ => trivial⟩
  obtain ⟨rfl, hp⟩ := h
  have hend : Wiring { w₁ with server := { w₁.server with
      sessList := w₁.server.sessList.erase p
      rtspSessList := w₁.server.rtspSessList.filter fun rs => rs.sess ≠ p
      sessions := Function.update w₁.server.sessions p none } } := by
    apply hw.toWiring.noneOpened
    exact .of_update hp rfl (fun _ => List.mem_of_mem_filter) le_rfl
  unfold Refines
  rcases hw.own.controlClose with hnull | hclose
  · -- nothing is listed that the session would have to be taken from
    have hlist : (w₁.server.rtspSessList.filter fun rs => rs.sess ≠ p) =
        w₁.server.rtspSessList := by
      rw [List.filter_eq_self]
      intro rs hrs
      have hrs := (hw.listed rs hrs).2.1
      simp only [ne_eq, decide_not, Bool.not_eq_true', decide_eq_false_iff_not]
      rintro rfl
      cases hnull.symm.trans hrs
    rw [hlist] at hend
    rw [wp_bind, wp_callback hnull, wp_bind, if_neg (by simp), wp_pure]
    refine ⟨?_, hend⟩
    have hserver : ({ w₁.server with
        sessList := w₁.server.sessList.erase p
        rtspSessList := w₁.server.rtspSessList.filter fun rs => rs.sess ≠ p
        sessions := Function.update w₁.server.sessions p none } : Server) =
        { w₁.server with
          sessList := w₁.server.sessList.erase p
          sessions := Function.update w₁.server.sessions p none } := by
      rw [hlist]
    exact congrArg (fun s => Except.ok ((), s)) hserver
  · rw [wp_bind, wp_callback hclose, wp_bind, if_pos (by decide), wp_bind]
    unfold Wired.call
    rw [wp_bind, wp_callback hclose, if_pos rfl]
    exact ⟨rfl, hend⟩

/-- `live_teardown` of a session with its callbacks does not look at one that is unassigned. -/
theorem wires_liveTeardown (ep : Option ℕ) (hw : Holding p w) :
    Wires G (Wired.liveTeardown mc p ep) (liveTeardown mc p ep) (fun _ w' => Wiring w') w := by
  unfold Wired.liveTeardown liveTeardown
  refine (hw.onServer (opensNone_teardownTracks p ep)).bind fun remaining w₁ hw₁ => ?_
  refine Refines.ite (fun _ => ?_) fun _ => refines_pure hw₁.toWiring
  refine (hw₁.onServer (opensNone_getSession p)).bind fun S w₂ hw₂ => ?_
  refine (hw₂.onServer (opensNone_modifyEntry _ _)).bind fun _ w₃ hw₃ => ?_
  exact wires_delSession hw₃

/-- `teardown` is called through the session, where `live_open` has assigned it. -/
theorem wires_teardown (ep : Option ℕ) (hw : Holding p w) :
    Wires G (Wired.teardown mc p ep) (liveTeardown mc p ep) (fun _ w' => Wiring w') w :=
  wires_call hw.own.teardown (wires_liveTeardown ep hw)

/-- A session that is opened has the callbacks of a live session. -/
theorem wires_liveOpen (n : ℕ) (hw : Wiring w) :
    Wires G (Wired.liveOpen n) (liveOpen n)
      (fun p w' => Holding p w' ∧ w'.fields p = liveFields) w := by
  unfold Wires Refines Wired.liveOpen onServer
  rw [wp_bind, wp_zoom]
  refine (wp_run.and (wp_liveOpen n w.server)).mono (fun p s₁ h => ?_) fun e h =>
    .inr ⟨e, h.1, rfl⟩
  obtain ⟨hrun, rfl, rfl⟩ := h
  refine ⟨hrun, ⟨⟨fun p hp => ?_, fun rs hrs => ?_⟩, ?_, Nat.lt_succ_self _⟩, ?_⟩
  · change ((w.server.opened n).sessions p).isSome = true at hp
    dsimp only [Server.opened] at hp
    change (Function.update w.fields w.server.next liveFields p).Live
    rw [Function.update_apply] at hp ⊢
    split_ifs at hp ⊢ with hnew
    · exact live_liveFields
    · exact hw.live p hp
  · obtain ⟨hlive, hclose, hlt⟩ := hw.listed rs hrs
    have hold : Function.update w.fields w.server.next liveFields rs.sess = w.fields rs.sess :=
      Function.update_of_ne hlt.ne ..
    refine ⟨?_, ?_, hlt.trans (Nat.lt_succ_self _)⟩
    · change (Function.update w.fields w.server.next liveFields rs.sess).Live
      rwa [hold]
    · change Function.update w.fields w.server.next liveFields rs.sess .controlClose = _
      rwa [hold]
  · change (Function.update w.fields w.server.next liveFields w.server.next).Live
    rw [Function.update_self]
    exact live_liveFields
  · exact Function.update_self ..

/-- `new_rtsp_session` overwrites `closed` and `closed_arg` of the session that it lists. -/
theorem wires_newRtspSession (id : Bytes) (hw : Holding p w) :
    Wires G (Wired.newRtspSession p id) (newRtspSession p id) (fun _ w' => Wiring w') w := by
  refine ⟨rfl, fun p' hp' => ?_, fun rs hrs => ?_⟩
  · change (Function.update w.fields p ((w.fields p).assign .controlClose .rtspSessionClose)
      p').Live
    rw [Function.update_apply]
    split_ifs
    · exact hw.own.close
    · exact hw.live p' hp'
  · change (Function.update w.fields p ((w.fields p).assign .controlClose .rtspSessionClose)
      rs.sess).Live ∧ Function.update w.fields p ((w.fields p).assign .controlClose
      .rtspSessionClose) rs.sess .controlClose = _ ∧ _
    rw [Function.update_apply]
    split_ifs with hsess
    · refine ⟨hw.own.close, rfl, ?_⟩
      rw [hsess]
      exact hw.old
    · rcases List.mem_cons.1 hrs with rfl | hrs
      · exact absurd rfl hsess
      · exact hw.listed rs hrs

/-! ## The handlers -/

variable {c : ℕ} {r : Reply}

/-- A response needs no callback. -/
theorem wires_answer (k : ℕ) (hw : Wiring w) :
    Wires G (onServer (rtspAnswer c r k)) (rtspAnswer c r k) (fun _ w' => Wiring w') w :=
  hw.onServer (opensNone_rtspAnswer c r k)

/-- The location of a request, and what is done with it. -/
theorem wires_findLocation {loc : Option ℕ} {f : Option RtspLocation → W (Option ℕ)}
    {g : Option RtspLocation → M (Option ℕ)} {R : Option ℕ → Wired → Prop}
    (h : Wires G (f (w.server.location loc)) (g (w.server.location loc)) R w) :
    Wires G (do f (← onServer (findLocation loc))) (do g (← findLocation loc)) R w := by
  refine (wires_look (R := fun o => o = w.server.location loc) ?_).bind fun o w' ho => ?_
  · rw [wp_findLocation]
    exact ⟨rfl, rfl⟩
  obtain ⟨rfl, rfl⟩ := ho
  exact h

/-- The session of a request, and what is done with it. -/
theorem wires_getRtspSession {id : Option Bytes} {f : Option RtspSession → W (Option ℕ)}
    {g : Option RtspSession → M (Option ℕ)} {R : Option ℕ → Wired → Prop} (hw : Wiring w)
    (hnone : Wires G (f none) (g none) R w)
    (hsome : ∀ rs, Holding rs.sess w → Wires G (f (some rs)) (g (some rs)) R w) :
    Wires G (do f (← onServer (getRtspSession id))) (do g (← getRtspSession id)) R w := by
  refine (wires_look (R := fun o => o = w.server.rtspSession id) ?_).bind fun o w' ho => ?_
  · rw [wp_getRtspSession]
    exact ⟨rfl, rfl⟩
  obtain ⟨rfl, rfl⟩ := ho
  cases hrs : w'.server.rtspSession id with
  | none => exact hnone
  | some rs =>
    obtain ⟨id', -, hfind⟩ := Option.bind_eq_some_iff.1 hrs
    exact hsome rs (hw.holding (List.mem_of_find?_eq_some hfind))

/-- DESCRIBE gets the session of `live_open`, calls `get_sdp` and tears it down. -/
theorem wires_handleDescribe (loc : Option ℕ) (auth : Bool) (hw : Wiring w) :
    Wires G (Wired.handleDescribe mc c r loc auth) (handleDescribe mc c r loc auth)
      (fun _ w' => Wiring w') w := by
  apply wires_findLocation
  cases w.server.location loc with
  | none => exact wires_answer 404 hw
  | some l =>
    refine (wires_liveOpen l.entry hw).bind fun p w₁ h₁ => ?_
    obtain ⟨hw₁, -⟩ := h₁
    refine Refines.ite (fun _ => ?_) fun _ => ?_
    · refine (hw₁.onServer (opensNone_rtspAnswer c r 401)).bind fun code w₂ hw₂ => ?_
      exact (wires_teardown none hw₂).bind fun _ w₃ hw₃ => refines_pure hw₃
    · have hsdp : OpensNone (do rtspAnswer c r (if (← liveGetSdp p) > 0 then 200 else 404)) :=
        within_bind (opensNone_get fun s => wp_liveGetSdp p) fun _ => opensNone_rtspAnswer c r _
      have hanswer : Wires G
          (do
            let code ← onServer do rtspAnswer c r (if (← liveGetSdp p) > 0 then 200 else 404)
            Wired.teardown mc p none
            return code)
          (do
            let code ← rtspAnswer c r (if (← liveGetSdp p) > 0 then 200 else 404)
            liveTeardown mc p none
            return code) (fun _ w' => Wiring w') w₁ := by
        have hassoc : (do
              let code ← rtspAnswer c r (if (← liveGetSdp p) > 0 then 200 else 404)
              liveTeardown mc p none
              return code : M (Option ℕ)) =
            (do rtspAnswer c r (if (← liveGetSdp p) > 0 then 200 else 404)) >>= fun code => do
              liveTeardown mc p none
              return code := by
          simp only [bind_assoc]
        rw [hassoc]
        refine (hw₁.onServer hsdp).bind fun code w₂ hw₂ => ?_
        exact (wires_teardown none hw₂).bind fun _ w₃ hw₃ => refines_pure hw₃
      exact wires_call hw₁.own.getSdp hanswer

/-- An ANNOUNCE gets to `set_sdp`: its URI names a location, and the credentials are checked if it
asks for any. -/
def RtspRequest.Passes (s : Server) : RtspRequest → Prop
  | .announce loc auth _ => ∃ l, s.location loc = some l ∧ (l.realm ≠ [] → auth = true)
  | .options | .describe .. | .setup .. | .play .. | .pause _ | .teardown .. | .unknown => False

/-- ANNOUNCE looks at `set_sdp`, which `live_open` leaves unassigned, exactly when it gets there. -/
theorem wires_handleAnnounce (loc : Option ℕ) (auth setSdp : Bool) (hw : Wiring w)
    (hG : (RtspRequest.announce loc auth setSdp).Passes w.server →
      ∀ p, G (.unassigned p .setSdp)) :
    Wires G (Wired.handleAnnounce c r loc auth) (handleAnnounce c r loc auth setSdp)
      (fun _ w' => Wiring w') w := by
  apply wires_findLocation
  cases hl : w.server.location loc with
  | none => exact wires_answer 404 hw
  | some l =>
    refine (wires_liveOpen l.entry hw).bind fun p w₁ h₁ => ?_
    obtain ⟨hw₁, hfields⟩ := h₁
    refine Refines.ite (fun _ => wires_answer 401 hw₁.toWiring) fun hauth => ?_
    have hnone : w₁.fields p .setSdp = none := by
      rw [hfields]
      exact (liveFields_eq_none _).2 (.inl rfl)
    refine refines_of_fault ?_
    rw [wp_bind, wp_callback_none hnone]
    exact hG ⟨l, hl, fun h => by simpa [h] using hauth⟩ p

/-- SETUP once its session is found or made: `setup`, and `teardown` where it fails. -/
theorem wires_setupTrack {p : ℕ} (t : ℕ) (isNew : Bool) (transport : Transport) (env : SetupEnv)
    (hw : Holding p w) :
    Wires G (Wired.setupTrack mc c r p t isNew transport env)
      (setupTrack mc c r p t isNew transport env) (fun _ w' => Wiring w') w := by
  unfold Wired.setupTrack setupTrack
  refine (hw.onServer (opensNone_getSession p)).bind fun S w₁ hw₁ => ?_
  refine Refines.ite (fun _ => wires_answer 461 hw₁.toWiring) fun _ => ?_
  refine wires_call hw₁.own.setup ?_
  refine (hw₁.onServer (opensNone_liveSetup p t env)).bind fun ret w₂ hw₂ => ?_
  refine Refines.ite (fun _ => ?_) fun _ => ?_
  · refine (hw₂.onServer (opensNone_rtspAnswer c r 404)).bind fun code w₃ hw₃ => ?_
    refine Refines.bind (R := fun _ w' => Wiring w') ?_ fun _ w₄ hw₄ => refines_pure hw₄
    exact Refines.ite (fun _ => wires_teardown none hw₃) fun _ => refines_pure hw₃.toWiring
  · refine (hw₂.onServer (opensNone_getSession p)).bind fun S₂ w₃ hw₃ => ?_
    cases S₂.ep t with
    | none => exact refines_throw _
    | some e =>
      refine (hw₃.onServer (opensNone_setupTransport c e transport env)).bind fun ret w₄ hw₄ => ?_
      refine Refines.ite (fun _ => ?_) fun _ => ?_
      · refine (hw₄.onServer (opensNone_rtspAnswer c r 461)).bind fun code w₅ hw₅ => ?_
        refine (hw₅.onServer (opensNone_getSession p)).bind fun S₃ w₆ hw₆ => ?_
        exact (wires_teardown _ hw₆).bind fun _ w₇ hw₇ => refines_pure hw₇
      · refine Refines.bind (R := fun _ w' => Wiring w') ?_ fun _ w₅ hw₅ => wires_answer 200 hw₅
        exact Refines.ite (fun _ => wires_newRtspSession env.id hw₄) fun _ =>
          refines_pure hw₄.toWiring

/-- SETUP, of a listed session or of one that `live_open` has just made. -/
theorem wires_handleSetup (loc : Option ℕ) (track : ℤ) (auth : Bool)
    (transport : Option Transport) (id : Option Bytes) (env : SetupEnv) (hw : Wiring w) :
    Wires G (Wired.handleSetup mc c r loc track auth transport id env)
      (handleSetup mc c r loc track auth transport id env) (fun _ w' => Wiring w') w := by
  apply wires_findLocation
  cases w.server.location loc with
  | none => exact wires_answer 404 hw
  | some l =>
    refine Refines.ite (fun _ => wires_answer 404 hw) fun _ => ?_
    refine Refines.ite (fun _ => wires_answer 401 hw) fun _ => ?_
    cases transport with
    | none => exact wires_answer 461 hw
    | some t =>
      cases id with
      | none =>
        refine (wires_liveOpen l.entry hw).bind fun p w₁ h₁ => ?_
        exact wires_setupTrack _ true t env h₁.1
      | some id =>
        apply wires_getRtspSession hw (wires_answer 454 hw)
        exact fun rs hrs => wires_setupTrack _ false t env hrs

/-- PLAY calls `play` of a listed session. -/
theorem wires_handlePlay (id : Option Bytes) (haveStart : Bool) (hw : Wiring w) :
    Wires G (Wired.handlePlay c r id haveStart) (handlePlay c r id haveStart)
      (fun _ w' => Wiring w') w := by
  apply wires_getRtspSession hw (wires_answer 454 hw)
  intro rs hrs
  refine wires_call hrs.own.play ?_
  refine (hrs.onServer (opensNone_livePlay rs.sess haveStart)).bind fun start w₁ hw₁ => ?_
  have hinfo : OpensNone (rtpInfo rs.sess (List.range maxTracks)) :=
    opensNone_get fun s => wp_rtpInfo rs.sess _
  refine (hw₁.onServer (within_ite (fun _ => hinfo) fun _ => within_pure _)).bind fun _ w₂ hw₂ => ?_
  exact wires_answer 200 hw₂.toWiring

/-- PAUSE calls no callback. -/
theorem wires_handlePause (id : Option Bytes) (hw : Wiring w) :
    Wires G (Wired.handlePause c r id) (handlePause c r id) (fun _ w' => Wiring w') w := by
  apply wires_getRtspSession hw (wires_answer 454 hw)
  intro rs hrs
  refine Refines.skip ?_
  rw [wp_callback hrs.own.pause, if_pos rfl]
  exact ⟨rfl, wires_answer 501 hw⟩

/-- TEARDOWN calls `teardown` of a listed session. -/
theorem wires_handleTeardown (loc : Option ℕ) (track : ℤ) (id : Option Bytes) (hw : Wiring w) :
    Wires G (Wired.handleTeardown mc c r loc track id) (handleTeardown mc c r loc track id)
      (fun _ w' => Wiring w') w := by
  apply wires_findLocation
  cases w.server.location loc with
  | none => exact wires_answer 404 hw
  | some l =>
    refine Refines.ite (fun _ => wires_answer 404 hw) fun _ => ?_
    apply wires_getRtspSession hw (wires_answer 454 hw)
    intro rs hrs
    refine (hrs.onServer (opensNone_getSession rs.sess)).bind fun S w₁ hw₁ => ?_
    exact (wires_teardown _ hw₁).bind fun _ w₂ hw₂ => wires_answer 200 hw₂

/-- **Handlers.** With its callbacks a handler does what it does without, but for an ANNOUNCE that
gets to `set_sdp`. -/
theorem refines_rtspHandle (q : RtspRequest) (hw : Wiring w)
    (hG : q.Passes w.server → ∀ p, G (.unassigned p .setSdp)) :
    Wires G (Wired.rtspHandle mc c r q) (rtspHandle mc c r q) (fun _ w' => Wiring w') w := by
  cases q with
  | options => exact wires_answer 200 hw
  | announce loc auth setSdp => exact wires_handleAnnounce loc auth setSdp hw hG
  | describe loc auth => exact wires_handleDescribe loc auth hw
  | setup loc track auth transport id env =>
    exact wires_handleSetup loc track auth transport id env hw
  | play id haveStart => exact wires_handlePlay id haveStart hw
  | pause id => exact wires_handlePause id hw
  | teardown loc track id => exact wires_handleTeardown loc track id hw
  | unknown => exact wires_answer 501 hw

/-! ## One read -/

variable {C : Conn} {env : ReadEnv} {d : Bytes}

/-- `handle_request`, which hands a request over RTSP to its handler. -/
theorem wires_handleRequest (hw : Wiring w) (hC : w.server.conns c = some C)
    (hG : C.proto = .rtsp → ∀ m method uri,
      readRequest env.blank C.reqBuf = .ok (some (m, method, uri)) →
      (env.rtsp m method uri).Passes w.server → ∀ p, G (.unassigned p .setSdp)) :
    Wires G (Wired.handleRequest mc c env) (handleRequest mc c env) (fun _ w' => Wiring w') w := by
  have hconn : Wires G (onServer (getConn c)) (getConn c) (fun C' w' => w' = w ∧ C' = C) w := by
    apply wires_look
    rw [wp_getConn]
    refine ⟨fun C' hC' => ⟨rfl, ?_⟩, fun _ => trivial⟩
    exact Option.some.inj (hC'.symm.trans hC)
  unfold Wired.handleRequest handleRequest
  refine hconn.bind fun C' w' h => ?_
  obtain ⟨rfl, rfl⟩ := h
  refine (wires_look (R := fun o => readRequest env.blank C'.reqBuf = .ok o) ?_).bind
    fun o w₁ h => ?_
  · rw [wp_lift]
    exact ⟨fun o ho => ⟨rfl, ho⟩, fun _ _ => trivial⟩
  obtain ⟨rfl, hread⟩ := h
  cases o with
  | none => exact refines_pure hw
  | some request =>
    obtain ⟨m, method, uri⟩ := request
    refine hconn.bind fun C₁ w' h => ?_
    obtain ⟨rfl, rfl⟩ := h
    cases hp : C₁.proto with
    | http =>
      have hnot : NotRtsp (some c) w'.server := by
        rintro c' ⟨⟩ C' hC'
        rw [hC] at hC'
        obtain rfl := Option.some.inj hC'
        rw [hp]
        decide
      exact wires_onServer ((wp_httpRequest hnot m method uri).imp fun _ _ h => h.noneOpened)
        fun _ hs => hw.noneOpened hs
    | rtsp =>
      refine (refines_rtspHandle _ hw (hG hp m method uri hread)).bind fun _ w₂ hw₂ => ?_
      exact refines_pure hw₂
    | start =>
      refine hw.onServer (within_bind ?_ fun _ => within_pure _)
      exact opensNone_of_leavesLive (leavesLive_handleUnknown c env.reply)

/-- The operations on the connection `c`. -/
theorem lawful_wiredOps : (Wired.connOps mc c env).Lawful (fun w => w.server.conns c)
    fun w C => { w with server := w.server.setConn c C } where
  get {w C _ _} hC := by
    have hC : w.server.conns c = some C := hC
    change wp (zoom serverPart Mishap.fault (getConn c)) _ _ w ↔ _
    rw [wp_zoom, wp_getConn]
    simp [serverPart, hC]
  modify {w C _ _ _} hC := by
    have hC : w.server.conns c = some C := hC
    change wp (zoom serverPart Mishap.fault (modifyConn c _)) _ _ w ↔ _
    rw [wp_zoom, wp_modifyConn]
    simp [serverPart, hC, Server.setConn]
  conn_put w C := w.server.setConn_conns_self c C
  put_put w C C' := by simp
  put_self {w C} hC := by
    have hC : w.server.conns c = some C := hC
    simp [Server.setConn, ← hC]

/-- **Reads.** -/
theorem wires_readChunk (hw : Wiring w) (hC : w.server.conns c = some C)
    (hG : ∀ q, C.rtspRequest d env = some q → q.Passes w.server → ∀ p, G (.unassigned p .setSdp)) :
    Wires G (readChunk (Wired.connOps mc c env) d) (readChunk (connOps mc c env) d)
      (fun _ w' => Wiring w') w := by
  have hput : ∀ C', Wiring { w with server := w.server.setConn c C' } := fun C' =>
    hw.noneOpened (.of_same rfl rfl le_rfl)
  have hclear : ∀ {w : Wired}, Wiring w → Wires G
      ((Wired.connOps mc c env).modify fun C => { C with reqBuf := [] })
      (modifyConn c fun C => { C with reqBuf := [] }) (fun _ w' => Wiring w') w := fun hw =>
    hw.onServer (opensNone_modifyConn c _)
  have hdrop : ∀ {w : Wired}, Wiring w → Wires G (Wired.connOps mc c env).drop (dropConn mc c)
      (fun _ w' => Wiring w') w := fun hw => hw.onServer (opensNone_dropConn c)
  by_cases hfull : (C.receive d).reqBuf.length = reqBufSize - 1
  · refine (hdrop (hput (C.receive d))).of_wp (fun Q E => ?_) fun Q E => ?_
    · rw [lawful_wiredOps.wp_readChunk hC, if_pos hfull]
    · exact (wp_readChunk hC).trans (by rw [if_pos hfull]; exact Iff.rfl)
  by_cases h64 : (C.receive d).base64Count > 0
  · have hwait : Wires G (pure ()) (pure ()) (fun _ w' => Wiring w')
        { w with server := w.server.setConn c (C.receive d) } := refines_pure (hput _)
    refine hwait.of_wp (fun Q E => ?_) fun Q E => ?_
    · rw [lawful_wiredOps.wp_readChunk hC, if_neg hfull, if_pos h64]
      exact Iff.rfl
    · exact (wp_readChunk hC).trans (by rw [if_neg hfull, if_pos h64]; exact Iff.rfl)
  have hround : Wires G ((Wired.connOps mc c env).round
        (settle (C.receive d).proto (C.receive d).reqBuf).2)
      (settledRound mc c env (settle (C.receive d).proto (C.receive d).reqBuf).2)
      (fun _ w' => Wiring w') { w with server := w.server.setConn c (C.settled d) } := by
    have hC' := w.server.setConn_conns_self c (C.settled d)
    cases ha : (settle (C.receive d).proto (C.receive d).reqBuf).2 with
    | wait | detected p => exact refines_pure (hput _)
    | bad => exact hdrop (hput _)
    | request =>
      refine (wires_handleRequest (hput _) hC' fun hproto m method uri hread hpass p => ?_).bind
        fun ret w₁ hw₁ => ?_
      · -- this is the request that the read hands over
        have hsettle : settle (C.receive d).proto (C.receive d).reqBuf = (.rtsp, .request) :=
          Prod.ext hproto ha
        have hbuf : (C.settled d).reqBuf = (C.receive d).reqBuf := rfl
        refine hG (env.rtsp m method uri) ?_ hpass p
        unfold Conn.rtspRequest
        rw [if_pos ⟨⟨hfull, h64⟩, hsettle⟩, ← hbuf, hread]
      · exact Refines.ite (fun _ => hdrop hw₁) fun _ => hclear hw₁
    | packet chan d' =>
      refine ((hput _).onServer (y := interleaveRecv c chan d' env.now) ?_).bind fun _ w₁ hw₁ =>
        hclear hw₁
      intro s _
      refine (wp_interleaveRecv mc c chan d' env.now).imp fun _ s' h => ⟨trivial, ?_⟩
      rcases h with rfl | ⟨e, h⟩
      · exact refl s'
      · exact h.noneOpened (by simp) (by simp)
  refine hround.of_wp (fun Q E => ?_) fun Q E => ?_
  · rw [lawful_wiredOps.wp_readChunk hC, if_neg hfull, if_neg h64]
  · exact (wp_readChunk hC).trans (by rw [if_neg hfull, if_neg h64]; exact Iff.rfl)

/-- The ANNOUNCE that gets to `set_sdp`. -/
theorem wp_announce_passes {q : RtspRequest} {Q : Option ℕ → Wired → Prop}
    (hpass : q.Passes w.server) :
    wp (Wired.rtspHandle mc c r q) Q (fun e => ∃ p, e = .unassigned p .setSdp) w := by
  cases q with
  | announce loc auth setSdp =>
    obtain ⟨l, hl, hauth⟩ := hpass
    unfold Wired.rtspHandle Wired.handleAnnounce onServer
    rw [wp_bind, wp_zoom, wp_findLocation, show (serverPart.get w).location loc = some l from hl]
    change wp _ Q _ w
    unfold Wired.liveOpen onServer liveOpen
    rw [wp_bind, wp_bind, wp_zoom, wp_bind, wp_fresh, wp_bind, wp_modify, wp_bind, wp_modifyEntry,
      wp_pure, wp_bind, wp_modify, wp_pure, if_neg, wp_bind, wp_callback_none]
    · exact ⟨_, rfl⟩
    · change Function.update w.fields w.server.next liveFields w.server.next .setSdp = none
      rw [Function.update_self]
      exact (liveFields_eq_none _).2 (.inl rfl)
    · rintro ⟨hrealm, hno⟩
      exact hno (hauth hrealm)
  | _ => exact hpass.elim

/-- A read with it. -/
theorem wp_readChunk_passes {q : RtspRequest} {Q : Unit → Wired → Prop}
    (hC : w.server.conns c = some C) (hq : C.rtspRequest d env = some q)
    (hpass : q.Passes w.server) :
    wp (readChunk (Wired.connOps mc c env) d) Q (fun e => ∃ p, e = .unassigned p .setSdp) w := by
  unfold Conn.rtspRequest at hq
  split_ifs at hq with h
  obtain ⟨⟨hfull, h64⟩, hsettle⟩ := h
  rw [lawful_wiredOps.wp_readChunk hC, if_neg hfull, if_neg h64, hsettle]
  have hproto : (C.settled d).proto = .rtsp := congrArg Prod.fst hsettle
  have hbuf : (C.settled d).reqBuf = (C.receive d).reqBuf := rfl
  split at hq
  · rename_i m method uri hread
    obtain rfl := Option.some.inj hq
    have hgetConn : ∀ {R : Conn → Wired → Prop} {E : Mishap → Prop},
        R (C.settled d) { w with server := w.server.setConn c (C.settled d) } →
        wp (onServer (getConn c)) R E { w with server := w.server.setConn c (C.settled d) } :=
      fun {R E} hR => (@lawful_wiredOps mc c env).get
        (w.server.setConn_conns_self c (C.settled d)) |>.2 hR
    change wp (Wired.handleRequest mc c env >>= _) _ _ _
    unfold Wired.handleRequest
    rw [wp_bind, wp_bind]
    apply hgetConn
    unfold onServer
    rw [wp_bind, wp_zoom, wp_lift, hbuf, hread]
    refine ⟨fun o ho => ?_, fun _ ho => by cases ho⟩
    obtain rfl := Except.ok.inj ho
    dsimp only
    rw [wp_bind]
    apply hgetConn
    rw [hproto]
    dsimp only
    rw [wp_bind]
    exact wp_announce_passes hpass
  · cases hq
  · cases hq

end Wires

/-! ## Events -/

/-- A read hands over an ANNOUNCE that gets to `set_sdp`. -/
def WiredAct.Announces (s : Server) : WiredAct → Prop
  | .server (.read c d env) => s.delivery = none ∧ ∃ C q, s.conns c = some C ∧
      C.rtspRequest d env = some q ∧ q.Passes s
  | .server _ | .recorded _ => False

section Events

variable {mc : Bool} {w w' : Wired} {blocks : List (List ConfigLine)}
  {G : Wired → WiredAct → Prop}

/-- **Events.** With callbacks an event does what it does without, as long as it looks at none that
is unassigned. -/
theorem wires_serverAct (mc : Bool) (a : ServerAct) (hw : Wiring w) (henabled : w.server.enabled a) :
    Wires (fun e => ∃ p, e = .unassigned p .setSdp ∧ (WiredAct.server a).Announces w.server)
      (wiredAct mc (.server a)) (serverAct mc a) (fun _ w' => Wiring w') w := by
  cases a with
  | read c d env =>
    have hidle : w.server.delivery = none := by simpa [Server.enabled] using henabled
    have hx : ∀ Q E, wp (wiredAct mc (.server (.read c d env))) Q E w ↔
        wp (if w.server.hasConn c then readChunk (Wired.connOps mc c env) d else pure ()) Q E w :=
      fun _ _ => Iff.rfl
    have hy : ∀ Q E, wp (serverAct mc (.read c d env)) Q E w.server ↔
        wp (if w.server.hasConn c then readChunk (connOps mc c env) d else pure ()) Q E w.server :=
      fun _ _ => Iff.rfl
    refine Refines.of_wp (Refines.ite (fun hc => ?_) fun _ => refines_pure hw) hx hy
    obtain ⟨C, hC⟩ := Option.isSome_iff_exists.1 hc
    refine wires_readChunk hw hC fun q hq hpass p => ?_
    exact ⟨p, rfl, hidle, C, q, hC, hq, hpass⟩
  | accept | close | closeSecond | write | jpeg | frame | deliver | timer | udp =>
    refine hw.onServer (opensNone_serverAct fun c d env h => ?_)
    cases h

/-- A step, with callbacks and without. -/
theorem refines_wiredStep (mc : Bool) (a : ServerAct) (hw : Wiring w) :
    match wiredStep mc w (.server a) with
    | .ok (w', os) => serverStep mc w.server a = .ok (w'.server, os) ∧ Wiring w'
    | .error (.fault e) => serverStep mc w.server a = .error e
    | .error (.unassigned _ k) => k = .setSdp ∧ (WiredAct.server a).Announces w.server := by
  unfold wiredStep serverStep
  by_cases henabled : w.server.enabled a = true
  · rw [if_pos henabled, if_pos (show w.enabled (.server a) = true from henabled)]
    have hrefines := wires_serverAct mc a hw henabled
    unfold Wires Refines wp at hrefines
    rcases hrun : (wiredAct mc (.server a)).run w with e | ⟨u, w'⟩ <;> rw [hrun] at hrefines
    · rcases hrefines with ⟨p, rfl, hannounce⟩ | ⟨e', hserver, rfl⟩
      · exact ⟨rfl, hannounce⟩
      · change Except.map _ ((serverAct mc a).run w.server) = _
        rw [show (serverAct mc a).run w.server = .error e' from hserver]
        rfl
    · obtain ⟨hserver, hw'⟩ := hrefines
      refine ⟨?_, hw'⟩
      rw [show (serverAct mc a).run w.server = .ok (u, w'.server) from hserver]
      rfl
  · rw [if_neg henabled, if_neg (show ¬ w.enabled (.server a) = true from henabled)]
    exact ⟨rfl, hw⟩

/-- Nothing is recorded for a live session. -/
theorem wiredStep_recorded (h : Unrecorded w.server) (e : ℕ) :
    wiredStep mc w (.recorded e) = .ok (w, []) := by
  have hact : wp (wiredAct mc (.recorded e)) (fun _ w' => w' = w) (fun _ => False) w := by
    unfold wiredAct
    rw [wp_bind, wp_get]
    cases hE : w.server.endpoints e with
    | none => exact rfl
    | some E =>
      dsimp only
      rw [if_neg (by simp [h e E hE])]
      exact rfl
  unfold wiredStep
  split_ifs
  · unfold wp at hact
    rcases hrun : (wiredAct mc (.recorded e)).run w with e' | ⟨u, w'⟩ <;> rw [hrun] at hact
    · exact hact.elim
    · rw [hact]
      simp [Except.map]
  · rfl

/-- **Runs.** Every session has its callbacks, and the server is one that is reached without
callbacks too. -/
theorem wiring_run (h : (wiredMachine mc blocks).Reachable G w) :
    Wiring w ∧ (liveMachine mc blocks).Reachable Machine.anyStep w.server := by
  refine h.invariant (fun w => Wiring w ∧
    (liveMachine mc blocks).Reachable Machine.anyStep w.server) (fun w hw => ?_)
    fun w a w' os ih _ hstep => ?_
  · obtain ⟨s₀, h₀, hconf⟩ := id hw
    have hidle := configured_of_configure h₀ hconf
    refine ⟨⟨fun p hp => ?_, fun rs hrs => ?_⟩, [], [], .init hw⟩
    · rw [hidle.sessions] at hp
      cases hp
    · rw [hidle.rtspSessList] at hrs
      cases hrs
  · obtain ⟨hw, hreach⟩ := ih
    have hstep : wiredStep mc w a = .ok (w', os) := hstep
    cases a with
    | server a =>
      have hrefines := refines_wiredStep mc a hw
      rw [hstep] at hrefines
      obtain ⟨as, os', hrun⟩ := hreach
      exact ⟨hrefines.2, _, _, hrun.step trivial hrefines.1⟩
    | recorded e =>
      rw [wiredStep_recorded (unrecorded_run hreach)] at hstep
      cases hstep
      exact ⟨hw, hreach⟩

/-- **Callbacks.** Whatever has happened before, an event looks at no callback of a session that is
unassigned if and only if it is no ANNOUNCE that names a location and passes the check of its
credentials. -/
theorem callbacks_assigned_iff (h : (wiredMachine mc blocks).Reachable G w) (a : WiredAct) :
    (∀ p k, (wiredMachine mc blocks).step w a ≠ .error (.unassigned p k)) ↔
      ¬ a.Announces w.server := by
  obtain ⟨hw, hreach⟩ := wiring_run h
  change (∀ p k, wiredStep mc w a ≠ .error (.unassigned p k)) ↔ _
  refine ⟨fun hassigned hannounce => ?_, fun hno p k hstep => ?_⟩
  · cases a with
    | recorded e => exact hannounce
    | server a =>
      cases a with
      | read c d env =>
        obtain ⟨hidle, C, q, hC, hq, hpass⟩ := hannounce
        have hact : wp (wiredAct mc (.server (.read c d env))) (fun _ _ => False)
            (fun e => ∃ p, e = .unassigned p .setSdp) w := by
          unfold wiredAct
          rw [wp_bind, wp_get, if_pos (by simp [Server.hasConn, hC])]
          exact wp_readChunk_passes hC hq hpass
        unfold wp at hact
        unfold wiredStep at hassigned
        rw [if_pos (by simp [Wired.enabled, Server.enabled, hidle])] at hassigned
        rcases hrun : (wiredAct mc (.server (.read c d env))).run w with e | ⟨u, w'⟩ <;>
          rw [hrun] at hact hassigned
        · obtain ⟨p, rfl⟩ := hact
          exact hassigned p .setSdp rfl
        · exact hact
      | accept | close | closeSecond | write | jpeg | frame | deliver | timer | udp =>
        exact hannounce
  · cases a with
    | recorded e =>
      rw [wiredStep_recorded (unrecorded_run hreach)] at hstep
      cases hstep
    | server a =>
      have hrefines := refines_wiredStep mc a hw
      rw [hstep] at hrefines
      exact hno hrefines.2

end Events

/-! ## A client that announces -/

/-- The server of `openBlocks`, whose memory may hold anything. -/
def wiredOpen : Wired := ⟨configured openBlocks, fun _ => mallocd⟩

/-- The unassigned callback that a step looks at. -/
def unassignedOf {α : Type} : Except Mishap α → Option (ℕ × Callback)
  | .error (.unassigned p k) => some (p, k)
  | .error (.fault _) | .ok _ => none

/-- What `unassignedOf` tells is the mishap. -/
theorem of_unassignedOf {α : Type} {x : Except Mishap α} {p : ℕ} {k : Callback}
    (h : unassignedOf x = some (p, k)) : x = .error (.unassigned p k) := by
  match x with
  | .error (.unassigned p' k') =>
    simp only [unassignedOf, Option.some.injEq, Prod.mk.injEq] at h
    rw [h.1, h.2]

/-- A PLAY behind a SETUP. -/
theorem callbacks_assigned_play : ∃ w, (wiredMachine false openBlocks).Run Machine.anyStep
    [.server (.accept 3), .server (.read 0 setupUdpText (askEnv setupUdp))] [] w ∧
    w.server.sessList = [1] ∧ ∀ p k, (wiredMachine false openBlocks).step w
      (.server (.read 0 playUdpText (askEnv playUdp))) ≠ .error (.unassigned p k) := by
  obtain ⟨w, hrun, hw⟩ := Machine.Run.of_exec (M := wiredMachine false openBlocks)
    (G := Machine.anyStep) (fun w : Wired => w.server.sessList)
    (show (wiredMachine false openBlocks).Init wiredOpen from openServer_init)
    (show ((wiredMachine false openBlocks).exec _ wiredOpen
      [.server (.accept 3), .server (.read 0 setupUdpText (askEnv setupUdp))]).map _ =
      some ([], [1]) by decide +kernel)
  refine ⟨w, hrun, hw, (callbacks_assigned_iff ⟨_, _, hrun⟩ _).2 ?_⟩
  rintro ⟨-, C, q, -, hq, hpass⟩
  have hplay := Conn.rtspRequest_askEnv (C := C) (by rw [hq]; rfl)
  rw [hq] at hplay
  obtain rfl := Option.some.inj hplay
  exact hpass

/-- An ANNOUNCE that anybody may send. -/
theorem announce_unassigned : ∃ w, (wiredMachine false openBlocks).Run Machine.anyStep
    [.server (.accept 3)] [] w ∧ (wiredMachine false openBlocks).step w
      (.server (.read 0 announceText (askEnv (.announce (some 0) true false)))) =
        .error (.unassigned 1 .setSdp) := by
  obtain ⟨w, hrun, hw⟩ := Machine.Run.of_exec (M := wiredMachine false openBlocks)
    (G := Machine.anyStep) (fun w : Wired => unassignedOf (wiredStep false w
      (.server (.read 0 announceText (askEnv (.announce (some 0) true false))))))
    (show (wiredMachine false openBlocks).Init wiredOpen from openServer_init)
    (show ((wiredMachine false openBlocks).exec _ wiredOpen [.server (.accept 3)]).map _ =
      some ([], some (1, .setSdp)) by decide +kernel)
  exact ⟨w, hrun, of_unassignedOf hw⟩

end Spook
