import Spook.Tcp.Server
import Mathlib.Data.Option.Basic

set_option relaxedAutoImplicit false
set_option autoImplicit false

/-!
# What RTSP leaves alone

The functions behind an RTSP request, an RTP packet or a frame reach a connection only through its
send buffer and the channels of its `rtsp_conn`. Everything else that the server keeps about its
connections and its JPEG streams stays as it was.

## Main definitions

* `Spook.LeftAlone` — what stays as it was.
* `Spook.InterTyped` — the connection of an interleaved endpoint has an `rtsp_conn`.
* `Spook.Safe` — a program keeps all that, and takes no structure for another.

## Main results

* `Spook.safe_liveTeardown`, `safe_continueFrame`, `safeOn_rtspConnDisconnect`,
  `safeOn_rtspHandle` — one lemma for each function, up to these.

## Notes on the design

What is kept is a relation between the states before and behind a program, with the connection that
makes the request as a parameter: only that one may get an `rtsp_conn`. The relation is reflexive
and transitive, so that it passes through loops and binds by the rules of `Within`, and the lemma
for a function only lists those of the functions that it calls.
-/

namespace Spook

/-- `proto_state` points to an `rtsp_conn`. -/
def ProtoState.IsRtsp : ProtoState → Prop
  | .rtspConn _ => True
  | .null | .stream _ => False

/-- An event of a tunnel. -/
def Event.IsTunnel : Event → Prop
  | .tunnelGet _ _ | .tunnelPost _ _ _ => True
  | .keyFrame _ _ _ | .deltaFrame _ | .skipped _ | .stopped _ | .shared _ => False

/-- A connection before and after: the `rtsp_conn` of the connection that makes the request may be
new. -/
structure ConnKept (own : Prop) (C C' : Conn) : Prop where
  fd : C'.fd = C.fd
  secondFd : C'.secondFd = C.secondFd
  proto : C'.proto = C.proto
  httpTunnelCookie : C'.httpTunnelCookie = C.httpTunnelCookie
  base64Count : C'.base64Count = C.base64Count
  protoState : C'.protoState = C.protoState ∨
    C'.protoState.IsRtsp ∧ (C.protoState.IsRtsp ∨ own ∧ C.protoState = .null)

/-- The server before and after. `req` is the connection that makes the request, if any. -/
structure LeftAlone (req : Option ℕ) (s s' : Server) : Prop where
  connList : s'.connList = s.connList
  conns : ∀ c, Option.Rel (ConnKept (req = some c)) (s.conns c) (s'.conns c)
  httpLocs : s'.httpLocs = s.httpLocs
  httpLocList : s'.httpLocList = s.httpLocList
  streams : s'.streams = s.streams
  next : s.next ≤ s'.next
  log : ∃ evs, s'.log = s.log ++ evs ∧ ∀ ev ∈ evs, ¬ ev.IsTunnel

/-- The names of connections are not given again, and the connection of an interleaved endpoint
has an `rtsp_conn`. -/
structure InterTyped (s : Server) : Prop where
  conn_lt : ∀ c C, s.conns c = some C → c < s.next
  inter_lt : ∀ e E c a b, s.endpoints e = some E → E.trans = .inter c a b → c < s.next
  inter_isRtsp : ∀ e E c a b, s.endpoints e = some E → E.trans = .inter c a b →
    ∀ C, s.conns c = some C → C.protoState.IsRtsp

section Kept

variable {own : Prop} {req : Option ℕ}

/-- A connection that stays as it was is kept. -/
theorem ConnKept.refl (C : Conn) : ConnKept own C C := ⟨rfl, rfl, rfl, rfl, rfl, .inl rfl⟩

/-- What has an `rtsp_conn` keeps it. -/
theorem ConnKept.isRtsp {C C' : Conn} (h : ConnKept own C C') (hr : C.protoState.IsRtsp) :
    C'.protoState.IsRtsp := by
  rcases h.protoState with heq | ⟨hr', -⟩
  · rwa [heq]
  · exact hr'

/-- Without a request of its own, what has nothing in `proto_state` gets nothing. -/
theorem ConnKept.null {c : ℕ} {C C' : Conn} (h : ConnKept (none = some c) C C')
    (hn : C.protoState = .null) : C'.protoState = .null := by
  rcases h.protoState with heq | ⟨-, hr | ⟨hown, -⟩⟩
  · rw [heq, hn]
  · rw [hn] at hr
    exact hr.elim
  · cases hown

/-- What two steps keep of a connection, both keep. -/
theorem ConnKept.trans {C C' C'' : Conn} (h : ConnKept own C C') (h' : ConnKept own C' C'') :
    ConnKept own C C'' := by
  refine ⟨h'.fd.trans h.fd, h'.secondFd.trans h.secondFd, h'.proto.trans h.proto,
    h'.httpTunnelCookie.trans h.httpTunnelCookie, h'.base64Count.trans h.base64Count, ?_⟩
  rcases h.protoState, h'.protoState with ⟨heq | ⟨hr, hor⟩, heq' | ⟨hr', hor'⟩⟩
  · exact .inl (heq'.trans heq)
  · rw [heq] at hor'
    exact .inr ⟨hr', hor'⟩
  · rw [← heq'] at hr
    exact .inr ⟨hr, hor⟩
  · exact .inr ⟨hr', hor⟩

/-- A connection that is there stays there. -/
theorem LeftAlone.conn {s s' : Server} (h : LeftAlone req s s') {c : ℕ} {C : Conn}
    (hC : s.conns c = some C) : ∃ C', s'.conns c = some C' ∧ ConnKept (req = some c) C C' := by
  have hrel := h.conns c
  rw [hC] at hrel
  cases hrel' : s'.conns c <;> rw [hrel'] at hrel <;> cases hrel
  exact ⟨_, rfl, by assumption⟩

/-- A connection that is there was there. -/
theorem LeftAlone.conn' {s s' : Server} (h : LeftAlone req s s') {c : ℕ} {C' : Conn}
    (hC : s'.conns c = some C') : ∃ C, s.conns c = some C ∧ ConnKept (req = some c) C C' := by
  have hrel := h.conns c
  rw [hC] at hrel
  cases hrel' : s.conns c <;> rw [hrel'] at hrel <;> cases hrel
  exact ⟨_, rfl, by assumption⟩

instance : IsPreorder Server (LeftAlone req) where
  refl s := ⟨rfl, fun c => by cases s.conns c <;> constructor; exact .refl _, rfl, rfl, rfl,
    le_rfl, [], by simp, by simp⟩
  trans s s' s'' h h' := by
    obtain ⟨evs, hlog, htun⟩ := h.log
    obtain ⟨evs', hlog', htun'⟩ := h'.log
    refine ⟨h'.connList.trans h.connList, fun c => ?_, h'.httpLocs.trans h.httpLocs,
      h'.httpLocList.trans h.httpLocList, h'.streams.trans h.streams, h.next.trans h'.next,
      evs ++ evs', by rw [hlog', hlog, List.append_assoc], ?_⟩
    · have hrel := h.conns c
      have hrel' := h'.conns c
      revert hrel hrel'
      rcases s.conns c with _ | C <;> rcases s'.conns c with _ | C' <;>
        rcases s''.conns c with _ | C'' <;> rintro (_ | hC) (_ | hC') <;> constructor
      rename_i h₁ h₂
      exact h₁.trans h₂
    · intro ev hev
      rcases List.mem_append.1 hev with hev | hev
      · exact htun ev hev
      · exact htun' ev hev

/-- A connection that gets an `rtsp_conn` is the one that makes the request. -/
theorem LeftAlone.rtspTyped {s s' : Server} (h : LeftAlone req s s')
    (hr : ∀ c C, s.conns c = some C → C.protoState.IsRtsp → C.proto = .rtsp)
    (hreq : ∀ c, req = some c → ∀ C, s.conns c = some C → C.proto = .rtsp) :
    ∀ c C, s'.conns c = some C → C.protoState.IsRtsp → C.proto = .rtsp := by
  intro c C' hC' hr'
  obtain ⟨C, hC, hkept⟩ := h.conn' hC'
  rw [hkept.proto]
  rcases hkept.protoState with heq | ⟨-, hr' | ⟨hown, -⟩⟩
  · exact hr c C hC (heq ▸ hr')
  · exact hr c C hC hr'
  · exact hreq c hown C hC

end Kept

/-- The program keeps what RTSP leaves alone, and never takes a `proto_state` for something it is
not. -/
abbrev Safe {α : Type} (req : Option ℕ) (x : M α) : Prop :=
  Within InterTyped (LeftAlone req) (· ≠ .protoState) x

/-! ## Single steps -/

section Steps

variable {req : Option ℕ}

/-- A change of the live side that leaves the transports alone. -/
theorem safe_modify {f : Server → Server}
    (h : ∀ s, (f s).conns = s.conns ∧ (f s).connList = s.connList ∧
      (f s).httpLocs = s.httpLocs ∧ (f s).httpLocList = s.httpLocList ∧
      (f s).streams = s.streams ∧ s.next ≤ (f s).next ∧ (f s).log = s.log)
    (he : ∀ s e E, (f s).endpoints e = some E →
      (∃ E', s.endpoints e = some E' ∧ E'.trans = E.trans) ∨ E.trans = .none) :
    Safe req (modify f : M Unit) := by
  refine within_modify fun s hs => ⟨⟨fun c C hC => ?_, ?_, ?_⟩, ?_⟩
  · rw [(h s).1] at hC
    exact (hs.conn_lt c C hC).trans_le (h s).2.2.2.2.2.1
  · intro e E c a b hE htrans
    rcases he s e E hE with ⟨E', hE', heq⟩ | hnone
    · exact (hs.inter_lt e E' c a b hE' (heq.trans htrans)).trans_le (h s).2.2.2.2.2.1
    · rw [hnone] at htrans
      cases htrans
  · intro e E c a b hE htrans C hC
    rw [(h s).1] at hC
    rcases he s e E hE with ⟨E', hE', heq⟩ | hnone
    · exact hs.inter_isRtsp e E' c a b hE' (heq.trans htrans) C hC
    · rw [hnone] at htrans
      cases htrans
  · obtain ⟨h1, h2, h3, h4, h5, h6, h7⟩ := h s
    have hrefl := refl (r := LeftAlone req) s
    exact ⟨h2, fun c => by rw [h1]; exact hrefl.conns c, h3, h4, h5, h6, [], by rw [h7]; simp,
      by simp⟩

/-- A look at a connection changes nothing. -/
theorem safe_getConn (c : ℕ) : Safe req (getConn c) :=
  within_bind within_get fun _ => within_found (by decide)

/-- A look at an endpoint changes nothing. -/
theorem safe_getEndpoint (e : ℕ) : Safe req (getEndpoint e) :=
  within_bind within_get fun _ => within_found (by decide)

/-- A look at a session changes nothing. -/
theorem safe_getSession (p : ℕ) : Safe req (getSession p) :=
  within_bind within_get fun _ => within_found (by decide)

/-- A change of a session touches no connection. -/
theorem safe_modifySession (p : ℕ) (f : Session → Session) :
    Safe req (modifySession p f) :=
  within_bind (safe_getSession p) fun _ =>
    safe_modify (fun _ => ⟨rfl, rfl, rfl, rfl, rfl, le_rfl, rfl⟩)
      fun _ _ E hE => .inl ⟨E, hE, rfl⟩

/-- A change of a track touches no connection. -/
theorem safe_modifyTrack (t : ℕ) (f : LiveTrack → LiveTrack) :
    Safe req (modifyTrack t f) :=
  safe_modify (fun _ => ⟨rfl, rfl, rfl, rfl, rfl, le_rfl, rfl⟩)
    fun _ _ E hE => .inl ⟨E, hE, rfl⟩

/-- A change of a `live_source` touches no connection. -/
theorem safe_modifyEntry (n : ℕ) (f : LiveEntry → LiveEntry) :
    Safe req (modifyEntry n f) :=
  safe_modify (fun _ => ⟨rfl, rfl, rfl, rfl, rfl, le_rfl, rfl⟩)
    fun _ _ E hE => .inl ⟨E, hE, rfl⟩

/-- A new name touches no connection. -/
theorem safe_fresh : Safe req fresh := by
  intro s hs
  rw [wp_fresh]
  refine ⟨⟨fun c C hC => (hs.conn_lt c C hC).trans (Nat.lt_succ_self _), ?_, hs.inter_isRtsp⟩, rfl,
    (refl (r := LeftAlone req) s).conns, rfl, rfl, rfl, Nat.le_succ _, [], by simp, by simp⟩
  exact fun e E c a b hE htrans =>
    (hs.inter_lt e E c a b hE htrans).trans (Nat.lt_succ_self _)

/-- Only the events of tunnels are about HTTP. -/
theorem safe_record {ev : Event} (h : ¬ ev.IsTunnel) : Safe req (record ev) :=
  within_modify fun s hs => ⟨⟨hs.conn_lt, hs.inter_lt, hs.inter_isRtsp⟩, rfl,
    (refl (r := LeftAlone req) s).conns, rfl, rfl, rfl, le_rfl, [ev], rfl, by simpa using h⟩

/-- A change of a connection within what RTSP may do. -/
theorem modifyConn_safe {c : ℕ} {f : Conn → Conn} {s : Server} (hs : InterTyped s)
    (h : ∀ C, s.conns c = some C → ConnKept (req = some c) C (f C)) :
    wp (modifyConn c f) (fun _ s' => InterTyped s' ∧ LeftAlone req s s') (· ≠ .protoState) s := by
  rw [wp_modifyConn]
  refine ⟨fun C hC => ⟨⟨fun c' C' hC' => ?_, hs.inter_lt, ?_⟩, rfl, fun c' => ?_, rfl, rfl, rfl,
    le_rfl, [], by simp, by simp⟩, fun _ => by decide⟩
  · dsimp only at hC'
    by_cases hc : c' = c
    · exact hc ▸ hs.conn_lt c C hC
    · rw [Function.update_of_ne hc] at hC'
      exact hs.conn_lt c' C' hC'
  · intro e E c' a b hE htrans C' hC'
    dsimp only at hE hC'
    by_cases hc : c' = c
    · rw [hc, Function.update_self] at hC'
      cases hC'
      exact (h C hC).isRtsp (hs.inter_isRtsp e E c a b hE (hc ▸ htrans) C hC)
    · rw [Function.update_of_ne hc] at hC'
      exact hs.inter_isRtsp e E c' a b hE htrans C' hC'
  · by_cases hc : c' = c
    · simp only [hc, hC, Function.update_self]
      exact .some (h C hC)
    · simp only [Function.update_of_ne hc]
      exact (refl (r := LeftAlone req) s).conns c'

/-- What is sent on a connection is none of RTSP's business. -/
theorem safe_sendData (c len : ℕ) :
    Safe req (modifyConn c fun C => (C.sendData len).1) := by
  refine fun s hs => modifyConn_safe hs fun C _ => ?_
  unfold Conn.sendData
  split_ifs
  · exact .refl _
  · exact ⟨rfl, rfl, rfl, rfl, rfl, .inl rfl⟩

/-- A change of an endpoint that leaves its transport alone, or makes it another one than an
interleaved one. -/
theorem safe_modifyEndpoint {e : ℕ} {f : Endpoint → Endpoint}
    (h : ∀ E, (f E).trans = E.trans ∨ ∀ c a b, (f E).trans ≠ .inter c a b) :
    Safe req (modifyEndpoint e f) := by
  intro s hs
  rw [wp_modifyEndpoint]
  refine ⟨fun E hE => ?_, fun _ => by decide⟩
  -- an interleaved endpoint afterwards is one before
  have hold : ∀ e' E' c a b, Function.update s.endpoints e (some (f E)) e' = some E' →
      E'.trans = .inter c a b → ∃ E₀, s.endpoints e' = some E₀ ∧ E₀.trans = .inter c a b := by
    intro e' E' c a b hE' htrans
    by_cases he : e' = e
    · rw [he, Function.update_self] at hE'
      cases hE'
      rcases h E with heq | hne
      · exact ⟨E, he ▸ hE, heq ▸ htrans⟩
      · exact absurd htrans (hne c a b)
    · rw [Function.update_of_ne he] at hE'
      exact ⟨E', hE', htrans⟩
  refine ⟨⟨hs.conn_lt, fun e' E' c a b hE' htrans => ?_, fun e' E' c a b hE' htrans => ?_⟩, rfl,
    (refl (r := LeftAlone req) s).conns, rfl, rfl, rfl, le_rfl, [], by simp, by simp⟩
  · obtain ⟨E₀, hE₀, htrans₀⟩ := hold e' E' c a b hE' htrans
    exact hs.inter_lt e' E₀ c a b hE₀ htrans₀
  · obtain ⟨E₀, hE₀, htrans₀⟩ := hold e' E' c a b hE' htrans
    exact hs.inter_isRtsp e' E₀ c a b hE₀ htrans₀

end Steps

/-! ## The functions -/

section Functions

variable {req : Option ℕ} (mc : Bool)

/-- `set_waiting` touches no connection. -/
theorem safe_setWaiting (t : ℕ) (w : Bool) : Safe req (setWaiting t w) := by
  refine within_bind within_get fun s => ?_
  split
  · exact within_throw (by decide)
  · exact safe_modifyTrack t _

/-- The search for a playing session changes nothing. -/
theorem safe_trackPlays (t : ℕ) : Safe req (trackPlays t) := by
  refine within_bind within_get fun s => within_anyM (fun n => ?_) _
  refine within_bind within_get fun s => within_anyM (fun j => within_ite (fun _ => ?_) fun _ => ?_) _
  · exact within_anyM (fun ls => within_bind (safe_getSession ls) fun S => within_pure _) _
  · exact within_pure _

/-- The channels of a connection that has an `rtsp_conn` are channels. -/
theorem interleaveDisconnect_safe (req : Option ℕ) (chan : ℕ) {c : ℕ} {s : Server} (hs : InterTyped s)
    (hc : ∀ C, s.conns c = some C → C.protoState.IsRtsp) :
    wp (interleaveDisconnect c chan) (fun _ s' => InterTyped s' ∧ LeftAlone req s s')
      (· ≠ .protoState) s := by
  unfold interleaveDisconnect
  rw [wp_bind, wp_getConn]
  refine ⟨fun C hC => ?_, fun _ => by decide⟩
  have hr := hc C hC
  cases hp : C.protoState with
  | null => rw [hp] at hr; exact hr.elim
  | stream p => rw [hp] at hr; exact hr.elim
  | rtspConn ichan =>
    refine modifyConn_safe hs fun C' hC' => ?_
    rw [hC] at hC'
    cases hC'
    exact ⟨rfl, rfl, rfl, rfl, rfl, .inr ⟨trivial, .inl hr⟩⟩

/-- The endpoint of a name is the only one that can be removed under it. -/
theorem safe_removeEndpoint (e : ℕ) : Safe req (modify fun s : Server =>
    { s with endpoints := Function.update s.endpoints e none } : M Unit) := by
  refine safe_modify (fun _ => ⟨rfl, rfl, rfl, rfl, rfl, le_rfl, rfl⟩) fun s e' E hE => ?_
  dsimp only at hE
  by_cases he : e' = e
  · rw [he, Function.update_self] at hE
    cases hE
  · rw [Function.update_of_ne he] at hE
    exact .inl ⟨E, hE, rfl⟩

/-- An interleaved transport takes the `proto_state` of its connection for an `rtsp_conn`, which it
is; its channel is given up there. -/
theorem disconnectTrans_safe (req : Option ℕ) {E : Endpoint} {e : ℕ} {s : Server} (hs : InterTyped s)
    (hE : s.endpoints e = some E) :
    wp (disconnectTrans E.trans) (fun _ s' => InterTyped s' ∧ LeftAlone req s s')
      (· ≠ .protoState) s := by
  cases htrans : E.trans with
  | none | udp | mc => exact ⟨hs, refl s⟩
  | inter c a b =>
    have hc := hs.inter_isRtsp e E c a b hE htrans
    unfold disconnectTrans
    rw [wp_bind]
    have h₁ := interleaveDisconnect_safe req a hs hc
    refine h₁.mono (fun _ s₁ h₁ => ?_) fun _ h => h
    have hc₁ : ∀ C, s₁.conns c = some C → C.protoState.IsRtsp := by
      intro C₁ hC₁
      obtain ⟨C, hC, hkept⟩ := h₁.2.conn' hC₁
      exact hkept.isRtsp (hc C hC)
    have h₂ := interleaveDisconnect_safe req b h₁.1 hc₁
    exact h₂.mono (fun _ s₂ h₂ => ⟨h₂.1, IsTrans.trans _ _ _ h₁.2 h₂.2⟩) fun _ h => h

/-- `del_rtp_endpoint` touches connections only where the endpoint is interleaved. -/
theorem safe_delRtpEndpoint (e : ℕ) : Safe req (delRtpEndpoint e) := by
  intro s hs
  unfold delRtpEndpoint
  rw [wp_bind, wp_getEndpoint]
  refine ⟨fun E hE => ?_, fun _ => by decide⟩
  rw [wp_bind]
  have h₁ := disconnectTrans_safe req hs hE
  refine h₁.mono (fun _ s₁ h₁ => ?_) fun _ h => h
  exact (safe_removeEndpoint e s₁ h₁.1).mono
    (fun _ s₂ h₂ => ⟨h₂.1, IsTrans.trans _ _ _ h₁.2 h₂.2⟩) fun _ h => h

/-- A session is freed; no connection is. -/
theorem safe_delSession (p : ℕ) : Safe req (delSession p) :=
  within_bind (safe_getSession p) fun _ =>
    safe_modify (fun _ => ⟨rfl, rfl, rfl, rfl, rfl, le_rfl, rfl⟩)
      fun _ _ E hE => .inl ⟨E, hE, rfl⟩

/-- `track_check_running1` keeps what RTSP leaves alone. -/
theorem safe_trackCheckRunning1 (t : ℕ) : Safe req (trackCheckRunning1 mc t) := by
  refine within_bind (safe_trackPlays t) fun b => within_ite (fun _ => within_pure _) fun _ => ?_
  refine within_bind (safe_setWaiting t false) fun _ => within_ite (fun _ => ?_) fun _ =>
    within_pure _
  refine within_bind within_get fun s => ?_
  split
  · exact within_bind (safe_delRtpEndpoint _) fun _ => safe_modifyTrack t _
  all_goals exact within_throw (by decide)

/-- The loop of `live_teardown`: by induction on the slots that are left. -/
theorem safe_teardownTracks (p : ℕ) (ep : Option ℕ) (is : List ℕ) :
    Safe req (teardownTracks mc p ep is) := by
  induction is with
  | nil => exact within_pure _
  | cons i is ih =>
    refine within_bind (safe_getSession p) fun S => within_bind within_get fun s => ?_
    split
    · exact within_pure _
    refine within_bind within_get fun s => within_ite (fun _ => within_pure _) fun _ => ?_
    split
    · exact ih
    refine within_ite (fun _ => ?_) fun _ => within_bind ih fun _ => within_pure _
    refine within_bind ?_ fun _ => within_bind (safe_modifySession p _) fun _ => ?_
    · exact within_ite (fun _ => within_pure _) fun _ => safe_delRtpEndpoint _
    exact within_bind (safe_trackCheckRunning1 mc _) fun _ => ih

/-- `live_teardown` keeps what RTSP leaves alone. -/
theorem safe_liveTeardown (p : ℕ) (ep : Option ℕ) : Safe req (liveTeardown mc p ep) := by
  refine within_bind (safe_teardownTracks mc p ep _) fun n => ?_
  refine within_ite (fun _ => ?_) fun _ => within_pure _
  refine within_bind (safe_getSession p) fun S => ?_
  exact within_bind (safe_modifyEntry _ _) fun _ => safe_delSession p

/-- `live_open` keeps what RTSP leaves alone. -/
theorem safe_liveOpen (n : ℕ) : Safe req (liveOpen n) := by
  refine within_bind safe_fresh fun p => ?_
  refine within_bind (safe_modify (fun _ => ⟨rfl, rfl, rfl, rfl, rfl, le_rfl, rfl⟩)
    fun _ _ E hE => .inl ⟨E, hE, rfl⟩) fun _ => ?_
  exact within_bind (safe_modifyEntry n _) fun _ => within_pure _

/-- A new endpoint has no transport yet. -/
theorem safe_newRtpEndpoint (env : SetupEnv) : Safe req (newRtpEndpoint env) := by
  refine within_ite (fun _ => ?_) fun _ => within_pure _
  refine within_bind safe_fresh fun e => within_bind ?_ fun _ => within_pure _
  refine safe_modify (fun _ => ⟨rfl, rfl, rfl, rfl, rfl, le_rfl, rfl⟩) fun s e' E hE => ?_
  dsimp only at hE
  by_cases he : e' = e
  · rw [he, Function.update_self] at hE
    cases hE
    exact .inr rfl
  · rw [Function.update_of_ne he] at hE
    exact .inl ⟨E, hE, rfl⟩

/-- `live_setup` keeps what RTSP leaves alone. -/
theorem safe_liveSetup (p t : ℕ) (env : SetupEnv) : Safe req (liveSetup mc p t env) := by
  refine within_bind (safe_getSession p) fun S => within_bind within_get fun s => ?_
  split
  · exact within_pure _
  refine within_bind within_get fun s => ?_
  split
  · exact within_pure _
  refine within_ite (fun _ => ?_) fun _ => ?_
  · split
    · exact within_throw (by decide)
    · refine within_bind (safe_modifySession p _) fun _ => ?_
      exact within_bind (safe_modifyEndpoint fun _ => .inl rfl) fun _ => within_pure _
    · refine within_bind (safe_newRtpEndpoint env) fun o => ?_
      split
      · exact within_pure _
      refine within_bind (safe_modifyTrack _ _) fun _ => ?_
      refine within_bind ?_ fun _ => ?_
      · refine within_ite (fun _ => safe_modifyEndpoint fun _ => ?_) fun _ => within_pure _
        exact .inr fun _ _ _ h => by cases h
      · exact within_bind (safe_modifySession p _) fun _ => within_pure _
  · refine within_bind (safe_newRtpEndpoint env) fun o => ?_
    split
    · exact within_throw (by decide)
    refine within_bind (safe_modifySession p _) fun _ => ?_
    exact within_bind (safe_modifyEndpoint fun _ => .inl rfl) fun _ => within_pure _

/-- `live_play` keeps what RTSP leaves alone. -/
theorem safe_livePlay (p : ℕ) (haveStart : Bool) : Safe req (livePlay p haveStart) := by
  have hloop : ∀ (is : List ℕ) (start : Option ℤ), Safe req (playTracks p start is) := by
    intro is
    induction is with
    | nil => exact fun start => within_pure _
    | cons i is ih =>
      intro start
      refine within_bind (safe_getSession p) fun S => within_bind within_get fun s => ?_
      split
      · exact within_pure _
      refine within_bind within_get fun s => within_ite (fun _ => within_pure _) fun _ => ?_
      split
      · exact ih start
      refine within_bind (safe_setWaiting _ true) fun _ => ?_
      refine within_bind (safe_getEndpoint _) fun E => within_ite (fun _ => ?_) fun _ => ih start
      split
      · exact within_throw (by decide)
      · exact ih _
  exact within_bind (safe_modifySession p _) fun _ => hloop _ _

/-- The teardown that a failed transport asks for keeps what RTSP leaves alone. -/
theorem safe_teardownEndpoint (E : Endpoint) (e : ℕ) :
    Safe req (teardownEndpoint mc E e) := by
  unfold teardownEndpoint
  split
  · exact safe_liveTeardown mc _ _
  · exact within_pure _

/-- `rtcp_send` keeps what RTSP leaves alone. -/
theorem safe_rtcpSend (e : ℕ) (now : TimeVal) (ret : ℤ) :
    Safe req (rtcpSend mc e now ret) := by
  refine within_bind (safe_modifyEndpoint fun _ => .inl rfl) fun _ => ?_
  refine within_bind (safe_getEndpoint e) fun E => within_ite (fun _ => ?_) fun _ =>
    within_pure _
  exact within_bind (safe_teardownEndpoint mc E e) fun _ => within_pure _

/-- An interleaved packet is queued on a connection, whose `proto_state` stays. -/
theorem safe_interleaveSend (c len : ℕ) : Safe req (interleaveSend c len) := by
  refine within_bind (safe_getConn c) fun C => within_ite (fun _ => within_pure _) fun _ => ?_
  refine within_bind (safe_sendData c 4) fun _ => ?_
  exact within_bind (safe_sendData c len) fun _ => within_pure _

/-- A packet goes out over the transport of the endpoint. -/
theorem safe_transportPacket (e len : ℕ) (ok : Bool) :
    Safe req (transportPacket mc e len ok) := by
  refine within_bind (safe_getEndpoint e) fun E => ?_
  split
  · exact within_ite (fun _ => within_pure _) fun _ => within_pure _
  · exact within_ite (fun _ => within_pure _) fun _ => within_pure _
  · refine within_bind (safe_interleaveSend _ _) fun ret => within_ite (fun _ => ?_) fun _ =>
      within_pure _
    refine within_bind (within_found (by decide)) fun p => ?_
    exact within_bind (safe_liveTeardown mc _ _) fun _ => within_pure _
  · exact within_pure _

/-- `send_rtp_packet` keeps what RTSP leaves alone. -/
theorem safe_sendRtpPacket (e len : ℕ) (ok : Bool) (w : Sending) :
    Safe req (sendRtpPacket mc e len ok w) := by
  have hseq : Safe req (nextSeqnum e) := safe_modifyEndpoint fun _ => .inl rfl
  refine within_bind (safe_transportPacket mc e len ok) fun r => ?_
  obtain ⟨_ | ret, accepted⟩ := r
  swap
  · exact within_pure _
  refine within_bind (safe_modifyEndpoint fun _ => .inl rfl) fun _ => ?_
  refine within_bind (safe_getEndpoint e) fun E => within_ite (fun _ => ?_) fun _ =>
    within_bind hseq fun _ => within_pure _
  refine within_bind (safe_rtcpSend mc e _ _) fun ret => ?_
  refine within_ite (fun _ => within_pure _) fun _ => ?_
  refine within_bind (safe_modifyEndpoint fun _ => .inl rfl) fun _ => ?_
  exact within_bind hseq fun _ => within_pure _

/-- The loop over the packets of a frame: by induction on them. -/
theorem safe_rtpSend (e : ℕ) (w : Sending) (k : ℕ) (packets : List ℕ) :
    Safe req (rtpSend mc e w k packets) := by
  induction packets generalizing k with
  | nil => exact within_pure _
  | cons len packets ih =>
    refine within_bind (safe_sendRtpPacket mc e len _ w) fun r => ?_
    refine within_ite (fun _ => within_pure _) fun _ => ?_
    exact within_bind (ih (k + 1)) fun _ => within_pure _

/-- `next_live_frame` keeps what RTSP leaves alone. -/
theorem safe_nextLiveFrame (t : ℕ) (key : Bool) (packets : ℕ → List ℕ) (ok : Bool) :
    Safe req (nextLiveFrame t key packets ok) := by
  have hready : Safe req (makeReady t) := by
    refine within_bind within_get fun s => within_ite (fun _ => within_pure _) fun _ => ?_
    exact within_bind (safe_setWaiting t false) fun _ => safe_modifyTrack t _
  refine within_bind within_get fun s => ?_
  refine within_bind (within_found (by decide)) fun _ => ?_
  refine within_ite (fun _ => ?_) fun _ => within_pure _
  refine within_bind hready fun _ => ?_
  exact safe_modify (fun _ => ⟨rfl, rfl, rfl, rfl, rfl, le_rfl, rfl⟩)
    fun _ _ E hE => .inl ⟨E, hE, rfl⟩

/-- The start of a delivery records it and touches no connection. -/
theorem safe_deliverToTrack (t : ℕ) (key : Bool) (packets : ℕ → List ℕ) (ok : Bool) :
    Safe req (deliverToTrack t key packets ok) := by
  refine within_bind within_get fun s => within_ite (fun _ => ?_) fun _ => within_pure _
  exact safe_nextLiveFrame t key packets ok

/-- The search for the next endpoint of a session only records which were skipped. -/
theorem safe_selectEndpoint (d : Delivery) (entry : LiveEntry) (S : Session) (js : List ℕ) :
    Safe req (selectEndpoint d entry S js) := by
  induction js with
  | nil => exact within_pure _
  | cons j js ih =>
    refine within_ite (fun _ => ?_) fun _ => ih
    split
    · exact within_pure _
    refine within_ite (fun _ => ?_) fun _ => within_pure _
    refine within_bind (safe_getEndpoint _) fun E => within_ite (fun _ => ?_) fun _ => within_pure _
    exact within_bind (safe_record id) fun _ => ih

/-- A frame that is offered to an endpoint is sent over its transport. -/
theorem safe_offerFrame (d : Delivery) (e : ℕ) (w : Sending) :
    Safe req (offerFrame mc d e w) := by
  refine within_bind (safe_getEndpoint e) fun E => within_ite (fun _ => ?_) fun _ => ?_
  · refine within_ite (fun _ => ?_) fun _ => safe_record id
    exact within_bind (safe_record id) fun _ => safe_modifyEndpoint fun _ => .inl rfl
  · refine within_ite (fun _ => ?_) fun _ => ?_
    · refine within_bind (safe_rtpSend mc e w _ _) fun r => ?_
      exact within_bind (safe_record id) fun _ => safe_modifyEndpoint fun _ => .inl rfl
    · refine within_bind (safe_record id) fun _ => ?_
      exact within_bind (safe_rtpSend mc e w _ _) fun _ => within_pure _

/-- One session in the loop of `next_live_frame`. -/
theorem safe_visitSession (d : Delivery) (n ls : ℕ) (w : Sending) :
    Safe req (visitSession mc d n ls w) := by
  refine within_bind (safe_getSession ls) fun S => within_bind within_get fun s => ?_
  refine within_bind (safe_selectEndpoint d _ S _) fun o => ?_
  split
  · exact within_pure _
  · exact safe_offerFrame mc d _ w

/-- Where the delivery of a frame is does not matter to a connection. -/
theorem safe_setDelivery (f : Server → Option Delivery) :
    Safe req (modify fun s => { s with delivery := f s } : M Unit) :=
  safe_modify (fun _ => ⟨rfl, rfl, rfl, rfl, rfl, le_rfl, rfl⟩)
    fun _ _ E hE => .inl ⟨E, hE, rfl⟩

/-- One step of a delivery, whichever loop it is in. -/
theorem safe_continueFrame (w : Sending) : Safe req (continueFrame mc w) := by
  refine within_bind within_get fun s => ?_
  split
  · exact within_pure _
  split
  · refine within_bind (safe_setDelivery _) fun _ => ?_
    split
    · exact within_pure _
    · exact safe_visitSession mc _ _ _ w
  · exact safe_setDelivery _
  · split
    · exact safe_setDelivery _
    · exact within_throw (by decide)
    · exact within_throw (by decide)
    · refine within_bind (safe_record id) fun _ => within_bind (safe_getEndpoint _) fun E => ?_
      exact within_bind (safe_rtpSend mc _ w _ _) fun _ => safe_setDelivery _
    · exact safe_setDelivery _

/-- The RTCP timer of an endpoint. -/
theorem safe_rtcpFire (e : ℕ) (now : TimeVal) (ret : ℤ) :
    Safe req (rtcpFire mc e now ret) :=
  within_bind (safe_rtcpSend mc e now ret) fun _ => within_pure _

/-- What a UDP socket of an endpoint reads. -/
theorem safe_udpRead (e : ℕ) (r : UdpRead) (now : TimeVal) :
    Safe req (udpRead mc e r now) := by
  cases r with
  | alive => exact safe_modifyEndpoint fun _ => .inl rfl
  | other => exact within_pure _
  | failed =>
    exact within_bind (safe_getEndpoint e) fun E => safe_teardownEndpoint mc E e

/-- A response is queued on its connection. -/
theorem safe_rtspReply (c : ℕ) (r : Reply) : Safe req (rtspReply c r) := by
  refine within_bind ?_ fun ret => within_ite (fun _ => within_pure _) fun _ =>
    safe_sendData c _
  refine within_bind (safe_getConn c) fun C => within_ite (fun _ => within_pure _) fun _ => ?_
  exact within_bind (safe_sendData c _) fun _ => within_pure _

/-- A response with a status code is queued on its connection. -/
theorem safe_rtspAnswer (c : ℕ) (r : Reply) (code : ℕ) : Safe req (rtspAnswer c r code) :=
  within_bind (safe_rtspReply c r) fun _ => within_pure _

/-- `live_get_sdp` reads the tracks and changes nothing. -/
theorem safe_liveGetSdp (p : ℕ) : Safe req (liveGetSdp p) := by
  refine within_bind (safe_getSession p) fun S => within_bind within_get fun s => ?_
  dsimp only
  split
  · exact within_throw (by decide)
  split <;> exact within_pure _

/-- The search for a location changes nothing. -/
theorem safe_findLocation (loc : Option ℕ) : Safe req (findLocation loc) :=
  within_bind within_get fun _ => within_pure _

/-- `get_rtsp_session` looks in the list and changes nothing. -/
theorem safe_getRtspSession (id : Option Bytes) : Safe req (getRtspSession id) := by
  cases id with
  | none => exact within_pure _
  | some id => exact within_bind within_get fun _ => within_pure _

end Functions

/-! ## The connection that is read -/

/-- `proto_state` of a connection points to no stream session. -/
def NoStream (c : ℕ) (s : Server) : Prop :=
  ∀ C, s.conns c = some C → ∀ p, C.protoState ≠ .stream p

/-- RTSP makes no `proto_state` that points to a stream session. -/
theorem LeftAlone.noStream {req : Option ℕ} {c : ℕ} {s s' : Server} (h : LeftAlone req s s')
    (hc : NoStream c s) : NoStream c s' := by
  intro C' hC' p hp
  obtain ⟨C, hC, hkept⟩ := h.conn' hC'
  rcases hkept.protoState with heq | ⟨hr, -⟩
  · exact hc C hC p (heq ▸ hp)
  · rw [hp] at hr
    exact hr

/-- The same for a program that may follow the `proto_state` of the connection `c`. With `typed`
it is known to be no stream session, and not taken for one. -/
abbrev SafeOn {α : Type} (typed : Prop) (req : Option ℕ) (c : ℕ) (x : M α) : Prop :=
  Within (fun s => InterTyped s ∧ (typed → NoStream c s)) (LeftAlone req)
    (fun e => typed → e ≠ .protoState) x

section On

variable {α : Type} {typed : Prop} {req : Option ℕ} {c : ℕ} {x : M α}

/-- What is safe for every connection is so for the one that is read. -/
theorem Safe.on (h : Safe req x) (c : ℕ) : SafeOn typed req c x :=
  fun s hs => (h s hs.1).mono
    (fun _ _ h' => ⟨⟨h'.1, fun ht => h'.2.noStream (hs.2 ht)⟩, h'.2⟩) fun _ h' _ => h'

/-- What has been looked at is known. -/
theorem SafeOn.of_noStream (h : SafeOn True req c x) {s : Server} (hs : InterTyped s)
    (hno : NoStream c s) :
    wp x (fun _ s' => (InterTyped s' ∧ (typed → NoStream c s')) ∧ LeftAlone req s s')
      (fun e => typed → e ≠ .protoState) s :=
  (h s ⟨hs, fun _ => hno⟩).mono (fun _ _ h' => ⟨⟨h'.1.1, fun _ => h'.1.2 trivial⟩, h'.2⟩)
    fun _ h' _ => h' trivial

end On

section Reading

variable {typed : Prop} {req : Option ℕ} (mc : Bool) (c : ℕ)

/-- To look at the `proto_state` of the connection, which is no stream session. -/
theorem safeOn_protoState {α : Type} {f : Conn → M α}
    (h : ∀ C, (typed → ∀ p, C.protoState ≠ .stream p) → SafeOn typed req c (f C)) :
    SafeOn typed req c (getConn c >>= f) := by
  refine within_bind_of (fun s hs => ?_) h
  rw [wp_getConn]
  exact ⟨fun C hC => ⟨fun ht => hs.2 ht C hC, hs, refl s⟩, fun _ _ => by decide⟩

/-- The sessions of the connection are torn down and its `rtsp_conn` is freed. -/
theorem safeOn_rtspConnDisconnect : SafeOn typed req c (rtspConnDisconnect mc c) := by
  have hloop : ∀ is, SafeOn typed req c (disconnectChannels mc c is) := by
    intro is
    induction is with
    | nil => exact within_pure _
    | cons i is ih =>
      refine safeOn_protoState c fun C hC => ?_
      split
      · exact within_throw fun _ => by decide
      · exact within_throw fun ht => absurd ‹_› (hC ht _)
      refine within_bind (Safe.on ?_ c) fun _ => ih
      unfold disconnectChannel
      split
      · refine within_bind (safe_getEndpoint _) fun E => ?_
        refine within_bind (within_found (by decide)) fun p => ?_
        exact safe_liveTeardown mc _ _
      · exact within_pure _
  exact hloop _

/-- A frame goes to the channel of the `rtsp_conn`, if there is one. -/
theorem safeOn_interleaveRecv (chan : UInt8) (d : Bytes) (now : TimeVal) :
    SafeOn typed req c (interleaveRecv c chan d now) := by
  refine within_ite (fun _ => within_pure _) fun _ => ?_
  refine safeOn_protoState c fun C hC => ?_
  split
  · exact within_throw fun _ => by decide
  · exact within_throw fun ht => absurd ‹_› (hC ht _)
  split
  · exact within_pure _
  refine within_ite (fun _ => ?_) fun _ => ?_
  · refine Safe.on (safe_modifyEndpoint fun _ => ?_) c
    exact .inl rfl
  · refine within_bind ((safe_getEndpoint _).on c) fun E => ?_
    refine within_ite (fun _ => ?_) fun _ => within_pure _
    exact within_ite (fun _ => within_throw fun _ => by decide) fun _ => within_pure _

/-- What `rtsp_interleave_setup` stores. -/
theorem safeOn_connect (e a b : ℕ) (ichan : ℕ → Ichan) :
    SafeOn True (some c) c (do
      modifyConn c fun C => { C with protoState := .rtspConn ichan }
      modifyEndpoint e fun E => { E with trans := .inter c a b }
      return (0 : ℤ)) := by
  intro s hs
  have h₁ : wp (modifyConn c fun C => { C with protoState := .rtspConn ichan })
      (fun _ s' => InterTyped s' ∧ LeftAlone (some c) s s') (· ≠ .protoState) s := by
    refine modifyConn_safe hs.1 fun C hC => ⟨rfl, rfl, rfl, rfl, rfl, .inr ⟨trivial, ?_⟩⟩
    cases hp : C.protoState with
    | null => exact .inr ⟨rfl, rfl⟩
    | stream p => exact absurd hp (hs.2 trivial C hC p)
    | rtspConn ichan => exact .inl trivial
  have h₂ : wp (modifyConn c fun C => { C with protoState := .rtspConn ichan })
      (fun _ s' => c < s'.next ∧ ∀ C, s'.conns c = some C → C.protoState.IsRtsp)
      (· ≠ .protoState) s := by
    rw [wp_modifyConn]
    refine ⟨fun C hC => ⟨hs.1.conn_lt c C hC, fun C' hC' => ?_⟩, fun _ => by decide⟩
    dsimp only at hC'
    rw [Function.update_self] at hC'
    cases hC'
    trivial
  rw [wp_bind]
  refine (h₁.and h₂).mono (fun _ s₁ h => ?_) fun _ h _ => h.1
  obtain ⟨⟨hs₁, hkept⟩, hlt, hr⟩ := h
  rw [wp_bind, wp_modifyEndpoint]
  refine ⟨fun E hE => ?_, fun _ _ => by decide⟩
  rw [wp_pure]
  refine ⟨⟨⟨hs₁.conn_lt, fun e' E' c' a' b' hE' htrans => ?_,
    fun e' E' c' a' b' hE' htrans C hC => ?_⟩, fun ht => hkept.noStream (hs.2 ht)⟩, ?_⟩
  · dsimp only at hE'
    by_cases he : e' = e
    · rw [he, Function.update_self] at hE'
      cases hE'
      cases htrans
      exact hlt
    · rw [Function.update_of_ne he] at hE'
      exact hs₁.inter_lt e' E' c' a' b' hE' htrans
  · dsimp only at hE' hC
    by_cases he : e' = e
    · rw [he, Function.update_self] at hE'
      cases hE'
      cases htrans
      exact hr C hC
    · rw [Function.update_of_ne he] at hE'
      exact hs₁.inter_isRtsp e' E' c' a' b' hE' htrans C hC
  · exact ⟨hkept.connList, hkept.conns, hkept.httpLocs, hkept.httpLocList, hkept.streams,
      hkept.next, hkept.log⟩

/-- The first interleaved SETUP of a connection makes its `rtsp_conn`. -/
theorem safeOn_rtspInterleaveSetup (e : ℕ) (channels : Channels) (env : SetupEnv) :
    SafeOn typed (some c) c (rtspInterleaveSetup c e channels env) := by
  intro s hs
  have hrc : wp (getRtspConn c) (fun _ s' => s' = s ∧ NoStream c s)
      (fun e => typed → e ≠ .protoState) s := by
    unfold getRtspConn
    rw [wp_bind, wp_getConn]
    refine ⟨fun C hC => ?_, fun _ _ => by decide⟩
    have hno : (∀ p, C.protoState ≠ .stream p) → NoStream c s := by
      intro h C' hC'
      rw [hC] at hC'
      cases hC'
      exact h
    cases hp : C.protoState with
    | null => exact ⟨rfl, hno fun p h => by rw [hp] at h; cases h⟩
    | rtspConn ichan => exact ⟨rfl, hno fun p h => by rw [hp] at h; cases h⟩
    | stream p => exact fun ht => absurd hp (hs.2 ht C hC p)
  unfold rtspInterleaveSetup
  rw [wp_bind]
  refine hrc.mono (fun rc s' h => ?_) fun _ h => h
  obtain ⟨rfl, hno⟩ := h
  refine SafeOn.of_noStream ?_ hs.1 hno
  split
  · exact within_pure _
  · exact within_ite (fun _ => within_pure _) fun _ => safeOn_connect c e _ _ _

/-- `rtsp_udp_setup` keeps what RTSP leaves alone. -/
theorem safe_rtspUdpSetup (e : ℕ) (clientPort : Bool) (env : SetupEnv) :
    Safe req (rtspUdpSetup e clientPort env) := by
  refine within_ite (fun _ => ?_) fun _ => within_pure _
  refine within_bind (safe_modifyEndpoint fun _ => ?_) fun _ => within_pure _
  exact .inr fun _ _ _ h => by cases h

variable (r : Reply)

/-- DESCRIBE. -/
theorem safe_handleDescribe (loc : Option ℕ) (auth : Bool) :
    Safe req (handleDescribe mc c r loc auth) := by
  refine within_bind (safe_findLocation loc) fun o => ?_
  split
  · exact safe_rtspAnswer c r _
  have hend : ∀ code p, Safe req (do
      let code ← rtspAnswer c r code
      liveTeardown mc p none
      return code) := fun code p =>
    within_bind (safe_rtspAnswer c r code) fun _ =>
      within_bind (safe_liveTeardown mc p none) fun _ => within_pure _
  refine within_bind (safe_liveOpen _) fun p => within_ite (fun _ => hend _ p) fun _ => ?_
  exact within_bind (safe_liveGetSdp p) fun _ => hend _ p

/-- ANNOUNCE. -/
theorem safe_handleAnnounce (loc : Option ℕ) (auth setSdp : Bool) :
    Safe req (handleAnnounce c r loc auth setSdp) := by
  refine within_bind (safe_findLocation loc) fun o => ?_
  split
  · exact safe_rtspAnswer c r _
  refine within_bind (safe_liveOpen _) fun _ => ?_
  refine within_ite (fun _ => safe_rtspAnswer c r _) fun _ => ?_
  exact within_ite (fun _ => within_throw (by decide)) fun _ => within_pure _

/-- The transport that a SETUP asks for. -/
theorem safeOn_setupTransport (e : ℕ) (t : Transport) (env : SetupEnv) :
    SafeOn typed (some c) c (setupTransport c e t env) := by
  refine within_bind ((safe_getEndpoint e).on c) fun E => ?_
  split
  · exact within_pure _
  · exact safeOn_rtspInterleaveSetup c e _ env
  · exact (safe_rtspUdpSetup e _ env).on c
  · exact within_pure _

/-- SETUP once its session is found or made. -/
theorem safeOn_setupTrack (p t : ℕ) (isNew : Bool) (transport : Transport) (env : SetupEnv) :
    SafeOn typed (some c) c (setupTrack mc c r p t isNew transport env) := by
  have hreply : ∀ code, SafeOn typed (some c) c (rtspAnswer c r code) := fun code =>
    (safe_rtspAnswer c r code).on c
  have hdown : ∀ ep, SafeOn typed (some c) c (liveTeardown mc p ep) := fun ep =>
    (safe_liveTeardown mc p ep).on c
  have hget : SafeOn typed (some c) c (getSession p) := (safe_getSession p).on c
  refine within_bind hget fun S => within_ite (fun _ => hreply _) fun _ => ?_
  refine within_bind ((safe_liveSetup mc p t env).on c) fun ret => ?_
  refine within_ite (fun _ => ?_) fun _ => ?_
  · refine within_bind (hreply _) fun _ => within_bind ?_ fun _ => within_pure _
    exact within_ite (fun _ => hdown none) fun _ => within_pure _
  refine within_bind hget fun S => ?_
  split
  · exact within_throw fun _ => by decide
  refine within_bind (safeOn_setupTransport c _ transport env) fun ret => ?_
  refine within_ite (fun _ => ?_) fun _ => ?_
  · refine within_bind (hreply _) fun _ => within_bind hget fun S => ?_
    exact within_bind (hdown _) fun _ => within_pure _
  refine within_bind ?_ fun _ => hreply _
  refine within_ite (fun _ => Safe.on ?_ c) fun _ => within_pure _
  exact safe_modify (fun _ => ⟨rfl, rfl, rfl, rfl, rfl, le_rfl, rfl⟩)
    fun _ _ E hE => .inl ⟨E, hE, rfl⟩

/-- SETUP. -/
theorem safeOn_handleSetup (loc : Option ℕ) (track : ℤ) (auth : Bool)
    (transport : Option Transport) (session : Option Bytes) (env : SetupEnv) :
    SafeOn typed (some c) c (handleSetup mc c r loc track auth transport session env) := by
  have hreply : ∀ code, SafeOn typed (some c) c (rtspAnswer c r code) := fun code =>
    (safe_rtspAnswer c r code).on c
  refine within_bind ((safe_findLocation loc).on c) fun o => ?_
  split
  · exact hreply _
  refine within_ite (fun _ => hreply _) fun _ => within_ite (fun _ => hreply _) fun _ => ?_
  split
  · exact hreply _
  · refine within_bind ((safe_liveOpen _).on c) fun p => ?_
    exact safeOn_setupTrack mc c r p _ _ _ env
  · refine within_bind ((safe_getRtspSession _).on c) fun o => ?_
    split
    · exact hreply _
    · exact safeOn_setupTrack mc c r _ _ _ _ env

/-- The loop that writes `RTP-Info` reads the endpoints: by induction on the slots. -/
theorem safe_rtpInfo (p : ℕ) (is : List ℕ) : Safe req (rtpInfo p is) := by
  induction is with
  | nil => exact within_pure _
  | cons i is ih =>
    refine within_bind (safe_getSession _) fun S => ?_
    split
    · exact ih
    · exact within_bind (safe_getEndpoint _) fun _ => ih

/-- PLAY. -/
theorem safe_handlePlay (session : Option Bytes) (haveStart : Bool) :
    Safe req (handlePlay c r session haveStart) := by
  refine within_bind (safe_getRtspSession _) fun o => ?_
  split
  · exact safe_rtspAnswer c r _
  refine within_bind (safe_livePlay _ _) fun start => within_bind ?_ fun _ => safe_rtspAnswer c r _
  exact within_ite (fun _ => safe_rtpInfo _ _) fun _ => within_pure _

/-- PAUSE. -/
theorem safe_handlePause (session : Option Bytes) : Safe req (handlePause c r session) := by
  refine within_bind (safe_getRtspSession _) fun o => ?_
  split <;> exact safe_rtspAnswer c r _

/-- TEARDOWN. -/
theorem safe_handleTeardown (loc : Option ℕ) (track : ℤ) (session : Option Bytes) :
    Safe req (handleTeardown mc c r loc track session) := by
  have hreply : ∀ code, Safe req (rtspAnswer c r code) := fun code => safe_rtspAnswer c r code
  refine within_bind (safe_findLocation loc) fun o => ?_
  split
  · exact hreply _
  refine within_ite (fun _ => hreply _) fun _ => ?_
  refine within_bind (safe_getRtspSession _) fun o => ?_
  split
  · exact hreply _
  refine within_bind (safe_getSession _) fun S => ?_
  exact within_bind (safe_liveTeardown mc _ _) fun _ => hreply _

/-- Every RTSP request: one case for each method. -/
theorem safeOn_rtspHandle (q : RtspRequest) :
    SafeOn typed (some c) c (rtspHandle mc c r q) := by
  cases q with
  | options | unknown => exact (safe_rtspAnswer c r _).on c
  | pause session => exact (safe_handlePause c r session).on c
  | announce loc auth setSdp => exact (safe_handleAnnounce c r loc auth setSdp).on c
  | describe loc auth => exact (safe_handleDescribe mc c r loc auth).on c
  | setup loc track auth transport session env =>
    exact safeOn_handleSetup mc c r loc track auth transport session env
  | play session haveStart => exact (safe_handlePlay c r session haveStart).on c
  | teardown loc track session =>
    exact (safe_handleTeardown mc c r loc track session).on c

end Reading

end Spook
