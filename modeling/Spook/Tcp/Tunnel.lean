import Spook.Tcp.Registry

set_option relaxedAutoImplicit false
set_option autoImplicit false

/-!
# Tunnels of RTSP over HTTP

`handle_QT_tunnel` gives the socket of a POST to the first connection whose cookie is that of the
POST. Every connection has a cookie, which is empty until a tunnel GET sets it, so that an empty
cookie finds connections that are no tunnels.

## Main definitions

* `Spook.Authentic` — every socket was given to a connection that had asked for it.
* `Spook.authenticPost` — an event is no POST with an empty cookie that finds such a connection.

## Main results

* `Spook.authentic_run` — in every run of such events all tunnels are authentic.
* `Spook.empty_cookie_attaches` — a POST with an empty cookie takes over the connection of another
  client.

## Notes on the design

The invariant ties a cookie to the counter of the decoder, which is negative until a connection is a
tunnel. In the middle of a GET a connection has its cookie and is no tunnel yet; it is left out by
name (`busy`).
-/

namespace Spook

/-! ## The invariant -/

/-- What cookies, the counters of the decoding, the second sockets and the log say of each other. A
connection that is `busy` has a cookie and is no tunnel yet. -/
structure Tunnels (busy : Option ℕ) (s : Server) : Prop where
  typed : InterTyped s
  rtspConn : ∀ c C, s.conns c = some C → C.protoState.IsRtsp → C.proto = .rtsp
  cookie : ∀ c C, busy ≠ some c → s.conns c = some C → C.httpTunnelCookie ≠ [] →
    0 ≤ C.base64Count
  tunnel : ∀ c C, s.conns c = some C → 0 ≤ C.base64Count →
    C.proto = .rtsp ∧ .tunnelGet c C.httpTunnelCookie ∈ s.log
  second : ∀ c C, s.conns c = some C → C.secondFd ≠ none → 0 ≤ C.base64Count
  post : ∀ L L' cg c t, s.log = L ++ .tunnelPost cg c t :: L' → cg ≠ c ∧ .tunnelGet cg t ∈ L

/-- A connection before and after, as far as tunnels go. -/
structure SameTunnel (C C' : Conn) : Prop where
  cookie : C'.httpTunnelCookie = C.httpTunnelCookie
  base64Count : 0 ≤ C'.base64Count ↔ 0 ≤ C.base64Count
  secondFd : C'.secondFd = C.secondFd ∨ C'.secondFd = none
  proto : C'.proto = C.proto ∨ C.proto = .start

namespace Tunnels

variable {busy : Option ℕ} {s s' : Server} {c : ℕ} {C C' : Conn}

/-- A connection of HTTP is no tunnel. -/
theorem http_neg (h : Tunnels busy s) (hC : s.conns c = some C) (hp : C.proto ≠ .rtsp) :
    C.base64Count < 0 := by
  by_contra hn
  exact hp (h.tunnel c C hC (by omega)).1

/-- What changes a connection only where tunnels do not care keeps the invariant. -/
theorem kept (h : Tunnels busy s) (ht : InterTyped s')
    (hr : ∀ c C, s'.conns c = some C → C.protoState.IsRtsp → C.proto = .rtsp)
    (hconn : ∀ c C', s'.conns c = some C' → ∃ C, s.conns c = some C ∧ SameTunnel C C')
    (hlog : ∃ evs, s'.log = s.log ++ evs ∧ ∀ ev ∈ evs, ¬ ev.IsTunnel) : Tunnels busy s' where
  typed := ht
  rtspConn := hr
  cookie c C' hbusy hC' hcookie := by
    obtain ⟨C, hC, hsame⟩ := hconn c C' hC'
    rw [hsame.cookie] at hcookie
    exact hsame.base64Count.2 (h.cookie c C hbusy hC hcookie)
  tunnel c C' hC' h64 := by
    obtain ⟨C, hC, hsame⟩ := hconn c C' hC'
    obtain ⟨evs, hlog, -⟩ := hlog
    obtain ⟨hproto, hget⟩ := h.tunnel c C hC (hsame.base64Count.1 h64)
    constructor
    · rcases hsame.proto with heq | hstart
      · rw [heq, hproto]
      · rw [hproto] at hstart
        cases hstart
    · rw [hlog, hsame.cookie]
      exact List.mem_append_left _ hget
  second c C' hC' hfd := by
    obtain ⟨C, hC, hsame⟩ := hconn c C' hC'
    rcases hsame.secondFd with heq | hnone
    · rw [heq] at hfd
      exact hsame.base64Count.2 (h.second c C hC hfd)
    · exact absurd hnone hfd
  post L L' cg c t heq := by
    obtain ⟨evs, hlog, htun⟩ := hlog
    rw [hlog] at heq
    rcases List.append_eq_append_iff.1 heq with ⟨l, -, hevs⟩ | ⟨l, hl, hpost⟩
    · exact absurd trivial (htun (.tunnelPost cg c t) (by simp [hevs]))
    · cases l with
      | nil =>
        rw [List.nil_append] at hpost
        exact absurd trivial (htun (.tunnelPost cg c t) (hpost ▸ List.mem_cons_self))
      | cons ev l =>
        cases hpost
        exact h.post L l cg c t hl

/-- RTSP leaves cookies, counters and second sockets alone. -/
theorem leftAlone {req : Option ℕ} (h : Tunnels busy s) (ht : InterTyped s')
    (hk : LeftAlone req s s')
    (hreq : ∀ c, req = some c → ∀ C, s.conns c = some C → C.proto = .rtsp) : Tunnels busy s' := by
  refine h.kept ht (hk.rtspTyped h.rtspConn hreq) (fun c C' hC' => ?_) hk.log
  obtain ⟨C, hC, hkept⟩ := hk.conn' hC'
  exact ⟨C, hC, hkept.httpTunnelCookie, by rw [hkept.base64Count], .inl hkept.secondFd,
    .inl hkept.proto⟩

/-- Another connection of the same name. -/
theorem setConn (h : Tunnels busy s) (hC : s.conns c = some C)
    (hstate : C.protoState.IsRtsp → C'.protoState.IsRtsp)
    (hproto : C'.protoState.IsRtsp → C'.proto = .rtsp)
    (hcookie : busy ≠ some c → C'.httpTunnelCookie ≠ [] → 0 ≤ C'.base64Count)
    (htunnel : 0 ≤ C'.base64Count → C'.proto = .rtsp ∧ .tunnelGet c C'.httpTunnelCookie ∈ s.log)
    (hsecond : C'.secondFd ≠ none → 0 ≤ C'.base64Count) : Tunnels busy (s.setConn c C') := by
  have hconn : ∀ c₁ C₁, (s.setConn c C').conns c₁ = some C₁ →
      c₁ = c ∧ C₁ = C' ∨ s.conns c₁ = some C₁ := by
    intro c₁ C₁ hC₁
    by_cases hc : c₁ = c
    · rw [hc, Server.setConn_conns_self] at hC₁
      cases hC₁
      exact .inl ⟨hc, rfl⟩
    · rw [Server.setConn_conns_of_ne _ _ hc] at hC₁
      exact .inr hC₁
  refine ⟨⟨fun c₁ C₁ hC₁ => ?_, h.typed.inter_lt, fun e E c₁ a b hE htrans C₁ hC₁ => ?_⟩,
    fun c₁ C₁ hC₁ => ?_, fun c₁ C₁ hbusy hC₁ => ?_, fun c₁ C₁ hC₁ => ?_, fun c₁ C₁ hC₁ => ?_, h.post⟩
  · rcases hconn c₁ C₁ hC₁ with ⟨rfl, -⟩ | hC₁
    · exact h.typed.conn_lt _ C hC
    · exact h.typed.conn_lt c₁ C₁ hC₁
  · rcases hconn c₁ C₁ hC₁ with ⟨rfl, rfl⟩ | hC₁
    · exact hstate (h.typed.inter_isRtsp e E _ a b hE htrans C hC)
    · exact h.typed.inter_isRtsp e E c₁ a b hE htrans C₁ hC₁
  · rcases hconn c₁ C₁ hC₁ with ⟨rfl, rfl⟩ | hC₁
    · exact hproto
    · exact h.rtspConn c₁ C₁ hC₁
  · rcases hconn c₁ C₁ hC₁ with ⟨rfl, rfl⟩ | hC₁
    · exact hcookie hbusy
    · exact h.cookie c₁ C₁ hbusy hC₁
  · rcases hconn c₁ C₁ hC₁ with ⟨rfl, rfl⟩ | hC₁
    · exact htunnel
    · exact h.tunnel c₁ C₁ hC₁
  · rcases hconn c₁ C₁ hC₁ with ⟨rfl, rfl⟩ | hC₁
    · exact hsecond
    · exact h.second c₁ C₁ hC₁

/-- A connection changes where tunnels do not care. -/
theorem setSame (h : Tunnels busy s) (hC : s.conns c = some C) (hsame : SameTunnel C C')
    (hstate : C.protoState.IsRtsp → C'.protoState.IsRtsp)
    (hproto : C'.protoState.IsRtsp → C'.proto = .rtsp) : Tunnels busy (s.setConn c C') := by
  apply h.setConn hC hstate hproto
  · intro hbusy hcookie
    rw [hsame.cookie] at hcookie
    exact hsame.base64Count.2 (h.cookie c C hbusy hC hcookie)
  · intro h64
    obtain ⟨hp, hget⟩ := h.tunnel c C hC (hsame.base64Count.1 h64)
    rw [hsame.cookie]
    refine ⟨?_, hget⟩
    rcases hsame.proto with heq | hstart
    · rw [heq, hp]
    · rw [hp] at hstart
      cases hstart
  · intro hfd
    rcases hsame.secondFd with heq | hnone
    · rw [heq] at hfd
      exact hsame.base64Count.2 (h.second c C hC hfd)
    · exact absurd hnone hfd

/-- An event is written down. -/
theorem record (h : Tunnels busy s) {ev : Event}
    (hev : ∀ cg c t, ev = .tunnelPost cg c t → cg ≠ c ∧ .tunnelGet cg t ∈ s.log) :
    Tunnels busy { s with log := s.log ++ [ev] } := by
  refine ⟨⟨h.typed.conn_lt, h.typed.inter_lt, h.typed.inter_isRtsp⟩, h.rtspConn, h.cookie,
    fun c C hC h64 => ?_, h.second, fun L L' cg c t heq => ?_⟩
  · obtain ⟨hp, hget⟩ := h.tunnel c C hC h64
    exact ⟨hp, List.mem_append_left _ hget⟩
  · rcases List.append_eq_append_iff.1 heq with ⟨l, rfl, hevs⟩ | ⟨l, hl, hpost⟩
    · cases l with
      | nil =>
        cases hevs
        rw [List.append_nil]
        exact hev cg c t rfl
      | cons ev l => simp at hevs
    · cases l with
      | nil =>
        cases hpost
        rw [List.append_nil] at hl
        rw [← hl]
        exact hev cg c t rfl
      | cons ev l =>
        cases hpost
        exact h.post L l cg c t hl

/-- A connection is gone. -/
theorem remove (h : Tunnels busy s) {connList : List ℕ} :
    Tunnels busy { s with conns := Function.update s.conns c none, connList } := by
  have hconn : ∀ c₁ C₁, Function.update s.conns c none c₁ = some C₁ → s.conns c₁ = some C₁ := by
    intro c₁ C₁ hC₁
    by_cases hc : c₁ = c
    · rw [hc, Function.update_self] at hC₁
      cases hC₁
    · rwa [Function.update_of_ne hc] at hC₁
  exact ⟨⟨fun c₁ C₁ hC₁ => h.typed.conn_lt c₁ C₁ (hconn c₁ C₁ hC₁), h.typed.inter_lt,
      fun e E c₁ a b hE htrans C₁ hC₁ =>
        h.typed.inter_isRtsp e E c₁ a b hE htrans C₁ (hconn c₁ C₁ hC₁)⟩,
    fun c₁ C₁ hC₁ => h.rtspConn c₁ C₁ (hconn c₁ C₁ hC₁),
    fun c₁ C₁ hbusy hC₁ => h.cookie c₁ C₁ hbusy (hconn c₁ C₁ hC₁),
    fun c₁ C₁ hC₁ => h.tunnel c₁ C₁ (hconn c₁ C₁ hC₁),
    fun c₁ C₁ hC₁ => h.second c₁ C₁ (hconn c₁ C₁ hC₁), h.post⟩

/-- The streams of images do not matter. -/
theorem streams (h : Tunnels busy s) {streams : ℕ → Option StreamSession}
    {httpLocs : ℕ → HttpLocation} {next : ℕ} (hnext : s.next ≤ next) :
    Tunnels busy { s with streams, httpLocs, next } :=
  ⟨⟨fun c C hC => (h.typed.conn_lt c C hC).trans_le hnext,
      fun e E c a b hE htrans => (h.typed.inter_lt e E c a b hE htrans).trans_le hnext,
      h.typed.inter_isRtsp⟩,
    h.rtspConn, h.cookie, h.tunnel, h.second, h.post⟩

/-- A connection gets its stream session. -/
theorem addStream (h : Tunnels busy s) (hC : s.conns c = some C) (hp : C.proto = .http) (l : ℕ) :
    Tunnels busy { s with
      next := s.next + 1
      streams := Function.update s.streams s.next (some ⟨l, c⟩)
      httpLocs := Function.update s.httpLocs l
        { s.httpLocs l with sessList := s.next :: (s.httpLocs l).sessList }
      conns := Function.update s.conns c (some { C with protoState := .stream s.next }) } := by
  apply (h.streams (Nat.le_succ s.next)).setSame hC
  · exact ⟨rfl, Iff.rfl, .inl rfl, .inl rfl⟩
  · intro hr
    have := h.rtspConn c C hC hr
    rw [hp] at this
    cases this
  · exact False.elim

/-- A connection becomes busy. -/
theorem acquire (h : Tunnels none s) (c : ℕ) : Tunnels (some c) s :=
  { h with cookie := fun c C _ => h.cookie c C (by simp) }

/-- A connection is busy no longer. -/
theorem release (h : Tunnels (some c) s)
    (hc : ∀ C, s.conns c = some C → C.httpTunnelCookie ≠ [] → 0 ≤ C.base64Count) :
    Tunnels none s := by
  refine { h with cookie := fun c₁ C₁ _ hC₁ => ?_ }
  by_cases heq : c₁ = c
  · subst heq
    exact hc C₁ hC₁
  · exact h.cookie c₁ C₁ (fun h => heq (Option.some.inj h).symm) hC₁

end Tunnels

/-! ## Requests -/

/-- What is asked of a program: tunnels stay right. -/
abbrev KeepsTunnels {α : Type} (busy : Option ℕ) (x : M α) (s : Server) : Prop :=
  wp x (fun _ s' => Tunnels busy s') (fun _ => True) s

section Requests

variable {busy : Option ℕ} {s : Server} {c : ℕ} {C : Conn} {α : Type}

/-- What keeps to RTSP keeps the tunnels. -/
theorem Tunnels.safe {req : Option ℕ} {x : M α} (h : Tunnels busy s) (hx : Safe req x)
    (hreq : ∀ c, req = some c → ∀ C, s.conns c = some C → C.proto = .rtsp) :
    KeepsTunnels busy x s :=
  (hx s h.typed).mono (fun _ _ h' => h.leftAlone h'.1 h'.2 hreq) fun _ _ => trivial

/-- The same for the connection that is read. -/
theorem Tunnels.safeOn {req : Option ℕ} {x : M α} (h : Tunnels busy s) (hx : SafeOn False req c x)
    (hreq : ∀ c, req = some c → ∀ C, s.conns c = some C → C.proto = .rtsp) :
    KeepsTunnels busy x s :=
  (hx s ⟨h.typed, False.elim⟩).mono (fun _ _ h' => h.leftAlone h'.1.1 h'.2 hreq) fun _ _ => trivial

/-- A reply over HTTP touches no tunnel. -/
theorem Tunnels.replies {P : (ℕ → HttpLocation) → Prop} {x : M α} (h : Tunnels busy s)
    (hx : Replies False P c x) :
    wp x (fun _ s' => Tunnels busy s' ∧ LeftAlone none s s') (fun _ => True) s :=
  (hx s ⟨h.typed, False.elim⟩).mono
    (fun _ _ h' => ⟨h.leftAlone h'.1.1 h'.2 (by simp), h'.2⟩) fun _ _ => trivial

/-- The same, when what RTSP leaves alone does not matter. -/
theorem Tunnels.reply {P : (ℕ → HttpLocation) → Prop} {x : M α} (h : Tunnels busy s)
    (hx : Replies False P c x) : KeepsTunnels busy x s :=
  (h.replies hx).mono (fun _ _ h' => h'.1) fun _ _ => trivial

/-- A connection that is dropped takes its cookie along. -/
theorem tunnels_dropConn (mc : Bool) (c : ℕ) (h : Tunnels busy s) :
    KeepsTunnels busy (dropConn mc c) s := by
  unfold dropConn
  rw [KeepsTunnels, wp_bind, wp_getConn]
  refine ⟨fun C hC => ?_, fun _ => trivial⟩
  have hdisc : KeepsTunnels busy (disconnectProto mc c C.protoState C.proto) s := by
    have hrtsp : KeepsTunnels busy (rtspConnDisconnect mc c) s := by
      have hx : SafeOn False none c (rtspConnDisconnect mc c) := safeOn_rtspConnDisconnect mc c
      exact h.safeOn hx (by simp)
    have hhttp : KeepsTunnels busy (httpConnDisconnect c) s := by
      unfold httpConnDisconnect
      rw [KeepsTunnels, wp_bind, wp_getConn]
      refine ⟨fun C' _ => ?_, fun _ => trivial⟩
      split
      · trivial
      · trivial
      · simp only [wp_bind, wp_getStream, wp_modifyHttpLoc, wp_modify]
        exact ⟨fun S _ => h.streams le_rfl, fun _ => trivial⟩
    unfold disconnectProto
    split
    · exact h
    · exact hhttp
    · exact hrtsp
    · exact h
  exact (wp_bind ..).2 (hdisc.mono (fun _ s' h' => h'.remove) fun _ h' => h')

/-- A GET of a location is no tunnel. -/
theorem tunnels_httpHandleGET {uri : Bytes} (h : Tunnels busy s) (hC : s.conns c = some C)
    (hproto : C.proto = .http) : KeepsTunnels busy (httpHandleGET c uri) s := by
  unfold httpHandleGET
  simp only [KeepsTunnels, wp_bind, wp_get, wp_getConn, hC, Option.some.injEq, reduceCtorEq,
    false_imp_iff, and_true, forall_eq']
  cases getAnswer s C.availSendBuf uri with
  | fileNotFound => exact h.reply (P := fun _ => True) (replies_httpSendError c _ _ _)
  | imageNotAvailable => exact h.reply (P := fun _ => True) (replies_httpSendError c _ _ _)
  | stream l =>
    rw [wp_bind]
    refine (h.replies (P := fun _ => True) (replies_sendPmsgText c _ 0)).mono (fun _ s₁ h₁ => ?_)
      fun _ h' => h'
    obtain ⟨C₁, hC₁, hkept⟩ := h₁.2.conn hC
    have hadd := h₁.1.addStream hC₁ (hkept.proto.trans hproto) l
    simp only [addHttpStreamSession, wp_bind, wp_fresh, wp_modify, wp_modifyHttpLoc, wp_modifyConn,
      hC₁, Option.some.injEq, reduceCtorEq, false_imp_iff, and_true, forall_eq']
    exact hadd.reply (replies_sendMultipartFrame c l)
  | single l =>
    refine h.reply (P := HasFrame l) (c := c) ?_
    refine within_bind (replies_dropAfter c) fun _ => within_bind within_get fun s => ?_
    refine within_bind (replies_sendPmsgText c _ _) fun ret => ?_
    exact within_ite (fun _ => replies_sendFrameWithJfif c l) fun _ => within_pure _

/-- Only a GET or POST with a cookie makes a tunnel. -/
theorem tunnels_httpHandleMsg {method uri : Bytes} (h : Tunnels busy s) (hC : s.conns c = some C)
    (hproto : C.proto = .http) : KeepsTunnels busy (httpHandleMsg c method uri) s := by
  unfold httpHandleMsg
  rw [KeepsTunnels, wp_ite]
  constructor
  · intro _
    exact tunnels_httpHandleGET h hC hproto
  · intro _
    exact h.reply (P := fun _ => True) (replies_httpSendError c _ _ _)

/-- A tunnel GET makes a tunnel. -/
theorem tunnels_tunnelGet {t text : Bytes} (h : Tunnels none s) (hC : s.conns c = some C)
    (hproto : C.proto = .http) :
    KeepsTunnels none (do
      modifyConn c fun C => { C with httpTunnelCookie := t }
      let _ ← sendData c text
      modifyConn c fun C => { C with proto := .rtsp, base64Count := 0 }
      record (.tunnelGet c t)
      return (0 : ℤ)) s := by
  have hneg : ¬ 0 ≤ C.base64Count := by
    have := h.http_neg hC (by rw [hproto]; decide)
    omega
  rw [KeepsTunnels, wp_bind, wp_modifyConn]
  refine ⟨fun C' hC' => ?_, fun _ => trivial⟩
  rw [hC] at hC'
  cases hC'
  have h₁ : Tunnels (some c) (s.setConn c { C with httpTunnelCookie := t }) :=
    (h.acquire c).setConn hC id (h.rtspConn c C hC) (fun hne => absurd rfl hne)
      (fun h64 => absurd h64 hneg) (h.second c C hC)
  rw [wp_bind]
  refine (h₁.replies (P := fun _ => True) (replies_sendData c text)).mono (fun _ s₂ h₂ => ?_)
    fun _ h' => h'
  obtain ⟨C₂, hC₂, hkept⟩ := h₂.2.conn (s.setConn_conns_self c _)
  rw [wp_bind, wp_modifyConn]
  refine ⟨fun C' hC' => ?_, fun _ => trivial⟩
  rw [hC₂] at hC'
  cases hC'
  rw [wp_bind, wp_record, wp_pure]
  have h₃ : Tunnels (some c) { s₂ with log := s₂.log ++ [.tunnelGet c t] } :=
    h₂.1.record fun cg c' t' he => by cases he
  have hget : Event.tunnelGet c C₂.httpTunnelCookie ∈ s₂.log ++ [.tunnelGet c t] := by
    rw [hkept.httpTunnelCookie]
    exact List.mem_append_right _ List.mem_cons_self
  have h₄ : Tunnels (some c) (Server.setConn { s₂ with log := s₂.log ++ [.tunnelGet c t] } c
      { C₂ with proto := .rtsp, base64Count := 0 }) :=
    h₃.setConn hC₂ id (fun _ => rfl) (fun _ _ => Int.le_refl 0) (fun _ => ⟨rfl, hget⟩)
      fun _ => Int.le_refl 0
  apply h₄.release
  intro C' hC' _
  rw [Server.setConn_conns_self] at hC'
  cases hC'
  exact Int.le_refl 0

/-- Whether a request is a tunnelled POST with an empty cookie. -/
def emptyPost (m : Pmsg) (method : Bytes) : Bool :=
  strCaseEq method (str "POST") &&
    match isTunnelled m "Content-Type", m.getHeader (str "x-sessioncookie") with
    | .ok true, .ok (some []) => true
    | _, _ => false

/-- Whether the first connection that an empty cookie finds is a tunnel. -/
def Server.emptyFindsTunnel (s : Server) : Bool :=
  match s.connList.find? fun cg => (s.conns cg).any (·.httpTunnelCookie = []) with
  | none => true
  | some cg => (s.conns cg).all (0 ≤ ·.base64Count)

/-- **A POST attaches to the GET with its cookie.** An empty cookie is allowed only where it finds a
tunnel. **Proof sketch.** A refusal is a reply, and a GET is `tunnels_tunnelGet`. A POST finds a
connection with its cookie: that one is a tunnel, by the invariant or, for the empty cookie, by
`hempty`, and so it is another connection than that of the POST, which speaks HTTP. Its second
socket is set and the connection of the POST, which has none any more, is closed. -/
theorem tunnels_handleQTTunnel {m : Pmsg} {post : Bool} (h : Tunnels none s)
    (hC : s.conns c = some C) (hproto : C.proto = .http)
    (hempty : post = true → m.getHeader (str "x-sessioncookie") = .ok (some []) →
      s.emptyFindsTunnel = true) :
    KeepsTunnels none (handleQTTunnel c m post) s := by
  have hrefuse : ∀ text : Bytes, KeepsTunnels none (do
      let _ ← sendData c text
      modifyConn c fun C => { C with dropAfter := true }) s := fun text =>
    h.reply (P := fun _ => True) (replies_refuse text)
  unfold handleQTTunnel
  rw [KeepsTunnels, wp_bind, wp_lift]
  refine ⟨fun o ho => ?_, fun _ _ => trivial⟩
  cases o with
  | none => exact (wp_bind ..).2 (hrefuse _)
  | some t =>
    dsimp only
    rw [wp_ite]
    refine ⟨fun _ => (wp_bind ..).2 (hrefuse _), fun hlen => ?_⟩
    rw [wp_ite]
    refine ⟨fun _ => tunnels_tunnelGet h hC hproto, fun hpost => ?_⟩
    rw [wp_bind, wp_get]
    split
    · exact (wp_bind ..).2 (hrefuse _)
    rename_i cg hfind
    -- the connection that is found is a tunnel
    obtain ⟨Cg, hCg, ht⟩ : ∃ Cg, s.conns cg = some Cg ∧ Cg.httpTunnelCookie = t := by
      simpa [Option.any_eq_true] using List.find?_some hfind
    have h64 : 0 ≤ Cg.base64Count := by
      cases t with
      | nil =>
        have hfirst := hempty (by simpa using hpost) ho
        simpa [Server.emptyFindsTunnel, hfind, hCg] using hfirst
      | cons b t => exact h.cookie cg Cg (by simp) hCg (by simp [ht])
    obtain ⟨hrtsp, hget⟩ := h.tunnel cg Cg hCg h64
    have hne : cg ≠ c := by
      rintro rfl
      rw [hC] at hCg
      cases hCg
      rw [hproto] at hrtsp
      cases hrtsp
    simp only [wp_bind, wp_getConn, wp_modifyConn, hC, hCg, Option.some.injEq, reduceCtorEq,
      false_imp_iff, and_true, forall_eq', wp_record, wp_pure]
    have h₁ : Tunnels none (s.setConn cg { Cg with secondFd := C.fd }) :=
      h.setConn hCg id (h.rtspConn cg Cg hCg) (fun _ _ => h64) (fun _ => ⟨hrtsp, hget⟩)
        fun _ => h64
    refine ⟨fun C' hC' => ?_, fun _ => trivial⟩
    have h₂ : Tunnels none ((s.setConn cg { Cg with secondFd := C.fd }).setConn c
        { C' with fd := none }) :=
      h₁.setSame hC' ⟨rfl, Iff.rfl, .inl rfl, .inl rfl⟩ id (h₁.rtspConn c C' hC')
    apply h₂.record
    intro cg' c' t' he
    cases he
    exact ⟨hne, ht ▸ hget⟩

/-- **Every request keeps the tunnels.** **Proof sketch.** A request on a tunnel, or on a connection
that speaks RTSP, is handled by RTSP, which leaves cookies alone (`Tunnels.safeOn`). On an HTTP
connection a request with an `x-sessioncookie` goes to `handle_qt_tunnel` and any other to a
location, which only replies. -/
theorem tunnels_handleRequest {mc : Bool} {env : ReadEnv} (h : Tunnels none s)
    (hC : s.conns c = some C)
    (hempty : C.proto = .http → ∀ m method uri,
      readRequest env.blank C.reqBuf = .ok (some (m, method, uri)) → emptyPost m method = true →
      s.emptyFindsTunnel = true) :
    KeepsTunnels none (handleRequest mc c env) s := by
  unfold handleRequest
  simp only [KeepsTunnels, wp_bind, wp_getConn, hC, Option.some.injEq, reduceCtorEq,
    false_imp_iff, and_true, forall_eq', wp_lift]
  refine ⟨fun o ho => ?_, fun _ _ => trivial⟩
  cases o with
  | none => exact h
  | some r =>
    obtain ⟨m, method, uri⟩ := r
    simp only [wp_bind, wp_getConn, hC, Option.some.injEq, reduceCtorEq, false_imp_iff, and_true,
      forall_eq']
    cases hproto : C.proto with
    | http =>
      have hmsg : KeepsTunnels none (do
          httpHandleMsg c method uri
          return (0 : ℤ)) s := (wp_bind ..).2 (tunnels_httpHandleMsg h hC hproto)
      have hret : ∀ x : M ℤ, KeepsTunnels none x s → KeepsTunnels none (do
          if (← x) ≠ 0 then return (-1)
          return (0 : ℤ)) s := by
        intro x hx
        refine (wp_bind ..).2 (hx.mono (fun ret s' h' => ?_) fun _ h' => h')
        rw [wp_ite]
        exact ⟨fun _ => h', fun _ => h'⟩
      dsimp only
      rw [wp_ite]
      refine ⟨fun _ => ?_, fun _ => ?_⟩
      · unfold handleGET
        rw [wp_bind, wp_lift]
        refine ⟨fun b _ => ?_, fun _ _ => trivial⟩
        rw [wp_ite]
        refine ⟨fun _ => hret _ ?_, fun _ => hmsg⟩
        exact tunnels_handleQTTunnel h hC hproto fun hp => by cases hp
      rw [wp_ite]
      refine ⟨fun hpost => ?_, fun _ => hmsg⟩
      unfold handlePOST
      rw [wp_bind, wp_lift]
      refine ⟨fun b hb => ?_, fun _ _ => trivial⟩
      rw [wp_ite]
      refine ⟨fun htrue => hret _ ?_, fun _ => hmsg⟩
      apply tunnels_handleQTTunnel h hC hproto
      intro _ hnil
      apply hempty hproto m method uri ho
      rw [htrue] at hb
      simp [emptyPost, hpost, hb, hnil]
    | rtsp =>
      dsimp only
      rw [wp_bind]
      refine h.safeOn (safeOn_rtspHandle mc c _ _) ?_
      intro c' hc' C' hC'
      cases hc'
      rw [hC] at hC'
      cases hC'
      exact hproto
    | start =>
      dsimp only
      rw [wp_bind]
      have hx : Safe none (handleUnknown c env.reply) := by
        refine within_bind (fun s hs => ?_) fun _ => safe_rtspReply c _
        exact modifyConn_safe hs fun C _ => ⟨rfl, rfl, rfl, rfl, rfl, .inl rfl⟩
      exact h.safe hx (by simp)

end Requests

/-! ## Events -/

section Events

variable {s : Server} {c : ℕ} {C : Conn} {mc : Bool}

/-- A change of a connection that leaves alone what tunnels look at. -/
theorem tunnels_modifyConn {f : Conn → Conn} (h : Tunnels none s) (c : ℕ)
    (hsame : ∀ C, SameTunnel C (f C)) (hstate : ∀ C, (f C).protoState = C.protoState)
    (hproto : ∀ C, (f C).proto = C.proto) : KeepsTunnels none (modifyConn c f) s := by
  rw [KeepsTunnels, wp_modifyConn]
  refine ⟨fun C hC => h.setSame hC (hsame C) (fun hr => by rwa [hstate]) fun hr => ?_,
    fun _ => trivial⟩
  rw [hstate] at hr
  rw [hproto]
  exact h.rtspConn c C hC hr

/-- A round of `parse_client_data`, if its request keeps the tunnels. -/
theorem tunnels_settledRound {env : ReadEnv} {a : ClientAction} (h : Tunnels none s)
    (hrequest : a = .request → KeepsTunnels none (handleRequest mc c env) s) :
    KeepsTunnels none (settledRound mc c env a) s := by
  apply keeps_settledRound h
  · exact fun s' h' => tunnels_dropConn mc c h'
  · intro s' h'
    exact tunnels_modifyConn (f := fun C => { C with reqBuf := [] }) h' c
      (fun _ => ⟨rfl, Iff.rfl, .inl rfl, .inl rfl⟩) (fun _ => rfl) fun _ => rfl
  · exact hrequest
  · intro chan d _
    have hx : SafeOn False none c (interleaveRecv c chan d env.now) :=
      safeOn_interleaveRecv c chan d env.now
    exact h.safeOn hx (by simp)

/-- Whether a read hands over a tunnelled POST with an empty cookie. -/
def handsEmptyPost (C : Conn) (d : Bytes) (env : ReadEnv) : Bool :=
  match C.httpRequest d with
  | none => false
  | some buf =>
    match readRequest env.blank buf with
    | .ok (some (m, method, _)) => emptyPost m method
    | _ => false

/-- A tunnelled POST with an empty cookie comes only when it finds a tunnel first. -/
def authenticPost (s : Server) : ServerAct → Bool
  | .read c d env => (s.conns c).all fun C => !handsEmptyPost C d env || s.emptyFindsTunnel
  | _ => true

/-- A read does not change what an empty cookie finds. -/
theorem emptyFindsTunnel_setConn {C' : Conn} (hC : s.conns c = some C) (hsame : SameTunnel C C') :
    (s.setConn c C').emptyFindsTunnel = s.emptyFindsTunnel := by
  have hfind : ∀ cg, ((s.setConn c C').conns cg).any (·.httpTunnelCookie = []) =
      (s.conns cg).any (·.httpTunnelCookie = []) := by
    intro cg
    by_cases hcg : cg = c
    · rw [hcg, Server.setConn_conns_self, hC]
      simp [hsame.cookie]
    · rw [Server.setConn_conns_of_ne _ _ hcg]
  have h64 : ∀ cg, ((s.setConn c C').conns cg).all (0 ≤ ·.base64Count) =
      (s.conns cg).all (0 ≤ ·.base64Count) := by
    intro cg
    by_cases hcg : cg = c
    · rw [hcg, Server.setConn_conns_self, hC]
      simp [hsame.base64Count]
    · rw [Server.setConn_conns_of_ne _ _ hcg]
  simp only [Server.emptyFindsTunnel, hfind, h64]
  rfl

/-- What is read from a connection: it is put into the buffers, which touches no tunnel, and then
handled. -/
theorem tunnels_read {d : Bytes} {env : ReadEnv} (h : Tunnels none s) (hC : s.conns c = some C)
    (hauth : authenticPost s (.read c d env) = true) :
    KeepsTunnels none (readChunk (connOps mc c env) d) s := by
  obtain ⟨buf, n, hrec, h64⟩ := C.receive_eq d
  have hrecv : Tunnels none (s.setConn c (C.receive d)) := by
    rw [hrec]
    exact h.setSame hC ⟨rfl, h64, .inl rfl, .inl rfl⟩ id (h.rtspConn c C hC)
  rw [KeepsTunnels, wp_readChunk hC]
  split_ifs with hfull hbase
  · exact tunnels_dropConn mc c hrecv
  · exact hrecv
  have hstart : (settle C.proto buf).1 = C.proto ∨ C.proto = .start := by
    by_cases hp : C.proto = .start
    · exact .inr hp
    · exact .inl (settle_proto hp buf)
  have hsame : SameTunnel C (C.settled d) := by
    rw [Conn.settled, hrec]
    exact ⟨rfl, h64, .inl rfl, hstart⟩
  have hsettled : Tunnels none (s.setConn c (C.settled d)) := by
    have hstate : (C.settled d).protoState = C.protoState := by rw [Conn.settled, hrec]
    apply h.setSame hC hsame
    · rw [hstate]
      exact id
    · rw [hstate]
      intro hr
      have hrtsp := h.rtspConn c C hC hr
      rcases hsame.proto with heq | hp
      · rw [heq, hrtsp]
      · rw [hrtsp] at hp
        cases hp
  apply tunnels_settledRound hsettled
  intro ha
  apply tunnels_handleRequest hsettled (s.setConn_conns_self c _)
  intro hproto m method uri hr hempty
  have hreq : C.httpRequest d = some (C.receive d).reqBuf :=
    if_pos ⟨⟨hfull, hbase⟩, Prod.ext hproto ha⟩
  have hhands : handsEmptyPost C d env = true := by
    change readRequest env.blank (C.receive d).reqBuf = _ at hr
    rw [handsEmptyPost, hreq]
    dsimp only
    rw [hr]
    exact hempty
  rw [emptyFindsTunnel_setConn hC hsame]
  simpa [authenticPost, hC, hhands] using hauth

/-- A new connection has no cookie. -/
theorem tunnels_acceptConn (h : Tunnels none s) (fd : ℕ) :
    KeepsTunnels none (acceptConn fd) s := by
  have hconn : ∀ c C, Function.update s.conns s.next (some (.accepted fd)) c = some C →
      c = s.next ∧ C = .accepted fd ∨ s.conns c = some C := by
    intro c C hC
    by_cases hc : c = s.next
    · rw [hc, Function.update_self] at hC
      cases hC
      exact .inl ⟨hc, rfl⟩
    · rw [Function.update_of_ne hc] at hC
      exact .inr hC
  simp only [KeepsTunnels, acceptConn, wp_bind, wp_fresh, wp_modify]
  refine ⟨⟨fun c C hC => ?_, fun e E c a b hE htrans => ?_, fun e E c a b hE htrans C hC => ?_⟩,
    fun c C hC hr => ?_, fun c C hbusy hC hcookie => ?_, fun c C hC h64 => ?_,
    fun c C hC hfd => ?_, h.post⟩
  · rcases hconn c C hC with ⟨rfl, -⟩ | hC
    · exact Nat.lt_succ_self _
    · exact (h.typed.conn_lt c C hC).trans (Nat.lt_succ_self _)
  · exact (h.typed.inter_lt e E c a b hE htrans).trans (Nat.lt_succ_self _)
  · rcases hconn c C hC with ⟨rfl, -⟩ | hC
    · exact absurd (h.typed.inter_lt e E _ a b hE htrans) (lt_irrefl _)
    · exact h.typed.inter_isRtsp e E c a b hE htrans C hC
  · rcases hconn c C hC with ⟨-, rfl⟩ | hC
    · exact hr.elim
    · exact h.rtspConn c C hC hr
  · rcases hconn c C hC with ⟨-, rfl⟩ | hC
    · exact absurd rfl hcookie
    · exact h.cookie c C hbusy hC hcookie
  · rcases hconn c C hC with ⟨-, rfl⟩ | hC
    · exact absurd h64 (show ¬ (0 : ℤ) ≤ -1 by decide)
    · exact h.tunnel c C hC h64
  · rcases hconn c C hC with ⟨-, rfl⟩ | hC
    · exact absurd rfl hfd
    · exact h.second c C hC hfd

/-- Pictures go out as replies. -/
theorem tunnels_jpegNextFrame (h : Tunnels none s) (l : ℕ) (d : Bytes) :
    KeepsTunnels none (jpegNextFrame l d) s := by
  have hloop : ∀ ps s, Tunnels none s → KeepsTunnels none (sendFrames l ps) s := by
    intro ps
    induction ps with
    | nil => exact fun s h => h
    | cons p ps ih =>
      intro s h
      unfold sendFrames
      rw [KeepsTunnels, wp_bind, wp_getStream]
      refine ⟨fun S _ => ?_, fun _ => trivial⟩
      rw [wp_bind]
      exact (h.reply (replies_sendMultipartFrame S.conn l)).mono (fun _ s' h' => ih s' h')
        fun _ h' => h'
  unfold jpegNextFrame
  rw [KeepsTunnels, wp_ite]
  refine ⟨fun _ => ?_, fun _ => h⟩
  simp only [wp_bind, wp_modifyHttpLoc, wp_get]
  exact hloop _ _ (h.streams le_rfl)

/-- **Step.** -/
theorem tunnels_serverAct {a : ServerAct} (h : Tunnels none s) (hauth : authenticPost s a = true) :
    KeepsTunnels none (serverAct mc a) s := by
  apply keeps_serverAct h
  · exact fun x hx => h.safe hx (by simp)
  · exact fun fd => tunnels_acceptConn h fd
  · intro c d env C ha hC
    subst ha
    exact tunnels_read h hC hauth
  · exact fun c => tunnels_dropConn mc c h
  · intro c
    exact tunnels_modifyConn (f := fun C => { C with secondFd := none }) h c
      (fun _ => ⟨rfl, Iff.rfl, .inr rfl, .inl rfl⟩) (fun _ => rfl) fun _ => rfl
  · intro c rs
    apply keeps_connWrite rs h trivial
    · exact fun s' h' => tunnels_dropConn mc c h'
    · intro s' n h'
      exact tunnels_modifyConn (f := fun C => { C with
        sendBufR := (C.sendBufR + n) % sendBufSize }) h' c
        (fun _ => ⟨rfl, Iff.rfl, .inl rfl, .inl rfl⟩) (fun _ => rfl) fun _ => rfl
  · exact fun l d => tunnels_jpegNextFrame h l d

end Events

/-! ## Runs -/

/-- Every socket of a tunnelled POST was given to another connection that had done a tunnel GET with
the same cookie before, and what has a second socket is a tunnel. -/
structure Authentic (s : Server) : Prop where
  post : ∀ L L' cg c t, s.log = L ++ .tunnelPost cg c t :: L' → cg ≠ c ∧ .tunnelGet cg t ∈ L
  second : ∀ c C, s.conns c = some C → C.secondFd ≠ none →
    C.proto = .rtsp ∧ 0 ≤ C.base64Count ∧ .tunnelGet c C.httpTunnelCookie ∈ s.log

/-- Nobody is connected at first. -/
theorem Server.Idle.tunnels {s : Server} (h : s.Idle) : Tunnels none s where
  typed := h.registry.typed
  rtspConn c C hC := by simp [h.conns] at hC
  cookie c C _ hC := by simp [h.conns] at hC
  tunnel c C hC := by simp [h.conns] at hC
  second c C hC := by simp [h.conns] at hC
  post L L' cg c t heq := by simp [h.log] at heq

/-- **Tunnels.** In every run in which a tunnelled POST with an empty cookie comes only when the
first connection with an empty cookie is a tunnel, all tunnels are authentic. -/
theorem authentic_run {mc : Bool} {as : List ServerAct} {os : List Event} {s : Server}
    (h : (serverMachine mc).Run (fun s a => authenticPost s a = true) as os s) : Authentic s := by
  have htun : Tunnels none s := h.invariant (Tunnels none) (fun s hs => Server.Idle.tunnels hs)
    fun s a s' o hs hauth hstep => serverStep_ok hs (tunnels_serverAct hs hauth) hstep
  refine ⟨htun.post, fun c C hC hfd => ?_⟩
  have h64 := htun.second c C hC hfd
  obtain ⟨hproto, hget⟩ := htun.tunnel c C hC h64
  exact ⟨hproto, h64, hget⟩

/-- A tunnelled GET with a cookie, on the connection `c`. -/
def tunnelledGet (c : ℕ) (cookie : String) : ServerAct :=
  .read c (str ("GET /s HTTP/1.0\r\nx-sessioncookie:" ++ cookie ++
    "\r\nAccept:application/x-rtsp-tunnelled\r\n\r\n")) plainEnv

/-- A tunnelled POST with a cookie, on the connection `c`. -/
def tunnelledPost (c : ℕ) (cookie : String) : ServerAct :=
  .read c (str ("POST /s HTTP/1.0\r\nx-sessioncookie:" ++ cookie ++
    "\r\nContent-Type:application/x-rtsp-tunnelled\r\n\r\n")) plainEnv

/-- A tunnel of two connections. -/
theorem authentic_run_tunnel : ∃ s, (serverMachine false).Run (fun s a => authenticPost s a = true)
    [.accept 5, .accept 6, tunnelledGet 0 "k", tunnelledPost 1 "k"]
    [.tunnelGet 0 [107], .tunnelPost 0 1 [107]] s ∧ (s.conns 0).bind (·.secondFd) = some 6 ∧
    Authentic s := by
  obtain ⟨s, hrun, hs⟩ := Machine.Run.of_exec (M := serverMachine false)
    (G := fun s a => authenticPost s a = true) (fun s => (s.conns 0).bind (·.secondFd))
    jpegServer_idle
    (show ((serverMachine false).exec _ jpegServer
      [.accept 5, .accept 6, tunnelledGet 0 "k", tunnelledPost 1 "k"]).map _ =
        some ([.tunnelGet 0 [107], .tunnelPost 0 1 [107]], some 6) by decide +kernel)
  exact ⟨s, hrun, hs, authentic_run hrun⟩

/-- A POST with an empty cookie on the connection `0` is given to the connection `1`, which another
client has just opened. -/
theorem empty_cookie_attaches : ∃ s, (serverMachine false).Run Machine.anyStep
    [.accept 5, .accept 6, tunnelledPost 0 ""] [.tunnelPost 1 0 []] s ∧
    (s.conns 1).any (fun C => C.proto = .start ∧ C.base64Count < 0 ∧ C.secondFd = some 5) ∧
    ¬ Authentic s := by
  obtain ⟨s, hrun, hs⟩ := Machine.Run.of_exec (M := serverMachine false) (G := Machine.anyStep)
    (fun s => ((s.conns 1).any (fun C => C.proto = .start ∧ C.base64Count < 0 ∧ C.secondFd = some 5),
      s.log)) jpegServer_idle
    (show ((serverMachine false).exec _ jpegServer
      [.accept 5, .accept 6, tunnelledPost 0 ""]).map _ =
        some ([.tunnelPost 1 0 []], true, [.tunnelPost 1 0 []]) by decide +kernel)
  rw [Prod.mk.injEq] at hs
  refine ⟨s, hrun, hs.1, fun h => ?_⟩
  have hget := (h.post [] [] 1 0 [] hs.2).2
  cases hget

end Spook
