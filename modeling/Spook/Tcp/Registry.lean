import Spook.Tcp.Round

set_option relaxedAutoImplicit false
set_option autoImplicit false

/-!
# Stream sessions and their connections

`proto_state` is written by two protocols and read by the third field `proto`. It stays right as
long as no connection that has a stream session asks for another stream or for a tunnel.

## Main definitions

* `Spook.Registered` — every stream session belongs to a connection that points to it.
* `Spook.oneSession` — an event asks for no second session on a connection.

## Main results

* `Spook.registered_run` — in every run of such events the registry is right, a frame reaches
  every session, and no structure is taken for another.
* `Spook.second_stream_dangles` — two requests on one connection leave a session behind.

## Notes on the design

HTTP and RTSP share `proto_state`, and the registry is about HTTP. What RTSP does is known from
`LeftAlone` and needs no look at it; what HTTP replies changes buffers only (`Replies`). That leaves
the places where a session is made, unlinked or handed over, with one lemma each.
-/

namespace Spook

/-! ## The registry -/

/-- What `proto_state` and the lists of stream sessions say of each other. -/
structure Registry (s : Server) : Prop where
  typed : InterTyped s
  listed : ∀ c C, s.conns c = some C → c ∈ s.connList
  stream_lt : ∀ p S, s.streams p = some S → p < s.next
  nodup : ∀ l, (s.httpLocs l).sessList.Nodup
  session : ∀ l, ∀ p ∈ (s.httpLocs l).sessList,
    ∃ c C, s.streams p = some ⟨l, c⟩ ∧ s.conns c = some C ∧ C.protoState = .stream p
  stream : ∀ c C p, s.conns c = some C → C.protoState = .stream p →
    C.proto = .http ∧ ∃ l, s.streams p = some ⟨l, c⟩ ∧ p ∈ (s.httpLocs l).sessList
  rtspConn : ∀ c C, s.conns c = some C → C.protoState.IsRtsp → C.proto = .rtsp

namespace Registry

variable {s s' : Server} {c : ℕ} {C C' : Conn}

/-- A connection that has no protocol yet has no session either. -/
theorem protoState_null (h : Registry s) (hC : s.conns c = some C) (hp : C.proto = .start) :
    C.protoState = .null := by
  cases hs : C.protoState with
  | null => rfl
  | stream p =>
    have := (h.stream c C p hC hs).1
    rw [hp] at this
    cases this
  | rtspConn ichan =>
    have := h.rtspConn c C hC (by rw [hs]; trivial)
    rw [hp] at this
    cases this

/-- A connection of RTSP has no stream session. -/
theorem noStream (h : Registry s) (hC : s.conns c = some C) (hp : C.proto ≠ .http) :
    NoStream c s := by
  intro C₁ hC₁ p hs
  rw [hC] at hC₁
  cases hC₁
  exact hp (h.stream c C p hC hs).1

/-- What RTSP leaves alone is enough for the registry. -/
theorem leftAlone {req : Option ℕ} (h : Registry s) (ht : InterTyped s') (hk : LeftAlone req s s')
    (hreq : ∀ c, req = some c → ∀ C, s.conns c = some C → C.proto = .rtsp) : Registry s' where
  typed := ht
  listed c C' hC' := by
    obtain ⟨C, hC, -⟩ := hk.conn' hC'
    rw [hk.connList]
    exact h.listed c C hC
  stream_lt p S hS := by
    rw [hk.streams] at hS
    exact (h.stream_lt p S hS).trans_le hk.next
  nodup l := by
    rw [hk.httpLocs]
    exact h.nodup l
  session l p hp := by
    rw [hk.httpLocs] at hp
    obtain ⟨c, C, hS, hC, hs⟩ := h.session l p hp
    obtain ⟨C', hC', hkept⟩ := hk.conn hC
    refine ⟨c, C', by rw [hk.streams, hS], hC', ?_⟩
    rcases hkept.protoState with heq | ⟨-, hr | ⟨-, hnull⟩⟩
    · rw [heq, hs]
    · rw [hs] at hr
      exact hr.elim
    · rw [hs] at hnull
      cases hnull
  stream c C' p hC' hs := by
    obtain ⟨C, hC, hkept⟩ := hk.conn' hC'
    rcases hkept.protoState with heq | ⟨hr, -⟩
    · rw [hkept.proto, hk.streams, hk.httpLocs]
      exact h.stream c C p hC (heq ▸ hs)
    · rw [hs] at hr
      exact hr.elim
  rtspConn := hk.rtspTyped h.rtspConn hreq

/-- A connection may change as long as its `proto_state` stays, and its protocol too unless
`proto_state` is null. -/
theorem setConn (h : Registry s) (hC : s.conns c = some C) (hs : C'.protoState = C.protoState)
    (hp : C'.proto = C.proto ∨ C.protoState = .null) : Registry (s.setConn c C') := by
  have hconn : ∀ c₁ C₁, (s.setConn c C').conns c₁ = some C₁ → ∃ C₀, s.conns c₁ = some C₀ ∧
      C₁.protoState = C₀.protoState ∧ (C₁.proto = C₀.proto ∨ C₀.protoState = .null) := by
    intro c₁ C₁ hC₁
    by_cases hc : c₁ = c
    · rw [hc, Server.setConn_conns_self] at hC₁
      cases hC₁
      exact ⟨C, hc ▸ hC, hs, hp⟩
    · rw [Server.setConn_conns_of_ne _ _ hc] at hC₁
      exact ⟨C₁, hC₁, rfl, .inl rfl⟩
  refine ⟨⟨fun c₁ C₁ hC₁ => ?_, h.typed.inter_lt, fun e E c₁ a b hE htrans C₁ hC₁ => ?_⟩,
    fun c₁ C₁ hC₁ => ?_, h.stream_lt, h.nodup, fun l p hp₁ => ?_, fun c₁ C₁ p hC₁ hs₁ => ?_,
    fun c₁ C₁ hC₁ hr => ?_⟩
  · obtain ⟨C₀, hC₀, -⟩ := hconn c₁ C₁ hC₁
    exact h.typed.conn_lt c₁ C₀ hC₀
  · obtain ⟨C₀, hC₀, heq, -⟩ := hconn c₁ C₁ hC₁
    rw [heq]
    exact h.typed.inter_isRtsp e E c₁ a b hE htrans C₀ hC₀
  · obtain ⟨C₀, hC₀, -⟩ := hconn c₁ C₁ hC₁
    exact h.listed c₁ C₀ hC₀
  · obtain ⟨c₀, C₀, hS, hC₀, hs₀⟩ := h.session l p hp₁
    by_cases hc : c₀ = c
    · subst hc
      rw [hC] at hC₀
      cases hC₀
      exact ⟨c₀, C', hS, s.setConn_conns_self _ _, hs.trans hs₀⟩
    · exact ⟨c₀, C₀, hS, (s.setConn_conns_of_ne _ hc).trans hC₀, hs₀⟩
  · obtain ⟨C₀, hC₀, heq, hproto⟩ := hconn c₁ C₁ hC₁
    rw [heq] at hs₁
    rcases hproto with hproto | hnull
    · rw [hproto]
      exact h.stream c₁ C₀ p hC₀ hs₁
    · rw [hnull] at hs₁
      cases hs₁
  · obtain ⟨C₀, hC₀, heq, hproto⟩ := hconn c₁ C₁ hC₁
    rw [heq] at hr
    rcases hproto with hproto | hnull
    · rw [hproto]
      exact h.rtspConn c₁ C₀ hC₀ hr
    · rw [hnull] at hr
      exact hr.elim

/-- A connection that is dropped, with the stream sessions that are left: those that do not belong
to it. -/
theorem remove (h : Registry s) {streams : ℕ → Option StreamSession}
    {httpLocs : ℕ → HttpLocation} (hnodup : ∀ l, (httpLocs l).sessList.Nodup)
    (hsess : ∀ l p, p ∈ (httpLocs l).sessList ↔
      p ∈ (s.httpLocs l).sessList ∧ ∀ C, s.conns c = some C → C.protoState ≠ .stream p)
    (hstreams : ∀ p S, streams p = some S → s.streams p = some S)
    (hkeep : ∀ p, (∀ C, s.conns c = some C → C.protoState ≠ .stream p) → streams p = s.streams p) :
    Registry { s with httpLocs, streams, conns := Function.update s.conns c none,
                      connList := s.connList.erase c } := by
  have hconn : ∀ c₁ C₁, Function.update s.conns c none c₁ = some C₁ →
      c₁ ≠ c ∧ s.conns c₁ = some C₁ := by
    intro c₁ C₁ hC₁
    by_cases hc : c₁ = c
    · rw [hc, Function.update_self] at hC₁
      cases hC₁
    · rw [Function.update_of_ne hc] at hC₁
      exact ⟨hc, hC₁⟩
  -- a session belongs to one connection
  have hother : ∀ c₁ C₁ l p, c₁ ≠ c → s.conns c₁ = some C₁ → C₁.protoState = .stream p →
      s.streams p = some ⟨l, c₁⟩ → ∀ C, s.conns c = some C → C.protoState ≠ .stream p := by
    intro c₁ C₁ l p hc hC₁ hs hS C hC hp
    obtain ⟨-, l', hS', -⟩ := h.stream c C p hC hp
    rw [hS] at hS'
    cases hS'
    exact hc rfl
  refine ⟨⟨fun c₁ C₁ hC₁ => ?_, h.typed.inter_lt, fun e E c₁ a b hE htrans C₁ hC₁ => ?_⟩,
    fun c₁ C₁ hC₁ => ?_, fun p S hS => ?_, hnodup, fun l p hp => ?_, fun c₁ C₁ p hC₁ hs => ?_,
    fun c₁ C₁ hC₁ => ?_⟩
  · exact h.typed.conn_lt c₁ C₁ (hconn c₁ C₁ hC₁).2
  · exact h.typed.inter_isRtsp e E c₁ a b hE htrans C₁ (hconn c₁ C₁ hC₁).2
  · obtain ⟨hc, hC₁⟩ := hconn c₁ C₁ hC₁
    exact (List.mem_erase_of_ne hc).2 (h.listed c₁ C₁ hC₁)
  · exact h.stream_lt p S (hstreams p S hS)
  · obtain ⟨hp, hne⟩ := (hsess l p).1 hp
    obtain ⟨c₁, C₁, hS, hC₁, hs⟩ := h.session l p hp
    have hc : c₁ ≠ c := by
      rintro rfl
      exact hne C₁ hC₁ hs
    exact ⟨c₁, C₁, (hkeep p hne).trans hS, (Function.update_of_ne hc ..).trans hC₁, hs⟩
  · obtain ⟨hc, hC₁⟩ := hconn c₁ C₁ hC₁
    obtain ⟨hproto, l, hS, hp⟩ := h.stream c₁ C₁ p hC₁ hs
    have hne := hother c₁ C₁ l p hc hC₁ hs hS
    exact ⟨hproto, l, (hkeep p hne).trans hS, (hsess l p).2 ⟨hp, hne⟩⟩
  · exact h.rtspConn c₁ C₁ (hconn c₁ C₁ hC₁).2

/-- A connection without a stream session is dropped. -/
theorem removeConn (h : Registry s) (hc : NoStream c s) :
    Registry { s with conns := Function.update s.conns c none, connList := s.connList.erase c } :=
  h.remove h.nodup (fun _ p => (and_iff_left fun C hC => hc C hC p).symm) (fun _ _ hS => hS)
    fun _ _ => rfl

/-- A connection with a stream session is dropped together with it. -/
theorem removeStream (h : Registry s) {l p : ℕ} (hC : s.conns c = some C)
    (hs : C.protoState = .stream p) (hS : s.streams p = some ⟨l, c⟩) :
    Registry { s with
      httpLocs := Function.update s.httpLocs l
        { s.httpLocs l with sessList := (s.httpLocs l).sessList.erase p }
      streams := Function.update s.streams p none
      conns := Function.update s.conns c none, connList := s.connList.erase c } := by
  have hiff : ∀ q, (∀ C', s.conns c = some C' → C'.protoState ≠ .stream q) ↔ q ≠ p := by
    intro q
    simp only [hC, Option.some.injEq, forall_eq', hs, ne_eq, ProtoState.stream.injEq]
    exact not_congr eq_comm
  apply h.remove
  · intro l'
    by_cases hl : l' = l
    · rw [hl, Function.update_self]
      exact (h.nodup l).erase p
    · rw [Function.update_of_ne hl]
      exact h.nodup l'
  · intro l' q
    rw [hiff q]
    by_cases hl : l' = l
    · rw [hl, Function.update_self, (h.nodup l).mem_erase_iff, and_comm]
    · rw [Function.update_of_ne hl]
      refine (and_iff_left_of_imp fun hq => ?_).symm
      rintro rfl
      obtain ⟨c', C', hS', -⟩ := h.session l' q hq
      rw [hS] at hS'
      cases hS'
      exact hl rfl
  · intro q S hq
    by_cases hqp : q = p
    · rw [hqp, Function.update_self] at hq
      cases hq
    · rwa [Function.update_of_ne hqp] at hq
  · intro q hq
    exact Function.update_of_ne ((hiff q).1 hq) ..

/-- A connection gets its stream session.

**Proof sketch.** The session has a name that nothing has had. It is in front of the list of `l`,
and `proto_state` of `c`, which was NULL, points to it; so every list and every other connection
keep what they had. -/
theorem addStream (h : Registry s) (hC : s.conns c = some C) (hproto : C.proto = .http)
    (hnull : C.protoState = .null) (l : ℕ) :
    Registry { s with
      next := s.next + 1
      streams := Function.update s.streams s.next (some ⟨l, c⟩)
      httpLocs := Function.update s.httpLocs l
        { s.httpLocs l with sessList := s.next :: (s.httpLocs l).sessList }
      conns := Function.update s.conns c (some { C with protoState := .stream s.next }) } := by
  have hlt : ∀ l, ∀ p ∈ (s.httpLocs l).sessList, p ≠ s.next := by
    intro l p hp
    obtain ⟨c, C, hS, -⟩ := h.session l p hp
    exact (h.stream_lt p _ hS).ne
  have hmem : ∀ l' p, p ∈ ((Function.update s.httpLocs l
      { s.httpLocs l with sessList := s.next :: (s.httpLocs l).sessList }) l').sessList ↔
      p = s.next ∧ l' = l ∨ p ∈ (s.httpLocs l').sessList := by
    intro l' p
    by_cases hl : l' = l
    · rw [hl, Function.update_self, List.mem_cons, and_iff_left rfl]
    · rw [Function.update_of_ne hl]
      simp [hl]
  have hne : ∀ c₁ C₁ p, s.conns c₁ = some C₁ → C₁.protoState = .stream p → c₁ ≠ c := by
    rintro c₁ C₁ p hC₁ hs rfl
    rw [hC] at hC₁
    cases hC₁
    rw [hnull] at hs
    cases hs
  refine ⟨⟨fun c₁ C₁ hC₁ => ?_, fun e E c₁ a b hE htrans => ?_,
    fun e E c₁ a b hE htrans C₁ hC₁ => ?_⟩, fun c₁ C₁ hC₁ => ?_, fun p S hS => ?_, fun l' => ?_,
    fun l' p hp => ?_, fun c₁ C₁ p hC₁ hs => ?_, fun c₁ C₁ hC₁ hr => ?_⟩
  · dsimp only at hC₁ ⊢
    by_cases hc : c₁ = c
    · exact (hc ▸ h.typed.conn_lt c C hC).trans (Nat.lt_succ_self _)
    · rw [Function.update_of_ne hc] at hC₁
      exact (h.typed.conn_lt c₁ C₁ hC₁).trans (Nat.lt_succ_self _)
  · exact (h.typed.inter_lt e E c₁ a b hE htrans).trans (Nat.lt_succ_self _)
  · dsimp only at hC₁
    by_cases hc : c₁ = c
    · have hr := h.typed.inter_isRtsp e E c a b hE (hc ▸ htrans) C hC
      rw [hnull] at hr
      exact hr.elim
    · rw [Function.update_of_ne hc] at hC₁
      exact h.typed.inter_isRtsp e E c₁ a b hE htrans C₁ hC₁
  · dsimp only at hC₁ ⊢
    by_cases hc : c₁ = c
    · exact hc ▸ h.listed c C hC
    · rw [Function.update_of_ne hc] at hC₁
      exact h.listed c₁ C₁ hC₁
  · dsimp only at hS ⊢
    by_cases hp : p = s.next
    · exact hp ▸ Nat.lt_succ_self _
    · rw [Function.update_of_ne hp] at hS
      exact (h.stream_lt p S hS).trans (Nat.lt_succ_self _)
  · dsimp only
    by_cases hl : l' = l
    · rw [hl, Function.update_self]
      exact List.nodup_cons.2 ⟨fun hp => hlt l _ hp rfl, h.nodup l⟩
    · rw [Function.update_of_ne hl]
      exact h.nodup l'
  · rcases (hmem l' p).1 hp with ⟨rfl, rfl⟩ | hp
    · exact ⟨c, _, Function.update_self .., Function.update_self .., rfl⟩
    · obtain ⟨c₁, C₁, hS, hC₁, hs⟩ := h.session l' p hp
      exact ⟨c₁, C₁, (Function.update_of_ne (hlt l' p hp) ..).trans hS,
        (Function.update_of_ne (hne c₁ C₁ p hC₁ hs) ..).trans hC₁, hs⟩
  · dsimp only at hC₁ ⊢
    by_cases hc : c₁ = c
    · rw [hc, Function.update_self] at hC₁
      cases hC₁
      cases hs
      exact ⟨hproto, l, by rw [Function.update_self, hc], (hmem l _).2 (.inl ⟨rfl, rfl⟩)⟩
    · rw [Function.update_of_ne hc] at hC₁
      obtain ⟨hp, l', hS, hmem'⟩ := h.stream c₁ C₁ p hC₁ hs
      exact ⟨hp, l', (Function.update_of_ne (hlt l' p hmem') ..).trans hS,
        (hmem l' p).2 (.inr hmem')⟩
  · dsimp only at hC₁
    by_cases hc : c₁ = c
    · rw [hc, Function.update_self] at hC₁
      cases hC₁
      exact hr.elim
    · rw [Function.update_of_ne hc] at hC₁
      exact h.rtspConn c₁ C₁ hC₁ hr

end Registry

/-! ## Replies over HTTP -/

/-- The program only sends on the connection `c`. With `total` the connection is there, `P` holds of
the locations, and there is no fault. -/
abbrev Replies {α : Type} (total : Prop) (P : (ℕ → HttpLocation) → Prop) (c : ℕ) (x : M α) : Prop :=
  Within (fun s => InterTyped s ∧ (total → (s.conns c).isSome ∧ P s.httpLocs)) (LeftAlone none)
    (fun _ => ¬ total) x

section Replies

variable {total : Prop} {P : (ℕ → HttpLocation) → Prop} (c : ℕ)

/-- A look at the connection sends nothing. -/
theorem replies_getConn : Replies total P c (getConn c) := by
  intro s hs
  rw [wp_getConn]
  refine ⟨fun C _ => ⟨hs, refl s⟩, fun hC ht => ?_⟩
  rw [hC] at hs
  cases (hs.2 ht).1

/-- A change of the connection that keeps its `proto_state`. -/
theorem replies_modifyConn {f : Conn → Conn} (h : ∀ C, ConnKept (none = some c) C (f C)) :
    Replies total P c (modifyConn c f) := by
  intro s hs
  have h₁ : wp (modifyConn c f) (fun _ s' => (s'.conns c).isSome) (fun _ => ¬ total) s := by
    rw [wp_modifyConn]
    refine ⟨fun C _ => by simp, fun hC ht => ?_⟩
    rw [hC] at hs
    cases (hs.2 ht).1
  have h₂ := modifyConn_safe hs.1 fun C _ => h C
  refine (h₁.and h₂).mono (fun _ s' h => ⟨⟨h.2.1, fun ht => ⟨h.1, ?_⟩⟩, h.2.2⟩) fun _ h => h.1
  rw [h.2.2.httpLocs]
  exact (hs.2 ht).2

/-- The connection is to be dropped when everything is written. -/
theorem replies_dropAfter : Replies total P c (modifyConn c fun C => { C with dropAfter := true }) :=
  replies_modifyConn c fun _ => ⟨rfl, rfl, rfl, rfl, rfl, .inl rfl⟩

/-- `send_data` touches the buffer alone. -/
theorem replies_sendData (d : Bytes) : Replies total P c (sendData c d) := by
  refine within_bind (replies_getConn c) fun C => ?_
  refine within_bind (replies_modifyConn c fun C => ?_) fun _ => within_pure _
  unfold Conn.sendData
  split_ifs
  · exact .refl _
  · exact ⟨rfl, rfl, rfl, rfl, rfl, .inl rfl⟩

/-- A message is printed into the buffer. -/
theorem replies_sendPmsgText (text : Bytes) (len : ℕ) : Replies total P c (sendPmsgText c text len) := by
  refine within_bind (replies_getConn c) fun C => within_ite (fun _ => within_pure _) fun _ => ?_
  exact within_bind (replies_sendData c text) fun _ => within_pure _

/-- An error response is printed into the buffer. -/
theorem replies_httpSendError (code : ℕ) (reply t : String) :
    Replies total P c (httpSendError c code reply t) := by
  refine within_bind (replies_dropAfter c) fun _ => ?_
  refine within_bind (replies_sendPmsgText c _ _) fun ret => ?_
  refine within_ite (fun _ => ?_) fun _ => within_pure _
  exact within_bind (replies_sendData c _) fun _ => within_pure _

/-- A location has an image. -/
def HasFrame (l : ℕ) (L : ℕ → HttpLocation) : Prop := (L l).frame.isSome

/-- A picture goes out with its length, if there is one. -/
theorem replies_sendFrameWithJfif (l : ℕ) : Replies total (HasFrame l) c (sendFrameWithJfif l c) := by
  refine within_bind (fun s hs => ?_) fun frame => within_bind within_get fun s => ?_
  · simp only [locFrame, wp_bind, wp_get, wp_found]
    refine ⟨fun _ _ => ⟨hs, refl s⟩, fun hframe ht => ?_⟩
    have hsome := (hs.2 ht).2
    rw [HasFrame, hframe] at hsome
    cases hsome
  · refine within_ite (fun _ => ?_) fun _ => ?_
    · refine within_bind (replies_sendData c _) fun _ => ?_
      exact within_bind (replies_sendData c _) fun _ => within_pure _
    · exact within_bind (replies_sendData c _) fun _ => within_pure _

/-- A picture goes out as a part of a multipart response. -/
theorem replies_sendMultipartFrame (l : ℕ) : Replies total (HasFrame l) c (sendMultipartFrame l c) := by
  refine within_bind within_get fun s => within_bind (replies_getConn c) fun C => ?_
  refine within_ite (fun _ => within_pure _) fun _ => ?_
  exact within_bind (replies_sendData c _) fun _ => replies_sendFrameWithJfif c l

end Replies

/-! ## Requests -/

/-- What is asked of a program that may handle anything: the registry stays right, and no
structure is taken for another. -/
abbrev KeepsRegistry {α : Type} (x : M α) (s : Server) : Prop :=
  wp x (fun _ s' => Registry s') (· ≠ .protoState) s

section Requests

variable {s : Server} {c : ℕ} {C : Conn} {α : Type}

/-- What keeps to RTSP touches neither the lists nor what points into them. -/
theorem Registry.safe {req : Option ℕ} {x : M α} (h : Registry s) (hx : Safe req x)
    (hreq : ∀ c, req = some c → ∀ C, s.conns c = some C → C.proto = .rtsp) : KeepsRegistry x s :=
  (hx s h.typed).mono (fun _ _ h' => h.leftAlone h'.1 h'.2 hreq) fun _ h' => h'

/-- The same for the connection that is read, which has no stream session. -/
theorem Registry.safeOn {req : Option ℕ} {x : M α} (h : Registry s) (hc : NoStream c s)
    (hx : SafeOn True req c x)
    (hreq : ∀ c, req = some c → ∀ C, s.conns c = some C → C.proto = .rtsp) : KeepsRegistry x s :=
  (hx s ⟨h.typed, fun _ => hc⟩).mono (fun _ _ h' => h.leftAlone h'.1.1 h'.2 hreq)
    fun _ h' => h' trivial

/-- A reply over HTTP touches neither the lists nor what points into them. -/
theorem Registry.replies {P : (ℕ → HttpLocation) → Prop} {x : M α} (h : Registry s)
    (hC : s.conns c = some C) (hP : P s.httpLocs) (hx : Replies True P c x) :
    wp x (fun _ s' => Registry s' ∧ LeftAlone none s s') (fun _ => False) s :=
  (hx s ⟨h.typed, fun _ => ⟨by simp [hC], hP⟩⟩).mono
    (fun _ _ h' => ⟨h.leftAlone h'.1.1 h'.2 (by simp), h'.2⟩) fun _ h' => h' trivial

/-- The same, when what RTSP leaves alone does not matter. -/
theorem Registry.reply {P : (ℕ → HttpLocation) → Prop} {x : M α} (h : Registry s)
    (hC : s.conns c = some C) (hP : P s.httpLocs) (hx : Replies True P c x) : KeepsRegistry x s :=
  (h.replies hC hP hx).mono (fun _ _ h' => h'.1) fun _ h' => h'.elim

/-- `drop_conn` takes the session of the connection with it. -/
theorem registry_dropConn (mc : Bool) (c : ℕ) (h : Registry s) :
    KeepsRegistry (dropConn mc c) s := by
  unfold dropConn
  rw [KeepsRegistry, wp_bind, wp_getConn]
  refine ⟨fun C hC => ?_, fun _ => by decide⟩
  rw [wp_bind]
  cases hs : C.protoState with
  | null =>
    refine h.removeConn fun C' hC' p hp => ?_
    rw [hC] at hC'
    cases hC'
    rw [hs] at hp
    cases hp
  | stream p =>
    obtain ⟨hproto, l, hS, -⟩ := h.stream c C p hC hs
    simp only [hproto, disconnectProto, httpConnDisconnect, wp_bind, wp_getConn, hC,
      Option.some.injEq, reduceCtorEq, false_imp_iff, and_true, forall_eq', hs, wp_getStream, hS,
      wp_modifyHttpLoc, wp_modify]
    exact h.removeStream hC hs hS
  | rtspConn ichan =>
    have hproto := h.rtspConn c C hC (by rw [hs]; trivial)
    have hno := h.noStream hC (by rw [hproto]; decide)
    rw [hproto]
    have hx : SafeOn True none c (rtspConnDisconnect mc c) := safeOn_rtspConnDisconnect mc c
    refine (hx s ⟨h.typed, fun _ => hno⟩).mono (fun _ s' h' => ?_) fun _ h' => h' trivial
    exact (h.leftAlone h'.1.1 h'.2 (by simp)).removeConn (h'.1.2 trivial)

/-- Whether a request on an HTTP connection wants `proto_state` for something of its own: a GET that
is answered with a stream of images, or one that starts a tunnel. -/
def takesState (s : Server) (C : Conn) (m : Pmsg) (method uri : Bytes) : Bool :=
  strCaseEq method (str "GET") &&
    match isTunnelled m "Accept" with
    | .ok true =>
      match m.getHeader (str "x-sessioncookie") with
      | .ok (some t) => t.length + 1 ≤ cookieSize
      | _ => false
    | .ok false =>
      match getAnswer s C.availSendBuf uri with
      | .stream _ => true
      | _ => false
    | .error _ => false

/-- What is answered with an image, or with a stream of them, has one. -/
theorem getAnswer_hasFrame {avail l : ℕ} {uri : Bytes}
    (h : getAnswer s avail uri = .stream l ∨ getAnswer s avail uri = .single l) :
    HasFrame l s.httpLocs := by
  unfold getAnswer at h
  split at h
  · simp at h
  rename_i l' _
  dsimp only at h
  split at h
  · simp at h
  cases hframe : (s.httpLocs l').frame with
  | none => simp [hframe] at h
  | some frame =>
    rw [hframe] at h
    dsimp only at h
    have hl : l' = l := by
      split_ifs at h <;> simp_all
    rw [HasFrame, ← hl, hframe]
    rfl

/-- A stream is opened on a connection whose `proto_state` is free. -/
theorem registry_openStream {l : ℕ} {text : Bytes} (h : Registry s) (hC : s.conns c = some C)
    (hproto : C.proto = .http) (hnull : C.protoState = .null) (hframe : HasFrame l s.httpLocs) :
    KeepsRegistry (do
      let _ ← sendPmsgText c text 0
      addHttpStreamSession l c
      sendMultipartFrame l c) s := by
  rw [KeepsRegistry, wp_bind]
  refine (h.replies hC hframe (replies_sendPmsgText c text 0)).mono (fun _ s₁ h₁ => ?_)
    fun _ h' => h'.elim
  obtain ⟨C₁, hC₁, hkept⟩ := h₁.2.conn hC
  have hadd := h₁.1.addStream hC₁ (hkept.proto.trans hproto) (hkept.null hnull) l
  simp only [addHttpStreamSession, wp_bind, wp_fresh, wp_modify, wp_modifyHttpLoc, wp_modifyConn,
    hC₁, Option.some.injEq, reduceCtorEq, false_imp_iff, and_true, forall_eq']
  refine hadd.reply (Function.update_self ..) ?_ (replies_sendMultipartFrame c l)
  dsimp only [HasFrame]
  rw [Function.update_self, h₁.2.httpLocs]
  exact hframe

/-- A GET of a stream makes a session, links it in front of the list of its location and stores it
in `proto_state`, which was NULL. -/
theorem registry_httpHandleGET {uri : Bytes} (h : Registry s) (hC : s.conns c = some C)
    (hproto : C.proto = .http)
    (hfree : ∀ l, getAnswer s C.availSendBuf uri = .stream l → C.protoState = .null) :
    KeepsRegistry (httpHandleGET c uri) s := by
  unfold httpHandleGET
  simp only [KeepsRegistry, wp_bind, wp_get, wp_getConn, hC, Option.some.injEq, reduceCtorEq,
    false_imp_iff, and_true, forall_eq']
  cases ha : getAnswer s C.availSendBuf uri with
  | fileNotFound => exact h.reply (P := fun _ => True) hC trivial (replies_httpSendError c _ _ _)
  | imageNotAvailable =>
    exact h.reply (P := fun _ => True) hC trivial (replies_httpSendError c _ _ _)
  | stream l =>
    exact registry_openStream h hC hproto (hfree l ha) (getAnswer_hasFrame (.inl ha))
  | single l =>
    refine h.reply hC (getAnswer_hasFrame (.inr ha)) ?_
    refine within_bind (replies_dropAfter c) fun _ => within_bind within_get fun s => ?_
    refine within_bind (replies_sendPmsgText c _ _) fun ret => ?_
    exact within_ite (fun _ => replies_sendFrameWithJfif c l) fun _ => within_pure _

/-- Only a GET may make a stream session. -/
theorem registry_httpHandleMsg {method uri : Bytes} (h : Registry s) (hC : s.conns c = some C)
    (hproto : C.proto = .http)
    (hfree : ∀ l, strCaseEq method (str "GET") → getAnswer s C.availSendBuf uri = .stream l →
      C.protoState = .null) :
    KeepsRegistry (httpHandleMsg c method uri) s := by
  unfold httpHandleMsg
  rw [KeepsRegistry, wp_ite]
  constructor
  · intro hget
    exact registry_httpHandleGET h hC hproto fun l => hfree l hget
  · intro _
    exact h.reply (P := fun _ => True) hC trivial (replies_httpSendError c _ _ _)

/-- What `handle_QT_tunnel` sends to refuse a request. -/
theorem replies_refuse {total : Prop} {P : (ℕ → HttpLocation) → Prop} (text : Bytes) :
    Replies total P c (do
      let _ ← sendData c text
      modifyConn c fun C => { C with dropAfter := true }) :=
  within_bind (replies_sendData c text) fun _ => replies_dropAfter c

/-- Another connection may get a socket, and any connection loose its. -/
theorem registry_modifyConn {f : Conn → Conn} (h : Registry s) (c : ℕ)
    (hf : ∀ C, (f C).protoState = C.protoState) (hp : ∀ C, (f C).proto = C.proto) :
    KeepsRegistry (modifyConn c f) s := by
  rw [KeepsRegistry, wp_modifyConn]
  exact ⟨fun C hC => h.setConn hC (hf C) (.inl (hp C)), fun _ => by decide⟩

/-- The registry does not look at the log. -/
theorem Registry.log (h : Registry s) (L : List Event) : Registry { s with log := L } :=
  ⟨⟨h.typed.conn_lt, h.typed.inter_lt, h.typed.inter_isRtsp⟩, h.listed, h.stream_lt, h.nodup,
    h.session, h.stream, h.rtspConn⟩

/-- **Tunnels keep the registry.** A GET with a cookie makes a tunnel of its connection, whose
`proto_state` was NULL; a POST hands its socket over to the connection with its cookie and is
dropped. **Proof sketch.** By the branches of `handle_qt_tunnel`: every branch that ends in a
response is a reply, and the two that do not change a connection that has no stream session, so no
list is touched. -/
theorem registry_handleQTTunnel {m : Pmsg} {post : Bool} (h : Registry s)
    (hC : s.conns c = some C)
    (hfree : post = false → (∃ t, m.getHeader (str "x-sessioncookie") = .ok (some t) ∧
      t.length + 1 ≤ cookieSize) → C.protoState = .null) :
    KeepsRegistry (handleQTTunnel c m post) s := by
  have hrefuse : ∀ text : Bytes, KeepsRegistry (do
      let _ ← sendData c text
      modifyConn c fun C => { C with dropAfter := true }) s := fun text =>
    h.reply (P := fun _ => True) hC trivial (replies_refuse text)
  unfold handleQTTunnel
  rw [KeepsRegistry, wp_bind, wp_lift]
  refine ⟨fun o ho => ?_, wellTyped_getHeader m _⟩
  cases o with
  | none => exact (wp_bind ..).2 (hrefuse _)
  | some t =>
    dsimp only
    rw [wp_ite]
    refine ⟨fun _ => (wp_bind ..).2 (hrefuse _), fun hlen => ?_⟩
    rw [wp_ite]
    constructor
    · -- a GET becomes the connection of a tunnel
      intro hpost
      have hnull := hfree (by simpa using hpost) ⟨t, ho, by omega⟩
      rw [wp_bind, wp_modifyConn]
      refine ⟨fun C' hC' => ?_, fun _ => by decide⟩
      rw [hC] at hC'
      cases hC'
      have h₁ : Registry (s.setConn c { C with httpTunnelCookie := t }) :=
        h.setConn hC rfl (.inl rfl)
      rw [wp_bind]
      have hsend := h₁.replies (P := fun _ => True) (s.setConn_conns_self c _) trivial
        (replies_sendData c (str ("HTTP/1.0 200 OK\r\nConnection: close\r\n" ++
          "Cache-Control: no-cache\r\nPragma: no-cache\r\n" ++
          "Content-Type: application/x-rtsp-tunnelled\r\n\r\n")))
      refine hsend.mono (fun _ s₂ h₂ => ?_) fun _ h' => h'.elim
      obtain ⟨C₂, hC₂, hkept⟩ := h₂.2.conn (s.setConn_conns_self c _)
      rw [wp_bind, wp_modifyConn]
      refine ⟨fun C' hC' => ?_, fun _ => by decide⟩
      rw [hC₂] at hC'
      cases hC'
      rw [wp_bind, wp_record, wp_pure]
      have h₃ : Registry (s₂.setConn c { C₂ with proto := .rtsp, base64Count := 0 }) :=
        h₂.1.setConn hC₂ rfl (.inr (hkept.null hnull))
      exact h₃.log _
    · intro _
      rw [wp_bind, wp_get]
      split
      · exact (wp_bind ..).2 (hrefuse _)
      rename_i cg _
      rw [wp_bind, wp_getConn]
      refine ⟨fun C' _ => ?_, fun _ => by decide⟩
      rw [wp_bind]
      have hcg := registry_modifyConn (f := fun C => { C with secondFd := C'.fd }) h cg
        (fun _ => rfl) fun _ => rfl
      refine hcg.mono (fun _ s₁ h₁ => ?_) fun _ h' => h'
      rw [wp_bind]
      have hc := registry_modifyConn (f := fun C => { C with fd := none }) h₁ c
        (fun _ => rfl) fun _ => rfl
      refine hc.mono (fun _ s₂ h₂ => ?_) fun _ h' => h'
      rw [wp_bind, wp_record, wp_pure]
      exact h₂.log _

/-- A GET, of a tunnel or of a location, keeps the registry. -/
theorem registry_handleGET {m : Pmsg} {method uri : Bytes} (h : Registry s)
    (hC : s.conns c = some C) (hproto : C.proto = .http)
    (hget : strCaseEq method (str "GET") = true)
    (hfree : takesState s C m method uri = true → C.protoState = .null) :
    KeepsRegistry (handleGET c m method uri) s := by
  unfold handleGET
  rw [KeepsRegistry, wp_bind, wp_lift]
  refine ⟨fun b hb => ?_, wellTyped_isTunnelled m _⟩
  rw [wp_ite]
  constructor
  · rintro rfl
    have htunnel : KeepsRegistry (handleQTTunnel c m false) s := by
      apply registry_handleQTTunnel h hC
      rintro - ⟨t, ht, hlen⟩
      exact hfree (by simp [takesState, hget, hb, ht, hlen])
    rw [wp_bind]
    refine htunnel.mono (fun ret s' h' => ?_) fun _ h' => h'
    rw [wp_ite]
    exact ⟨fun _ => h', fun _ => h'⟩
  · intro hfalse
    have hb : isTunnelled m "Accept" = .ok false := by rw [hb, Bool.eq_false_iff.2 hfalse]
    rw [wp_bind]
    refine registry_httpHandleMsg h hC hproto fun l _ hans => ?_
    exact hfree (by simp [takesState, hget, hb, hans])

/-- Any other HTTP request keeps the registry. -/
theorem registry_handlePOST {m : Pmsg} {method uri : Bytes} (h : Registry s)
    (hC : s.conns c = some C) (hproto : C.proto = .http)
    (hpost : strCaseEq method (str "GET") = false) :
    KeepsRegistry (handlePOST c m method uri) s := by
  unfold handlePOST
  rw [KeepsRegistry, wp_bind, wp_lift]
  refine ⟨fun b hb => ?_, wellTyped_isTunnelled m _⟩
  rw [wp_ite]
  constructor
  · intro _
    rw [wp_bind]
    refine (registry_handleQTTunnel h hC fun hp => by cases hp).mono (fun ret s' h' => ?_)
      fun _ h' => h'
    rw [wp_ite]
    exact ⟨fun _ => h', fun _ => h'⟩
  · intro _
    rw [wp_bind]
    refine registry_httpHandleMsg h hC hproto fun l hg _ => ?_
    rw [hpost] at hg
    cases hg

/-- A request that is read, on a connection of either protocol, keeps the registry. -/
theorem registry_handleRequest {mc : Bool} {env : ReadEnv} (h : Registry s)
    (hC : s.conns c = some C)
    (hfree : C.proto = .http → ∀ m method uri,
      readRequest env.blank C.reqBuf = .ok (some (m, method, uri)) →
      takesState s C m method uri = true → C.protoState = .null) :
    KeepsRegistry (handleRequest mc c env) s := by
  unfold handleRequest
  simp only [KeepsRegistry, wp_bind, wp_getConn, hC, Option.some.injEq, reduceCtorEq,
    false_imp_iff, and_true, forall_eq', wp_lift]
  refine ⟨fun o ho => ?_, wellTyped_readRequest _ _⟩
  cases o with
  | none => exact h
  | some r =>
    obtain ⟨m, method, uri⟩ := r
    simp only [wp_bind, wp_getConn, hC, Option.some.injEq, reduceCtorEq, false_imp_iff, and_true,
      forall_eq']
    cases hproto : C.proto with
    | http =>
      dsimp only
      rw [wp_ite]
      refine ⟨fun hget => ?_, fun hget => ?_⟩
      · exact registry_handleGET h hC hproto hget (hfree hproto m method uri ho)
      have hget : strCaseEq method (str "GET") = false := by simpa using hget
      rw [wp_ite]
      refine ⟨fun _ => registry_handlePOST h hC hproto hget, fun _ => ?_⟩
      rw [wp_bind]
      refine registry_httpHandleMsg h hC hproto fun l hg _ => ?_
      rw [hget] at hg
      cases hg
    | rtsp =>
      dsimp only
      rw [wp_bind]
      refine h.safeOn (h.noStream hC (by rw [hproto]; decide)) (safeOn_rtspHandle mc c _ _) ?_
      intro c' hc' C' hC'
      cases hc'
      rw [hC] at hC'
      cases hC'
      exact hproto
    | start =>
      dsimp only
      rw [wp_bind]
      have hx : Safe none (handleUnknown c env.reply) := by
        refine within_bind (fun s hs => ?_) fun _ => safe_rtspReply c _
        exact modifyConn_safe hs fun C _ => ⟨rfl, rfl, rfl, rfl, rfl, .inl rfl⟩
      exact h.safe hx (by simp)

end Requests

/-! ## Events -/

section Events

variable {s : Server} {c : ℕ} {C : Conn} {mc : Bool}

/-- The end of a round. -/
theorem registry_settledRound {env : ReadEnv} {a : ClientAction} (h : Registry s)
    (hC : s.conns c = some C) (hpacket : ∀ chan d, a = .packet chan d → C.proto = .rtsp)
    (hrequest : a = .request → KeepsRegistry (handleRequest mc c env) s) :
    KeepsRegistry (settledRound mc c env a) s := by
  apply keeps_settledRound h
  · exact fun s' h' => registry_dropConn mc c h'
  · intro s' h'
    exact registry_modifyConn (f := fun C => { C with reqBuf := [] }) h' c (fun _ => rfl)
      fun _ => rfl
  · exact hrequest
  · intro chan d ha
    have hno := h.noStream hC (by rw [hpacket chan d ha]; decide)
    have hx : SafeOn True none c (interleaveRecv c chan d env.now) :=
      safeOn_interleaveRecv c chan d env.now
    exact h.safeOn hno hx (by simp)

/-- Whether a read hands over an HTTP request that wants `proto_state` for something of its own. -/
def wantsState (s : Server) (C : Conn) (d : Bytes) (env : ReadEnv) : Bool :=
  match C.httpRequest d with
  | none => false
  | some buf =>
    match readRequest env.blank buf with
    | .ok (some (m, method, uri)) => takesState s C m method uri
    | _ => false

/-- Whether `proto_state` is a null pointer. -/
def ProtoState.isNull : ProtoState → Bool
  | .null => true
  | .stream _ | .rtspConn _ => false

/-- No connection that has something in `proto_state` asks for a stream of images or a tunnel. -/
def oneSession (s : Server) : ServerAct → Bool
  | .read c d env => (s.conns c).all fun C => C.protoState.isNull || !wantsState s C d env
  | _ => true

/-- A read does not change what a request is answered with. -/
theorem takesState_settled (C : Conn) (d : Bytes) (m : Pmsg) (method uri : Bytes) :
    takesState (s.setConn c (C.settled d)) (C.settled d) m method uri =
      takesState s C m method uri := by
  obtain ⟨buf, n, hrec, -⟩ := C.receive_eq d
  have havail : (C.settled d).availSendBuf = C.availSendBuf := by
    rw [Conn.settled, hrec]
    rfl
  simp only [takesState, havail]
  rfl

/-- What is read from a connection, all its rounds included, keeps the registry. -/
theorem registry_read {d : Bytes} {env : ReadEnv} (h : Registry s) (hC : s.conns c = some C)
    (hone : oneSession s (.read c d env) = true) :
    KeepsRegistry (readChunk (connOps mc c env) d) s := by
  obtain ⟨buf, n, hrec, -⟩ := C.receive_eq d
  have hrecv : Registry (s.setConn c (C.receive d)) := by
    apply h.setConn hC <;> simp [hrec]
  rw [KeepsRegistry, wp_readChunk hC]
  split_ifs with hfull h64
  · exact registry_dropConn mc c hrecv
  · exact hrecv
  have hstart : (settle C.proto buf).1 = C.proto ∨ C.protoState = .null := by
    by_cases hp : C.proto = .start
    · exact .inr (h.protoState_null hC hp)
    · exact .inl (settle_proto hp buf)
  have hsettled : Registry (s.setConn c (C.settled d)) := by
    apply h.setConn hC
    · simp [Conn.settled, hrec]
    · simpa [Conn.settled, hrec] using hstart
  refine registry_settledRound hsettled (s.setConn_conns_self c _) (fun chan d' ha => ?_)
    fun ha => ?_
  · exact settle_packet (Prod.ext rfl ha)
  · refine registry_handleRequest hsettled (s.setConn_conns_self c _)
      fun hproto m method uri hr ht => ?_
    rw [takesState_settled] at ht
    have hreq : C.httpRequest d = some (C.receive d).reqBuf :=
      if_pos ⟨⟨hfull, h64⟩, Prod.ext hproto ha⟩
    have hwants : wantsState s C d env = true := by
      change readRequest env.blank (C.receive d).reqBuf = _ at hr
      rw [wantsState, hreq]
      dsimp only
      rw [hr]
      exact ht
    simp only [oneSession, hC, Option.all_some, hwants, Bool.not_true, Bool.or_false] at hone
    have hnull : C.protoState = .null := by
      cases hs : C.protoState <;> simp [hs, ProtoState.isNull] at hone ⊢
    simpa [Conn.settled, hrec] using hnull

/-- A new connection has no `proto_state`. -/
theorem registry_acceptConn (h : Registry s) (fd : ℕ) : KeepsRegistry (acceptConn fd) s := by
  have hne : ∀ c C, s.conns c = some C → c ≠ s.next := fun c C hC => (h.typed.conn_lt c C hC).ne
  have hconn : ∀ c C, Function.update s.conns s.next (some (.accepted fd)) c = some C →
      c = s.next ∧ C = .accepted fd ∨ s.conns c = some C := by
    intro c C hC
    by_cases hc : c = s.next
    · rw [hc, Function.update_self] at hC
      cases hC
      exact .inl ⟨hc, rfl⟩
    · rw [Function.update_of_ne hc] at hC
      exact .inr hC
  simp only [KeepsRegistry, acceptConn, wp_bind, wp_fresh, wp_modify]
  refine ⟨⟨fun c C hC => ?_, fun e E c a b hE htrans => ?_, fun e E c a b hE htrans C hC => ?_⟩,
    fun c C hC => ?_, fun p S hS => ?_, h.nodup, fun l p hp => ?_, fun c C p hC hs => ?_,
    fun c C hC hr => ?_⟩
  · rcases hconn c C hC with ⟨rfl, -⟩ | hC
    · exact Nat.lt_succ_self _
    · exact (h.typed.conn_lt c C hC).trans (Nat.lt_succ_self _)
  · exact (h.typed.inter_lt e E c a b hE htrans).trans (Nat.lt_succ_self _)
  · rcases hconn c C hC with ⟨rfl, -⟩ | hC
    · exact absurd (h.typed.inter_lt e E _ a b hE htrans) (lt_irrefl _)
    · exact h.typed.inter_isRtsp e E c a b hE htrans C hC
  · rcases hconn c C hC with ⟨rfl, -⟩ | hC
    · exact List.mem_cons_self
    · exact List.mem_cons_of_mem _ (h.listed c C hC)
  · exact (h.stream_lt p S hS).trans (Nat.lt_succ_self _)
  · obtain ⟨c, C, hS, hC, hs⟩ := h.session l p hp
    exact ⟨c, C, hS, (Function.update_of_ne (hne c C hC) ..).trans hC, hs⟩
  · rcases hconn c C hC with ⟨-, rfl⟩ | hC
    · cases hs
    · exact h.stream c C p hC hs
  · rcases hconn c C hC with ⟨-, rfl⟩ | hC
    · exact hr.elim
    · exact h.rtspConn c C hC hr

/-- What is written to a connection keeps the registry. -/
theorem registry_connWrite (h : Registry s) (rs : List WriteResult) :
    KeepsRegistry (connWrite mc c rs) s := by
  apply keeps_connWrite rs h (by decide)
  · exact fun s' h' => registry_dropConn mc c h'
  · intro s' n h'
    exact registry_modifyConn (f := fun C => { C with sendBufR := (C.sendBufR + n) % sendBufSize })
      h' c (fun _ => rfl) fun _ => rfl

/-- A location gets another image. -/
theorem Registry.setFrame (h : Registry s) (l : ℕ) {L : HttpLocation}
    (hL : L.sessList = (s.httpLocs l).sessList) :
    Registry { s with httpLocs := Function.update s.httpLocs l L } := by
  have hsess : ∀ l', (Function.update s.httpLocs l L l').sessList = (s.httpLocs l').sessList := by
    intro l'
    by_cases hl : l' = l
    · rw [hl, Function.update_self, hL]
    · rw [Function.update_of_ne hl]
  refine ⟨⟨h.typed.conn_lt, h.typed.inter_lt, h.typed.inter_isRtsp⟩, h.listed, h.stream_lt,
    fun l' => ?_, fun l' p hp => ?_, fun c C p hC hs => ?_, h.rtspConn⟩
  · dsimp only
    rw [hsess]
    exact h.nodup l'
  · dsimp only at hp
    rw [hsess] at hp
    exact h.session l' p hp
  · obtain ⟨hproto, l', hS, hp⟩ := h.stream c C p hC hs
    refine ⟨hproto, l', hS, ?_⟩
    dsimp only
    rwa [hsess]

/-- Every session of a location can be sent its image. -/
theorem registry_sendFrames {l : ℕ} (ps : List ℕ) (h : Registry s) (hframe : HasFrame l s.httpLocs)
    (hps : ∀ p ∈ ps, p ∈ (s.httpLocs l).sessList) :
    wp (sendFrames l ps) (fun _ s' => Registry s') (fun _ => False) s := by
  induction ps generalizing s with
  | nil => exact h
  | cons p ps ih =>
    obtain ⟨c, C, hS, hC, -⟩ := h.session l p (hps p List.mem_cons_self)
    simp only [sendFrames, wp_bind, wp_getStream, hS, Option.some.injEq, reduceCtorEq,
      false_imp_iff, and_true, forall_eq']
    refine (h.replies hC hframe (replies_sendMultipartFrame c l)).mono (fun _ s₁ h₁ => ?_)
      fun _ h' => h'
    apply ih h₁.1
    · rw [h₁.2.httpLocs]
      exact hframe
    · intro q hq
      rw [h₁.2.httpLocs]
      exact hps q (List.mem_cons_of_mem _ hq)

/-- A frame of a location goes to its sessions, which are all there: nothing is dangling. -/
theorem registry_jpegNextFrame (h : Registry s) (l : ℕ) (d : Bytes) :
    wp (jpegNextFrame l d) (fun _ s' => Registry s') (fun _ => False) s := by
  unfold jpegNextFrame
  rw [wp_ite]
  refine ⟨fun _ => ?_, fun _ => h⟩
  simp only [wp_bind, wp_modifyHttpLoc, wp_get]
  apply registry_sendFrames
  · exact h.setFrame l rfl
  · simp [HasFrame]
  · exact fun p hp => hp

/-- **Step.** An event that asks for no second session keeps the registry right, and takes no
structure for another. -/
theorem registry_serverAct {a : ServerAct} (h : Registry s) (hone : oneSession s a = true) :
    KeepsRegistry (serverAct mc a) s := by
  apply keeps_serverAct h
  · exact fun x hx => h.safe hx (by simp)
  · exact fun fd => registry_acceptConn h fd
  · intro c d env C ha hC
    subst ha
    exact registry_read h hC hone
  · exact fun c => registry_dropConn mc c h
  · intro c
    exact registry_modifyConn (f := fun C => { C with secondFd := none }) h c (fun _ => rfl)
      fun _ => rfl
  · exact fun c rs => registry_connWrite h rs
  · exact fun l d => (registry_jpegNextFrame h l d).mono (fun _ _ h' => h') fun _ h' => h'.elim

end Events

/-! ## Runs -/

/-- Every stream session that a location lists belongs to a connection that is there and points to
it, no connection has two of them, and `proto_state` is what `proto` says it is. -/
structure Registered (s : Server) : Prop where
  session : ∀ l, ∀ p ∈ (s.httpLocs l).sessList, ∃ c C, s.streams p = some ⟨l, c⟩ ∧
    c ∈ s.connList ∧ s.conns c = some C ∧ C.protoState = .stream p
  nodup : ∀ l, (s.httpLocs l).sessList.Nodup
  owner : ∀ c l l', ∀ p ∈ (s.httpLocs l).sessList, ∀ p' ∈ (s.httpLocs l').sessList,
    s.streams p = some ⟨l, c⟩ → s.streams p' = some ⟨l', c⟩ → p = p' ∧ l = l'
  stream : ∀ c C p, s.conns c = some C → C.protoState = .stream p → C.proto = .http
  rtspConn : ∀ c C ichan, s.conns c = some C → C.protoState = .rtspConn ichan → C.proto = .rtsp

/-- What the invariant says of the sessions and their connections. -/
theorem Registry.registered {s : Server} (h : Registry s) : Registered s where
  session l p hp := by
    obtain ⟨c, C, hS, hC, hs⟩ := h.session l p hp
    exact ⟨c, C, hS, h.listed c C hC, hC, hs⟩
  nodup := h.nodup
  owner c l l' p hp p' hp' hS hS' := by
    obtain ⟨c₁, C, hS₁, hC, hs⟩ := h.session l p hp
    obtain ⟨c₂, C', hS₂, hC', hs'⟩ := h.session l' p' hp'
    rw [hS] at hS₁
    rw [hS'] at hS₂
    cases hS₁
    cases hS₂
    rw [hC] at hC'
    cases hC'
    rw [hs] at hs'
    cases hs'
    rw [hS] at hS'
    cases hS'
    exact ⟨rfl, rfl⟩
  stream c C p hC hs := (h.stream c C p hC hs).1
  rtspConn c C ichan hC hs := h.rtspConn c C hC (by rw [hs]; trivial)

/-- Nobody is connected at first. -/
theorem Server.Idle.registry {s : Server} (h : s.Idle) : Registry s where
  typed :=
    { conn_lt := fun c C hC => by simp [h.conns] at hC
      inter_lt := fun e E c a b hE => by simp [h.endpoints] at hE
      inter_isRtsp := fun e E c a b hE => by simp [h.endpoints] at hE }
  listed c C hC := by simp [h.conns] at hC
  stream_lt p S hS := by simp [h.streams] at hS
  nodup l := by simp [h.httpLocs]
  session l p hp := by simp [h.httpLocs] at hp
  stream c C p hC := by simp [h.conns] at hC
  rtspConn c C hC := by simp [h.conns] at hC

/-- **Stream sessions.** In every run in which no connection that has something in `proto_state`
asks for a stream of images or a tunnel, the registry is right, a frame reaches all sessions of its
location, and no disconnect handler or interleave function sees a structure of another type. -/
theorem registered_run {mc : Bool} {as : List ServerAct} {os : List Event} {s : Server}
    (h : (serverMachine mc).Run (fun s a => oneSession s a = true) as os s) :
    Registered s ∧ (∀ l d, ∃ r, serverStep mc s (.jpeg l d) = .ok r) ∧
      ∀ a, oneSession s a = true → serverStep mc s a ≠ .error .protoState := by
  have hreg : Registry s := h.invariant Registry (fun s hs => Server.Idle.registry hs)
    fun s a s' o hs hone hstep => serverStep_ok hs (registry_serverAct hs hone) hstep
  refine ⟨hreg.registered, fun l d => ?_, fun a hone he => ?_⟩
  · rcases hr : serverStep mc s (.jpeg l d) with e | r
    · exact (serverStep_error (a := .jpeg l d) (registry_jpegNextFrame hreg l d) hr).elim
    · exact ⟨r, rfl⟩
  · exact serverStep_error (registry_serverAct hreg hone) he rfl

/-! ## Two requests on one connection -/

/-- A server with a location for a stream of images. -/
def jpegServer : Server :=
  { bareServer with
    httpLocs := fun _ =>
      { path := fun i => (str "/a").getD i 0, frame := none, lengthWithJfif := 0, sessList := []
        streaming := true }
    httpLocList := [0] }

/-- Nobody is connected at first. -/
theorem jpegServer_idle : jpegServer.Idle := by
  constructor <;> intros <;> rfl

/-- The outside of a read, where no RTSP request is sent. -/
def plainEnv : ReadEnv :=
  { blank := zeroMsg, rtsp := fun _ _ _ => .unknown, reply := ⟨0, 0⟩, now := ⟨0, 0⟩ }

/-- A GET of the images, on the connection `0`. -/
def getImages : ServerAct := .read 0 (str "GET /a HTTP/1.0\r\n\r\n") plainEnv

/-- An image. -/
def image : Bytes := [0xff, 0xd8, 0xff]

/-- A client that asks for the images gets a session, which goes with its connection. -/
theorem registered_run_stream : ∃ s, (serverMachine false).Run (fun s a => oneSession s a = true)
    [.jpeg 0 image, .accept 5, getImages, .jpeg 0 image] [] s ∧ (s.httpLocs 0).sessList = [1] ∧
    Registered s := by
  obtain ⟨s, hrun, hs⟩ := Machine.Run.of_exec (M := serverMachine false)
    (G := fun s a => oneSession s a = true) (fun s => (s.httpLocs 0).sessList) jpegServer_idle
    (show ((serverMachine false).exec _ jpegServer
      [.jpeg 0 image, .accept 5, getImages, .jpeg 0 image]).map _ = some ([], [1]) by
        decide +kernel)
  exact ⟨s, hrun, hs, (registered_run hrun).1⟩

/-- A client that asks twice and disconnects leaves a session of a connection that is gone, and the
next frame is sent to it. -/
theorem second_stream_dangles : ∃ s, (serverMachine false).Run Machine.anyStep
    [.jpeg 0 image, .accept 5, getImages, getImages, .close 0] [] s ∧ ¬ Registered s ∧
    serverStep false s (.jpeg 0 image) = .error .freedConn := by
  obtain ⟨s, hrun, hs⟩ := Machine.Run.of_exec (M := serverMachine false) (G := Machine.anyStep)
    (fun s => ((s.httpLocs 0).sessList, (s.streams 1).map (·.conn), (s.conns 0).isNone,
      faultOf (serverStep false s (.jpeg 0 image)))) jpegServer_idle
    (show ((serverMachine false).exec _ jpegServer
      [.jpeg 0 image, .accept 5, getImages, getImages, .close 0]).map _ =
        some ([], [1], some 0, true, some .freedConn) by decide +kernel)
  simp only [Prod.mk.injEq, Option.isNone_iff_eq_none] at hs
  obtain ⟨hsess, hstream, hconn, hfault⟩ := hs
  refine ⟨s, hrun, fun h => ?_, of_faultOf hfault⟩
  obtain ⟨c, C, hS, -, hC, -⟩ := h.session 0 1 (by simp [hsess])
  rw [hS] at hstream
  cases hstream
  rw [hconn] at hC
  cases hC

end Spook
