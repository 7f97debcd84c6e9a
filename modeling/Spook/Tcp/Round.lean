import Spook.Tcp.Frame

set_option relaxedAutoImplicit false
set_option autoImplicit false

/-!
# One read of a connection

The loop of `do_read` over the whole server, in one equation, and what the parser may fault on.

## Main definitions

* `Spook.Server.setConn` — the server with another connection.
* `Spook.Conn.httpRequest` — the request that a read hands to `handle_request`.
* `Spook.ConnOps.Lawful` — the operations of a connection look at and change a part of the state.
* `Spook.ConnOps.round`, `settledRound` — what is left to do once the protocol is known.

## Main results

* `Spook.ConnOps.Lawful.wp_readChunk`, `wp_readChunk` — one read of a connection.
* `Spook.wellTyped_readRequest`, `wellTyped_isTunnelled` — the parser takes no structure for another.

## Notes on the design

`do_read` is stated once over the operations that it uses of a connection. The server, the
connection alone and the server with callbacks are instances, and the equation for one read is
proved for all of them.
-/

namespace Spook

/-! ## The parser -/

/-- The computation takes no structure for another. -/
def WellTyped {α : Type} (x : Except Fault α) : Prop := ∀ e, x = .error e → e ≠ .protoState

section Parser

variable {α β : Type}

/-- A result is no mistake. -/
theorem wellTyped_ok (a : α) : WellTyped (.ok a : Except Fault α) := fun _ h => by cases h

/-- Any other fault. -/
theorem wellTyped_error {e : Fault} (h : e ≠ .protoState) :
    WellTyped (.error e : Except Fault α) :=
  fun _ he => by cases he; exact h

/-- One computation behind another. -/
theorem wellTyped_bind {x : Except Fault α} {f : α → Except Fault β} (hx : WellTyped x)
    (hf : ∀ a, WellTyped (f a)) : WellTyped (x >>= f) := by
  rcases x with e | a
  · exact fun e' he => hx e' (by cases he; rfl)
  · exact hf a

/-- Both branches. -/
theorem wellTyped_ite {c : Prop} [Decidable c] {x y : Except Fault α} (hx : WellTyped x)
    (hy : WellTyped y) : WellTyped (if c then x else y) := by
  split_ifs
  · exact hx
  · exact hy

/-- The table may be full, but is a table. -/
theorem wellTyped_setName (m : Pmsg) (k : ℕ) (p : Option ℕ) : WellTyped (m.setName k p) :=
  wellTyped_ite (wellTyped_ok _) (wellTyped_error (by decide))

/-- The table may be full, but is a table. -/
theorem wellTyped_setValue (m : Pmsg) (k : ℕ) (p : Option ℕ) : WellTyped (m.setValue k p) :=
  wellTyped_ite (wellTyped_ok _) (wellTyped_error (by decide))

/-- A header line. -/
theorem wellTyped_parseHeaderLine (m : Pmsg) (len i : ℕ) : WellTyped (m.parseHeaderLine len i) := by
  refine wellTyped_bind ?_ fun r => ?_
  · refine wellTyped_ite (wellTyped_ok _) (wellTyped_bind (wellTyped_setName _ _ _) fun m => ?_)
    refine wellTyped_ite (wellTyped_ok _) ?_
    exact wellTyped_ite (wellTyped_ok _) (wellTyped_ok _)
  · obtain ⟨m, _ | i⟩ := r
    · exact wellTyped_ok _
    · refine wellTyped_bind (wellTyped_setValue _ _ _) fun m => ?_
      exact wellTyped_ite (wellTyped_ok _) (wellTyped_ok _)

/-- `parse_pmsg`. -/
theorem wellTyped_parsePmsg (m : Pmsg) : WellTyped m.parsePmsg := by
  have hloop : ∀ len fuel m i, WellTyped (Pmsg.parseHeaderLines len fuel m i) := by
    intro len fuel
    induction fuel with
    | zero => exact fun m i => wellTyped_error (by decide)
    | succ fuel ih =>
      intro m i
      refine wellTyped_ite (wellTyped_ok _) (wellTyped_ite (wellTyped_ok _) ?_)
      refine wellTyped_bind (wellTyped_parseHeaderLine m len _) fun r => ?_
      obtain ⟨m, _ | i⟩ := r
      · exact wellTyped_ok _
      · exact ih m i
  unfold Pmsg.parsePmsg
  dsimp only
  split
  · exact wellTyped_ok _
  · exact hloop _ _ _ _

/-- `parse_client_data` up to the handlers. -/
theorem wellTyped_readRequest (blank : Pmsg) (b : Bytes) : WellTyped (readRequest blank b) := by
  refine wellTyped_bind ?_ fun o => ?_
  · refine wellTyped_ite (wellTyped_ok _) (wellTyped_bind (wellTyped_parsePmsg _) fun r => ?_)
    exact wellTyped_ite (wellTyped_ok _) (wellTyped_ok _)
  · cases o with
    | none => exact wellTyped_ok _
    | some m =>
      refine wellTyped_bind ?_ fun method => wellTyped_bind ?_ fun uri => wellTyped_ok _
      · unfold Pmsg.method
        split
        · exact wellTyped_ok _
        · exact wellTyped_error (by decide)
      · unfold Pmsg.uri
        split
        · exact wellTyped_ok _
        · exact wellTyped_error (by decide)

/-- `get_header`. -/
theorem wellTyped_getHeader (m : Pmsg) (name : Bytes) : WellTyped (m.getHeader name) := by
  have hstr : ∀ p, WellTyped (m.cstring p) := by
    rintro (_ | p)
    · exact wellTyped_error (by decide)
    · exact wellTyped_ok _
  have hfind : ∀ n i, WellTyped (m.findHeader name n i) := by
    intro n
    induction n with
    | zero => exact fun i => wellTyped_ok _
    | succ n ih =>
      exact fun i => wellTyped_bind (hstr _) fun s => wellTyped_ite (wellTyped_ok _) (ih _)
  refine wellTyped_bind (hfind _ _) fun o => ?_
  cases o with
  | none => exact wellTyped_ok _
  | some i => exact wellTyped_bind (hstr _) fun v => wellTyped_ok _

/-- The look for the headers of a tunnel. -/
theorem wellTyped_isTunnelled (m : Pmsg) (header : String) : WellTyped (isTunnelled m header) := by
  refine wellTyped_bind (wellTyped_getHeader m _) fun o => ?_
  cases o <;> exact wellTyped_ok _

end Parser

/-! ## One round -/

/-- The server with another connection of the name `c`. -/
def Server.setConn (s : Server) (c : ℕ) (C : Conn) : Server :=
  { s with conns := Function.update s.conns c (some C) }

/-- The connection that was stored is there. -/
@[simp] theorem Server.setConn_conns_self (s : Server) (c : ℕ) (C : Conn) :
    (s.setConn c C).conns c = some C := Function.update_self ..

/-- Other connections stay. -/
theorem Server.setConn_conns_of_ne (s : Server) {c c' : ℕ} (C : Conn) (h : c' ≠ c) :
    (s.setConn c C).conns c' = s.conns c' := Function.update_of_ne h ..

/-- The second of two stores to a connection stays. -/
@[simp] theorem Server.setConn_setConn (s : Server) (c : ℕ) (C C' : Conn) :
    (s.setConn c C).setConn c C' = s.setConn c C' := by
  simp [setConn]

/-- The connection behind a read that returns the bytes `d`, with its protocol found if it can
be. -/
def Conn.settled (C : Conn) (d : Bytes) : Conn :=
  { C.receive d with proto := (settle (C.receive d).proto (C.receive d).reqBuf).1 }

/-- Whether a read leaves the connection to `parse_client_data`. -/
def Conn.parses (C : Conn) (d : Bytes) : Prop :=
  (C.receive d).reqBuf.length ≠ reqBufSize - 1 ∧ ¬ (C.receive d).base64Count > 0

instance (C : Conn) (d : Bytes) : Decidable (C.parses d) := inferInstanceAs (Decidable (_ ∧ _))

/-- The buffer that a read of an HTTP connection hands to `handle_request`. -/
def Conn.httpRequest (C : Conn) (d : Bytes) : Option Bytes :=
  if C.parses d ∧ settle (C.receive d).proto (C.receive d).reqBuf = (.http, .request) then
    some (C.receive d).reqBuf
  else none

section Receive

variable {C : Conn} {d : Bytes}

/-- A read changes the request buffer, and the number of characters left over. -/
theorem Conn.receive_eq (C : Conn) (d : Bytes) :
    ∃ buf n, C.receive d = { C with reqBuf := buf, base64Count := n } ∧
      (0 ≤ n ↔ 0 ≤ C.base64Count) := by
  unfold Conn.receive
  split_ifs with h
  · exact ⟨_, _, rfl, iff_of_true (Int.natCast_nonneg _) h⟩
  · exact ⟨_, _, rfl, Iff.rfl⟩

/-- The protocol is found for a connection that has none yet. -/
theorem settle_proto {proto : ConnProto} (h : proto ≠ .start) (buf : Bytes) :
    (settle proto buf).1 = proto := by
  unfold settle
  split
  · exact absurd ‹_› (clientAction_ne_detected h buf _)
  · rfl

/-- Only an RTSP connection has packets. -/
theorem settle_packet {proto p : ConnProto} {buf d : Bytes} {chan : UInt8}
    (h : settle proto buf = (p, .packet chan d)) : p = .rtsp := by
  have haction : clientAction p buf = .packet chan d := by
    unfold settle at h
    split at h
    · rw [Prod.mk.injEq] at h
      exact h.1 ▸ h.2
    · rw [Prod.mk.injEq] at h
      exact h.1 ▸ h.2
  cases p with
  | rtsp => rfl
  | start =>
    simp only [clientAction, detectProto] at haction
    split at haction <;> try cases haction
    split at haction <;> try cases haction
    split_ifs at haction
  | http =>
    simp only [clientAction, requestAction] at haction
    split_ifs at haction

end Receive

namespace ConnOps

/-- What is left to do once the protocol is known, for any operations. -/
def round {m : Type → Type} [Monad m] (K : ConnOps m) : ClientAction → m Unit
  | .wait | .detected _ => pure ()
  | .bad => K.drop
  | .request => do
    if (← K.handleRequest) < 0 then K.drop
    else K.modify fun C => { C with reqBuf := [] }
  | .packet chan d => do
    K.interleaveRecv chan d
    K.modify fun C => { C with reqBuf := [] }

variable {σ ε : Type}

/-- The operations look at and change the connection that is a part of the state, which `conn` reads
and `put` writes. -/
structure Lawful (K : ConnOps (StateT σ (Except ε))) (conn : σ → Option Conn)
    (put : σ → Conn → σ) : Prop where
  get : ∀ {s C Q E}, conn s = some C → (wp K.get Q E s ↔ Q C s)
  modify : ∀ {s C f Q E}, conn s = some C → (wp (K.modify f) Q E s ↔ Q () (put s (f C)))
  conn_put : ∀ s C, conn (put s C) = some C
  put_put : ∀ s C C', put (put s C) C' = put s C'
  put_self : ∀ {s C}, conn s = some C → put s C = s

namespace Lawful

variable {K : ConnOps (StateT σ (Except ε))} {conn : σ → Option Conn} {put : σ → Conn → σ}
  {s : σ} {C : Conn} {E : ε → Prop}

/-- One round of `parse_client_data`, by what is in the buffer. -/
theorem wp_parseClientData {Q : ℤ → σ → Prop} (hK : K.Lawful conn put) (hC : conn s = some C) :
    wp (parseClientData K) Q E s ↔
      match clientAction C.proto C.reqBuf with
      | .wait => Q 0 s
      | .detected p => Q 1 (put s { C with proto := p })
      | .bad => Q (-1) s
      | .request => wp K.handleRequest (fun ret s' =>
          (ret < 0 → Q (-1) s') ∧
          (¬ ret < 0 → wp (K.modify fun C => { C with reqBuf := [] }) (fun _ => Q 0) E s')) E s
      | .packet chan d => wp (K.interleaveRecv chan d) (fun _ s' =>
          wp (K.modify fun C => { C with reqBuf := [] }) (fun _ => Q 0) E s') E s := by
  unfold parseClientData
  rw [wp_bind, hK.get hC]
  cases clientAction C.proto C.reqBuf with
  | wait => exact Iff.rfl
  | bad => exact Iff.rfl
  | detected p =>
    dsimp only
    rw [wp_bind, hK.modify hC]
    exact Iff.rfl
  | request => simp only [wp_bind, wp_ite, wp_pure]
  | packet chan d => simp only [wp_bind, wp_pure]

/-- The loop of `do_read`, unrolled once. -/
theorem parseLoop_succ (n : ℕ) : parseLoop K (n + 1) = (do
    let ret ← parseClientData K
    if ret > 0 then parseLoop K n else return ret) := rfl

/-- The end of a round whose protocol is known. -/
theorem wp_parseLoop_known {Q : Unit → σ → Prop} {n : ℕ} (hK : K.Lawful conn put)
    (hC : conn s = some C) (hne : ∀ p, clientAction C.proto C.reqBuf ≠ .detected p) :
    wp (parseLoop K (n + 1)) (fun ret => wp (if ret < 0 then K.drop else pure ()) Q E) E s ↔
      wp (K.round (clientAction C.proto C.reqBuf)) Q E s := by
  rw [parseLoop_succ, wp_bind, hK.wp_parseClientData hC]
  cases ha : clientAction C.proto C.reqBuf with
  | wait => simp [round]
  | bad => simp [round]
  | detected p => exact absurd ha (hne p)
  | request => simp [round]
  | packet chan d => simp [round]

/-- The end of a round. -/
theorem wp_parseLoop {Q : Unit → σ → Prop} (hK : K.Lawful conn put) (hC : conn s = some C) :
    wp (parseLoop K 2) (fun ret => wp (if ret < 0 then K.drop else pure ()) Q E) E s ↔
      wp (K.round (settle C.proto C.reqBuf).2) Q E
        (put s { C with proto := (settle C.proto C.reqBuf).1 }) := by
  unfold settle
  split
  · rename_i p ha
    rw [parseLoop_succ, wp_bind, hK.wp_parseClientData hC, ha]
    exact hK.wp_parseLoop_known (n := 0) (hK.conn_put s _)
      (clientAction_ne_detected (detected_ne_start ha) C.reqBuf)
  · rename_i hne
    rw [show put s { C with proto := C.proto } = s from hK.put_self hC]
    exact hK.wp_parseLoop_known (n := 1) hC hne

/-- **One round** of the loop of `do_read`, for any operations. -/
theorem wp_readChunk {Q : Unit → σ → Prop} {d : Bytes} (hK : K.Lawful conn put)
    (hC : conn s = some C) :
    wp (readChunk K d) Q E s ↔
      if (C.receive d).reqBuf.length = reqBufSize - 1 then wp K.drop Q E (put s (C.receive d))
      else if (C.receive d).base64Count > 0 then Q () (put s (C.receive d))
      else wp (K.round (settle (C.receive d).proto (C.receive d).reqBuf).2) Q E
        (put s (C.settled d)) := by
  unfold readChunk
  rw [wp_bind, hK.modify hC, wp_bind, hK.get (hK.conn_put s _)]
  split_ifs with hfull h64
  · exact Iff.rfl
  · exact Iff.rfl
  · rw [wp_bind]
    refine (hK.wp_parseLoop (hK.conn_put s _)).trans ?_
    rw [hK.put_put]
    exact Iff.rfl

end Lawful

end ConnOps

section Round

variable (mc : Bool) (c : ℕ) (env : ReadEnv)

/-- What is left to do once the protocol is known. -/
def settledRound : ClientAction → M Unit
  | .wait | .detected _ => pure ()
  | .bad => dropConn mc c
  | .request => do
    if (← handleRequest mc c env) < 0 then dropConn mc c
    else modifyConn c fun C => { C with reqBuf := [] }
  | .packet chan d => do
    interleaveRecv c chan d env.now
    modifyConn c fun C => { C with reqBuf := [] }

variable {mc c env} {s : Server} {C : Conn} {E : Fault → Prop}

/-- The operations on the connection `c` of the server. -/
theorem lawful_connOps : (connOps mc c env).Lawful (·.conns c) (·.setConn c) where
  get {s C _ _} hC := by
    have hC : s.conns c = some C := hC
    change wp (getConn c) _ _ s ↔ _
    simp [hC]
  modify {s C _ _ _} hC := by
    have hC : s.conns c = some C := hC
    change wp (modifyConn c _) _ _ s ↔ _
    simp [hC, Server.setConn]
  conn_put s C := s.setConn_conns_self c C
  put_put s C C' := s.setConn_setConn c C C'
  put_self {s C} hC := by
    have hC : s.conns c = some C := hC
    simp [Server.setConn, ← hC]

/-- **One read.** What a read of a connection does. -/
theorem wp_readChunk {Q : Unit → Server → Prop} {d : Bytes} (hC : s.conns c = some C) :
    wp (readChunk (connOps mc c env) d) Q E s ↔
      if (C.receive d).reqBuf.length = reqBufSize - 1 then
        wp (dropConn mc c) Q E (s.setConn c (C.receive d))
      else if (C.receive d).base64Count > 0 then Q () (s.setConn c (C.receive d))
      else wp (settledRound mc c env (settle (C.receive d).proto (C.receive d).reqBuf).2) Q E
        (s.setConn c (C.settled d)) := by
  have hround : ∀ a, (connOps mc c env).round a = settledRound mc c env a := by
    intro a
    cases a <;> rfl
  rw [lawful_connOps.wp_readChunk hC, hround]
  exact Iff.rfl

end Round

/-! ## What every event keeps -/

section Keeps

variable {mc : Bool} {c : ℕ} {env : ReadEnv} {s : Server} {I : Server → Prop} {E : Fault → Prop}

/-- The end of a round keeps what its parts keep. -/
theorem keeps_settledRound {a : ClientAction} (hs : I s)
    (hdrop : ∀ s, I s → wp (dropConn mc c) (fun _ => I) E s)
    (hclear : ∀ s, I s → wp (modifyConn c fun C => { C with reqBuf := [] }) (fun _ => I) E s)
    (hrequest : a = .request → wp (handleRequest mc c env) (fun _ => I) E s)
    (hpacket : ∀ chan d, a = .packet chan d →
      wp (interleaveRecv c chan d env.now) (fun _ => I) E s) :
    wp (settledRound mc c env a) (fun _ => I) E s := by
  cases a with
  | wait => exact hs
  | detected p => exact hs
  | bad => exact hdrop s hs
  | request =>
    refine (wp_bind ..).2 ((hrequest rfl).mono (fun ret s' h' => ?_) fun _ h' => h')
    rw [wp_ite]
    exact ⟨fun _ => hdrop s' h', fun _ => hclear s' h'⟩
  | packet chan d =>
    exact (wp_bind ..).2 ((hpacket chan d rfl).mono (fun _ s' h' => hclear s' h') fun _ h' => h')

/-- A write keeps what its parts keep. -/
theorem keeps_connWrite (rs : List WriteResult) (hs : I s) (hfreed : E .freedConn)
    (hdrop : ∀ s, I s → wp (dropConn mc c) (fun _ => I) E s)
    (hsent : ∀ s n, I s → wp (modifyConn c fun C => { C with
      sendBufR := (C.sendBufR + n) % sendBufSize }) (fun _ => I) E s) :
    wp (connWrite mc c rs) (fun _ => I) E s := by
  induction rs generalizing s with
  | nil =>
    unfold connWrite
    rw [wp_bind, wp_getConn]
    refine ⟨fun C _ => ?_, fun _ => hfreed⟩
    rw [wp_ite]
    exact ⟨fun _ => hdrop s hs, fun _ => hs⟩
  | cons r rs ih =>
    unfold connWrite
    rw [wp_bind, wp_getConn]
    refine ⟨fun C _ => ?_, fun _ => hfreed⟩
    rw [wp_ite, wp_ite]
    refine ⟨fun _ => ⟨fun _ => hdrop s hs, fun _ => hs⟩, fun _ => ?_⟩
    cases r with
    | failed => exact hdrop s hs
    | sent n =>
      dsimp only
      rw [wp_ite]
      refine ⟨fun _ => hdrop s hs, fun _ => ?_⟩
      rw [wp_bind]
      exact (hsent s _ hs).mono (fun _ s' h' => ih h') fun _ h' => h'

/-- An event keeps what the functions keep that it calls. -/
theorem keeps_serverAct {a : ServerAct} (hs : I s)
    (hsafe : ∀ x : M Unit, Safe none x → wp x (fun _ => I) E s)
    (haccept : ∀ fd, wp (acceptConn fd) (fun _ => I) E s)
    (hread : ∀ c d env C, a = .read c d env → s.conns c = some C →
      wp (readChunk (connOps mc c env) d) (fun _ => I) E s)
    (hdrop : ∀ c, wp (dropConn mc c) (fun _ => I) E s)
    (hsecond : ∀ c, wp (modifyConn c fun C => { C with secondFd := none }) (fun _ => I) E s)
    (hwrite : ∀ c rs, wp (connWrite mc c rs) (fun _ => I) E s)
    (hjpeg : ∀ l d, wp (jpegNextFrame l d) (fun _ => I) E s) :
    wp (serverAct mc a) (fun _ => I) E s := by
  have hif : ∀ (c : ℕ) (x : M Unit), (∀ C, s.conns c = some C → wp x (fun _ => I) E s) →
      wp (do if (← get).hasConn c then x) (fun _ => I) E s := by
    intro c x hx
    rw [wp_bind, wp_get, wp_ite]
    refine ⟨fun hc => ?_, fun _ => hs⟩
    obtain ⟨C, hC⟩ := Option.isSome_iff_exists.1 hc
    exact hx C hC
  cases a with
  | accept fd => exact haccept fd
  | read c d env => exact hif c _ fun C hC => hread c d env C rfl hC
  | close c => exact hif c _ fun _ _ => hdrop c
  | closeSecond c => exact hif c _ fun _ _ => hsecond c
  | write c rs => exact hif c _ fun _ _ => hwrite c rs
  | jpeg l d => exact hjpeg l d
  | frame t key packets ok => exact hsafe _ (safe_deliverToTrack t key packets ok)
  | deliver w => exact hsafe _ (safe_continueFrame mc w)
  | timer e now ret =>
    refine hsafe _ (within_bind within_get fun s => ?_)
    split
    · exact within_ite (fun _ => safe_rtcpFire mc e now ret) fun _ => within_pure _
    · exact within_pure _
  | udp e r now =>
    refine hsafe _ (within_bind within_get fun s => ?_)
    split
    · exact within_ite (fun _ => safe_udpRead mc e r now) fun _ => within_pure _
    · exact within_pure _

end Keeps

/-! ## Steps -/

section Step

variable {mc : Bool} {s s' : Server} {a : ServerAct} {os : List Event} {I : Server → Prop}
  {E : Fault → Prop}

/-- What a step leads to. -/
theorem serverStep_ok (hs : I s) (h : wp (serverAct mc a) (fun _ s' => I s') E s)
    (hstep : serverStep mc s a = .ok (s', os)) : I s' := by
  unfold serverStep at hstep
  split_ifs at hstep
  · rcases hr : (serverAct mc a).run s with e | ⟨u, s₁⟩ <;> rw [hr] at hstep <;> cases hstep
    exact h.ok hr
  · cases hstep
    exact hs

/-- What a step faults on. -/
theorem serverStep_error {Q : Unit → Server → Prop} {e : Fault} (h : wp (serverAct mc a) Q E s)
    (hstep : serverStep mc s a = .error e) : E e := by
  unfold serverStep at hstep
  split_ifs at hstep
  rcases hr : (serverAct mc a).run s with e' | ⟨u, s₁⟩ <;> rw [hr] at hstep <;> cases hstep
  exact h.error hr

end Step

end Spook
