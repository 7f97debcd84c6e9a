import Spook.Pmsg.Invariant
import Spook.Tcp.Conn

set_option relaxedAutoImplicit false
set_option autoImplicit false

/-!
# Reading an RTSP connection

The loop of `do_read` on one RTSP connection, with a log of what it hands over. The handlers of
RTSP requests all return `0` and leave the request buffer alone, so that `handle_request` fails
exactly when the buffer is not parsed.

## Main definitions

* `Spook.Message` — what a client sends: requests and `$` packets.
* `Spook.ReadState`, `rtspOps`, `feed` — one `read` of a connection, with the log.

## Main results

* `Spook.feed_eq` — one read of a connection, in one equation.
* `Spook.dispatch_reads_request` — which buffers are dispatched as the requests they are.
-/

namespace Spook

/-- A message of a client: a request or an interleaved packet. -/
inductive Message
  | request (text : Bytes)
  | packet (chan : UInt8) (payload : Bytes)
  deriving DecidableEq

/-- The bytes of a message. -/
def Message.bytes : Message → Bytes
  | .request text => text
  | .packet chan payload =>
    36 :: chan :: UInt8.ofNat (payload.length / 256) :: UInt8.ofNat payload.length :: payload

/-- The request in the buffer: its text up to the empty line. -/
def requestText (buf : Bytes) : Bytes :=
  (cstr buf).take (((strstr CRLFCRLF (cstr buf)).getD 0) + 4)

/-- A connection, or `none` when it was dropped, and what it handed over. -/
structure ReadState where
  conn : Option Conn
  handed : List Message

/-- The reading of one connection. -/
abbrev ReadM := StateT ReadState (Except Fault)

/-- The operations of the loop of `do_read` on an RTSP connection. -/
def rtspOps (blank : Pmsg) : ConnOps ReadM where
  get := do
    match (← MonadState.get).conn with
    | some c => return c
    | none => throw .freedConn
  modify f := do
    match (← MonadState.get).conn with
    | some c => modify fun s => { s with conn := some (f c) }
    | none => throw .freedConn
  handleRequest := do
    match (← MonadState.get).conn with
    | none => throw .freedConn
    | some c =>
      modify fun s => { s with handed := s.handed ++ [.request (requestText c.reqBuf)] }
      match ← readRequest blank c.reqBuf with
      | none => return -1
      -- `rtsp_handle_msg` returns 0 whatever the request is
      | some _ => return 0
  interleaveRecv chan d := modify fun s => { s with handed := s.handed ++ [.packet chan d] }
  drop := modify fun s => { s with conn := none }

/-- One `read` that returns the bytes `d`. A dropped connection is not read. -/
def feed (blank : Pmsg) (s : ReadState) (d : Bytes) : Except Fault ReadState :=
  match s.conn with
  | none => .ok s
  | some _ => (·.2) <$> (readChunk (rtspOps blank) d).run s

section Ops

variable {blank : Pmsg} {c : Conn} {L : List Message}

/-- The connection. -/
@[simp] theorem rtspOps_get :
    (rtspOps blank).get.run ⟨some c, L⟩ = .ok (c, ⟨some c, L⟩) := rfl

/-- A change of the connection. -/
@[simp] theorem rtspOps_modify (f : Conn → Conn) :
    ((rtspOps blank).modify f).run ⟨some c, L⟩ = .ok ((), ⟨some (f c), L⟩) := rfl

/-- The connection is gone. -/
@[simp] theorem rtspOps_drop :
    (rtspOps blank).drop.run ⟨some c, L⟩ = .ok ((), ⟨none, L⟩) := rfl

/-- An interleaved packet is recorded. -/
@[simp] theorem rtspOps_interleaveRecv (chan : UInt8) (d : Bytes) :
    ((rtspOps blank).interleaveRecv chan d).run ⟨some c, L⟩ =
      .ok ((), ⟨some c, L ++ [.packet chan d]⟩) := rfl

/-- What `handle_request` returns. -/
theorem rtspOps_handleRequest :
    (rtspOps blank).handleRequest.run ⟨some c, L⟩ =
      (readRequest blank c.reqBuf).map fun o =>
        (if o.isSome then 0 else -1, ⟨some c, L ++ [.request (requestText c.reqBuf)]⟩) := by
  unfold rtspOps
  rcases h : readRequest blank c.reqBuf with e | _ | v <;>
    simp [h, Except.map, liftM, monadLift, MonadLift.monadLift] <;> rfl

/-- The first call of `parse_client_data` of a round may find the protocol; what the call that
settles the round then does, with the protocol it does it for. -/
def settle (proto : ConnProto) (buf : Bytes) : ConnProto × ClientAction :=
  match clientAction proto buf with
  | .detected p => (p, clientAction p buf)
  | a => (proto, a)

/-- One call of `parse_client_data`. -/
theorem parseClientData_run (blank : Pmsg) (c : Conn) (L : List Message) :
    (parseClientData (rtspOps blank)).run ⟨some c, L⟩ =
      match clientAction c.proto c.reqBuf with
      | .wait => .ok (0, ⟨some c, L⟩)
      | .detected p => .ok (1, ⟨some { c with proto := p }, L⟩)
      | .bad => .ok (-1, ⟨some c, L⟩)
      | .request => (readRequest blank c.reqBuf).map fun o =>
          if o.isSome then
            (0, ⟨some { c with reqBuf := [] }, L ++ [.request (requestText c.reqBuf)]⟩)
          else (-1, ⟨some c, L ++ [.request (requestText c.reqBuf)]⟩)
      | .packet chan d =>
          .ok (0, ⟨some { c with reqBuf := [] }, L ++ [.packet chan d]⟩) := by
  unfold parseClientData
  rw [StateT.run_bind, rtspOps_get]
  simp only [bind, Except.bind]
  rcases ha : clientAction c.proto c.reqBuf with _ | p | _ | _ | ⟨chan, d⟩
  · rfl
  · rfl
  · rfl
  · change ((rtspOps blank).handleRequest >>= _).run _ = _
    rw [StateT.run_bind, rtspOps_handleRequest]
    rcases readRequest blank c.reqBuf with e | _ | v <;> rfl
  · rfl

/-- The protocol is found once. -/
theorem clientAction_ne_detected {proto : ConnProto} (h : proto ≠ .start) (buf : Bytes)
    (p : ConnProto) : clientAction proto buf ≠ .detected p := by
  cases proto with
  | start => exact absurd rfl h
  | rtsp =>
    simp only [clientAction, packetAction, requestAction]
    split_ifs <;> try simp
    split <;> try simp
    split_ifs <;> simp
  | http =>
    simp only [clientAction, requestAction]
    split_ifs <;> simp

/-- The protocol that is found is not the one of a connection that has none. -/
theorem detected_ne_start {proto p : ConnProto} {buf : Bytes}
    (h : clientAction proto buf = .detected p) : p ≠ .start := by
  cases proto with
  | start =>
    simp only [clientAction, detectProto] at h
    split at h <;> try cases h
    split at h <;> try cases h
    split_ifs at h <;> cases h <;> simp
  | rtsp => exact absurd h (clientAction_ne_detected (by simp) buf p)
  | http => exact absurd h (clientAction_ne_detected (by simp) buf p)

/-- What a settled round does to the connection and the log. -/
def settled (blank : Pmsg) (c : Conn) (L : List Message) : Except Fault ReadState :=
  match settle c.proto c.reqBuf with
  | (p, .wait) => .ok ⟨some { c with proto := p }, L⟩
  | (_, .detected _) => .ok ⟨some c, L⟩
  | (_, .bad) => .ok ⟨none, L⟩
  | (p, .request) => (readRequest blank c.reqBuf).map fun o =>
      ⟨if o.isSome then some { c with proto := p, reqBuf := [] } else none,
        L ++ [.request (requestText c.reqBuf)]⟩
  | (p, .packet chan d) =>
      .ok ⟨some { c with proto := p, reqBuf := [] }, L ++ [.packet chan d]⟩

/-- The end of a round. -/
theorem parseLoop_settled :
    (do let ret ← parseLoop (rtspOps blank) 2
        if ret < 0 then (rtspOps blank).drop : ReadM Unit).run ⟨some c, L⟩ =
      (settled blank c L).map fun s => ((), s) := by
  have hloop : ∀ n, parseLoop (rtspOps blank) (n + 1) = (do
      let ret ← parseClientData (rtspOps blank)
      if ret > 0 then parseLoop (rtspOps blank) n else return ret) := fun _ => rfl
  have hrun := parseClientData_run blank c L
  rw [StateT.run_bind, hloop, StateT.run_bind, hrun]
  unfold settled settle
  rcases ha : clientAction c.proto c.reqBuf with _ | p | _ | _ | ⟨chan, d⟩
  · rfl
  · have hrun' := parseClientData_run blank { c with proto := p } L
    change Except.bind (((parseLoop (rtspOps blank) 1)).run ⟨some { c with proto := p }, L⟩) _ = _
    rw [hloop, StateT.run_bind, hrun']
    dsimp only
    have hne := clientAction_ne_detected (detected_ne_start ha) c.reqBuf
    rcases ha' : clientAction p c.reqBuf with _ | p' | _ | _ | ⟨chan, d⟩
    · rfl
    · exact absurd ha' (hne p')
    · rfl
    · rcases readRequest blank c.reqBuf with e | _ | v <;> rfl
    · rfl
  · rfl
  · rcases readRequest blank c.reqBuf with e | _ | v <;> rfl
  · rfl

/-- A `read`, in one equation: the buffer is full, or a group of characters is unfinished, or
`parse_client_data` looks at what was received. -/
theorem feed_receive (d : Bytes) :
    feed blank ⟨some c, L⟩ d =
      if (c.receive d).reqBuf.length = reqBufSize - 1 then .ok ⟨none, L⟩
      else if (c.receive d).base64Count > 0 then .ok ⟨some (c.receive d), L⟩
      else settled blank (c.receive d) L := by
  have hrun : (readChunk (rtspOps blank) d).run ⟨some c, L⟩ =
      if (c.receive d).reqBuf.length = reqBufSize - 1 then .ok ((), ⟨none, L⟩)
      else if (c.receive d).base64Count > 0 then .ok ((), ⟨some (c.receive d), L⟩)
      else (settled blank (c.receive d) L).map fun s => ((), s) := by
    unfold readChunk
    rw [StateT.run_bind, rtspOps_modify, ok_bind, StateT.run_bind, rtspOps_get, ok_bind]
    dsimp only
    split_ifs with hfull h64
    · rfl
    · rfl
    · exact parseLoop_settled
  unfold feed
  dsimp only
  rw [hrun]
  split_ifs
  · rfl
  · rfl
  · rcases settled blank (c.receive d) L with e | s <;> rfl

/-- A `read` on a connection without base64, in one equation. -/
theorem feed_eq (hc : c.base64Count < 0) (d : Bytes) :
    feed blank ⟨some c, L⟩ d =
      if (c.reqBuf ++ d).length = reqBufSize - 1 then .ok ⟨none, L⟩
      else settled blank { c with reqBuf := c.reqBuf ++ d } L := by
  have hrec : c.receive d = { c with reqBuf := c.reqBuf ++ d } := by
    unfold Conn.receive
    rw [if_neg (by omega)]
  have h64 : ¬ (c.receive d).base64Count > 0 := by
    rw [hrec]
    exact fun h => by dsimp only at h; omega
  rw [feed_receive, if_neg h64, hrec]

end Ops

/-! ## Dispatch -/

/-- The first space or slash of the bytes is a space. -/
def StartsAsRequest (b : Bytes) : Prop :=
  ∃ s, s < b.length ∧ b.getD s 0 = SP ∧ ∀ j < s, b.getD j 0 ≠ SP ∧ b.getD j 0 ≠ SLASH

/-- What is parsed is a request with a method and a URI, or a response, and the first space or
slash of the buffer tells which. -/
theorem parseRequest_cases {blank : Pmsg} {b : Bytes} {m : Pmsg}
    (h : parseRequest blank b = .ok (some m)) :
    m.type = .req ∧ (∃ method uri, m.method = .ok method ∧ m.uri = .ok uri) ∧ StartsAsRequest b ∨
      m.type = .resp ∧ ¬ StartsAsRequest b := by
  obtain ⟨r, hp, hr⟩ : ∃ r, (requestMsg blank b).parsePmsg = .ok (m, r) ∧ 0 ≤ r := by
    unfold parseRequest at h
    by_cases h0 : b.headD 0 = 0
    · rw [if_pos h0] at h
      cases h
    · rw [if_neg h0] at h
      rcases hp : (requestMsg blank b).parsePmsg with e | ⟨m', r⟩
      · rw [hp] at h
        cases h
      · rw [hp, ok_bind] at h
        dsimp only at h
        split_ifs at h with hr
        · cases h
        · cases h
          exact ⟨r, rfl, by omega⟩
  have hmem : ∀ j < b.length, (requestMsg blank b).mem j = b.getD j 0 := fun j hj => if_pos hj
  obtain ⟨e, he, hwords⟩ := Pmsg.parsePmsg_words hp hr
  change e < b.length at he
  rcases hwords with ⟨ht, ⟨p, hfst⟩, ⟨q, hsnd⟩, s, v, u, hsv, hvu, hue, hfirst, -⟩ |
    ⟨ht, s, w, d, hsw, hwd, hde, hbefore, hslash, -⟩
  · refine .inl ⟨ht, ⟨_, _, by simp only [Pmsg.method, hfst]; rfl,
      by simp only [Pmsg.uri, hsnd]; rfl⟩, s, by omega, ?_, fun j hj => ?_⟩
    · rw [← hmem s (by omega)]
      exact hfirst.2
    · rw [← hmem j (by omega)]
      exact hfirst.1 j hj
  · refine .inr ⟨ht, ?_⟩
    rintro ⟨t, ht', hsp, hbefore'⟩
    rw [hmem s (by omega)] at hslash
    rcases Nat.lt_trichotomy s t with hlt | rfl | hlt
    · exact (hbefore' s hlt).2 hslash
    · rw [hsp] at hslash
      exact absurd hslash (by decide)
    · rw [← hmem t ht'] at hsp
      exact (hbefore t hlt).1 hsp

/-- **Dispatch.** When the buffer is parsed and `handle_request` goes on to read the method and
the URI, the message is a request whose method and URI were stored if and only if the first
space or slash of the buffer is a space. -/
theorem dispatch_reads_request {blank : Pmsg} {b : Bytes} {m : Pmsg}
    (h : parseRequest blank b = .ok (some m)) :
    (m.type = .req ∧ ∃ method uri, m.method = .ok method ∧ m.uri = .ok uri) ↔
      StartsAsRequest b := by
  rcases parseRequest_cases h with ⟨ht, hread, hstart⟩ | ⟨ht, hstart⟩
  · exact iff_of_true ⟨ht, hread⟩ hstart
  · exact iff_of_false (fun h => by simp [ht] at h) hstart

/-- A message as `new_pmsg` returns it, with zeroed memory. -/
def zeroMsg : Pmsg := Pmsg.newPmsg (fun _ => 0) (fun _ => ⟨none, none⟩) .req 0

/-- What the parser makes of a buffer, without the memory. -/
def parsedType (blank : Pmsg) (b : Bytes) : Option PmsgType :=
  match parseRequest blank b with
  | .ok (some m) => some m.type
  | _ => none

/-- A buffer whose message has a type is parsed. -/
theorem of_parsedType {blank : Pmsg} {b : Bytes} {t : PmsgType}
    (h : parsedType blank b = some t) : ∃ m, parseRequest blank b = .ok (some m) ∧ m.type = t := by
  unfold parsedType at h
  split at h
  · exact ⟨_, ‹_›, by simpa using h⟩
  · simp at h

/-- An `OPTIONS` request is dispatched as a request. -/
theorem dispatch_options :
    ∃ m, parseRequest zeroMsg (str "OPTIONS * RTSP/1.0\r\n\r\n") = .ok (some m) ∧
      m.type = .req ∧ ∃ method uri, m.method = .ok method ∧ m.uri = .ok uri := by
  obtain ⟨m, hm, -⟩ := of_parsedType
    (show parsedType zeroMsg (str "OPTIONS * RTSP/1.0\r\n\r\n") = some .req by decide +kernel)
  exact ⟨m, hm, (dispatch_reads_request hm).2 ⟨7, by decide, by decide, by decide⟩⟩

/-- A response on a new connection: its last word makes the connection an RTSP one, it is parsed
as a response, and the code is followed as the pointer to the method. -/
theorem response_dispatched :
    settle .start (str "A/1 200 RTSP/1.0\r\n\r\n") = (.rtsp, .request) ∧
      (∃ m, parseRequest zeroMsg (str "A/1 200 RTSP/1.0\r\n\r\n") = .ok (some m) ∧
        m.type = .resp) ∧
      feed zeroMsg ⟨some (Conn.accepted 5), []⟩ (str "A/1 200 RTSP/1.0\r\n\r\n") =
        .error .unionMember :=
  ⟨by decide +kernel, of_parsedType (by decide +kernel), of_faultOf (by decide +kernel)⟩

end Spook
