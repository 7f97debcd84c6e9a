import Spook.Pmsg.Parse

set_option relaxedAutoImplicit false
set_option autoImplicit false

/-!
# Client connections

`struct conn` of `rtp.h` and the functions of `tcp.c` that look at one connection only: its
send buffer, what it receives, and what is to be done with the bytes received so far. Sockets,
endpoints and stream sessions are named by numbers.

## Main definitions

* `Spook.Conn` — `struct conn`; the request buffer is the list of its first `req_len` bytes and
  the session cookie is its C string.
* `Spook.ClientAction`, `clientAction` — the case distinction of `parse_client_data`.
* `Spook.unbase64`, `Conn.receive` — the bytes that a `read` adds to the request buffer.
* `Spook.ConnOps`, `parseClientData`, `readChunk` — one round of the loop of `do_read`, over any
  implementation of the operations it calls.
-/

namespace Spook

/-- `sizeof( req_buf )`, `sizeof( send_buf )`, `sizeof( http_tunnel_cookie )` and
`MAX_INTERLEAVE_CHANNELS`. -/
def reqBufSize : ℕ := 4096
@[inherit_doc reqBufSize] def sendBufSize : ℕ := 65536
@[inherit_doc reqBufSize] def cookieSize : ℕ := 128
@[inherit_doc reqBufSize] def maxInterleaveChannels : ℕ := 8

/-- The `CONN_PROTO` constants. -/
inductive ConnProto
  | start
  | rtsp
  | http
  deriving DecidableEq, Repr

/-- One entry of `ichan`: an endpoint or the null pointer, and whether it is its RTCP channel. -/
structure Ichan where
  ep : Option ℕ
  rtcp : Bool

/-- What `proto_state` points to. -/
inductive ProtoState
  /-- The null pointer. -/
  | null
  /-- The `http_stream_session` of this name. -/
  | stream (p : ℕ)
  /-- A `rtsp_conn` with these channels. -/
  | rtspConn (ichan : ℕ → Ichan)

/-- `struct conn`. A file descriptor of `none` is a negative one. -/
structure Conn where
  fd : Option ℕ
  secondFd : Option ℕ
  proto : ConnProto
  httpTunnelCookie : Bytes
  base64Count : ℤ
  reqBuf : Bytes
  sendBufR : ℕ
  sendBufW : ℕ
  dropAfter : Bool
  protoState : ProtoState

namespace Conn

/-- The connection that `do_accept` makes of a socket. -/
def accepted (fd : ℕ) : Conn :=
  { fd := some fd, secondFd := none, proto := .start, httpTunnelCookie := [], base64Count := -1,
    reqBuf := [], sendBufR := 0, sendBufW := 0, dropAfter := false, protoState := .null }

/-- `avail_send_buf`. -/
def availSendBuf (c : Conn) : ℕ :=
  if c.sendBufR > c.sendBufW then c.sendBufR - c.sendBufW - 1
  else sendBufSize - c.sendBufW + c.sendBufR - 1

/-- `send_data` of `len` bytes: the connection and the value returned, `1` when the buffer is
full. -/
def sendData (c : Conn) (len : ℕ) : Conn × ℤ :=
  if c.availSendBuf < len then (c, 1)
  else ({ c with sendBufW := (c.sendBufW + len) % sendBufSize }, 0)

end Conn

/-! ## What is received -/

/-- The table `base64`. -/
def base64 (b : UInt8) : Option ℕ :=
  if 65 ≤ b ∧ b ≤ 90 then some (b.toNat - 65)
  else if 97 ≤ b ∧ b ≤ 122 then some (b.toNat - 71)
  else if 48 ≤ b ∧ b ≤ 57 then some (b.toNat + 4)
  else if b = 43 then some 62
  else if b = 47 then some 63
  else if b = 61 then some 0
  else none

/-- The bytes that four characters of the encoding stand for. -/
def unbase64Group (e₀ e₁ e₂ e₃ : UInt8) : Bytes :=
  let v (e : UInt8) : ℕ := (base64 e).getD 0
  let out := [UInt8.ofNat (v e₀ * 4 + v e₁ / 16), UInt8.ofNat (v e₁ * 16 + v e₂ / 4),
    UInt8.ofNat (v e₂ * 64 + v e₃)]
  if e₃ = 61 then (if e₂ = 61 then out.take 1 else out.take 2) else out

/-- `unbase64`: the decoded bytes, with the characters of an unfinished group behind them, and
how many of these there are. The last argument holds the characters of the group so far. -/
def unbase64 : Bytes → Bytes → Bytes × ℕ
  | [], enc => (enc, enc.length)
  | b :: d, enc =>
    match base64 b, enc with
    | none, _ => unbase64 d enc
    | some _, [e₀, e₁, e₂] =>
      let (out, n) := unbase64 d []
      (unbase64Group e₀ e₁ e₂ b ++ out, n)
    | some _, _ => unbase64 d (enc ++ [b])

/-- What a `read` that returns the bytes `d` does to the request buffer. -/
def Conn.receive (c : Conn) (d : Bytes) : Conn :=
  if 0 ≤ c.base64Count then
    let k := c.reqBuf.length - c.base64Count.toNat
    let (out, n) := unbase64 (c.reqBuf.drop k ++ d) []
    { c with reqBuf := c.reqBuf.take k ++ out, base64Count := n }
  else { c with reqBuf := c.reqBuf ++ d }

/-! ## What is to be done with it -/

/-- The ends of a line and of a request. -/
def CRLFCRLF : Bytes := [CR, LF, CR, LF]

/-- `GET_16`. -/
def get16 (hi lo : UInt8) : ℕ := hi.toNat * 256 + lo.toNat

/-- What `parse_client_data` does. -/
inductive ClientAction
  /-- Nothing: more bytes are needed. -/
  | wait
  /-- It sets the protocol and returns `1`. -/
  | detected (p : ConnProto)
  /-- It returns `-1`. -/
  | bad
  /-- It calls `handle_request`. -/
  | request
  /-- It calls `interleave_recv` with a channel and the data of a packet. -/
  | packet (chan : UInt8) (d : Bytes)
  deriving DecidableEq

/-- The protocol that the first line of a connection names with its last word. -/
def detectProto (line : Bytes) : ClientAction :=
  match strrchr SP line with
  | none => .bad
  | some j =>
    if strnEq (line.drop (j + 1)) (str "HTTP/") 5 then .detected .http
    else if strnEq (line.drop (j + 1)) (str "RTSP/") 5 then .detected .rtsp
    else .bad

/-- The packet that starts with `$` at the beginning of the buffer. -/
def packetAction : Bytes → ClientAction
  | _ :: chan :: hi :: lo :: d =>
    if d.length < get16 hi lo then .wait else .packet chan (d.take (get16 hi lo))
  | _ => .wait

/-- Whether a request in the buffer is complete. -/
def requestAction (buf : Bytes) : ClientAction :=
  if strstr CRLFCRLF (cstr buf) = none then .wait else .request

/-- The case distinction of `parse_client_data`. -/
def clientAction (proto : ConnProto) (buf : Bytes) : ClientAction :=
  match proto with
  | .start =>
    match strchr LF (cstr buf) with
    | none => .wait
    | some k => detectProto ((cstr buf).take k)
  | .rtsp =>
    if buf.length < 4 then .wait
    else if buf.head? = some 36 then packetAction buf
    else requestAction buf
  | .http => requestAction buf

/-- The operations on one connection that the loop of `do_read` uses. -/
structure ConnOps (m : Type → Type) where
  /-- Look at the connection. -/
  get : m Conn
  /-- Change the connection. -/
  modify : (Conn → Conn) → m Unit
  /-- `handle_request`. -/
  handleRequest : m ℤ
  /-- `interleave_recv`. -/
  interleaveRecv : UInt8 → Bytes → m Unit
  /-- `drop_conn`. -/
  drop : m Unit

section Read

variable {m : Type → Type} [Monad m] (K : ConnOps m)

/-- `parse_client_data`. -/
def parseClientData : m ℤ := do
  let c ← K.get
  match clientAction c.proto c.reqBuf with
  | .wait => return 0
  | .detected p =>
    K.modify fun c => { c with proto := p }
    return 1
  | .bad => return -1
  | .request =>
    let ret ← K.handleRequest
    if ret < 0 then return -1
    -- should really just delete the request from the buffer, not the entire buffer
    K.modify fun c => { c with reqBuf := [] }
    return 0
  | .packet chan d =>
    K.interleaveRecv chan d
    -- should really just delete the packet from the buffer, not the entire buffer
    K.modify fun c => { c with reqBuf := [] }
    return 0

/-- `while( ( ret = parse_client_data( c ) ) > 0 )`, at most `n` times. Only the detection of the
protocol returns `1`, so two times are enough. -/
def parseLoop : ℕ → m ℤ
  | 0 => return 0
  | n + 1 => do
    let ret ← parseClientData K
    if ret > 0 then parseLoop n else return ret

/-- One round of the loop of `do_read`, whose `read` returns the bytes `d`. -/
def readChunk (d : Bytes) : m Unit := do
  K.modify fun c => c.receive d
  let c ← K.get
  -- malformed request from client; exceeded maximum size
  if c.reqBuf.length = reqBufSize - 1 then K.drop
  else if c.base64Count > 0 then return ()
  else
    let ret ← parseLoop K 2
    if ret < 0 then K.drop

end Read

/-! ## The request that is handed over -/

/-- The message that `handle_request` makes of the buffer `b`. What `new_pmsg` returned is
`blank`, so the bytes behind the buffer are foreign. -/
def requestMsg (blank : Pmsg) (b : Bytes) : Pmsg :=
  { blank with
    mem := fun i => if i < b.length then b.getD i 0 else blank.mem i
    maxLen := b.length, msgLen := b.length, headerCount := 0 }

namespace Pmsg

/-- `sl.req.method`. -/
def method (m : Pmsg) : Except Fault Bytes :=
  match m.slFst with
  | .method p => .ok (cstrAt m.mem p m.msgLen)
  | _ => .error .unionMember

/-- `sl.req.uri`. -/
def uri (m : Pmsg) : Except Fault Bytes :=
  match m.slSnd with
  | .uri p => .ok (cstrAt m.mem p m.msgLen)
  | _ => .error .unionMember

end Pmsg

/-- The first half of `handle_request`: the message parsed from the buffer, or `none` for
`return -1`. -/
def parseRequest (blank : Pmsg) (b : Bytes) : Except Fault (Option Pmsg) := do
  if b.headD 0 = 0 then return none
  let (m, ret) ← (requestMsg blank b).parsePmsg
  if ret < 0 then return none
  return some m

/-- `handle_request` up to its `switch`: the message with its method and URI, or `none` for
`return -1`. -/
def readRequest (blank : Pmsg) (b : Bytes) : Except Fault (Option (Pmsg × Bytes × Bytes)) := do
  match ← parseRequest blank b with
  | none => return none
  | some m =>
    let method ← m.method
    let uri ← m.uri
    return some (m, method, uri)

end Spook
