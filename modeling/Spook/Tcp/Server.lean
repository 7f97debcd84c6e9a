import Spook.Http
import Spook.Live.Requests
import Spook.Tcp.Reading

set_option relaxedAutoImplicit false
set_option autoImplicit false

/-!
# The TCP server

`tcp.c` over all connections: accepting, reading, writing and dropping them, the dispatch of
requests, and the tunnels of RTSP over HTTP.

The texts of RTSP requests are read by a function that is an argument of a `read`, so that what is
proved holds for every reading of them. The texts of HTTP requests are read as the source does.

## Main definitions

* `Spook.dropConn`, `acceptConn`, `connWrite` — connections.
* `Spook.handleQTTunnel`, `handleRequest` — requests.
* `Spook.serverMachine` — the server, event by event.
-/

namespace Spook

section Multicast

variable (mc : Bool)

/-- The `switch` of `drop_conn`. -/
def disconnectProto (c : ℕ) : ProtoState → ConnProto → M Unit
  | .null, _ => pure ()
  | _, .http => httpConnDisconnect c
  | _, .rtsp => rtspConnDisconnect mc c
  | _, .start => pure ()

/-- `drop_conn`. -/
def dropConn (c : ℕ) : M Unit := do
  let C ← getConn c
  disconnectProto mc c C.protoState C.proto
  modify fun s => { s with conns := Function.update s.conns c none, connList := s.connList.erase c }

/-- `do_accept`. -/
def acceptConn (fd : ℕ) : M Unit := do
  let c ← fresh
  modify fun s => { s with
    conns := Function.update s.conns c (some (.accepted fd)), connList := c :: s.connList }

/-- What a `write` does: some bytes are written, or it fails. -/
inductive WriteResult
  | sent (n : ℕ)
  | failed

/-- How much is left to write before the buffer wraps. -/
def Conn.writeLen (C : Conn) : ℕ :=
  if C.sendBufW < C.sendBufR then sendBufSize - C.sendBufR else C.sendBufW - C.sendBufR

/-- `conn_write`, whose calls of `write` end as given; the one behind the last would block. -/
def connWrite (c : ℕ) : List WriteResult → M Unit
  | [] => do
    let C ← getConn c
    if C.sendBufR = C.sendBufW ∧ C.dropAfter then dropConn mc c
  | r :: rs => do
    let C ← getConn c
    if C.sendBufR = C.sendBufW then
      if C.dropAfter then dropConn mc c
    else
      match r with
      | .failed => dropConn mc c
      | .sent n => do
        let sent := min n C.writeLen
        if sent = 0 then dropConn mc c
        else
          modifyConn c fun C => { C with sendBufR := (C.sendBufR + sent) % sendBufSize }
          connWrite c rs

/-! ## Requests -/

/-- `handle_QT_tunnel`. -/
def handleQTTunnel (c : ℕ) (m : Pmsg) (post : Bool) : M ℤ := do
  let refuse (reason : String) : M Unit := do
    let _ ← sendData c (str ("HTTP/1.0 400 " ++ reason ++ "\r\nConnection: close\r\n" ++
      "Content-Type: text/html\r\n\r\n<html><body><p>Broken RTSP/HTTP tunnel request" ++
      "</p></body></html>\n"))
    modifyConn c fun C => { C with dropAfter := true }
  match ← lift (m.getHeader (str "x-sessioncookie")) with
  | none => do
    refuse "Missing session cookie"
    return 0
  | some t =>
    if t.length + 1 > cookieSize then
      refuse "Missing session cookie"
      return 0
    else if !post then
      modifyConn c fun C => { C with httpTunnelCookie := t }
      let _ ← sendData c (str ("HTTP/1.0 200 OK\r\nConnection: close\r\n" ++
        "Cache-Control: no-cache\r\nPragma: no-cache\r\n" ++
        "Content-Type: application/x-rtsp-tunnelled\r\n\r\n"))
      modifyConn c fun C => { C with proto := .rtsp, base64Count := 0 }
      record (.tunnelGet c t)
      return 0
    else
      let s ← get
      match s.connList.find? fun cg => (s.conns cg).any (·.httpTunnelCookie = t) with
      | none => do
        refuse "Unknown session cookie"
        return 0
      | some cg => do
        let fd := (← getConn c).fd
        modifyConn cg fun C => { C with secondFd := fd }
        modifyConn c fun C => { C with fd := none }
        record (.tunnelPost cg c t)
        return 1

/-- The test of `handle_GET` and `handle_POST` for a tunnel, by the header they look at. -/
def isTunnelled (m : Pmsg) (header : String) : Except Fault Bool := do
  match ← m.getHeader (str header) with
  | none => return false
  | some t => return strCaseEq t (str "application/x-rtsp-tunnelled")

/-- `handle_GET`. -/
def handleGET (c : ℕ) (m : Pmsg) (method uri : Bytes) : M ℤ := do
  if ← lift (isTunnelled m "Accept") then
    if (← handleQTTunnel c m false) ≠ 0 then return -1
    return 0
  else
    httpHandleMsg c method uri
    return 0

/-- `handle_POST`. -/
def handlePOST (c : ℕ) (m : Pmsg) (method uri : Bytes) : M ℤ := do
  if ← lift (isTunnelled m "Content-Type") then
    if (← handleQTTunnel c m true) ≠ 0 then return -1
    return 0
  else
    httpHandleMsg c method uri
    return 0

/-- What a `read` gets from the outside: the memory of a new message, how the text of an RTSP
request is read, the length of the reply to it, and the time. -/
structure ReadEnv where
  blank : Pmsg
  rtsp : Pmsg → Bytes → Bytes → RtspRequest
  reply : Reply
  now : TimeVal

/-- `handle_unknown`. -/
def handleUnknown (c : ℕ) (r : Reply) : M Unit := do
  modifyConn c fun C => { C with dropAfter := true }
  rtspReply c r

/-- `handle_request`. -/
def handleRequest (c : ℕ) (env : ReadEnv) : M ℤ := do
  match ← lift (readRequest env.blank (← getConn c).reqBuf) with
  | none => return -1
  | some (m, method, uri) =>
    match (← getConn c).proto with
    | .http =>
      if strCaseEq method (str "GET") then handleGET c m method uri
      else if strCaseEq method (str "POST") then handlePOST c m method uri
      else
        httpHandleMsg c method uri
        return 0
    | .rtsp => do
      let _ ← rtspHandle mc c env.reply (env.rtsp m method uri)
      return 0
    | .start => do
      handleUnknown c env.reply
      return 0

/-- What the loop of `do_read` does on the connection `c`. -/
def connOps (c : ℕ) (env : ReadEnv) : ConnOps M where
  get := getConn c
  modify := modifyConn c
  handleRequest := handleRequest mc c env
  interleaveRecv chan d := interleaveRecv c chan d env.now
  drop := dropConn mc c

/-! ## Events -/

/-- An event of the server. -/
inductive ServerAct
  /-- A client connects. -/
  | accept (fd : ℕ)
  /-- A `read` on one of the sockets of a connection returns bytes. -/
  | read (c : ℕ) (d : Bytes) (env : ReadEnv)
  /-- The first socket of a connection is closed, or cannot be read. -/
  | close (c : ℕ)
  /-- The second socket of a connection is closed, or cannot be read. -/
  | closeSecond (c : ℕ)
  /-- The socket of a connection can be written. -/
  | write (c : ℕ) (rs : List WriteResult)
  /-- A location gets a JPEG frame. -/
  | jpeg (l : ℕ) (d : Bytes)
  /-- The stream of a live track has a frame. -/
  | frame (t : ℕ) (key : Bool) (packets : ℕ → List ℕ) (frameOk : Bool)
  /-- The delivery of a frame goes on. -/
  | deliver (w : Sending)
  /-- The RTCP timer of an endpoint fires. -/
  | timer (e : ℕ) (now : TimeVal) (ret : ℤ)
  /-- A UDP socket of an endpoint can be read. -/
  | udp (e : ℕ) (r : UdpRead) (now : TimeVal)

/-- Whether a connection is registered. -/
def Server.hasConn (s : Server) (c : ℕ) : Prop := (s.conns c).isSome

instance (s : Server) (c : ℕ) : Decidable (s.hasConn c) := inferInstanceAs (Decidable (_ = true))

/-- What an event does. An event whose connection or endpoint is not registered does not happen. -/
def serverAct : ServerAct → M Unit
  | .accept fd => acceptConn fd
  | .read c d env => do
    if (← get).hasConn c then readChunk (connOps mc c env) d
  | .close c => do
    if (← get).hasConn c then dropConn mc c
  | .closeSecond c => do
    if (← get).hasConn c then modifyConn c fun C => { C with secondFd := none }
  | .write c rs => do
    if (← get).hasConn c then connWrite mc c rs
  | .jpeg l d => jpegNextFrame l d
  | .frame t key packets frameOk => deliverToTrack t key packets frameOk
  | .deliver w => continueFrame mc w
  | .timer e now ret => do
    match (← get).endpoints e with
    | some E => if E.rtcpSendEvent then rtcpFire mc e now ret
    | none => pure ()
  | .udp e r now => do
    match (← get).endpoints e with
    | some E => if E.trans = .udp ∨ E.trans = .mc then udpRead mc e r now
    | none => pure ()

/-- While a frame is being delivered nothing else happens. -/
def Server.enabled (s : Server) : ServerAct → Bool
  | .deliver _ => true
  | _ => s.delivery.isNone

/-- One event. -/
def serverStep (s : Server) (a : ServerAct) : Except Fault (Server × List Event) :=
  if s.enabled a then ((serverAct mc a).run s).map fun p => (p.2, p.2.log.drop s.log.length)
  else .ok (s, [])

end Multicast

/-- A server that nobody is connected to: any locations and tracks. -/
structure Server.Idle (s : Server) : Prop where
  conns : ∀ c, s.conns c = none
  connList : s.connList = []
  httpLocs : ∀ l, (s.httpLocs l).sessList = []
  streams : ∀ p, s.streams p = none
  rtspSessList : s.rtspSessList = []
  entries : ∀ n, (s.entries n).sessList = []
  sessions : ∀ p, s.sessions p = none
  sessList : s.sessList = []
  endpoints : ∀ e, s.endpoints e = none
  delivery : s.delivery = none
  log : s.log = []

/-- A server without locations and tracks. -/
def bareServer : Server where
  conns _ := none
  connList := []
  httpLocs _ :=
    { path := fun _ => 0, frame := none, lengthWithJfif := 0, sessList := [], streaming := false }
  httpLocList := []
  streams _ := none
  rtspLocList := []
  rtspSessList := []
  tracks _ := { entrylist := [], srcstream := none, ready := false, rtp := none, szName := [] }
  entries _ := { sessList := [], tracklist := fun _ => none }
  sessions _ := none
  sessList := []
  endpoints _ := none
  delivery := none
  next := 0
  log := []

/-- The server. -/
def serverMachine (mc : Bool) : Machine Server ServerAct Event Fault where
  Init := Server.Idle
  step := serverStep mc

end Spook
