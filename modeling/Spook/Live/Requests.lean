import Spook.Live.Basic

set_option relaxedAutoImplicit false
set_option autoImplicit false

/-!
# RTSP requests

The handlers of `rtsp.c`, from the point on where the texts of a request have been read: what the
URI, the headers and the digest say is the request here, and of a reply only its length and its code
matter.

## Main definitions

* `Spook.RtspRequest` — a request as its handler sees it.
* `Spook.tcpSendPmsg`, `rtspReply` — the sending of a reply.
* `Spook.rtspHandle` — the handlers.
-/

namespace Spook

/-- The lengths of the head and of the body of a reply. -/
structure Reply where
  head : ℕ
  body : ℕ

/-- What a `Transport` header says of interleaved channels: nothing, something that cannot be read,
or the number of the first channel. -/
inductive Channels
  | any
  | unreadable
  | chan (n : ℤ)

/-- A `Transport` header. A UDP transport has a readable `client_port` or not. -/
inductive Transport
  | tcp (channels : Channels)
  | udp (clientPort : Bool)
  | unknown

/-- An RTSP request. `loc` is the location that `find_rtsp_location` finds, by its place in the
list of locations, and `auth` the result of the digest check. -/
inductive RtspRequest
  | options
  /-- `setSdp` is the value of a function pointer that nothing initialises. -/
  | announce (loc : Option ℕ) (auth : Bool) (setSdp : Bool)
  | describe (loc : Option ℕ) (auth : Bool)
  | setup (loc : Option ℕ) (track : ℤ) (auth : Bool) (transport : Option Transport)
      (session : Option Bytes) (env : SetupEnv)
  | play (session : Option Bytes) (haveStart : Bool)
  | pause (session : Option Bytes)
  | teardown (loc : Option ℕ) (track : ℤ) (session : Option Bytes)
  | unknown

/-- `tcp_send_pmsg` of a message that is `i` bytes long, with a body of `len` bytes to follow. -/
def tcpSendPmsg (c i len : ℕ) : M ℤ := do
  if (← getConn c).availSendBuf < i + len then return -1
  else
    modifyConn c fun C => (C.sendData i).1
    return 0

/-- A reply on the connection `c`, whose body is sent if its head was. -/
def rtspReply (c : ℕ) (r : Reply) : M Unit := do
  if (← tcpSendPmsg c r.head r.body) < 0 then pure ()
  else modifyConn c fun C => (C.sendData r.body).1

/-- A reply with a code, which is the result. -/
def rtspAnswer (c : ℕ) (r : Reply) (code : ℕ) : M (Option ℕ) := do
  rtspReply c r
  return some code

/-- The location number `loc`. -/
def findLocation (loc : Option ℕ) : M (Option RtspLocation) := do
  return loc.bind ((← get).rtspLocList[·]?)

/-- `get_session`. -/
def getRtspSession (id : Option Bytes) : M (Option RtspSession) := do
  match id with
  | none => return none
  | some id => return (← get).rtspSessList.find? (·.id = id)

/-- `new_rtsp_session`. -/
def newRtspSession (p : ℕ) (id : Bytes) : M Unit :=
  modify fun s => { s with rtspSessList := ⟨id, p⟩ :: s.rtspSessList }

/-- `live_get_sdp`: the number of tracks described, or `0`. -/
def liveGetSdp (p : ℕ) : M ℕ := do
  let S ← getSession p
  let s ← get
  let entry := s.entries S.liventry
  let media (i : ℕ) : Option LiveTrack :=
    ((entry.tracklist i).map s.tracks).filter (·.rtp.isSome)
  match entry.tracklist 0 with
  | none => throw .nullDeref
  | some _ =>
    match media 0, media 1 with
    | none, _ => return 0
    | some T, none => return if T.ready then 1 else 0
    | some T, some T' => return if T.ready && T'.ready then 2 else 0

/-- The channels of `rtsp_interleave_setup`, or `none` when it returns `-1`. -/
def pickChannels (ichan : Option (ℕ → Ichan)) : Channels → Option (ℕ × ℕ)
  | .unreadable => none
  | .chan n =>
    if n < 0 ∨ n + 1 ≥ maxInterleaveChannels then none
    else
      match ichan with
      | some ch =>
        if (ch n.toNat).ep.isSome ∨ (ch (n.toNat + 1)).ep.isSome then none
        else some (n.toNat, n.toNat + 1)
      | none => some (n.toNat, n.toNat + 1)
  | .any =>
    match ichan with
    | some ch =>
      ((List.range (maxInterleaveChannels / 2)).find? fun i =>
        (ch (2 * i)).ep.isNone && (ch (2 * i + 1)).ep.isNone).map fun i => (2 * i, 2 * i + 1)
    | none => some (0, 1)

/-- The `rtsp_conn` of a connection, if it has one. -/
def getRtspConn (c : ℕ) : M (Option (ℕ → Ichan)) := do
  match (← getConn c).protoState with
  | .null => return none
  | .rtspConn ichan => return some ichan
  | .stream _ => throw .protoState

/-- `rtsp_interleave_setup` of the endpoint `e` on the connection `c`. -/
def rtspInterleaveSetup (c e : ℕ) (channels : Channels) (env : SetupEnv) : M ℤ := do
  let rc ← getRtspConn c
  match pickChannels rc channels with
  | none => return -1
  | some (rtpChan, rtcpChan) => do
    if rc.isNone && !env.rcAlloc then return -1
    else
      let ichan := rc.getD fun _ => ⟨none, false⟩
      let ichan := Function.update (Function.update ichan rtpChan ⟨some e, false⟩)
        rtcpChan ⟨some e, true⟩
      modifyConn c fun C => { C with protoState := .rtspConn ichan }
      modifyEndpoint e fun E => { E with trans := .inter c rtpChan rtcpChan }
      return 0

/-- `rtsp_udp_setup` of the endpoint `e`, with `connect_udp_endpoint`. -/
def rtspUdpSetup (e : ℕ) (clientPort : Bool) (env : SetupEnv) : M ℤ := do
  if clientPort && env.udpConnect then
    modifyEndpoint e fun E => { E with maxDataSize := 1400, trans := .udp }
    return 0
  else return -1

section Handlers

variable (mc : Bool) (c : ℕ) (r : Reply)

/-- `handle_DESCRIBE`. -/
def handleDescribe (loc : Option ℕ) (auth : Bool) : M (Option ℕ) := do
  match ← findLocation loc with
  | none => rtspAnswer c r 404
  | some l => do
    let p ← liveOpen l.entry
    if l.realm ≠ [] ∧ ¬ auth then
      let code ← rtspAnswer c r 401
      liveTeardown mc p none
      return code
    else
      let code ← rtspAnswer c r (if (← liveGetSdp p) > 0 then 200 else 404)
      liveTeardown mc p none
      return code

/-- `handle_ANNOUNCE`. A pointer `set_sdp` that is not null points nowhere. -/
def handleAnnounce (loc : Option ℕ) (auth setSdp : Bool) : M (Option ℕ) := do
  match ← findLocation loc with
  | none => rtspAnswer c r 404
  | some l => do
    let _ ← liveOpen l.entry
    if l.realm ≠ [] ∧ ¬ auth then rtspAnswer c r 401
    else if setSdp then throw .wildPointer
    else return none

/-- The transport of `handle_SETUP` for the endpoint `e`. -/
def setupTransport (e : ℕ) (t : Transport) (env : SetupEnv) : M ℤ := do
  match (← getEndpoint e).trans, t with
  | .mc, _ => return 0
  | _, .tcp channels => rtspInterleaveSetup c e channels env
  | _, .udp clientPort => rtspUdpSetup e clientPort env
  | _, .unknown => return -1

/-- The second half of `handle_SETUP`, for the session `p` and its track `t`; `isNew` when it has
no `rtsp_session`. -/
def setupTrack (p t : ℕ) (isNew : Bool) (transport : Transport) (env : SetupEnv) :
    M (Option ℕ) := do
  if ((← getSession p).ep t).isSome then rtspAnswer c r 461
  else if (← liveSetup mc p t env) < 0 then
    let code ← rtspAnswer c r 404
    (if isNew then liveTeardown mc p none else pure ())
    return code
  else
    match (← getSession p).ep t with
    | none => throw .nullDeref
    | some e => do
      if (← setupTransport c e transport env) < 0 then
        let code ← rtspAnswer c r 461
        liveTeardown mc p ((← getSession p).ep t)
        return code
      else
        (if isNew then newRtspSession p env.id else pure ())
        rtspAnswer c r 200

/-- `handle_SETUP`. -/
def handleSetup (loc : Option ℕ) (track : ℤ) (auth : Bool) (transport : Option Transport)
    (session : Option Bytes) (env : SetupEnv) : M (Option ℕ) := do
  match ← findLocation loc with
  | none => rtspAnswer c r 404
  | some l =>
    if track < 0 ∨ track ≥ maxTracks then rtspAnswer c r 404
    else if l.realm ≠ [] ∧ ¬ auth then rtspAnswer c r 401
    else
      match transport, session with
      | none, _ => rtspAnswer c r 461
      | some t, none => do
        let p ← liveOpen l.entry
        setupTrack mc c r p track.toNat true t env
      | some t, some id => do
        match ← getRtspSession (some id) with
        | none => rtspAnswer c r 454
        | some rs => setupTrack mc c r rs.sess track.toNat false t env

/-- The loop of `handle_PLAY` that writes the `RTP-Info`, over the tracks that are left. Behind a
full header the code does not read the endpoints any more. -/
def rtpInfo (p : ℕ) : List ℕ → M Unit
  | [] => pure ()
  | i :: is => do
    match (← getSession p).ep i with
    | none => rtpInfo p is
    | some e => do
      let _ ← getEndpoint e
      rtpInfo p is

/-- `handle_PLAY`. -/
def handlePlay (session : Option Bytes) (haveStart : Bool) : M (Option ℕ) := do
  match ← getRtspSession session with
  | none => rtspAnswer c r 454
  | some rs => do
    let start ← livePlay rs.sess haveStart
    (if start.any (0 ≤ ·) then rtpInfo rs.sess (List.range maxTracks) else pure ())
    rtspAnswer c r 200

/-- `handle_PAUSE`, of a session that has no `pause`. -/
def handlePause (session : Option Bytes) : M (Option ℕ) := do
  match ← getRtspSession session with
  | none => rtspAnswer c r 454
  | some _ => rtspAnswer c r 501

/-- `handle_TEARDOWN`. -/
def handleTeardown (loc : Option ℕ) (track : ℤ) (session : Option Bytes) : M (Option ℕ) := do
  match ← findLocation loc with
  | none => rtspAnswer c r 404
  | some _ =>
    if track ≥ maxTracks then rtspAnswer c r 404
    else
      match ← getRtspSession session with
      | none => rtspAnswer c r 454
      | some rs => do
        let S ← getSession rs.sess
        liveTeardown mc rs.sess (if track < 0 then none else S.ep track.toNat)
        rtspAnswer c r 200

/-- `rtsp_handle_msg`: the code of the response, if there is one. -/
def rtspHandle : RtspRequest → M (Option ℕ)
  | .options => rtspAnswer c r 200
  | .announce loc auth setSdp => handleAnnounce c r loc auth setSdp
  | .describe loc auth => handleDescribe mc c r loc auth
  | .setup loc track auth transport session env =>
    handleSetup mc c r loc track auth transport session env
  | .play session haveStart => handlePlay c r session haveStart
  | .pause session => handlePause c r session
  | .teardown loc track session => handleTeardown mc c r loc track session
  | .unknown => rtspAnswer c r 501

end Handlers

end Spook
