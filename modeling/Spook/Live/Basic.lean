import Spook.Server

set_option relaxedAutoImplicit false
set_option autoImplicit false

/-!
# Live sessions

The functions of `live.c`, `rtp.c`, `rtsp.c` and `session.c` that make, play, feed and tear down
the sessions of the live tracks. `mc` is `g_bMulticastMode`, which does not change while the server
runs.

What the outside decides is an argument: which packets a socket accepts, the time, whether an
allocation succeeds, and the value of the call of `rtcp_send` that returns none.

## Main definitions

* `Spook.liveOpen`, `liveSetup`, `livePlay`, `liveTeardown` — the functions of a live session.
* `Spook.rtcpSend`, `sendRtpPacket`, `rtpSend` — what sends to an endpoint.
* `Spook.nextLiveFrame`, `continueFrame` — the delivery of a frame to all endpoints of a track,
  one session at a time.
* `Spook.rtspConnDisconnect`, `interleaveRecv` — what a connection does to its endpoints.
-/

namespace Spook

/-! ## Tracks -/

/-- `set_waiting`, as far as the flag goes. -/
def setWaiting (t : ℕ) (waiting : Bool) : M Unit := do
  match ((← get).tracks t).srcstream with
  | none => throw .nullDeref
  | some _ => modifyTrack t fun T => { T with srcstream := some waiting }

/-- Whether a session of the list `l` is playing with an endpoint on its track `j`. -/
def sessionsPlay (j : ℕ) (l : List ℕ) : M Bool :=
  l.anyM fun ls => do
    let S ← getSession ls
    return S.playing && (S.ep j).isSome

/-- The loops of `track_check_running1`: whether some endpoint of the track is playing. -/
def trackPlays (t : ℕ) : M Bool := do
  ((← get).tracks t).entrylist.anyM fun n => do
    let entry := (← get).entries n
    (List.range maxTracks).anyM fun j => do
      if entry.tracklist j = some t then sessionsPlay j entry.sessList else return false

/-! ## The end of an endpoint -/

/-- `interleave_disconnect`. -/
def interleaveDisconnect (c chan : ℕ) : M Unit := do
  match (← getConn c).protoState with
  | .null => throw .nullDeref
  | .stream _ => throw .protoState
  | .rtspConn ichan =>
    modifyConn c fun C => { C with
      protoState := .rtspConn (Function.update ichan chan { ichan chan with ep := none }) }

/-- The `switch` of `del_rtp_endpoint`. -/
def disconnectTrans : Trans → M Unit
  | .inter c rtpChan rtcpChan => do
    interleaveDisconnect c rtpChan
    interleaveDisconnect c rtcpChan
  | .none | .udp | .mc => pure ()

/-- `del_rtp_endpoint`. -/
def delRtpEndpoint (e : ℕ) : M Unit := do
  disconnectTrans (← getEndpoint e).trans
  modify fun s => { s with endpoints := Function.update s.endpoints e none }

/-- `del_session` with `rtsp_session_close`. -/
def delSession (p : ℕ) : M Unit := do
  let _ ← getSession p
  modify fun s => { s with
    sessList := s.sessList.erase p
    rtspSessList := s.rtspSessList.filter fun rs => rs.sess ≠ p
    sessions := Function.update s.sessions p none }

section Multicast

variable (mc : Bool)

/-- `track_check_running1`. -/
def trackCheckRunning1 (t : ℕ) : M Unit := do
  if ← trackPlays t then return ()
  setWaiting t false
  if mc then
    match ((← get).tracks t).rtp with
    | some (.endpoint e) => do
      delRtpEndpoint e
      modifyTrack t fun T => { T with rtp := some .null }
    | some .wild => throw .wildPointer
    | some .null | none => throw .nullDeref

/-- The loop of `live_teardown` over the tracks that are left: how many endpoints remain. -/
def teardownTracks (p : ℕ) (ep : Option ℕ) : List ℕ → M ℕ
  | [] => return 0
  | i :: is => do
    let S ← getSession p
    match ((← get).entries S.liventry).tracklist i with
    | none => return 0
    | some t =>
      if ((← get).tracks t).rtp = none then return 0
      match S.ep i with
      | none => teardownTracks p ep is
      | some e =>
        if ep = none ∨ ep = some e then
          (if mc then pure () else delRtpEndpoint e)
          modifySession p fun S => { S with ep := Function.update S.ep i none }
          trackCheckRunning1 mc t
          teardownTracks p ep is
        else
          let remaining ← teardownTracks p ep is
          return remaining + 1

/-- `live_teardown`. -/
def liveTeardown (p : ℕ) (ep : Option ℕ) : M Unit := do
  let remaining ← teardownTracks mc p ep (List.range maxTracks)
  if remaining = 0 then
    let S ← getSession p
    modifyEntry S.liventry fun n => { n with sessList := n.sessList.erase p }
    delSession p

/-! ## The start of a session -/

/-- `live_open`. -/
def liveOpen (n : ℕ) : M ℕ := do
  let p ← fresh
  modify fun s => { s with
    sessions := Function.update s.sessions p
      (some { liventry := n, playing := false, ep := fun _ => none })
    sessList := p :: s.sessList }
  modifyEntry n fun entry => { entry with sessList := p :: entry.sessList }
  return p

/-- What a SETUP gets from the outside: the time, the random numbers, and whether its allocations
and its sockets succeed. -/
structure SetupEnv where
  now : TimeVal
  seqnum : ℕ
  id : Bytes
  epAlloc : Bool
  rcAlloc : Bool
  udpConnect : Bool
  mudpConnect : Bool

/-- `new_rtp_endpoint`, whose `bRecord` is always `0` here. -/
def newRtpEndpoint (env : SetupEnv) : M (Option ℕ) := do
  if env.epAlloc then
    let e ← fresh
    let E : Endpoint :=
      { session := none, maxDataSize := 8192, seqnum := env.seqnum % 65536, packetCount := 0,
        octetCount := 0, rtcpSendEvent := false, forceRtcp := true, lastRtcpRecv := env.now,
        trans := .none, bLostKeyFrame := true, ex := false }
    modify fun s => { s with endpoints := Function.update s.endpoints e (some E) }
    return some e
  else return none

/-- `live_setup`. -/
def liveSetup (p t : ℕ) (env : SetupEnv) : M ℤ := do
  let S ← getSession p
  match ((← get).entries S.liventry).tracklist t with
  | none => return -1
  | some k =>
    match ((← get).tracks k).rtp with
    | none => return -1
    | some epMc =>
      if mc then
        match epMc with
        | .wild => throw .wildPointer
        | .endpoint e => do
          modifySession p fun S => { S with ep := Function.update S.ep t (some e) }
          modifyEndpoint e fun E => { E with session := none }
          return 0
        | .null => do
          match ← newRtpEndpoint env with
          | none => return 1
          | some e => do
            modifyTrack k fun T => { T with rtp := some (.endpoint e) }
            (if env.mudpConnect then
              modifyEndpoint e fun E => { E with maxDataSize := 1400, trans := .mc }
            else pure ())
            modifySession p fun S => { S with ep := Function.update S.ep t (some e) }
            return 0
      else
        match ← newRtpEndpoint env with
        | none => throw .nullDeref
        | some e => do
          modifySession p fun S => { S with ep := Function.update S.ep t (some e) }
          modifyEndpoint e fun E => { E with session := some p }
          return 0

/-- The loop of `live_play` over the tracks that are left. What `start` points to is passed along,
and `none` for the null pointer. -/
def playTracks (p : ℕ) (start : Option ℤ) : List ℕ → M (Option ℤ)
  | [] => return start
  | i :: is => do
    let S ← getSession p
    match ((← get).entries S.liventry).tracklist i with
    | none => return start
    | some t =>
      if ((← get).tracks t).rtp = none then return start
      match S.ep i with
      | none => playTracks p start is
      | some e => do
        setWaiting t true
        if (← getEndpoint e).packetCount ≠ 0 then
          match start with
          | none => throw .nullDeref
          | some _ => playTracks p (some 0) is
        else playTracks p start is

/-- `live_play`: what `start` points to afterwards. -/
def livePlay (p : ℕ) (haveStart : Bool) : M (Option ℤ) := do
  modifySession p fun S => { S with playing := true }
  playTracks p (if haveStart then some (-1) else none) (List.range maxTracks)

/-! ## Sending -/

/-- What sending to one endpoint gets from the outside: `g_bStopSend`, whether the socket accepts
the packet of each number, the time, and the value of an `rtcp_send` that returns none. -/
structure Sending where
  stopSend : Bool
  sendmsgOk : ℕ → Bool
  now : TimeVal
  rtcpRet : ℤ

/-- The call of `teardown` of the session of an endpoint, if it has one. -/
def teardownEndpoint (E : Endpoint) (e : ℕ) : M Unit :=
  match E.session with
  | some p => liveTeardown mc p (some e)
  | none => pure ()

/-- `rtcp_send`. Behind the time-out check the function returns without a value. -/
def rtcpSend (e : ℕ) (now : TimeVal) (ret : ℤ) : M ℤ := do
  modifyEndpoint e fun E => { E with forceRtcp := false }
  let E ← getEndpoint e
  let sec := now.sec - E.lastRtcpRecv.sec
  let usec := now.usec - E.lastRtcpRecv.usec
  if E.trans = .udp ∧ (sec > 1 ∨ sec = 1 ∧ usec > 200000) ∧ sec > 15 then
    teardownEndpoint mc E e
    return -1
  else return ret

/-- `interleave_send` of buffers of `len` bytes in all. -/
def interleaveSend (c len : ℕ) : M ℤ := do
  if (← getConn c).availSendBuf < len + 4 then return 1
  modifyConn c fun C => (C.sendData 4).1
  modifyConn c fun C => (C.sendData len).1
  return 0

/-- The `switch` of `send_rtp_packet`: what it returns early, if it does, and whether the
transport accepted the packet. -/
def transportPacket (e len : ℕ) (sendmsgOk : Bool) : M (Option ℤ × Bool) := do
  let E ← getEndpoint e
  match E.trans with
  | .udp | .mc => if sendmsgOk then return (none, true) else return (some (-1), false)
  | .inter c _ _ => do
    let ret ← interleaveSend c (12 + len)
    if ret < 0 then
      let p ← found E.session .nullDeref
      liveTeardown mc p (some e)
      return (some (-1), false)
    else return (none, ret = 0)
  | .none => return (none, false)

/-- The next sequence number. -/
def nextSeqnum (e : ℕ) : M Unit :=
  modifyEndpoint e fun E => { E with seqnum := (E.seqnum + 1) % 65536 }

/-- `send_rtp_packet` of `len` bytes behind the header. Besides its value, whether the transport
accepted the packet, which no caller sees. -/
def sendRtpPacket (e len : ℕ) (sendmsgOk : Bool) (w : Sending) : M (ℤ × Bool) := do
  let (early, accepted) ← transportPacket mc e len sendmsgOk
  match early with
  | some ret => return (ret, accepted)
  | none => do
    modifyEndpoint e fun E => { E with
      octetCount := E.octetCount + .ofNat len, packetCount := E.packetCount + 1 }
    if (← getEndpoint e).forceRtcp then
      let ret ← rtcpSend mc e w.now w.rtcpRet
      if ret < 0 then return (-1, accepted)
      else
        modifyEndpoint e fun E => { E with rtcpSendEvent := true }
        nextSeqnum e
        return (0, accepted)
    else
      nextSeqnum e
      return (0, accepted)

/-- `send` of a media, which sends its packets in order until one fails: its value, and what the
transport did with the packets. The packets that are left have the numbers from `k` on. -/
def rtpSend (e : ℕ) (w : Sending) : ℕ → List ℕ → M (ℤ × List Bool)
  | _, [] => return (0, [])
  | k, len :: packets => do
    let (ret, accepted) ← sendRtpPacket mc e len (w.sendmsgOk k) w
    if ret < 0 then return (-1, [accepted])
    else
      let (ret, outcomes) ← rtpSend e w (k + 1) packets
      return (ret, accepted :: outcomes)

/-! ## The delivery of a frame -/

/-- The first frame of a track makes it ready. -/
def makeReady (t : ℕ) : M Unit := do
  if ((← get).tracks t).ready then pure ()
  else
    setWaiting t false
    modifyTrack t fun T => { T with ready := true }

/-- `next_live_frame` up to its loop. `frameOk` is what the media makes of the frame. -/
def nextLiveFrame (t : ℕ) (key : Bool) (packets : ℕ → List ℕ) (frameOk : Bool) : M Unit := do
  let _ ← found ((← get).tracks t).rtp .nullDeref
  if frameOk then
    makeReady t
    modify fun s => { s with delivery := some { track := t, key, packets, i := 0, rest := none } }
  else pure ()

/-- What `deliver_frame_to_stream` does about the destination of a track. -/
def deliverToTrack (t : ℕ) (key : Bool) (packets : ℕ → List ℕ) (frameOk : Bool) : M Unit := do
  if ((← get).tracks t).srcstream = some true then nextLiveFrame t key packets frameOk
  else pure ()

/-- The loop of `next_live_frame` over the tracks of a session: the endpoint it stops at, if any.
A frame that is to be skipped for one endpoint leads on to the next track. -/
def selectEndpoint (d : Delivery) (entry : LiveEntry) (S : Session) : List ℕ → M (Option ℕ)
  | [] => return none
  | j :: js => do
    if entry.tracklist j = some d.track then
      match S.ep j with
      | none => return none
      | some e =>
        if S.playing then
          if (← getEndpoint e).bLostKeyFrame && !d.key then do
            record (.skipped e)
            selectEndpoint d entry S js
          else return some e
        else return none
    else selectEndpoint d entry S js

/-- What `next_live_frame` does for an endpoint. -/
def offerFrame (d : Delivery) (e : ℕ) (w : Sending) : M Unit := do
  let packets := d.packets (← getEndpoint e).maxDataSize
  if w.stopSend then
    if d.key then
      record (.keyFrame e packets.length [])
      modifyEndpoint e fun E => { E with bLostKeyFrame := true }
    else record (.stopped e)
  else if d.key then
    let (ret, outcomes) ← rtpSend mc e w 0 packets
    record (.keyFrame e packets.length outcomes)
    modifyEndpoint e fun E => { E with bLostKeyFrame := ret ≠ 0 }
  else
    record (.deltaFrame e)
    let _ ← rtpSend mc e w 0 packets

/-- The body of the loop of `next_live_frame` over the sessions of an entry. -/
def visitSession (d : Delivery) (n ls : ℕ) (w : Sending) : M Unit := do
  let S ← getSession ls
  match ← selectEndpoint d ((← get).entries n) S (List.range maxTracks) with
  | none => pure ()
  | some e => offerFrame mc d e w

/-- The next piece of `next_live_frame`: the next entry, the next session of the entry, or the end
of the loop. -/
def continueFrame (w : Sending) : M Unit := do
  let s ← get
  match s.delivery with
  | none => pure ()
  | some d =>
    match d.rest with
    | some (ls :: rest) => do
      modify fun s => { s with delivery := some { d with rest := some rest } }
      match (s.tracks d.track).entrylist[d.i]? with
      | none => pure ()
      | some n => visitSession mc d n ls w
    | some [] => modify fun s => { s with delivery := some { d with i := d.i + 1, rest := none } }
    | none =>
      match (s.tracks d.track).entrylist[d.i]?, (s.tracks d.track).rtp with
      | none, _ => modify fun s => { s with delivery := none }
      | some _, none => throw .nullDeref
      | some _, some .wild => throw .wildPointer
      | some _, some (.endpoint e) => do
        record (.shared e)
        let _ ← rtpSend mc e w 0 (d.packets (← getEndpoint e).maxDataSize)
        modify fun s => { s with delivery := none }
      | some n, some .null =>
        modify fun s => { s with delivery := some { d with rest := some (s.entries n).sessList } }

/-! ## Connections -/

/-- What `rtsp_conn_disconnect` does about a channel. -/
def disconnectChannel (ch : Ichan) : M Unit := do
  match ch.ep, ch.rtcp with
  | some e, false => do
    let p ← found (← getEndpoint e).session .nullDeref
    liveTeardown mc p (some e)
  | _, _ => pure ()

/-- The loop of `rtsp_conn_disconnect` over the channels that are left. -/
def disconnectChannels (c : ℕ) : List ℕ → M Unit
  | [] => pure ()
  | i :: is => do
    match (← getConn c).protoState with
    | .null => throw .nullDeref
    | .stream _ => throw .protoState
    | .rtspConn ichan => do
      disconnectChannel mc (ichan i)
      disconnectChannels c is

/-- `rtsp_conn_disconnect`. -/
def rtspConnDisconnect (c : ℕ) : M Unit :=
  disconnectChannels mc c (List.range maxInterleaveChannels)

/-- `rtcp_fire`. -/
def rtcpFire (e : ℕ) (now : TimeVal) (ret : ℤ) : M Unit := do
  let _ ← rtcpSend mc e now ret

/-- `udp_rtp_read` and `udp_rtcp_read`: a read that shows that the client is there, any other
read that succeeds, or a read that fails. -/
inductive UdpRead
  | alive
  | other
  | failed
  deriving DecidableEq

/-- `udp_rtp_read` and `udp_rtcp_read`. -/
def udpRead (e : ℕ) (r : UdpRead) (now : TimeVal) : M Unit := do
  match r with
  | .alive => modifyEndpoint e fun E => { E with lastRtcpRecv := now }
  | .other => pure ()
  | .failed => teardownEndpoint mc (← getEndpoint e) e

end Multicast

/-- The length that `interleave_recv` gives the frame of a packet of `len` bytes. -/
def Endpoint.recordLength (E : Endpoint) (len : ℕ) : ℤ :=
  if (len : ℤ) - 12 > E.maxDataSize then E.maxDataSize else len - 12

/-- `interleave_recv` of the packet `d`. What an exchanger does with its frame is left out: only an
endpoint that records has one. -/
def interleaveRecv (c : ℕ) (chan : UInt8) (d : Bytes) (now : TimeVal) : M Unit := do
  if chan.toNat ≥ maxInterleaveChannels then pure ()
  else
    match (← getConn c).protoState with
    | .null => throw .nullDeref
    | .stream _ => throw .protoState
    | .rtspConn ichan =>
      match (ichan chan.toNat).ep with
      | none => pure ()
      | some e =>
        if (ichan chan.toNat).rtcp then modifyEndpoint e fun E => { E with lastRtcpRecv := now }
        else
          let E ← getEndpoint e
          if E.ex then
            if E.recordLength d.length < 0 then throw .negativeLength else pure ()
          else pure ()

end Spook
