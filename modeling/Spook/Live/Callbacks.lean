import Spook.Lib.Refine
import Spook.Live.Config

set_option relaxedAutoImplicit false
set_option autoImplicit false

/-!
# The callbacks of a session

The function pointers of `struct session`. A session is memory from `malloc`, in which `new_session`
and `live_open` assign some of the pointers and `new_rtsp_session` one more. Here the server keeps
track of what has been assigned, and reading anything else of that memory is a fault of its own.

The handlers and the functions that they reach are the ones of `Live.Requests` and `Live.Basic`,
with the pointers looked at and called where the source does. What has no callback in it is taken
over as it is.

## Main definitions

* `Spook.Callback`, `Pointer`, `Fields` — the pointers of a session, and what is assigned to them.
* `Spook.newSession`, `liveFields` — what `new_session` and `live_open` assign.
* `Spook.Wired` — the server with the callbacks of its sessions; `Wired.callback` looks at one.
* `Spook.Wired.rtspHandle`, `Wired.rtpDeliverFrame` — the handlers, and the receive path.
* `Spook.wiredMachine` — the server, event by event.
-/

namespace Spook

/-- The function pointers of `struct session`. -/
inductive Callback
  | getSdp
  | setSdp
  | setup
  | play
  | recordData
  | pause
  | teardown
  | controlClose
  deriving DecidableEq

/-- What is assigned to them. -/
inductive Pointer
  | null
  | liveGetSdp
  | liveSetup
  | livePlay
  | liveTeardown
  | rtspSessionClose
  deriving DecidableEq

/-- The pointers of a session. `none` is what was there before, which may be anything. -/
abbrev Fields := Callback → Option Pointer

/-- An assignment. -/
def Fields.assign (F : Fields) (k : Callback) (f : Pointer) : Fields :=
  Function.update F k (some f)

/-- What `malloc` returns. -/
def mallocd : Fields := fun _ => none

/-- The assignments of `new_session`. -/
def newSession : Fields :=
  ((((mallocd.assign .getSdp .null).assign .setup .null).assign .play .null).assign .pause
    .null).assign .controlClose .null

/-- The assignments of `live_open`, behind the ones of `new_session`. -/
def liveFields : Fields :=
  (((newSession.assign .getSdp .liveGetSdp).assign .setup .liveSetup).assign .play
    .livePlay).assign .teardown .liveTeardown

/-- The server, and the callbacks of its sessions. -/
structure Wired where
  server : Server
  fields : ℕ → Fields

/-- How a program ends that has no result. -/
inductive Mishap
  | fault (e : Fault)
  /-- A pointer is read to which nothing has been assigned. -/
  | unassigned (p : ℕ) (k : Callback)
  deriving DecidableEq

/-- Programs of the server with callbacks. -/
abbrev W := StateT Wired (Except Mishap)

/-- The server without the callbacks. -/
def serverPart : StatePart Wired Server where
  get := Wired.server
  set s w := { w with server := s }
  get_set _ _ := rfl

/-- A program without callbacks. -/
def onServer {α : Type} (x : M α) : W α := zoom serverPart Mishap.fault x

namespace Wired

/-- Look at a callback of the session `p`. -/
def callback (p : ℕ) (k : Callback) : W Pointer := do
  match (← get).fields p k with
  | some f => return f
  | none => throw (.unassigned p k)

/-- A call through a callback, which calls `f`. -/
def call (p : ℕ) (k : Callback) (f : Pointer) : W Unit := do
  if (← callback p k) = f then pure () else throw (.fault .wildPointer)

/-- An assignment to a callback of the session `p`. -/
def assign (p : ℕ) (k : Callback) (f : Pointer) : W Unit :=
  modify fun w => { w with fields := Function.update w.fields p ((w.fields p).assign k f) }

/-- `new_session` and the rest of `live_open`. -/
def liveOpen (n : ℕ) : W ℕ := do
  let p ← onServer (Spook.liveOpen n)
  modify fun w => { w with fields := Function.update w.fields p liveFields }
  return p

/-- `new_rtsp_session`. -/
def newRtspSession (p : ℕ) (id : Bytes) : W Unit := do
  onServer (Spook.newRtspSession p id)
  assign p .controlClose .rtspSessionClose

/-- `del_session`, which tests `control_close`. -/
def delSession (p : ℕ) : W Unit := do
  let _ ← onServer (getSession p)
  (if (← callback p .controlClose) ≠ .null then do
    call p .controlClose .rtspSessionClose
    onServer (modify fun s => { s with
      rtspSessList := s.rtspSessList.filter fun rs => rs.sess ≠ p })
  else pure ())
  onServer (modify fun s => { s with
    sessList := s.sessList.erase p, sessions := Function.update s.sessions p none })

section Multicast

variable (mc : Bool)

/-- `live_teardown`. -/
def liveTeardown (p : ℕ) (ep : Option ℕ) : W Unit := do
  let remaining ← onServer (teardownTracks mc p ep (List.range maxTracks))
  if remaining = 0 then
    let S ← onServer (getSession p)
    onServer (modifyEntry S.liventry fun n => { n with sessList := n.sessList.erase p })
    delSession p

/-- A call of `teardown` of the session `p`. -/
def teardown (p : ℕ) (ep : Option ℕ) : W Unit := do
  call p .teardown .liveTeardown
  liveTeardown mc p ep

variable (c : ℕ) (r : Reply)

/-- `handle_DESCRIBE`. -/
def handleDescribe (loc : Option ℕ) (auth : Bool) : W (Option ℕ) := do
  match ← onServer (findLocation loc) with
  | none => onServer (rtspAnswer c r 404)
  | some l => do
    let p ← liveOpen l.entry
    if l.realm ≠ [] ∧ ¬ auth then
      let code ← onServer (rtspAnswer c r 401)
      teardown mc p none
      return code
    else
      call p .getSdp .liveGetSdp
      let code ← onServer do rtspAnswer c r (if (← liveGetSdp p) > 0 then 200 else 404)
      teardown mc p none
      return code

/-- `handle_ANNOUNCE`, which tests `set_sdp`. No function of a live session could be called. -/
def handleAnnounce (loc : Option ℕ) (auth : Bool) : W (Option ℕ) := do
  match ← onServer (findLocation loc) with
  | none => onServer (rtspAnswer c r 404)
  | some l => do
    let p ← liveOpen l.entry
    if l.realm ≠ [] ∧ ¬ auth then onServer (rtspAnswer c r 401)
    else if (← callback p .setSdp) = .null then return none
    else throw (.fault .wildPointer)

/-- The second half of `handle_SETUP`, for the session `p` and its track `t`; `isNew` when it has
no `rtsp_session`. -/
def setupTrack (p t : ℕ) (isNew : Bool) (transport : Transport) (env : SetupEnv) :
    W (Option ℕ) := do
  if ((← onServer (getSession p)).ep t).isSome then onServer (rtspAnswer c r 461)
  else
    call p .setup .liveSetup
    if (← onServer (liveSetup mc p t env)) < 0 then
      let code ← onServer (rtspAnswer c r 404)
      (if isNew then teardown mc p none else pure ())
      return code
    else
      match (← onServer (getSession p)).ep t with
      | none => throw (.fault .nullDeref)
      | some e => do
        if (← onServer (setupTransport c e transport env)) < 0 then
          let code ← onServer (rtspAnswer c r 461)
          teardown mc p ((← onServer (getSession p)).ep t)
          return code
        else
          (if isNew then newRtspSession p env.id else pure ())
          onServer (rtspAnswer c r 200)

/-- `handle_SETUP`. -/
def handleSetup (loc : Option ℕ) (track : ℤ) (auth : Bool) (transport : Option Transport)
    (session : Option Bytes) (env : SetupEnv) : W (Option ℕ) := do
  match ← onServer (findLocation loc) with
  | none => onServer (rtspAnswer c r 404)
  | some l =>
    if track < 0 ∨ track ≥ maxTracks then onServer (rtspAnswer c r 404)
    else if l.realm ≠ [] ∧ ¬ auth then onServer (rtspAnswer c r 401)
    else
      match transport, session with
      | none, _ => onServer (rtspAnswer c r 461)
      | some t, none => do
        let p ← liveOpen l.entry
        setupTrack mc c r p track.toNat true t env
      | some t, some id => do
        match ← onServer (getRtspSession (some id)) with
        | none => onServer (rtspAnswer c r 454)
        | some rs => setupTrack mc c r rs.sess track.toNat false t env

/-- `handle_PLAY`. -/
def handlePlay (session : Option Bytes) (haveStart : Bool) : W (Option ℕ) := do
  match ← onServer (getRtspSession session) with
  | none => onServer (rtspAnswer c r 454)
  | some rs => do
    call rs.sess .play .livePlay
    let start ← onServer (livePlay rs.sess haveStart)
    onServer (if start.any (0 ≤ ·) then rtpInfo rs.sess (List.range maxTracks) else pure ())
    onServer (rtspAnswer c r 200)

/-- `handle_PAUSE`, which tests `pause`. No function of a live session could be called. -/
def handlePause (session : Option Bytes) : W (Option ℕ) := do
  match ← onServer (getRtspSession session) with
  | none => onServer (rtspAnswer c r 454)
  | some rs => do
    if (← callback rs.sess .pause) = .null then onServer (rtspAnswer c r 501)
    else throw (.fault .wildPointer)

/-- `handle_TEARDOWN`. -/
def handleTeardown (loc : Option ℕ) (track : ℤ) (session : Option Bytes) : W (Option ℕ) := do
  match ← onServer (findLocation loc) with
  | none => onServer (rtspAnswer c r 404)
  | some _ =>
    if track ≥ maxTracks then onServer (rtspAnswer c r 404)
    else
      match ← onServer (getRtspSession session) with
      | none => onServer (rtspAnswer c r 454)
      | some rs => do
        let S ← onServer (getSession rs.sess)
        teardown mc rs.sess (if track < 0 then none else S.ep track.toNat)
        onServer (rtspAnswer c r 200)

/-- `rtsp_handle_msg`. -/
def rtspHandle : RtspRequest → W (Option ℕ)
  | .options => onServer (rtspAnswer c r 200)
  | .announce loc auth _ => handleAnnounce c r loc auth
  | .describe loc auth => handleDescribe mc c r loc auth
  | .setup loc track auth transport session env =>
    handleSetup mc c r loc track auth transport session env
  | .play session haveStart => handlePlay c r session haveStart
  | .pause session => handlePause c r session
  | .teardown loc track session => handleTeardown mc c r loc track session
  | .unknown => onServer (rtspAnswer c r 501)

/-- `handle_request`. -/
def handleRequest (env : ReadEnv) : W ℤ := do
  match ← onServer (lift (readRequest env.blank (← onServer (getConn c)).reqBuf)) with
  | none => return -1
  | some (m, method, uri) =>
    match (← onServer (getConn c)).proto with
    | .http => onServer do
      if strCaseEq method (str "GET") then handleGET c m method uri
      else if strCaseEq method (str "POST") then handlePOST c m method uri
      else
        httpHandleMsg c method uri
        return 0
    | .rtsp => do
      let _ ← rtspHandle mc c env.reply (env.rtsp m method uri)
      return 0
    | .start => onServer do
      handleUnknown c env.reply
      return 0

/-- What the loop of `do_read` does on the connection `c`. -/
def connOps (env : ReadEnv) : ConnOps W where
  get := onServer (getConn c)
  modify f := onServer (modifyConn c f)
  handleRequest := handleRequest mc c env
  interleaveRecv chan d := onServer (interleaveRecv c chan d env.now)
  drop := onServer (dropConn mc c)

end Multicast

/-- `rtp_deliver_frame`, which an exchanger calls. No function of a live session could be called. -/
def rtpDeliverFrame (E : Endpoint) : W Unit := do
  let p ← onServer (found E.session .nullDeref)
  let _ ← callback p .recordData
  throw (.fault .wildPointer)

end Wired

/-! ## Events -/

/-- An event of the server, or of the exchanger of an endpoint. -/
inductive WiredAct
  | server (a : ServerAct)
  /-- The exchanger of an endpoint, if it has one, hands over a frame that was received. -/
  | recorded (e : ℕ)

/-- What an event does. -/
def wiredAct (mc : Bool) : WiredAct → W Unit
  | .server (.read c d env) => do
    if (← get).server.hasConn c then readChunk (Wired.connOps mc c env) d
  | .server a => onServer (serverAct mc a)
  | .recorded e => do
    match (← get).server.endpoints e with
    | some E => if E.ex then Wired.rtpDeliverFrame E
    | none => pure ()

/-- While a frame is being delivered nothing else happens. -/
def Wired.enabled (w : Wired) : WiredAct → Bool
  | .server a => w.server.enabled a
  | .recorded _ => w.server.delivery.isNone

/-- One event. -/
def wiredStep (mc : Bool) (w : Wired) (a : WiredAct) : Except Mishap (Wired × List Event) :=
  if w.enabled a then
    ((wiredAct mc a).run w).map fun p => (p.2, p.2.server.log.drop w.server.log.length)
  else .ok (w, [])

/-- The server with the configuration `blocks`, whatever its memory holds at first. -/
def wiredMachine (mc : Bool) (blocks : List (List ConfigLine)) :
    Machine Wired WiredAct Event Mishap where
  Init w := (liveMachine mc blocks).Init w.server
  step := wiredStep mc

end Spook
