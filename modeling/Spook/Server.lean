import Spook.Lib.Machine
import Spook.Lib.Wp
import Spook.Tcp.Conn

set_option relaxedAutoImplicit false
set_option autoImplicit false

/-!
# The state of the server

The structures of `rtp.h`, `live.c`, `rtsp.c` and `http.c` that are allocated while the server
runs, and the lists that hold them. What is allocated has a name that is never used again, so that
a use of something freed is a fault. Timestamps, payload types, socket descriptors of UDP
transports and the wireless check are left out.

## Main definitions

* `Spook.Endpoint`, `Spook.Session`, `Spook.LiveTrack`, `Spook.LiveEntry` — streaming.
* `Spook.HttpLocation`, `Spook.StreamSession` — the JPEG streams over HTTP.
* `Spook.Server` — all of it, with a log of what happened.
* `Spook.M` — the programs over it.

## Notes on the design

A pointer is a number, and the tables of the server are functions from numbers to what is there, if
anything still is. So a pointer that dangles can be stored, copied and compared, and only a use of
it is a fault; and what is said of the program is said of all its faults at once.
-/

namespace Spook

/-- `MAX_TRACKS`, `LIVE_MAX_TRACKS` and `LIVE_MAX_ENTRIES`. -/
def maxTracks : ℕ := 2
@[inherit_doc maxTracks] def liveMaxTracks : ℕ := 5
@[inherit_doc maxTracks] def liveMaxEntries : ℕ := 4

/-- `struct timeval`. -/
structure TimeVal where
  sec : ℤ
  usec : ℤ
  deriving DecidableEq

/-- `trans_type` with the part of the union `trans` that goes with it. -/
inductive Trans
  /-- The endpoint is not connected. -/
  | none
  | udp
  | mc
  | inter (conn rtpChan rtcpChan : ℕ)
  deriving DecidableEq

/-- `struct rtp_endpoint`. -/
structure Endpoint where
  session : Option ℕ
  maxDataSize : ℕ
  seqnum : ℕ
  packetCount : Int32
  octetCount : Int32
  /-- Whether `rtcp_send_event` is enabled. -/
  rtcpSendEvent : Bool
  forceRtcp : Bool
  lastRtcpRecv : TimeVal
  trans : Trans
  bLostKeyFrame : Bool
  /-- Whether `ex` is an exchanger. -/
  ex : Bool

/-- `struct session` with the `struct live_session` that it points to. -/
structure Session where
  liventry : ℕ
  playing : Bool
  ep : ℕ → Option ℕ

/-- `struct rtsp_session`. -/
structure RtspSession where
  id : Bytes
  sess : ℕ

/-- `struct rtsp_location`, whose `private` is a live entry. -/
structure RtspLocation where
  path : Bytes
  realm : Bytes
  username : Bytes
  password : Bytes
  entry : ℕ
  deriving DecidableEq

/-- `ep_mc` of a `struct rtp_media`, which `new_rtp_media` leaves uninitialised. -/
inductive EpMc
  | null
  | wild
  | endpoint (e : ℕ)
  deriving DecidableEq

/-- `struct live_track`. Of `srcstream` it holds the `waiting` flag. -/
structure LiveTrack where
  entrylist : List ℕ
  srcstream : Option Bool
  ready : Bool
  rtp : Option EpMc
  szName : Bytes

/-- `struct live_entry`. -/
structure LiveEntry where
  sessList : List ℕ
  tracklist : ℕ → Option ℕ

/-- `struct http_location`. Of `node.path` it holds the memory, also behind the string. -/
structure HttpLocation where
  path : ℕ → UInt8
  frame : Option Bytes
  lengthWithJfif : ℕ
  sessList : List ℕ
  streaming : Bool

/-- `struct http_stream_session`. -/
structure StreamSession where
  loc : ℕ
  conn : ℕ

/-- A call of `next_live_frame` in progress: the loop over the entries of the track is at the
entry number `i`, and `rest` are the sessions of that entry that are still to come, once the loop has
looked at the entry. -/
structure Delivery where
  track : ℕ
  key : Bool
  /-- The lengths of the packets that the media makes of the frame, by `max_data_size`. -/
  packets : ℕ → List ℕ
  i : ℕ
  rest : Option (List ℕ)

/-- What happens to the outside. -/
inductive Event
  /-- A key frame of so many packets was offered to an endpoint, and what the transport did with
  the packets that were handed to it. -/
  | keyFrame (e : ℕ) (packets : ℕ) (outcomes : List Bool)
  /-- A frame that is no key frame was passed to `send` for an endpoint. -/
  | deltaFrame (e : ℕ)
  /-- A frame that is no key frame was skipped for an endpoint that waits for a key frame. -/
  | skipped (e : ℕ)
  /-- A frame that is no key frame was skipped for an endpoint while `g_bStopSend` was set. -/
  | stopped (e : ℕ)
  /-- A frame was passed to `send` for the endpoint in `ep_mc`. -/
  | shared (e : ℕ)
  /-- A connection completed a tunnel GET with a cookie. -/
  | tunnelGet (c : ℕ) (cookie : Bytes)
  /-- The socket of a tunnelled POST with a cookie on `c` was given to `cg`. -/
  | tunnelPost (cg c : ℕ) (cookie : Bytes)
  deriving DecidableEq

/-- The state of the server. No function reads the log. -/
structure Server where
  conns : ℕ → Option Conn
  connList : List ℕ
  httpLocs : ℕ → HttpLocation
  httpLocList : List ℕ
  streams : ℕ → Option StreamSession
  rtspLocList : List RtspLocation
  rtspSessList : List RtspSession
  tracks : ℕ → LiveTrack
  entries : ℕ → LiveEntry
  sessions : ℕ → Option Session
  sessList : List ℕ
  endpoints : ℕ → Option Endpoint
  delivery : Option Delivery
  /-- The next name to be given. -/
  next : ℕ
  log : List Event

/-- Programs over the server that may fault. -/
abbrev M := StateT Server (Except Fault)

/-! ## Access -/

section Access

/-- A computation that touches no state. -/
def lift {α : Type} (x : Except Fault α) : M α :=
  match x with
  | .ok a => pure a
  | .error e => throw e

/-- Follow a pointer to a connection. -/
def getConn (c : ℕ) : M Conn := do found ((← get).conns c) .freedConn

/-- Store into a connection. -/
def modifyConn (c : ℕ) (f : Conn → Conn) : M Unit := do
  let C ← getConn c
  modify fun s => { s with conns := Function.update s.conns c (some (f C)) }

/-- Follow a pointer to an endpoint. -/
def getEndpoint (e : ℕ) : M Endpoint := do found ((← get).endpoints e) .freedEndpoint

/-- Store into an endpoint. -/
def modifyEndpoint (e : ℕ) (f : Endpoint → Endpoint) : M Unit := do
  let E ← getEndpoint e
  modify fun s => { s with endpoints := Function.update s.endpoints e (some (f E)) }

/-- Follow a pointer to a session. -/
def getSession (p : ℕ) : M Session := do found ((← get).sessions p) .freedSession

/-- Store into a session. -/
def modifySession (p : ℕ) (f : Session → Session) : M Unit := do
  let S ← getSession p
  modify fun s => { s with sessions := Function.update s.sessions p (some (f S)) }

/-- Follow a pointer to a stream session. -/
def getStream (p : ℕ) : M StreamSession := do found ((← get).streams p) .freedStream

/-- Store into a track. -/
def modifyTrack (t : ℕ) (f : LiveTrack → LiveTrack) : M Unit :=
  modify fun s => { s with tracks := Function.update s.tracks t (f (s.tracks t)) }

/-- Store into an entry. -/
def modifyEntry (n : ℕ) (f : LiveEntry → LiveEntry) : M Unit :=
  modify fun s => { s with entries := Function.update s.entries n (f (s.entries n)) }

/-- Store into a location of `http.c`. -/
def modifyHttpLoc (l : ℕ) (f : HttpLocation → HttpLocation) : M Unit :=
  modify fun s => { s with httpLocs := Function.update s.httpLocs l (f (s.httpLocs l)) }

/-- A name that was never given. -/
def fresh : M ℕ := do
  let n := (← get).next
  modify fun s => { s with next := n + 1 }
  return n

/-- Write down what happens. -/
def record (ev : Event) : M Unit := modify fun s => { s with log := s.log ++ [ev] }

end Access

section AccessRules

variable {E : Fault → Prop} {s : Server}

/-- A computation without state. -/
@[simp] theorem wp_lift {α : Type} {x : Except Fault α} {Q : α → Server → Prop} :
    wp (lift x) Q E s ↔ (∀ a, x = .ok a → Q a s) ∧ ∀ e, x = .error e → E e := by
  rcases x with e | a <;> simp [lift]

/-- A look at a connection, which must be there. -/
@[simp] theorem wp_getConn {c : ℕ} {Q : Conn → Server → Prop} :
    wp (getConn c) Q E s ↔
      (∀ C, s.conns c = some C → Q C s) ∧ (s.conns c = none → E .freedConn) := by
  simp [getConn]

/-- A change of a connection, which must be there. -/
@[simp] theorem wp_modifyConn {c : ℕ} {f : Conn → Conn} {Q : Unit → Server → Prop} :
    wp (modifyConn c f) Q E s ↔
      (∀ C, s.conns c = some C →
        Q () { s with conns := Function.update s.conns c (some (f C)) }) ∧
      (s.conns c = none → E .freedConn) := by
  simp [modifyConn]

/-- A look at an endpoint, which must be there. -/
@[simp] theorem wp_getEndpoint {e : ℕ} {Q : Endpoint → Server → Prop} :
    wp (getEndpoint e) Q E s ↔
      (∀ P, s.endpoints e = some P → Q P s) ∧ (s.endpoints e = none → E .freedEndpoint) := by
  simp [getEndpoint]

/-- A change of an endpoint, which must be there. -/
@[simp] theorem wp_modifyEndpoint {e : ℕ} {f : Endpoint → Endpoint} {Q : Unit → Server → Prop} :
    wp (modifyEndpoint e f) Q E s ↔
      (∀ P, s.endpoints e = some P →
        Q () { s with endpoints := Function.update s.endpoints e (some (f P)) }) ∧
      (s.endpoints e = none → E .freedEndpoint) := by
  simp [modifyEndpoint]

/-- A look at a session, which must be there. -/
@[simp] theorem wp_getSession {p : ℕ} {Q : Session → Server → Prop} :
    wp (getSession p) Q E s ↔
      (∀ S, s.sessions p = some S → Q S s) ∧ (s.sessions p = none → E .freedSession) := by
  simp [getSession]

/-- A change of a session, which must be there. -/
@[simp] theorem wp_modifySession {p : ℕ} {f : Session → Session} {Q : Unit → Server → Prop} :
    wp (modifySession p f) Q E s ↔
      (∀ S, s.sessions p = some S →
        Q () { s with sessions := Function.update s.sessions p (some (f S)) }) ∧
      (s.sessions p = none → E .freedSession) := by
  simp [modifySession]

/-- A look at a stream session, which must be there. -/
@[simp] theorem wp_getStream {p : ℕ} {Q : StreamSession → Server → Prop} :
    wp (getStream p) Q E s ↔
      (∀ S, s.streams p = some S → Q S s) ∧ (s.streams p = none → E .freedStream) := by
  simp [getStream]

/-- A change of a track, which is never freed. -/
@[simp] theorem wp_modifyTrack {t : ℕ} {f : LiveTrack → LiveTrack} {Q : Unit → Server → Prop} :
    wp (modifyTrack t f) Q E s ↔
      Q () { s with tracks := Function.update s.tracks t (f (s.tracks t)) } := by
  simp [modifyTrack]

/-- A change of a `live_source`, which is never freed. -/
@[simp] theorem wp_modifyEntry {n : ℕ} {f : LiveEntry → LiveEntry} {Q : Unit → Server → Prop} :
    wp (modifyEntry n f) Q E s ↔
      Q () { s with entries := Function.update s.entries n (f (s.entries n)) } := by
  simp [modifyEntry]

/-- A change of an HTTP location, which is never freed. -/
@[simp] theorem wp_modifyHttpLoc {l : ℕ} {f : HttpLocation → HttpLocation}
    {Q : Unit → Server → Prop} :
    wp (modifyHttpLoc l f) Q E s ↔
      Q () { s with httpLocs := Function.update s.httpLocs l (f (s.httpLocs l)) } := by
  simp [modifyHttpLoc]

/-- A name that nothing has had yet. -/
@[simp] theorem wp_fresh {Q : ℕ → Server → Prop} :
    wp fresh Q E s ↔ Q s.next { s with next := s.next + 1 } := by
  simp [fresh]

/-- One more event in the log. -/
@[simp] theorem wp_record {ev : Event} {Q : Unit → Server → Prop} :
    wp (record ev) Q E s ↔ Q () { s with log := s.log ++ [ev] } := by
  simp [record]

end AccessRules

end Spook
