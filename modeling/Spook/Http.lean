import Spook.Server

set_option relaxedAutoImplicit false
set_option autoImplicit false

/-!
# JPEG over HTTP

`http.c`: the locations, the requests for a single image or for a stream of images, and the
sessions that get every frame of a location.

## Main definitions

* `Spook.getAnswer`, `httpHandleGET`, `httpHandleMsg` — the requests.
* `Spook.httpConnDisconnect`, `addHttpStreamSession` — the sessions.
* `Spook.jpegNextFrame` — the frames.
-/

namespace Spook

/-! ## Replies -/

/-- The text that `tcp_send_pmsg` makes of a reply of `http.c`; `len` is the length of the body
that the header names, if any. -/
def httpReplyText (code : ℕ) (reason : String) (headers : List (String × String))
    (len : Option ℕ) : Bytes :=
  str "HTTP/1.0 " ++ decimal code ++ [SP] ++ str reason ++ [CR, LF] ++
    (headers.map fun h => str h.1 ++ str ": " ++ str h.2 ++ [CR, LF]).flatten ++
    (match len with
      | some n => str "Content-Length: " ++ decimal n ++ CRLFCRLF
      | none => [CR, LF])

/-- `send_data` on the connection `c`. -/
def sendData (c : ℕ) (d : Bytes) : M ℤ := do
  let ret := ((← getConn c).sendData d.length).2
  modifyConn c fun C => (C.sendData d.length).1
  return ret

/-- `tcp_send_pmsg` of the text of a message, with a body of `len` bytes to follow. -/
def sendPmsgText (c : ℕ) (text : Bytes) (len : ℕ) : M ℤ := do
  if (← getConn c).availSendBuf < text.length + len then return -1
  let _ ← sendData c text
  return 0

/-- `http_send_error`. -/
def httpSendError (c code : ℕ) (reply t : String) : M Unit := do
  let head := httpReplyText code reply
    [("Connection", "close"), ("Content-Type", "text/html")] (some t.length)
  modifyConn c fun C => { C with dropAfter := true }
  if (← sendPmsgText c head t.length) ≥ 0 then
    let _ ← sendData c (str t)

/-! ## Sessions -/

/-- `http_conn_disconnect`. -/
def httpConnDisconnect (c : ℕ) : M Unit := do
  match (← getConn c).protoState with
  | .null => throw .nullDeref
  | .rtspConn _ => throw .protoState
  | .stream p => do
    let S ← getStream p
    modifyHttpLoc S.loc fun L => { L with sessList := L.sessList.erase p }
    modify fun s => { s with streams := Function.update s.streams p none }

/-- `add_http_stream_session`. -/
def addHttpStreamSession (l c : ℕ) : M Unit := do
  let p ← fresh
  modify fun s => { s with streams := Function.update s.streams p (some ⟨l, c⟩) }
  modifyHttpLoc l fun L => { L with sessList := p :: L.sessList }
  modifyConn c fun C => { C with protoState := .stream p }

/-! ## Images -/

/-- The image of a location. -/
def locFrame (l : ℕ) : M Bytes := do found ((← get).httpLocs l).frame .nullDeref

/-- `send_frame_with_jfif`. -/
def sendFrameWithJfif (l c : ℕ) : M Unit := do
  let frame ← locFrame l
  if ((← get).httpLocs l).lengthWithJfif > frame.length then
    let _ ← sendData c (List.replicate 20 0)
    let _ ← sendData c (frame.drop 2)
  else
    let _ ← sendData c frame

/-- `send_multipart_frame`. -/
def sendMultipartFrame (l c : ℕ) : M Unit := do
  let len := ((← get).httpLocs l).lengthWithJfif
  let hdrs := str "--boundary\r\nContent-Type: image/jpeg\r\nContent-Length: " ++ decimal len ++
    CRLFCRLF
  unless (← getConn c).availSendBuf < len + hdrs.length do
    let _ ← sendData c hdrs
    sendFrameWithJfif l c

/-- The loop of `jpeg_next_frame` over the sessions that are left. -/
def sendFrames (l : ℕ) : List ℕ → M Unit
  | [] => pure ()
  | p :: rest => do
    sendMultipartFrame l (← getStream p).conn
    sendFrames l rest

/-- `jpeg_next_frame`. -/
def jpegNextFrame (l : ℕ) (d : Bytes) : M Unit := do
  if d.getD 0 0 = 0xff ∧ d.getD 1 0 = 0xd8 ∧ d.getD 2 0 = 0xff then
    let plain := d.getD 3 0 ≠ 0xe0 ∨ d.getD 10 0 ≠ 0 ∨ cstr (d.drop 6) ≠ str "JFIF"
    modifyHttpLoc l fun L => { L with
      frame := some d, lengthWithJfif := if plain then d.length + 18 else d.length }
    sendFrames l ((← get).httpLocs l).sessList

/-! ## Requests -/

/-- The test of `node_find_location`. What is behind the end of the path is read as well. -/
def httpLocMatches (L : HttpLocation) (path : Bytes) (len : ℕ) : Bool :=
  let own := cstrAt L.path 0 256
  strnEq path own own.length && (L.path len == 47 || L.path len == 0)

/-- `find_http_location`. -/
def findHttpLocation (s : Server) (path : Bytes) : Option ℕ :=
  let len := if path.getLast? = some 47 then path.length - 1 else path.length
  s.httpLocList.find? fun l => httpLocMatches (s.httpLocs l) path len

/-- What `handle_GET` answers. -/
inductive GetAnswer
  | fileNotFound
  | imageNotAvailable
  | stream (l : ℕ)
  | single (l : ℕ)
  deriving DecidableEq

/-- The tests of `handle_GET`, on a connection that can send `avail` bytes. -/
def getAnswer (s : Server) (avail : ℕ) (uri : Bytes) : GetAnswer :=
  match findHttpLocation s uri with
  | none => .fileNotFound
  | some l =>
    let L := s.httpLocs l
    if uri.length > (cstrAt L.path 0 256).length then .fileNotFound
    else
      match L.frame with
      | none => .imageNotAvailable
      | some frame =>
        if avail < frame.length + 400 then .imageNotAvailable
        else if L.streaming then .stream l
        else .single l

/-- `handle_GET`. -/
def httpHandleGET (c : ℕ) (uri : Bytes) : M Unit := do
  let headers := [("Expires", "0"), ("Pragma", "no-cache"), ("Cache-Control", "no-cache")]
  match getAnswer (← get) (← getConn c).availSendBuf uri with
  | .fileNotFound =>
    httpSendError c 404 "Not Found" "<html><body><p>File not found</p></body></html>"
  | .imageNotAvailable =>
    httpSendError c 404 "Not Found" "<html><body><p>Image not available</p></body></html>"
  | .stream l => do
    let _ ← sendPmsgText c (httpReplyText 200 "OK" (headers ++
      [("Content-Type", "multipart/x-mixed-replace;boundary=\"boundary\"")]) none) 0
    addHttpStreamSession l c
    sendMultipartFrame l c
  | .single l => do
    modifyConn c fun C => { C with dropAfter := true }
    let len := ((← get).httpLocs l).lengthWithJfif
    let head := httpReplyText 200 "OK" (headers ++
      [("Connection", "close"), ("Content-Type", "image/jpeg")]) (some len)
    if (← sendPmsgText c head len) ≥ 0 then sendFrameWithJfif l c

/-- `http_handle_msg`. -/
def httpHandleMsg (c : ℕ) (method uri : Bytes) : M Unit := do
  if strCaseEq method (str "GET") then httpHandleGET c uri
  else
    httpSendError c 501 "Not Implemented"
      "<html><body><p>POST requests are unsupported here</p></body></html>"

end Spook
