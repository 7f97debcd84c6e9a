import Spook.Http
import Spook.Tcp.SendPmsg

set_option relaxedAutoImplicit false
set_option autoImplicit false

/-!
# What is queued is queued whole

The functions that queue something in several calls of `send_data` and ignore what these return:
interleaved packets, responses with a body, and JPEG images. Each looks at the free space once, and
then either queues nothing or all of it, under the length that it announces.

## Main definitions

* `Spook.SendBuf.interleaveSend`, `sendReply`, `sendFrameWithJfif`, `sendMultipartFrame` — the
  functions.
* `Spook.nextImage` — what `jpeg_next_frame` stores.
* `Spook.Outgoing`, `Outgoing.send` — the calls.
* `Spook.Outgoing.IsUnit`, `Outgoing.Announces` — what a call has to queue.

## Main results

* `Spook.units_whole` — whole runs.
* `Spook.wp_interleaveSend_holds`, `wp_sendPmsgText_holds`, `wp_sendMultipartFrame_holds` — the
  server does the same.

## Notes on the design

The functions are stated on the send buffer alone, where what is queued can be read off. That the
functions of the server do the same to the buffer of their connection is shown at the end, one
function at a time.
-/

namespace Spook

/-! ## Packets -/

/-- `PUT_16`. -/
def put16 (v : ℕ) : Bytes := [UInt8.ofNat (v / 256), UInt8.ofNat v]

/-- The sum of the `iov_len` of some buffers. -/
def iovecLen (v : List Bytes) : Except Fault ℤ := v.foldlM (fun len d => intAdd len d.length) 0

/-- `send_data` of an array. -/
def SendBuf.sendBytes (c : SendBuf) (d : Bytes) : SendBuf :=
  (c.sendData (fun j => d.getD j 0) d.length).1

/-- `interleave_send`. -/
def SendBuf.interleaveSend (c : SendBuf) (chan : ℤ) (v : List Bytes) :
    Except Fault (SendBuf × ℤ) := do
  let len ← iovecLen v
  if c.availSendBuf < (← intAdd len 4) then return (c, 1)
  let c := c.sendBytes (36 :: UInt8.ofInt chan :: put16 len.toNat)
  return (v.foldl SendBuf.sendBytes c, 0)

/-! ## Responses -/

/-- `tcp_send_pmsg`, and `send_data` of the body when that went well. -/
def SendBuf.sendReply (c : SendBuf) (m : Pmsg) (d : ℕ → UInt8) (len : ℤ) :
    Except Fault SendBuf := do
  let (c, ret) ← c.tcpSendPmsg m len
  if ret ≥ 0 then return (c.sendData d len).1 else return c

/-- Calls of `add_header` whose values are ignored. -/
def Pmsg.addHeaders (m : Pmsg) : List (Bytes × Bytes) → Except Fault Pmsg
  | [] => .ok m
  | h :: hs => do
    let (m, _) ← m.addHeader h.1 h.2
    m.addHeaders hs

/-- `rtsp_create_reply`, in memory that was zero. -/
def rtspCreateReply (req : Pmsg) (code : ℕ) (reason : Bytes) : Except Fault Pmsg := do
  let (m, p) := (Pmsg.newPmsg (fun _ => 0) (fun _ => ⟨none, none⟩) .req 512).addPmsgString
    (str "RTSP/1.0")
  let (m, r) := m.addPmsgString reason
  let m := { m with type := .resp, protoId := p, slFst := .code code, slSnd := .reason r }
  let (m, _) ← m.copyHeaders req (str "CSeq")
  return m

/-- The response of `handle_DESCRIBE`, whose array `hdr` has 512 bytes. -/
def describeReply (req : Pmsg) (uri : Bytes) : Except Fault Pmsg := do
  let m ← rtspCreateReply req 200 (str "OK")
  if uri.length + 1 < 512 then
    m.addHeaders [(str "Content-Base", uri ++ str "/"), (str "Content-Type", str "application/sdp")]
  else throw .overrun

/-- The response of `http_send_error`. -/
def errorReply (code : ℕ) (reply : Bytes) : Except Fault Pmsg :=
  (httpCreateReply code reply).addHeaders
    [(str "Connection", str "close"), (str "Content-Type", str "text/html")]

/-- The headers of `handle_GET` for any image. -/
def noCache : List (Bytes × Bytes) :=
  [(str "Expires", str "0"), (str "Pragma", str "no-cache"), (str "Cache-Control", str "no-cache")]

/-- The response of `handle_GET` before a single image. -/
def imageReply : Except Fault Pmsg :=
  (httpCreateReply 200 (str "OK")).addHeaders
    (noCache ++ [(str "Connection", str "close"), (str "Content-Type", str "image/jpeg")])

/-- The response of `handle_GET` before a stream of images. -/
def streamReply : Except Fault Pmsg :=
  (httpCreateReply 200 (str "OK")).addHeaders (noCache ++
    [(str "Content-Type", str "multipart/x-mixed-replace;boundary=\"boundary\"")])

/-! ## Images -/

/-- The image of a `struct http_location`, with `length_with_jfif`. -/
structure Image where
  frame : Bytes
  lengthWithJfif : ℤ

/-- A byte of a frame. -/
def frameByte (d : Bytes) (i : ℕ) : Except Fault UInt8 :=
  match d[i]? with
  | some b => .ok b
  | none => .error .overread

/-- The test of `jpeg_next_frame` for the beginning of a JPEG image. -/
def isMalformed (d : Bytes) : Except Fault Bool := do
  if (← frameByte d 0) ≠ 0xff then return true
  if (← frameByte d 1) ≠ 0xd8 then return true
  return (← frameByte d 2) ≠ 0xff

/-- The test of `jpeg_next_frame` for a JFIF header. -/
def lacksJfif (d : Bytes) : Except Fault Bool := do
  if (← frameByte d 3) ≠ 0xe0 then return true
  if (← frameByte d 10) ≠ 0 then return true
  return cstr (d.drop 6) ≠ str "JFIF"

/-- What `jpeg_next_frame` stores of a frame, if it is an image. -/
def nextImage (d : Bytes) : Except Fault (Option Image) := do
  if ← isMalformed d then return none
  if ← lacksJfif d then return some ⟨d, ← intAdd d.length 18⟩
  return some ⟨d, d.length⟩

/-- `add_jfif`. -/
def addJfif : Bytes :=
  [0xff, 0xd8, 0xff, 0xe0, 0x00, 0x10, 0x4a, 0x46, 0x49, 0x46,
   0x00, 0x01, 0x02, 0x01, 0x00, 0x48, 0x00, 0x48, 0x00, 0x00]

/-- `send_frame_with_jfif`. -/
def SendBuf.sendFrameWithJfif (c : SendBuf) (L : Image) : SendBuf :=
  if L.lengthWithJfif > L.frame.length then
    let c := c.sendBytes addJfif
    (c.sendData (fun j => L.frame.getD (j + 2) 0) (L.frame.length - 2)).1
  else c.sendBytes L.frame

/-- `hdrs` of `send_multipart_frame`. -/
def multipartHead (len : ℤ) : Bytes :=
  str "--boundary\r\nContent-Type: image/jpeg\r\nContent-Length: " ++ decimal len.toNat ++ CRLFCRLF

/-- `send_multipart_frame`. -/
def SendBuf.sendMultipartFrame (c : SendBuf) (L : Image) : Except Fault SendBuf := do
  let hdrs := multipartHead L.lengthWithJfif
  if c.availSendBuf < (← intAdd L.lengthWithJfif hdrs.length) then return c
  return (c.sendBytes hdrs).sendFrameWithJfif L

/-- The end of `handle_GET` for a single image. -/
def SendBuf.sendImage (c : SendBuf) (L : Image) : Except Fault SendBuf := do
  let c := { c with dropAfter := true }
  let (c, ret) ← c.tcpSendPmsg (← imageReply) L.lengthWithJfif
  if ret ≥ 0 then return c.sendFrameWithJfif L else return c

/-! ## Calls -/

/-- A call that queues something on a connection. -/
inductive Outgoing
  | interleaved (chan : ℤ) (v : List Bytes)
  /-- A response without a body. -/
  | reply (m : Pmsg)
  /-- The description of a location. -/
  | describe (req : Pmsg) (uri : Bytes) (sdp : ℕ → UInt8) (sdpLen : ℤ)
  | error (code : ℕ) (reason t : Bytes)
  | image
  | multipart

/-- What a call does. Without an image there is nothing to be sent of it. -/
def Outgoing.send (image : Option Image) (c : SendBuf) : Outgoing → Except Fault SendBuf
  | .interleaved chan v => do
    let (c, _) ← c.interleaveSend chan v
    return c
  | .reply m => do
    let (c, _) ← c.tcpSendPmsg m (-1)
    return c
  | .describe req uri sdp sdpLen => do c.sendReply (← describeReply req uri) sdp sdpLen
  | .error code reason t => do
    let c := { c with dropAfter := true }
    c.sendReply (← errorReply code reason) (fun j => t.getD j 0) t.length
  | .image =>
    match image with
    | none => throw .nullDeref
    | some L => c.sendImage L
  | .multipart =>
    match image with
    | none => throw .nullDeref
    | some L => c.sendMultipartFrame L

/-- `handle_GET` of a location that was found. -/
def handleImageGET (image : Option Image) (streaming : Bool) (c : SendBuf) :
    Except Fault SendBuf := do
  let unavailable : Outgoing := .error 404 (str "Not Found")
    (str "<html><body><p>Image not available</p></body></html>")
  match image with
  | none => unavailable.send image c
  | some L =>
    if c.availSendBuf < (← intAdd L.frame.length 400) then unavailable.send image c
    else if streaming then
      let c ← (Outgoing.reply (← streamReply)).send image c
      Outgoing.multipart.send image c
    else Outgoing.image.send image c

/-- A location of `http.c` and a connection. -/
structure Outlet where
  image : Option Image
  conn : Option SendBuf

/-- What happens to a location and a connection. -/
inductive OutletAct
  /-- The location gets a frame. -/
  | frame (d : Bytes)
  | send (u : Outgoing)
  | get (streaming : Bool)
  | connWrite (rs : List WriteResult)
  /-- A handler sets `drop_after`. -/
  | dropAfter

/-- One call. Nothing is called on a connection that was dropped. -/
def outletStep (s : Outlet) (a : OutletAct) : Except Fault (Outlet × List Bytes) :=
  match a, s.conn with
  | .frame d, _ => do
    match ← nextImage d with
    | none => return (s, [])
    | some L => return ({ s with image := some L }, [])
  | _, none => return (s, [])
  | .send u, some c => do return ({ s with conn := some (← u.send s.image c) }, [])
  | .get streaming, some c => do
    return ({ s with conn := some (← handleImageGET s.image streaming c) }, [])
  | .connWrite rs, some c =>
    let (c, out) := c.connWrite rs
    return ({ s with conn := c }, [out])
  | .dropAfter, some c => return ({ s with conn := some { c with dropAfter := true } }, [])

/-- A location from its `start_block` on, and a connection from its `do_accept` on. -/
def outletMachine : Machine Outlet OutletAct Bytes Fault where
  Init s := s.image = none ∧ ∃ mem, s.conn = some (.accepted mem)
  step := outletStep

/-! ## What a call has to queue -/

/-- The payload of an image. -/
def Image.payload (L : Image) : Bytes :=
  if L.lengthWithJfif > L.frame.length then addJfif ++ L.frame.drop 2 else L.frame

/-- The head and the payload of what a call has to queue. -/
inductive Outgoing.IsUnit (image : Option Image) : Outgoing → Bytes → Bytes → Prop
  | interleaved {chan : ℤ} {v : List Bytes} : v.flatten.length < 65536 →
      IsUnit image (.interleaved chan v) (36 :: UInt8.ofInt chan :: put16 v.flatten.length) v.flatten
  | reply {m : Pmsg} {text : Bytes} : m.respText (-1) = .ok text → IsUnit image (.reply m) text []
  | describe {req m : Pmsg} {uri text : Bytes} {sdp : ℕ → UInt8} {sdpLen : ℤ} :
      describeReply req uri = .ok m → m.respText sdpLen = .ok text →
      IsUnit image (.describe req uri sdp sdpLen) text (SendBuf.bytesOf sdp sdpLen)
  | error {code : ℕ} {reason t text : Bytes} {m : Pmsg} :
      errorReply code reason = .ok m → m.respText t.length = .ok text →
      IsUnit image (.error code reason t) text t
  | image {L : Image} {m : Pmsg} {text : Bytes} : image = some L → imageReply = .ok m →
      m.respText L.lengthWithJfif = .ok text → IsUnit image .image text L.payload
  | multipart {L : Image} : image = some L →
      IsUnit image .multipart (multipartHead L.lengthWithJfif) L.payload

/-- The text ends with the header that announces `n` bytes. -/
def AnnouncesLength (text : Bytes) (n : ℕ) : Prop :=
  ∃ front, text = front ++ (str "Content-Length: " ++ decimal n ++ CRLFCRLF)

/-- The head announces a payload of `n` bytes. -/
def Outgoing.Announces (head : Bytes) (n : ℕ) : Outgoing → Prop
  | .interleaved _ _ => ∃ chan hi lo, head = [36, chan, hi, lo] ∧ get16 hi lo = n
  | .reply _ => n = 0
  | .describe _ _ _ sdpLen => if sdpLen ≥ 0 then AnnouncesLength head n else n = 0
  | .error _ _ _ | .image | .multipart => AnnouncesLength head n

/-- What a call does to the bytes that wait: nothing, or a unit is put behind them. -/
def Outgoing.Whole (image : Option Image) (u : Outgoing) (c c' : SendBuf) : Prop :=
  c'.InRange ∧ (c'.queued = c.queued ∨ ∃ head payload, u.IsUnit image head payload ∧
    c'.queued = c.queued ++ (head ++ payload) ∧ u.Announces head payload.length)

/-- An image that `jpeg_next_frame` stored. -/
structure Image.Stored (L : Image) : Prop where
  frame : 2 ≤ L.frame.length
  lengthWithJfif : L.lengthWithJfif = L.frame.length ∨ L.lengthWithJfif = L.frame.length + 18

namespace SendBuf

section Fits

variable {c : SendBuf}

/-- A `send_data` for which there is room. -/
theorem InRange.sendData_fits (h : c.InRange) (d : ℕ → UInt8) {len : ℤ}
    (hfit : len ≤ c.availSendBuf) :
    (c.sendData d len).1.InRange ∧ (c.sendData d len).1.queued = c.queued ++ bytesOf d len ∧
      (c.sendData d len).1.availSendBuf = c.availSendBuf - len.toNat := by
  rcases h.sendData_spec d len with ⟨-, hlt⟩ | ⟨-, -, hin, hqueued, -⟩
  · omega
  · refine ⟨hin, hqueued, ?_⟩
    have havail := h.avail_add
    have havail' := hin.avail_add
    rw [← length_queued, hqueued, List.length_append, length_queued, length_bytesOf] at havail'
    push_cast at havail'
    omega

/-- Bytes for which there is room are queued as a whole. -/
theorem InRange.sendBytes_fits (h : c.InRange) {d : Bytes} (hfit : (d.length : ℤ) ≤ c.availSendBuf) :
    (c.sendBytes d).InRange ∧ (c.sendBytes d).queued = c.queued ++ d ∧
      (c.sendBytes d).availSendBuf = c.availSendBuf - d.length := by
  have hspec := h.sendData_fits (fun j => d.getD j 0) hfit
  rw [bytesOf_getD, Int.toNat_natCast] at hspec
  exact hspec

/-- The indices stay in range, whether there is room or not. -/
theorem InRange.sendBytes (h : c.InRange) (d : Bytes) : (c.sendBytes d).InRange := by
  rcases h.sendData_spec (fun j => d.getD j 0) d.length with ⟨heq, -⟩ | ⟨-, -, hin, -⟩
  · rw [SendBuf.sendBytes, heq]
    exact h
  · exact hin

/-- Buffers for which there is room. -/
theorem InRange.sendAll_fits (h : c.InRange) {v : List Bytes}
    (hfit : (v.flatten.length : ℤ) ≤ c.availSendBuf) :
    (v.foldl SendBuf.sendBytes c).InRange ∧
      (v.foldl SendBuf.sendBytes c).queued = c.queued ++ v.flatten := by
  induction v generalizing c with
  | nil => exact ⟨h, by simp⟩
  | cons d v ih =>
    rw [List.flatten_cons, List.length_append] at hfit
    push_cast at hfit
    obtain ⟨hin, hqueued, havail⟩ := h.sendBytes_fits (d := d) (by omega)
    obtain ⟨hin', hqueued'⟩ := ih hin (by omega)
    refine ⟨hin', ?_⟩
    rw [List.foldl_cons, hqueued', hqueued, List.flatten_cons, List.append_assoc]

end Fits

end SendBuf

/-- The sum of the lengths is the length of it all. -/
theorem iovecLen_eq {v : List Bytes} {len : ℤ} (h : iovecLen v = .ok len) :
    len = v.flatten.length := by
  have hloop : ∀ (v : List Bytes) (a : ℤ),
      v.foldlM (fun len d => intAdd len d.length) a = .ok len → len = a + v.flatten.length := by
    intro v
    induction v with
    | nil =>
      intro a h
      cases h
      simp
    | cons d v ih =>
      intro a h
      rw [List.foldlM_cons] at h
      obtain ⟨a', hadd, hrest⟩ := Pmsg.of_bind_ok h
      unfold intAdd at hadd
      split_ifs at hadd
      cases hadd
      rw [ih _ hrest, List.flatten_cons, List.length_append]
      push_cast
      omega
  rw [hloop v 0 h, zero_add]

section Calls

variable {image : Option Image} {c c' : SendBuf}

/-- The two bytes of a length of at most sixteen bits. -/
theorem get16_put16 {v : ℕ} (h : v < 65536) :
    ∃ hi lo, put16 v = [hi, lo] ∧ get16 hi lo = v := by
  refine ⟨_, _, rfl, ?_⟩
  simp only [get16, UInt8.toNat_ofNat']
  omega

/-- **`interleave_send`.** -/
theorem interleaveSend_whole (hc : c.InRange) {chan ret : ℤ} {v : List Bytes}
    (h : c.interleaveSend chan v = .ok (c', ret)) :
    (Outgoing.interleaved chan v).Whole image c c' := by
  unfold SendBuf.interleaveSend at h
  obtain ⟨len, hlen, h⟩ := Pmsg.of_bind_ok h
  obtain rfl := iovecLen_eq hlen
  obtain ⟨need, hneed, h⟩ := Pmsg.of_bind_ok h
  have hneed' : need = (v.flatten.length : ℤ) + 4 := by
    unfold intAdd at hneed
    split_ifs at hneed
    cases hneed
    rfl
  subst hneed'
  by_cases hfull : c.availSendBuf < (v.flatten.length : ℤ) + 4
  · rw [if_pos hfull] at h
    cases h
    exact ⟨hc, .inl rfl⟩
  rw [if_neg hfull] at h
  cases h
  -- the free space is less than the length field can hold
  have havail := hc.avail_add
  have hshort : v.flatten.length < 65536 := by omega
  obtain ⟨hi, lo, hput, hget⟩ := get16_put16 hshort
  rw [Int.toNat_natCast, hput]
  obtain ⟨hin₁, hqueued₁, havail₁⟩ :=
    hc.sendBytes_fits (d := [36, UInt8.ofInt chan, hi, lo])
      (by simp only [List.length_cons, List.length_nil]; omega)
  simp only [List.length_cons, List.length_nil] at havail₁
  obtain ⟨hin₂, hqueued₂⟩ := hin₁.sendAll_fits (v := v) (by omega)
  refine ⟨hin₂, .inr ⟨_, _, .interleaved hshort, ?_, _, hi, lo, by rw [hput], hget⟩⟩
  rw [hqueued₂, hqueued₁, hput, List.append_assoc]

/-- Lengths whose sum an `int` can hold are added up. -/
theorem interleaveSend_total (c : SendBuf) (chan : ℤ) {v : List Bytes}
    (hv : (v.flatten.length : ℤ) + 4 < 2 ^ 31) : ∃ r, c.interleaveSend chan v = .ok r := by
  have hloop : ∀ (v : List Bytes) (a : ℤ), a + v.flatten.length < 2 ^ 31 →
      v.foldlM (fun len d => intAdd len d.length) a = .ok (a + v.flatten.length) := by
    intro v
    induction v with
    | nil =>
      intro a _
      simp [pure, Except.pure]
    | cons d v ih =>
      intro a ha
      rw [List.flatten_cons, List.length_append] at ha ⊢
      push_cast at ha ⊢
      rw [List.foldlM_cons, intAdd, if_pos (by omega), ok_bind, ih _ (by omega), add_assoc]
  have hlen : iovecLen v = .ok (v.flatten.length : ℤ) := by
    rw [iovecLen, hloop v 0 (by omega), zero_add]
  unfold SendBuf.interleaveSend
  rw [hlen, ok_bind, intAdd, if_pos hv, ok_bind]
  by_cases hfull : c.availSendBuf < (v.flatten.length : ℤ) + 4
  · rw [if_pos hfull]
    exact ⟨_, rfl⟩
  · rw [if_neg hfull]
    exact ⟨_, rfl⟩

/-- The text of a response with a body ends with the length of the body. -/
theorem respText_announces {m : Pmsg} {len : ℤ} {text : Bytes} (h0 : 0 ≤ len)
    (h : m.respText len = .ok text) : AnnouncesLength text len.toNat := by
  unfold Pmsg.respText at h
  obtain ⟨protoId, -, h⟩ := Pmsg.of_bind_ok h
  split at h
  · obtain ⟨reason, -, h⟩ := Pmsg.of_bind_ok h
    obtain ⟨buf₁, -, h⟩ := Pmsg.of_bind_ok h
    obtain ⟨buf₂, -, h⟩ := Pmsg.of_bind_ok h
    rw [if_pos h0] at h
    unfold sprintf at h
    split_ifs at h
    cases h
    exact ⟨buf₂, rfl⟩
  · cases h

/-- **A response with a body.** -/
theorem sendReply_whole (hc : c.InRange) {m : Pmsg} {d : ℕ → UInt8} {len : ℤ}
    (h : c.sendReply m d len = .ok c') :
    c'.InRange ∧ (c'.queued = c.queued ∨ ∃ text, m.respText len = .ok text ∧
      c'.queued = c.queued ++ (text ++ SendBuf.bytesOf d len)) := by
  unfold SendBuf.sendReply at h
  obtain ⟨⟨c₁, ret⟩, hsend, hrest⟩ := Pmsg.of_bind_ok h
  rcases hc.tcpSendPmsg_spec hsend with ⟨rfl, rfl⟩ | ⟨rfl, hin, text, htext, hqueued, havail, hroom⟩
  · cases hrest
    exact ⟨hc, .inl rfl⟩
  · cases hrest
    have hfit : len ≤ c₁.availSendBuf := by
      by_cases h0 : 0 ≤ len
      · exact hroom h0
      · have := hin.avail_add
        have := c₁.queuedLen_lt
        have hsize : sendBufSize = 65536 := rfl
        omega
    obtain ⟨hin', hqueued', -⟩ := hin.sendData_fits d hfit
    refine ⟨hin', .inr ⟨text, htext, ?_⟩⟩
    rw [hqueued', hqueued, List.append_assoc]

/-- The flags do not matter to what is queued. -/
theorem SendBuf.InRange.setDrop (hc : c.InRange) (drop : Bool) :
    ({ c with dropAfter := drop } : SendBuf).InRange ∧
      ({ c with dropAfter := drop } : SendBuf).queued = c.queued :=
  ⟨⟨hc.sendBufR, hc.sendBufW⟩, c.queued_flags c.writeEvent drop⟩

/-- The payload of an image is as long as the image with its header. -/
theorem Image.Stored.length_payload {L : Image} (h : L.Stored) :
    (L.payload.length : ℤ) = L.lengthWithJfif := by
  have h2 := h.frame
  unfold Image.payload
  rcases h.lengthWithJfif with heq | heq
  · rw [if_neg (by omega), heq]
  · have hlen : addJfif.length = 20 := rfl
    rw [if_pos (by omega), List.length_append, List.length_drop, hlen, heq]
    omega

/-- **`send_frame_with_jfif`**, for which there is room. -/
theorem sendFrameWithJfif_fits (hc : c.InRange) {L : Image} (hL : L.Stored)
    (hfit : L.lengthWithJfif ≤ c.availSendBuf) :
    (c.sendFrameWithJfif L).InRange ∧
      (c.sendFrameWithJfif L).queued = c.queued ++ L.payload := by
  have h2 := hL.frame
  unfold SendBuf.sendFrameWithJfif Image.payload
  rcases hL.lengthWithJfif with heq | heq
  · rw [if_neg (by omega), if_neg (by omega)]
    obtain ⟨hin, hqueued, -⟩ := hc.sendBytes_fits (d := L.frame) (by omega)
    exact ⟨hin, hqueued⟩
  · rw [if_pos (by omega), if_pos (by omega)]
    have hlen : addJfif.length = 20 := rfl
    obtain ⟨hin₁, hqueued₁, havail₁⟩ := hc.sendBytes_fits (d := addJfif) (by rw [hlen]; omega)
    rw [hlen] at havail₁
    have hroom : (L.frame.length : ℤ) - 2 ≤ (c.sendBytes addJfif).availSendBuf := by omega
    obtain ⟨hin₂, hqueued₂, -⟩ := hin₁.sendData_fits (fun j => L.frame.getD (j + 2) 0) hroom
    -- the two bytes that the prefix replaces are left out
    have hdrop : SendBuf.bytesOf (fun j => L.frame.getD (j + 2) 0) ((L.frame.length : ℤ) - 2) =
        L.frame.drop 2 := by
      have hn : ((L.frame.length : ℤ) - 2).toNat = (L.frame.drop 2).length := by
        rw [List.length_drop]
        omega
      refine List.ext_getElem (by rw [SendBuf.length_bytesOf, hn]) fun j h₁ h₂ => ?_
      rw [List.length_drop] at h₂
      simp only [SendBuf.bytesOf, List.getElem_map, List.getElem_range, List.getElem_drop]
      rw [← List.getElem_eq_getD (h := by omega)]
      congr 1
      omega
    refine ⟨hin₂, ?_⟩
    rw [hqueued₂, hqueued₁, hdrop, List.append_assoc]

/-- **`send_multipart_frame`.** -/
theorem sendMultipartFrame_whole (hc : c.InRange) {L : Image} (hL : L.Stored)
    (h : c.sendMultipartFrame L = .ok c') : Outgoing.multipart.Whole (some L) c c' := by
  unfold SendBuf.sendMultipartFrame at h
  obtain ⟨need, hneed, h⟩ := Pmsg.of_bind_ok h
  have hneed' : need = L.lengthWithJfif + (multipartHead L.lengthWithJfif).length := by
    unfold intAdd at hneed
    split_ifs at hneed
    cases hneed
    rfl
  subst hneed'
  split_ifs at h with hfull
  · cases h
    exact ⟨hc, .inl rfl⟩
  cases h
  have hlen := hL.length_payload
  obtain ⟨hin₁, hqueued₁, havail₁⟩ :=
    hc.sendBytes_fits (d := multipartHead L.lengthWithJfif) (by omega)
  obtain ⟨hin₂, hqueued₂⟩ := sendFrameWithJfif_fits hin₁ hL (by omega)
  refine ⟨hin₂, .inr ⟨_, _, .multipart rfl, by rw [hqueued₂, hqueued₁, List.append_assoc], ?_⟩⟩
  refine ⟨str "--boundary\r\nContent-Type: image/jpeg\r\n", ?_⟩
  rw [show L.payload.length = L.lengthWithJfif.toNat by omega]
  unfold multipartHead
  simp only [← List.append_assoc]
  rfl

/-- **The end of `handle_GET`** for a single image. -/
theorem sendImage_whole (hc : c.InRange) {L : Image} (hL : L.Stored)
    (h : c.sendImage L = .ok c') : Outgoing.image.Whole (some L) c c' := by
  unfold SendBuf.sendImage at h
  obtain ⟨m, hm, h⟩ := Pmsg.of_bind_ok h
  obtain ⟨⟨c₁, ret⟩, hsend, hrest⟩ := Pmsg.of_bind_ok h
  obtain ⟨hin₀, hqueued₀⟩ := hc.setDrop true
  have hlen := hL.length_payload
  rcases hin₀.tcpSendPmsg_spec hsend with ⟨rfl, rfl⟩ | ⟨rfl, hin, text, htext, hqueued, havail, hroom⟩
  · cases hrest
    exact ⟨hin₀, .inl hqueued₀⟩
  · cases hrest
    obtain ⟨hin', hqueued'⟩ := sendFrameWithJfif_fits hin hL (hroom (by omega))
    refine ⟨hin', .inr ⟨text, L.payload, .image rfl hm htext, ?_, ?_⟩⟩
    · rw [hqueued', hqueued, hqueued₀, List.append_assoc]
    · rw [show L.payload.length = L.lengthWithJfif.toNat by omega]
      exact respText_announces (by omega) htext

/-- **One call.** -/
theorem Outgoing.send_whole (hc : c.InRange) (hL : ∀ L, image = some L → L.Stored) {u : Outgoing}
    (h : u.send image c = .ok c') : u.Whole image c c' := by
  cases u with
  | interleaved chan v =>
    obtain ⟨⟨c₁, ret⟩, hsend, h⟩ := Pmsg.of_bind_ok h
    cases h
    exact interleaveSend_whole hc hsend
  | reply m =>
    obtain ⟨⟨c₁, ret⟩, hsend, h⟩ := Pmsg.of_bind_ok h
    cases h
    rcases hc.tcpSendPmsg_spec hsend with ⟨-, rfl⟩ | ⟨-, hin, text, htext, hqueued, -⟩
    · exact ⟨hc, .inl rfl⟩
    · exact ⟨hin, .inr ⟨text, [], .reply htext, by rw [hqueued, List.append_nil], rfl⟩⟩
  | describe req uri sdp sdpLen =>
    obtain ⟨m, hm, h⟩ := Pmsg.of_bind_ok h
    obtain ⟨hin, hqueued | ⟨text, htext, hqueued⟩⟩ := sendReply_whole hc h
    · exact ⟨hin, .inl hqueued⟩
    refine ⟨hin, .inr ⟨text, _, .describe hm htext, hqueued, ?_⟩⟩
    change if sdpLen ≥ 0 then AnnouncesLength text _ else _ = 0
    rw [SendBuf.length_bytesOf]
    split_ifs with h0
    · exact respText_announces h0 htext
    · omega
  | error code reason t =>
    obtain ⟨m, hm, h⟩ := Pmsg.of_bind_ok h
    obtain ⟨hin₀, hqueued₀⟩ := hc.setDrop true
    obtain ⟨hin, hqueued | ⟨text, htext, hqueued⟩⟩ := sendReply_whole hin₀ h
    · exact ⟨hin, .inl (hqueued.trans hqueued₀)⟩
    rw [SendBuf.bytesOf_getD, hqueued₀] at hqueued
    refine ⟨hin, .inr ⟨text, t, .error hm htext, hqueued, ?_⟩⟩
    exact respText_announces (by omega : (0 : ℤ) ≤ t.length) htext
  | image =>
    cases image with
    | none => cases h
    | some L => exact sendImage_whole hc (hL L rfl) h
  | multipart =>
    cases image with
    | none => cases h
    | some L => exact sendMultipartFrame_whole hc (hL L rfl) h

end Calls

/-! ## Runs -/

/-- A byte that is read is there. -/
theorem frameByte_ok {d : Bytes} {i : ℕ} {b : UInt8} (h : frameByte d i = .ok b) : i < d.length := by
  unfold frameByte at h
  split at h
  · rename_i heq
    exact (List.getElem?_eq_some_iff.1 heq).1
  · cases h

/-- **`jpeg_next_frame`** stores an image that can be sent. -/
theorem nextImage_stored {d : Bytes} {L : Image} (h : nextImage d = .ok (some L)) : L.Stored := by
  unfold nextImage at h
  obtain ⟨bad, hbad, h₁⟩ := Pmsg.of_bind_ok h
  cases bad with
  | true => cases h₁
  | false =>
    -- an image that is not malformed has its first three bytes
    have hlen : 2 < d.length := by
      unfold isMalformed at hbad
      obtain ⟨b₀, -, h₀⟩ := Pmsg.of_bind_ok hbad
      split_ifs at h₀
      · cases h₀
      obtain ⟨b₁, -, h₁⟩ := Pmsg.of_bind_ok h₀
      split_ifs at h₁
      · cases h₁
      obtain ⟨b₂, hb₂, -⟩ := Pmsg.of_bind_ok h₁
      exact frameByte_ok hb₂
    obtain ⟨lacks, -, h₂⟩ := Pmsg.of_bind_ok h₁
    cases lacks with
    | false =>
      cases h₂
      exact ⟨hlen.le, .inl rfl⟩
    | true =>
      obtain ⟨len, hadd, h₃⟩ := Pmsg.of_bind_ok h₂
      cases h₃
      unfold intAdd at hadd
      split_ifs at hadd
      cases hadd
      exact ⟨hlen.le, .inr rfl⟩

/-- What is known of a location and a connection. -/
structure Outlet.Sound (s : Outlet) : Prop where
  image : ∀ L, s.image = some L → L.Stored
  conn : ∀ c, s.conn = some c → c.InRange

/-- The indices stay in range. -/
theorem handleImageGET_inRange {image : Option Image} {streaming : Bool} {c c' : SendBuf}
    (hL : ∀ L, image = some L → L.Stored) (hc : c.InRange)
    (h : handleImageGET image streaming c = .ok c') : c'.InRange := by
  unfold handleImageGET at h
  cases image with
  | none => exact (Outgoing.send_whole hc hL h).1
  | some L =>
    obtain ⟨need, -, h₁⟩ := Pmsg.of_bind_ok h
    split_ifs at h₁
    · exact (Outgoing.send_whole hc hL h₁).1
    · obtain ⟨m, -, h₂⟩ := Pmsg.of_bind_ok h₁
      obtain ⟨c₁, hc₁, h₃⟩ := Pmsg.of_bind_ok h₂
      exact (Outgoing.send_whole (Outgoing.send_whole hc hL hc₁).1 hL h₃).1
    · exact (Outgoing.send_whole hc hL h₁).1

/-- One call keeps what is known. -/
theorem Outlet.Sound.step {s s' : Outlet} {a : OutletAct} {o : List Bytes} (h : s.Sound)
    (hs : outletStep s a = .ok (s', o)) : s'.Sound := by
  have hconn : ∀ {c : Option SendBuf}, (∀ c', c = some c' → c'.InRange) →
      Outlet.Sound { s with conn := c } := fun hc => ⟨h.image, hc⟩
  cases a with
  | frame d =>
    obtain ⟨o, ho, hs'⟩ := Pmsg.of_bind_ok hs
    cases o with
    | none =>
      cases hs'
      exact h
    | some L =>
      cases hs'
      refine ⟨fun L' hL' => ?_, h.conn⟩
      cases hL'
      exact nextImage_stored ho
  | send u =>
    unfold outletStep at hs
    cases hc : s.conn with
    | none =>
      rw [hc] at hs
      cases hs
      exact h
    | some c =>
      rw [hc] at hs
      obtain ⟨c₁, hc₁, hs'⟩ := Pmsg.of_bind_ok hs
      cases hs'
      refine hconn fun c' hc' => ?_
      cases hc'
      exact (Outgoing.send_whole (h.conn c hc) h.image hc₁).1
  | get streaming =>
    unfold outletStep at hs
    cases hc : s.conn with
    | none =>
      rw [hc] at hs
      cases hs
      exact h
    | some c =>
      rw [hc] at hs
      obtain ⟨c₁, hc₁, hs'⟩ := Pmsg.of_bind_ok hs
      cases hs'
      refine hconn fun c' hc' => ?_
      cases hc'
      exact handleImageGET_inRange h.image (h.conn c hc) hc₁
  | connWrite rs =>
    unfold outletStep at hs
    cases hc : s.conn with
    | none =>
      rw [hc] at hs
      cases hs
      exact h
    | some c =>
      rw [hc] at hs
      cases hs
      refine hconn fun c' hc' => ?_
      exact (((h.conn c hc).connWrite_spec rs).kept c' hc').1
  | dropAfter =>
    unfold outletStep at hs
    cases hc : s.conn with
    | none =>
      rw [hc] at hs
      cases hs
      exact h
    | some c =>
      rw [hc] at hs
      cases hs
      refine hconn fun c' hc' => ?_
      cases hc'
      exact ((h.conn c hc).setDrop true).1

/-- What is known in every state reached. -/
theorem outlet_sound {as : List OutletAct} {os : List Bytes} {s : Outlet}
    (h : Machine.Run outletMachine Machine.anyStep as os s) : s.Sound := by
  refine h.invariant Outlet.Sound ?_ fun s a s' o hs _ hstep => hs.step hstep
  rintro s ⟨himage, mem, hconn⟩
  refine ⟨fun L hL => ?_, fun c hc => ?_⟩
  · rw [himage] at hL
    cases hL
  · rw [hconn] at hc
    cases hc
    exact ⟨Nat.zero_lt_succ _, Nat.zero_lt_succ _⟩

/-- **Units are queued whole.** Whatever was sent before and however much of it was written: a
packet, a response with its body, or an image is queued as it is or not at all, and its head
announces as many bytes as follow it. -/
theorem units_whole {as : List OutletAct} {os : List Bytes} {s : Outlet}
    (h : Machine.Run outletMachine Machine.anyStep as os s) {c c' : SendBuf}
    (hc : s.conn = some c) (u : Outgoing) (hu : u.send s.image c = .ok c') :
    c'.queued = c.queued ∨ ∃ head payload, u.IsUnit s.image head payload ∧
      c'.queued = c.queued ++ (head ++ payload) ∧ u.Announces head payload.length := by
  have hs := outlet_sound h
  exact (Outgoing.send_whole (hs.conn c hc) hs.image hu).2

/-- A frame without a JFIF header is queued with one. -/
theorem units_whole_multipart :
    ∃ os s c c', Machine.Run outletMachine Machine.anyStep [.frame [0xff, 0xd8, 0xff, 0xdb]] os s ∧
      s.conn = some c ∧ Outgoing.multipart.send s.image c = .ok c' ∧ ∃ head payload,
        Outgoing.multipart.IsUnit s.image head payload ∧
        c'.queued = c.queued ++ (head ++ payload) ∧
        Outgoing.multipart.Announces head payload.length := by
  have hinit : outletMachine.Init ⟨none, some (.accepted fun _ => 0)⟩ := ⟨rfl, _, rfl⟩
  have hrun : Machine.Run outletMachine Machine.anyStep [.frame [0xff, 0xd8, 0xff, 0xdb]] []
      ⟨some ⟨[0xff, 0xd8, 0xff, 0xdb], 22⟩, some (.accepted fun _ => 0)⟩ :=
    (Machine.Run.init hinit).step trivial rfl
  have hsend : (Outgoing.multipart.send (some ⟨[0xff, 0xd8, 0xff, 0xdb], 22⟩)
      (.accepted fun _ => 0)).toOption.map (fun c => decide (c.queued = [])) = some false := by
    decide +kernel
  rcases hc' : Outgoing.multipart.send (some ⟨[0xff, 0xd8, 0xff, 0xdb], 22⟩) (.accepted fun _ => 0)
    with f | c'
  · rw [hc'] at hsend
    cases hsend
  · rw [hc'] at hsend
    have hqueued : c'.queued ≠ [] := of_decide_eq_false (Option.some.inj hsend)
    refine ⟨_, _, _, c', hrun, rfl, hc', (units_whole hrun rfl _ hc').resolve_left fun heq => ?_⟩
    exact hqueued (heq.trans rfl)

/-! ## The server -/

section Holds

variable {cid : ℕ} {s : Server} {C : Conn} {c c' : SendBuf}

/-- The indices of the connection `cid` are those of the buffer. -/
def HoldsAt (cid : ℕ) (c : SendBuf) (s : Server) : Prop := ∃ C, s.conns cid = some C ∧ C.Holds c

/-- What two buffers with the same indices and flags have in common. -/
theorem Conn.Holds.congr (h : C.Holds c) (hr : c'.sendBufR = c.sendBufR)
    (hw : c'.sendBufW = c.sendBufW) (hd : c'.dropAfter = c.dropAfter) : C.Holds c' :=
  ⟨h.sendBufR.trans hr.symm, h.sendBufW.trans hw.symm, h.dropAfter.trans hd.symm⟩

/-- The indices behind a `send_data` for which there is room. -/
theorem SendBuf.InRange.sendData_indices (hin : c.InRange) (d : ℕ → UInt8) {len : ℤ}
    (hfit : len ≤ c.availSendBuf) :
    (c.sendData d len).1.sendBufR = c.sendBufR ∧
      (c.sendData d len).1.sendBufW = (c.sendBufW + len.toNat) % sendBufSize ∧
      (c.sendData d len).1.dropAfter = c.dropAfter := by
  have hsame := c.putBytes_same (SendBuf.bytesOf d len)
  unfold SendBuf.sendData
  rw [if_neg (by omega)]
  refine ⟨hsame.1, ?_, hsame.2⟩
  dsimp only
  rw [hin.putBytes_sendBufW, SendBuf.length_bytesOf]

/-- The indices behind buffers for which there is room. -/
theorem SendBuf.InRange.sendAll_indices (hin : c.InRange) {v : List Bytes}
    (hfit : (v.flatten.length : ℤ) ≤ c.availSendBuf) :
    (v.foldl SendBuf.sendBytes c).sendBufR = c.sendBufR ∧
      (v.foldl SendBuf.sendBytes c).sendBufW =
        (c.sendBufW + v.flatten.length) % sendBufSize ∧
      (v.foldl SendBuf.sendBytes c).dropAfter = c.dropAfter := by
  induction v generalizing c with
  | nil => exact ⟨rfl, (Nat.mod_eq_of_lt hin.sendBufW).symm, rfl⟩
  | cons d v ih =>
    rw [List.flatten_cons, List.length_append] at hfit ⊢
    push_cast at hfit
    obtain ⟨hin₁, -, havail⟩ := hin.sendBytes_fits (d := d) (by omega)
    obtain ⟨hr, hw, hd⟩ := hin.sendData_indices (fun j => d.getD j 0)
      (by omega : (d.length : ℤ) ≤ c.availSendBuf)
    obtain ⟨hr', hw', hd'⟩ := ih hin₁ (by omega)
    refine ⟨hr'.trans hr, hw'.trans ?_, hd'.trans hd⟩
    rw [show (c.sendBytes d).sendBufW = (c.sendBufW + (d.length : ℤ).toNat) % sendBufSize from hw,
      Nat.mod_add_mod, Int.toNat_natCast, Nat.add_assoc]

/-- Where the indices go does not depend on what is sent. -/
theorem Conn.Holds.of_sendData (d d' : ℕ → UInt8) {len : ℤ} (hin : c.InRange)
    (h : C.Holds (c.sendData d len).1) : C.Holds (c.sendData d' len).1 := by
  by_cases hfull : c.availSendBuf < len
  · rw [SendBuf.sendData, if_pos hfull] at h ⊢
    exact h
  · obtain ⟨hr, hw, hd⟩ := hin.sendData_indices d (by omega : len ≤ c.availSendBuf)
    obtain ⟨hr', hw', hd'⟩ := hin.sendData_indices d' (by omega : len ≤ c.availSendBuf)
    exact h.congr (hr'.trans hr.symm) (hw'.trans hw.symm) (hd'.trans hd.symm)

/-- `send_data` of the server. -/
theorem wp_modifyConn_holds (hC : HoldsAt cid c s) (hin : c.InRange) (d : ℕ → UInt8) (len : ℕ) :
    wp (modifyConn cid fun C => (C.sendData len).1)
      (fun _ s' => HoldsAt cid (c.sendData d len).1 s' ∧ s'.httpLocs = s.httpLocs)
      (fun _ => False) s := by
  obtain ⟨C, hC, h⟩ := hC
  rw [wp_modifyConn]
  refine ⟨fun C' hC' => ?_, fun hn => by rw [hC] at hn; cases hn⟩
  obtain rfl : C = C' := Option.some.inj (hC.symm.trans hC')
  exact ⟨⟨_, Function.update_self .., (h.sendData hin d len).1⟩, rfl⟩

/-- `send_data` of the connection does what `send_data` of its buffer does. -/
theorem wp_sendData_holds (hC : HoldsAt cid c s) (hin : c.InRange) (d : Bytes) :
    wp (sendData cid d)
      (fun _ s' => HoldsAt cid (c.sendBytes d) s' ∧ s'.httpLocs = s.httpLocs) (fun _ => False) s := by
  obtain ⟨C, hC', h⟩ := hC
  unfold sendData
  rw [wp_bind, wp_getConn]
  refine ⟨fun _ _ => ?_, fun hn => by rw [hC'] at hn; cases hn⟩
  rw [wp_bind]
  exact (wp_modifyConn_holds ⟨C, hC', h⟩ hin (fun j => d.getD j 0) d.length).mono
    (fun _ _ hs => hs) fun _ hf => hf

/-- `interleave_send` of the server does what `interleave_send` does. -/
theorem wp_interleaveSend_holds (hC : HoldsAt cid c s) (hin : c.InRange) {chan ret : ℤ}
    {v : List Bytes} (h : c.interleaveSend chan v = .ok (c', ret)) :
    wp (interleaveSend cid v.flatten.length) (fun r s' => r = ret ∧ HoldsAt cid c' s')
      (fun _ => False) s := by
  unfold SendBuf.interleaveSend at h
  obtain ⟨len, hlen, h₁⟩ := Pmsg.of_bind_ok h
  obtain rfl := iovecLen_eq hlen
  obtain ⟨need, hneed, h₂⟩ := Pmsg.of_bind_ok h₁
  have hneed' : need = (v.flatten.length : ℤ) + 4 := by
    unfold intAdd at hneed
    split_ifs at hneed
    cases hneed
    rfl
  subst hneed'
  obtain ⟨C, hC', hh⟩ := hC
  have havail := hh.availSendBuf hin
  unfold interleaveSend
  rw [wp_bind, wp_getConn]
  refine ⟨fun C₁ hC₁ => ?_, fun hn => by rw [hC'] at hn; cases hn⟩
  obtain rfl : C = C₁ := Option.some.inj (hC'.symm.trans hC₁)
  rw [wp_ite]
  by_cases hfull : c.availSendBuf < (v.flatten.length : ℤ) + 4
  · rw [if_pos hfull] at h₂
    cases h₂
    exact ⟨fun _ => ⟨rfl, C, hC', hh⟩, fun hn => absurd hfull (by omega)⟩
  rw [if_neg hfull] at h₂
  cases h₂
  refine ⟨fun hn => absurd hn (by omega), fun _ => ?_⟩
  rw [wp_bind]
  have h4 : (36 :: UInt8.ofInt chan :: put16 (v.flatten.length : ℤ).toNat).length = 4 := rfl
  obtain ⟨hin₁, -, havail₁⟩ := hin.sendBytes_fits
    (d := 36 :: UInt8.ofInt chan :: put16 (v.flatten.length : ℤ).toNat) (by rw [h4]; omega)
  rw [h4] at havail₁
  refine (wp_modifyConn_holds ⟨C, hC', hh⟩ hin
    (fun j => (36 :: UInt8.ofInt chan :: put16 (v.flatten.length : ℤ).toNat).getD j 0) 4).mono
    (fun _ s₁ hs₁ => ?_) fun _ hf => hf
  rw [wp_bind]
  refine (wp_modifyConn_holds hs₁.1 hin₁ (fun _ => 0) v.flatten.length).mono (fun _ s₂ hs₂ => ?_)
    fun _ hf => hf
  -- one `send_data` of all the buffers moves the indices as far as one of each
  obtain ⟨C₂, hC₂, hh₂⟩ := hs₂.1
  obtain ⟨hr, hw, hd⟩ := hin₁.sendAll_indices (v := v) (by omega)
  obtain ⟨hr', hw', hd'⟩ := hin₁.sendData_indices (fun _ => 0)
    (by omega : (v.flatten.length : ℤ) ≤ _)
  exact ⟨rfl, C₂, hC₂, hh₂.congr (hr.trans hr'.symm)
    (hw.trans hw'.symm) (hd.trans hd'.symm)⟩

/-- `tcp_send_pmsg` of the server does what `tcp_send_pmsg` does. -/
theorem wp_sendPmsgText_holds (hC : HoldsAt cid c s) (hin : c.InRange) {m : Pmsg} {text : Bytes}
    {len : ℕ} {ret : ℤ} (htype : m.type = .resp) (htext : m.respText len = .ok text)
    (h : c.tcpSendPmsg m len = .ok (c', ret)) :
    wp (sendPmsgText cid text len) (fun r s' => r = ret ∧ HoldsAt cid c' s') (fun _ => False) s := by
  unfold SendBuf.tcpSendPmsg at h
  rw [if_neg (by rw [htype]; simp), htext, ok_bind] at h
  obtain ⟨totlen, htot, h₁⟩ := Pmsg.of_bind_ok h
  have htot' : totlen = (text.length : ℤ) + len := by
    unfold totalLen intAdd at htot
    split_ifs at htot
    · cases htot
      rfl
    · omega
  subst htot'
  obtain ⟨C, hC', hh⟩ := hC
  have havail := hh.availSendBuf hin
  unfold sendPmsgText
  rw [wp_bind, wp_getConn]
  refine ⟨fun C₁ hC₁ => ?_, fun hn => by rw [hC'] at hn; cases hn⟩
  obtain rfl : C = C₁ := Option.some.inj (hC'.symm.trans hC₁)
  rw [wp_ite]
  by_cases hfull : c.availSendBuf < (text.length : ℤ) + len
  · rw [if_pos hfull] at h₁
    cases h₁
    exact ⟨fun _ => ⟨rfl, C, hC', hh⟩, fun hn => absurd hfull (by omega)⟩
  · rw [if_neg hfull] at h₁
    cases h₁
    refine ⟨fun hn => absurd hn (by omega), fun _ => ?_⟩
    rw [wp_bind]
    exact (wp_sendData_holds ⟨C, hC', hh⟩ hin text).mono (fun _ _ hs => ⟨rfl, hs.1⟩) fun _ hf => hf

/-- `send_frame_with_jfif` of the server does what `send_frame_with_jfif` does. -/
theorem wp_sendFrameWithJfif_holds {l lwj : ℕ} {frame : Bytes} (hC : HoldsAt cid c s)
    (hin : c.InRange) (hframe : (s.httpLocs l).frame = some frame)
    (hlwj : (s.httpLocs l).lengthWithJfif = lwj) (hL : (Image.mk frame lwj).Stored) :
    wp (sendFrameWithJfif l cid)
      (fun _ s' => HoldsAt cid (c.sendFrameWithJfif ⟨frame, lwj⟩) s') (fun _ => False) s := by
  have h2 := hL.frame
  dsimp only at h2
  unfold sendFrameWithJfif locFrame SendBuf.sendFrameWithJfif
  simp only [wp_bind, wp_get, wp_found, hframe, Option.some.injEq, forall_eq', reduceCtorEq,
    false_imp_iff, and_true, hlwj, wp_ite]
  constructor
  · intro hgt
    rw [if_pos (by omega)]
    refine (wp_sendData_holds hC hin (List.replicate 20 0)).mono (fun _ s₁ hs₁ => ?_) fun _ hf => hf
    obtain ⟨C₁, hC₁, hh₁⟩ := hs₁.1
    have hdrop : ((frame.drop 2).length : ℤ) = (frame.length : ℤ) - 2 := by
      rw [List.length_drop]
      omega
    refine (wp_sendData_holds ⟨C₁, hC₁, hh₁.of_sendData _ (fun j => addJfif.getD j 0) hin⟩
      (hin.sendBytes addJfif) (frame.drop 2)).mono (fun _ s₂ hs₂ => ?_) fun _ hf => hf
    obtain ⟨C₂, hC₂, hh₂⟩ := hs₂.1
    rw [SendBuf.sendBytes, hdrop] at hh₂
    exact ⟨C₂, hC₂, hh₂.of_sendData _ _ (hin.sendBytes addJfif)⟩
  · intro hle
    rw [if_neg (by omega)]
    exact (wp_sendData_holds hC hin frame).mono (fun _ _ hs => hs.1) fun _ hf => hf

/-- `send_multipart_frame` of the server does what `send_multipart_frame` does. -/
theorem wp_sendMultipartFrame_holds {l lwj : ℕ} {frame : Bytes} (hC : HoldsAt cid c s)
    (hin : c.InRange) (hframe : (s.httpLocs l).frame = some frame)
    (hlwj : (s.httpLocs l).lengthWithJfif = lwj) (hL : (Image.mk frame lwj).Stored)
    (h : c.sendMultipartFrame ⟨frame, lwj⟩ = .ok c') :
    wp (sendMultipartFrame l cid) (fun _ s' => HoldsAt cid c' s') (fun _ => False) s := by
  unfold SendBuf.sendMultipartFrame at h
  obtain ⟨need, hneed, h₁⟩ := Pmsg.of_bind_ok h
  have hneed' : need = (lwj : ℤ) + (multipartHead lwj).length := by
    unfold intAdd at hneed
    split_ifs at hneed
    cases hneed
    rfl
  subst hneed'
  obtain ⟨C, hC', hh⟩ := hC
  have havail := hh.availSendBuf hin
  unfold sendMultipartFrame
  rw [wp_bind, wp_get, hlwj]
  dsimp only
  rw [wp_bind, wp_getConn]
  refine ⟨fun C₁ hC₁ => ?_, fun hn => by rw [hC'] at hn; cases hn⟩
  obtain rfl : C = C₁ := Option.some.inj (hC'.symm.trans hC₁)
  rw [wp_ite]
  by_cases hfull : c.availSendBuf < (lwj : ℤ) + (multipartHead lwj).length
  · rw [if_pos hfull] at h₁
    cases h₁
    refine ⟨fun _ => ⟨C, hC', hh⟩, fun hn => absurd hn ?_⟩
    rw [not_not]
    change C.availSendBuf < lwj + (multipartHead lwj).length
    omega
  · rw [if_neg hfull] at h₁
    cases h₁
    refine ⟨fun hn => absurd hn ?_, fun _ => ?_⟩
    · change ¬ C.availSendBuf < lwj + (multipartHead lwj).length
      omega
    · rw [wp_bind]
      refine (wp_sendData_holds ⟨C, hC', hh⟩ hin (multipartHead lwj)).mono (fun _ s₁ hs₁ => ?_)
        fun _ hf => hf
      exact wp_sendFrameWithJfif_holds hs₁.1 (hin.sendBytes _) (by rw [hs₁.2]; exact hframe)
        (by rw [hs₁.2]; exact hlwj) hL

end Holds

end Spook
