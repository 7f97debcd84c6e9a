import Spook.Rtp.Mpeg4.Basic

set_option relaxedAutoImplicit false
set_option autoImplicit false

/-!
# MPEG video

`rtp-mpv.c`: a frame is cut at its start codes; the video sequence header is stored, and what follows
the first group or picture header is queued as blocks. The blocks are packed together behind a header
of four bytes, and a block that is longer than a packet is sent in fragments.

`find_next_code` and `get_field` have the text that they have in `rtp-mpeg4.c`. A frame is read
through a `FrameMemory`; a pointer into it is an offset. An `int` is represented by its 32 bits where
the code only tests it for a value or for bits.

## Main definitions

* `Spook.RtpMpv` — `struct rtp_mpv`.
* `Spook.mpvProcessFrame` — a frame.
* `Spook.mpvSend` — sending.
-/

namespace Spook

/-- An entry of `blk`, which points into the frame. -/
structure MpvBlock where
  d : ℕ
  len : ℕ
  deriving DecidableEq

/-- `struct rtp_mpv`, with `blk_count` entries of `blk` and `vsh_len` bytes of `vsh`. -/
structure RtpMpv where
  blk : List MpvBlock
  temporalReference : ℕ
  pictureType : ℕ
  vectors : ℕ
  vsh : Bytes
  initDone : Bool
  tsIncr : ℕ
  timestamp : ℕ
  deriving DecidableEq

/-- The number of entries of `blk`. -/
def mpvBlkSize : ℕ := 48

/-- The size of `vsh`. -/
def mpvVshSize : ℕ := 4096

/-- `frame_rate_tab`. -/
def frameRateTab : List (ℕ × ℕ) :=
  [(0, 0), (1001, 24000), (1, 24), (1, 25), (1001, 30000), (1, 30), (1, 50), (1001, 60000), (1, 60),
    (0, 0), (0, 0), (0, 0), (0, 0), (0, 0), (0, 0), (0, 0)]

/-! ## Reading -/

/-- `find_next_code`. -/
def mpvFindNextCode (mem : FrameMemory) (d len : ℕ) : Except Fault ℕ := findNextCode mem d len

/-- `get_field`. -/
def mpvGetField (mem : FrameMemory) (d bits offset : ℕ) : Except Fault (ℕ × ℕ) :=
  getField mem d bits offset

/-- `parse_video_sequence_header`. -/
def parseVideoSequenceHeader (mem : FrameMemory) (out : RtpMpv) (d : ℕ) : Except Fault RtpMpv := do
  let (frc, _) ← mpvGetField mem d 4 (32 + 12 + 12 + 4)
  let (num, den) := frameRateTab.getD frc (0, 0)
  if den = 0 then .error .divZero
  else return { out with tsIncr := 90000 * num / den, initDone := true }

/-- The fields `FFV`, `FFC`, `FBV` and `BFC` of `parse_picture_header`. -/
def pictureVectors (mem : FrameMemory) (pictureType d len off : ℕ) : Except Fault ℕ :=
  if pictureType = 2 ∨ pictureType = 3 then do
    let (ffv, off) ← mpvGetField mem d 1 off
    if 8 < len then
      let (ffc, off) ← mpvGetField mem d 3 off
      if pictureType = 3 then
        let (fbv, off) ← mpvGetField mem d 1 off
        let (bfc, _) ← mpvGetField mem d 3 off
        return ffv <<< 3 ||| ffc ||| fbv <<< 7 ||| bfc <<< 4
      else return ffv <<< 3 ||| ffc
    else
      let (ffc, _) ← mpvGetField mem d 2 off
      return ffv <<< 3 ||| ffc <<< 1
  else .ok 0

/-- `parse_picture_header`. -/
def parsePictureHeader (mem : FrameMemory) (out : RtpMpv) (d len : ℕ) : Except Fault RtpMpv :=
  if out.initDone then do
    let (temporalReference, off) ← mpvGetField mem d 10 32
    let (pictureType, off) ← mpvGetField mem d 3 off
    let vectors ← pictureVectors mem pictureType d len (off + 16)
    return { out with timestamp := (out.timestamp + out.tsIncr) % 2 ^ 32, temporalReference,
                      pictureType, vectors }
  else .ok out

/-! ## Frames -/

/-- The `memcpy` into `vsh`. -/
def addToVsh (mem : FrameMemory) (out : RtpMpv) (d len : ℕ) : Except Fault RtpMpv :=
  if mpvVshSize < out.vsh.length + len then .error .overrun
  else do
    let bs ← mem.bytes d len
    return { out with vsh := out.vsh ++ bs }

/-- A part of the frame behind the first group or picture header. -/
def mpvPicturePart (mem : FrameMemory) (out : RtpMpv) (startCode d len : ℕ) : Except Fault RtpMpv := do
  let out ← if startCode = 0x100 then parsePictureHeader mem out d len else .ok out
  return { out with blk := out.blk ++ [⟨d, len⟩] }

/-- A part of the frame before the first group or picture header, with the new `have_vsh`. -/
def mpvHeaderPart (mem : FrameMemory) (out : RtpMpv) (haveVsh : Bool) (startCode d len : ℕ) :
    Except Fault (RtpMpv × Bool) := do
  if startCode = 0x1B3 then
    let out ← parseVideoSequenceHeader mem { out with vsh := [] } d
    return (← addToVsh mem out d len, true)
  else if haveVsh then return (← addToVsh mem out d len, true)
  else return (out, false)

/-- The loop of `mpv_process_frame`, at most `n` times, over a frame of `length` bytes. -/
def mpvParts (mem : FrameMemory) (length n : ℕ) (out : RtpMpv) (inPicture haveVsh : Bool)
    (start : ℕ) : Except Fault RtpMpv :=
  match n with
  | 0 => .error .loop
  | n + 1 =>
    if start < length then
      if out.blk.length = mpvBlkSize then .ok out
      else do
        let flen ← mpvFindNextCode mem start (length - start)
        let flen := if flen = 0 then length - start else flen
        let startCode ← mem.get32 start
        if inPicture ∨ startCode ≤ 0x1AF ∨ startCode = 0x1B8 then
          let out ← mpvPicturePart mem out startCode start flen
          mpvParts mem length n out true haveVsh (start + flen)
        else
          let (out, haveVsh) ← mpvHeaderPart mem out haveVsh startCode start flen
          mpvParts mem length n out false haveVsh (start + flen)
    else .ok out

/-- `mpv_process_frame`. -/
def mpvProcessFrame (mem : FrameMemory) (f : MediaFrame) (out : RtpMpv) :
    Except Fault (RtpMpv × ℤ) := do
  let out ← mpvParts mem f.d.length (f.d.length + 1) { out with blk := [] } false false 0
  return (out, if out.initDone then 1 else 0)

/-- `new_rtp_media_mpv`. The other fields hold what `malloc` left there. -/
def newRtpMediaMpv (left : RtpMpv) : RtpMpv := { left with initDone := false, timestamp := 0 }

/-! ## Sending -/

/-- Whether the start code of a block is that of a slice, by its last byte. -/
def isSlice (code : UInt8) : Bool := 0 < code && code ≤ 0xAF

/-- The locals of `mpv_send`: `vhdr[2]`, `space`, and the entries of `v` from `2` to `j - 1`. -/
structure MpvCursor where
  vhdr2 : UInt8
  space : ℤ
  v : List Bytes

section Send

variable (mem : FrameMemory) (maxDataSize : ℤ) (out : RtpMpv)

/-- The number of entries of the local array `v`. -/
def mpvVSize : ℕ := 48

/-- `vhdr`, with its third byte. -/
def mpvVhdr (vhdr2 : UInt8) : Bytes :=
  [UInt8.ofNat (out.temporalReference / 256), UInt8.ofNat out.temporalReference, vhdr2,
    UInt8.ofNat out.vectors]

/-- A packet of `vhdr` and some entries of `v`. -/
def mpvPacket (vhdr2 : UInt8) (v : List Bytes) (marker : Bool) : RtpPacket :=
  ⟨mpvVhdr out vhdr2 ++ v.flatten, out.timestamp, marker⟩

/-- The locals behind a packet. -/
def MpvCursor.reset : MpvCursor := ⟨UInt8.ofNat out.pictureType, maxDataSize - 4, []⟩

/-- The locals before the loop: an I frame begins with the stored sequence header. -/
def MpvCursor.start : MpvCursor :=
  if out.pictureType = 1 then
    ⟨UInt8.ofNat out.pictureType ||| 0x20, maxDataSize - 4 - out.vsh.length, [out.vsh]⟩
  else .reset maxDataSize out

variable (σ : Type) (send : RtpSend σ)

/-- The fragments of a block behind the first, at most `n`, with whether all were sent. `last` says
that it is the last block. -/
def mpvFragments (n : ℕ) (e : Bytes) (off : ℕ) (last : Bool) (s : σ) : Except Fault (σ × Bool) :=
  match n with
  | 0 => .error .loop
  | n + 1 =>
    if off < e.length then
      let whole : Bool := e.length - off ≤ sizeT (maxDataSize - 4)
      let part := if whole then e.drop off else (e.drop off).take (sizeT (maxDataSize - 4))
      let vhdr2 := if whole then UInt8.ofNat out.pictureType ||| 0x08 else UInt8.ofNat out.pictureType
      let (s, ret) := send (mpvPacket out vhdr2 [part] (vhdr2 &&& 0x08 ≠ 0 && last)) s
      if ret < 0 then .ok (s, false)
      else mpvFragments n e (off + part.length) last s
    else .ok (s, true)

/-- The test of `min_space`, with the locals behind it unless the packet cannot be sent. -/
def mpvMakeRoom (len : ℕ) (cur : MpvCursor) (s : σ) : σ × Option MpvCursor :=
  if cur.space < (if maxDataSize - 4 < len then 4 else (len : ℤ)) then
    let (s, ret) := send (mpvPacket out cur.vhdr2 cur.v false) s
    if ret < 0 then (s, none) else (s, some (.reset maxDataSize out))
  else (s, some cur)

/-- A block is added to the packet, with the locals behind it unless a packet cannot be sent. -/
def mpvAddBlock (b : MpvBlock) (last : Bool) (cur : MpvCursor) (s : σ) :
    Except Fault (σ × Option MpvCursor) :=
  if mpvVSize ≤ cur.v.length + 2 then .error .overrun
  else do
    let e ← mem.bytes b.d b.len
    let code ← mem (b.d + 3)
    let vhdr2 := if isSlice code then cur.vhdr2 ||| 0x10 else cur.vhdr2
    if e.length ≤ sizeT cur.space then
      return (s, some ⟨if isSlice code then vhdr2 ||| 0x08 else vhdr2, cur.space - e.length,
        cur.v ++ [e]⟩)
    else
      let part := e.take (sizeT cur.space)
      let (s, ret) := send (mpvPacket out (vhdr2 &&& ~~~0x08) (cur.v ++ [part]) false) s
      if ret < 0 then return (s, none)
      else
        let (s, sent) ← mpvFragments maxDataSize out σ send (e.length + 1) e part.length last s
        return (s, if sent then some (.reset maxDataSize out) else none)

/-- The loop of `mpv_send` over the blocks that are left, and what follows it. -/
def mpvSendLoop (rest : List MpvBlock) (cur : MpvCursor) (s : σ) : Except Fault (σ × ℤ) :=
  match rest with
  | [] =>
    if cur.v = [] then .ok (s, 0)
    else
      let (s, ret) := send (mpvPacket out cur.vhdr2 cur.v true) s
      if ret < 0 then .ok (s, -1) else .ok (s, 0)
  | b :: rest =>
    match mpvMakeRoom maxDataSize out σ send b.len cur s with
    | (s, none) => .ok (s, -1)
    | (s, some cur) => do
      match ← mpvAddBlock mem maxDataSize out σ send b rest.isEmpty cur s with
      | (s, none) => return (s, -1)
      | (s, some cur) => mpvSendLoop rest cur s

/-- `mpv_send`. -/
def mpvSend (s : σ) : Except Fault (σ × ℤ) :=
  mpvSendLoop mem maxDataSize out σ send out.blk (.start maxDataSize out) s

end Send

end Spook
