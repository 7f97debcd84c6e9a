import Spook.Rtp.Media
import Spook.Lib.Hex
import Mathlib.Algebra.Order.Ring.Int
import Mathlib.Data.Nat.Size

set_option relaxedAutoImplicit false
set_option autoImplicit false

/-!
# MPEG-4

`rtp-mpeg4.c`: a frame is cut at its start codes, the units that describe the stream are collected
for the session description, and the units are queued for sending.

A frame is read through a `FrameMemory`; a pointer into it is an offset. A local variable that is
only logged is left out.

## Main definitions

* `Spook.RtpMpeg4` — `struct rtp_mpeg4`.
* `Spook.getField`, `findNextCode` — reading a frame.
* `Spook.addToRtpBuf`, `addToConfig`, `finishConfig` — what is stored.
* `Spook.parseMpeg4Frame`, `mpeg4ProcessFrame` — a unit and a frame.
* `Spook.mpeg4Send` — sending.
-/

namespace Spook

/-- An entry of `iov`, which points into the frame. -/
structure Mpeg4Element where
  base : ℕ
  len : ℕ
  deriving DecidableEq

/-- `struct rtp_mpeg4`, with `iov_count` entries of `iov` and `config_len` bytes of `config`. -/
structure RtpMpeg4 where
  iov : List Mpeg4Element
  config : Bytes
  pali : ℕ
  fmtp : Bytes
  initDone : Bool
  tsIncr : ℤ
  vopTimeIncrementResolution : ℕ
  vopTimeIncrement : ℕ
  vtirBitlen : ℕ
  timestamp : ℕ
  deriving DecidableEq

/-! ## Storing -/

/-- `add_to_rtp_buf`. -/
def addToRtpBuf (out : RtpMpeg4) (d len : ℕ) : RtpMpeg4 :=
  if out.iov.length = 24 then out else { out with iov := out.iov ++ [⟨d, len⟩] }

/-- The size of `config`. -/
def configSize : ℕ := 512

/-- The size of `fmtp`. -/
def fmtpSize : ℕ := 600

/-- `add_to_config`. -/
def addToConfig (mem : FrameMemory) (out : RtpMpeg4) (d len : ℕ) : Except Fault RtpMpeg4 :=
  if configSize < out.config.length + len then .ok out
  else do
    let bs ← mem.bytes d len
    return { out with config := out.config ++ bs }

/-- The call of `add_to_config` behind the test of `config_len`. -/
def addToStartedConfig (mem : FrameMemory) (out : RtpMpeg4) (d len : ℕ) : Except Fault RtpMpeg4 :=
  if out.config ≠ [] then addToConfig mem out d len else .ok out

/-- What `finish_config` prints. -/
def fmtpText (pali : ℕ) (config : Bytes) : Bytes :=
  str "profile-level-id=" ++ decimal pali ++ str ";config=" ++ hexDump config

/-- `finish_config`. The text is followed by a NUL. -/
def finishConfig (out : RtpMpeg4) : Except Fault RtpMpeg4 :=
  if fmtpSize < (fmtpText out.pali out.config).length + 1 then .error .overrun
  else .ok { out with fmtp := fmtpText out.pali out.config, config := [], initDone := true }

/-! ## Reading -/

/-- The loop of `get_field`, at most `n` times, when `left` bits are left. -/
def getFieldLoop (mem : FrameMemory) (d : ℕ) (n left v offset : ℕ) : Except Fault (ℕ × ℕ) :=
  match n with
  | 0 => if left = 0 then .ok (v, offset) else .error .loop
  | n + 1 =>
    if left = 0 then .ok (v, offset)
    else if 8 ≤ left ∧ offset % 8 = 0 then do
      let b ← mem (d + offset / 8)
      getFieldLoop mem d n (left - 8) ((256 * v + b.toNat) % 2 ^ 32) (offset + 8)
    else do
      let b ← mem (d + offset / 8)
      getFieldLoop mem d n (left - 1)
        ((2 * v + b.toNat / 2 ^ (7 - offset % 8) % 2) % 2 ^ 32) (offset + 1)

/-- `get_field`, with the offset behind the field. -/
def getField (mem : FrameMemory) (d bits offset : ℕ) : Except Fault (ℕ × ℕ) :=
  getFieldLoop mem d bits bits 0 offset

/-- Whether a start code is at `p`. The bytes are read up to the first that is none of it. -/
def startsCode (mem : FrameMemory) (p : ℕ) : Except Fault Bool := do
  if (← mem p) ≠ 0 then return false
  if (← mem (p + 1)) ≠ 0 then return false
  return (← mem (p + 2)) = 1

/-- The loop of `find_next_code` over the indices that are left. -/
def findCodeIn (mem : FrameMemory) (d : ℕ) : List ℕ → Except Fault ℕ
  | [] => .ok 0
  | i :: is => do
    if ← startsCode mem (d + i) then return i
    findCodeIn mem d is

/-- `find_next_code`. The code at `d` itself is passed over. -/
def findNextCode (mem : FrameMemory) (d len : ℕ) : Except Fault ℕ :=
  findCodeIn mem d (List.range' 1 (len - 3))

/-! ## Units -/

/-- What a start code announces. -/
inductive Mpeg4Unit
  | visualObjectSequence
  | userData
  | visualObject
  | videoObject
  | videoObjectLayer
  | videoObjectPlane
  | other
  deriving DecidableEq

/-- The tests of `parse_mpeg4_frame`. -/
def mpeg4Unit (startCode : ℕ) : Mpeg4Unit :=
  if startCode = 0x1B0 then .visualObjectSequence
  else if startCode = 0x1B2 then .userData
  else if startCode = 0x1B5 then .visualObject
  else if 0x100 ≤ startCode ∧ startCode ≤ 0x11F then .videoObject
  else if 0x120 ≤ startCode ∧ startCode ≤ 0x12F then .videoObjectLayer
  else if startCode = 0x1B6 then .videoObjectPlane
  else .other

section Units

variable (mem : FrameMemory) (out : RtpMpeg4) (d len : ℕ)

/-- `parse_visual_object_sequence`. -/
def parseVisualObjectSequence : Except Fault RtpMpeg4 := do
  let b ← mem (d + 4)
  let out ← addToConfig mem { out with pali := b.toNat } d len
  return addToRtpBuf out d len

/-- `parse_visual_object`. -/
def parseVisualObject : Except Fault RtpMpeg4 := do
  let (isIdentifier, off) ← getField mem d 1 32
  let _ ← getField mem d 4 (if isIdentifier ≠ 0 then off + 7 else off)
  let out ← addToStartedConfig mem out d len
  return addToRtpBuf out d len

/-- `parse_video_object`. -/
def parseVideoObject : Except Fault RtpMpeg4 := do
  let out ← addToConfig mem out d len
  return addToRtpBuf out d len

/-- `parse_1b2`. -/
def parse1b2 : Except Fault RtpMpeg4 := do
  let out ← addToStartedConfig mem out d len
  return addToRtpBuf out d len

/-- The part of `parse_video_object_layer` before the first marker: where the marker is. -/
def volMarker : Except Fault ℕ := do
  let (isIdentifier, off) ← getField mem d 1 41
  let (aspectRatio, off) ← getField mem d 4 (if isIdentifier ≠ 0 then off + 7 else off)
  let (control, off) ← getField mem d 1 (if aspectRatio = 15 then off + 16 else off)
  if control = 0 then return off + 2
  let (vbv, off) ← getField mem d 1 (off + 3)
  return (if vbv ≠ 0 then off + 79 else off) + 2

/-- The part of `parse_video_object_layer` behind the second marker, at the bit `off`; `none` where
the function returns early. -/
def volRate (off : ℕ) : Except Fault (RtpMpeg4 × Bool) := do
  let (fixed, off) ← getField mem d 1 off
  if fixed = 0 then return ({ out with vopTimeIncrement := 0 }, true)
  let (v, _) ← getField mem d out.vtirBitlen off
  let out := { out with vopTimeIncrement := v }
  if v = 0 then return (out, false)
  return ({ out with
    tsIncr := (Int.bmod (90000 * v) (2 ^ 32)).tdiv out.vopTimeIncrementResolution }, true)

/-- The fields that `parse_video_object_layer` reads and stores, and whether it goes on behind
them. -/
def volFields : Except Fault (RtpMpeg4 × Bool) := do
  let (marker, off) ← getField mem d 1 (← volMarker mem d)
  if marker = 0 then return (out, false)
  let (i, off) ← getField mem d 16 off
  let out := { out with vopTimeIncrementResolution := i }
  let (marker, off) ← getField mem d 1 off
  if marker = 0 then return (out, false)
  volRate mem { out with vtirBitlen := i.size } d off

/-- `parse_video_object_layer`. -/
def parseVideoObjectLayer : Except Fault RtpMpeg4 := do
  let (out, goesOn) ← volFields mem out d
  if goesOn then
    let out ← addToStartedConfig mem out d len
    return addToRtpBuf out d len
  else return out

/-- The loop over `modulo_time_base`, at most `n` times: the offset behind it. -/
def moduloTimeBase (n off : ℕ) : Except Fault ℕ :=
  match n with
  | 0 => .error .loop
  | n + 1 =>
    if off / 8 < len then do
      let (one, off) ← getField mem d 1 off
      if one = 0 then return off
      moduloTimeBase n off
    else .ok off

/-- The fields that `parse_video_object_plane` reads: whether it goes on behind them. -/
def vopFields (vtirBitlen : ℕ) : Except Fault Bool := do
  let (_, off) ← getField mem d 2 32
  let (marker, off) ← getField mem d 1 (← moduloTimeBase mem d len (8 * len + 1) off)
  if marker = 0 then return false
  let _ ← getField mem d vtirBitlen off
  return true

/-- `parse_video_object_plane`. -/
def parseVideoObjectPlane : Except Fault RtpMpeg4 := do
  let out ← if out.config ≠ [] then finishConfig out else .ok out
  if out.initDone then
    if ← vopFields mem d len out.vtirBitlen then return addToRtpBuf out d len
    else return out
  else return out

/-- `parse_mpeg4_frame`. -/
def parseMpeg4Frame : Except Fault (RtpMpeg4 × ℤ) := do
  match mpeg4Unit (← mem.get32 d) with
  | .visualObjectSequence => return (← parseVisualObjectSequence mem out d len, 0)
  | .userData => return (← parse1b2 mem out d len, 0)
  | .visualObject => return (← parseVisualObject mem out d len, 0)
  | .videoObject => return (← parseVideoObject mem out d len, 0)
  | .videoObjectLayer => return (← parseVideoObjectLayer mem out d len, 0)
  | .videoObjectPlane => return (← parseVideoObjectPlane mem out d len, 1)
  | .other => return (out, 0)

end Units

/-! ## Frames -/

/-- The loop of `mpeg4_process_frame`, at most `n` times, over a frame of `length` bytes. -/
def mpeg4Units (mem : FrameMemory) (length : ℕ) (n : ℕ) (out : RtpMpeg4) (start : ℕ) :
    Except Fault RtpMpeg4 :=
  match n with
  | 0 => .error .loop
  | n + 1 =>
    if start < length then do
      let flen ← findNextCode mem start (length - start)
      let flen := if flen = 0 then length - start else flen
      let (out, _) ← parseMpeg4Frame mem out start flen
      mpeg4Units mem length n out (start + flen)
    else .ok out

/-- `mpeg4_process_frame`. -/
def mpeg4ProcessFrame (mem : FrameMemory) (f : MediaFrame) (out : RtpMpeg4) :
    Except Fault (RtpMpeg4 × ℤ) := do
  let out ← mpeg4Units mem f.d.length (f.d.length + 1)
    { out with iov := [], timestamp := f.timestamp } 0
  return (out, if out.initDone then 1 else 0)

/-- `new_rtp_media_mpeg4`. The other fields hold what `malloc` left there. -/
def newRtpMediaMpeg4 (left : RtpMpeg4) : RtpMpeg4 :=
  { left with iov := [], config := [], initDone := false, pali := 0, timestamp := 0 }

/-- The bytes that an entry of `iov` points to. -/
def Mpeg4Element.bytes (f : MediaFrame) (e : Mpeg4Element) : Bytes := (f.d.drop e.base).take e.len

/-! ## Sending -/

section Send

variable (maxDataSize : ℤ) (timestamp : ℕ) (σ : Type) (send : RtpSend σ)

/-- The number of entries of the local array `v`. -/
def mpeg4VSize : ℕ := 32

/-- An `int` as a `size_t`. -/
def sizeT (n : ℤ) : ℕ := (n % 2 ^ 32).toNat

/-- The loop of `mpeg4_send`, at most `n` times: `rest` are the elements from `i` on, `v` holds the
entries `1` to `j - 1`. -/
def mpeg4SendLoop (n : ℕ) (rest : List Bytes) (off : ℕ) (space : ℤ) (v : List Bytes) (s : σ) :
    Except Fault (σ × ℤ) :=
  match n with
  | 0 => .error .loop
  | n + 1 =>
    match rest with
    | [] =>
      let (s, ret) := send ⟨v.flatten, timestamp, true⟩ s
      if ret < 0 then .ok (s, -1) else .ok (s, 0)
    | e :: rest =>
      if mpeg4VSize ≤ v.length + 1 then .error .overrun
      else if sizeT space < e.length - off then
        let part := (e.drop off).take (sizeT space)
        let (s, ret) := send ⟨(v ++ [part]).flatten, timestamp, false⟩ s
        if ret < 0 then .ok (s, -1)
        else mpeg4SendLoop n (e :: rest) (off + sizeT space) maxDataSize [] s
      else
        mpeg4SendLoop n rest 0 (space - ↑(e.length - off)) (v ++ [e.drop off]) s

/-- `mpeg4_send` of the elements `iov`. -/
def mpeg4Send (iov : List Bytes) (s : σ) : Except Fault (σ × ℤ) :=
  mpeg4SendLoop maxDataSize timestamp σ send (2 * iov.flatten.length + iov.length + 2) iov 0
    maxDataSize [] s

end Send

end Spook
