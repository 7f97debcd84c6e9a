import Spook.Rtp.Media
import Mathlib.Algebra.Order.Ring.Int

set_option relaxedAutoImplicit false
set_option autoImplicit false

/-!
# JPEG

`rtp-jpeg.c`: the segments of a frame are walked through up to the scan, and the scan is sent in
fragments. A pointer into the frame is an offset.

## Main definitions

* `Spook.RtpJpeg` — `struct rtp_jpeg`.
* `Spook.parseDQT`, `parseSOF`, `jpegProcessFrame` — a frame.
* `Spook.jpegSend` — sending.
-/

namespace Spook

/-- `struct rtp_jpeg`, without `q` and `ts_incr`, which nothing reads. -/
structure RtpJpeg where
  type : ℤ
  width : ℤ
  height : ℤ
  lumaTable : ℤ
  chromaTable : ℤ
  quant : Fin 16 → Option ℕ
  scanData : ℕ
  scanDataLen : ℤ
  initDone : Bool
  timestamp : ℕ

/-! ## Segments -/

/-- There are tables. -/
instance neZero_sixteen : NeZero 16 := ⟨by decide⟩

section Segments

variable (mem : FrameMemory)

/-- The loop of `parse_DQT`, at most `n` times. -/
def parseDQTLoop (d : ℕ) (len : ℤ) (n i : ℕ) (out : RtpJpeg) : Except Fault (RtpJpeg × ℤ) :=
  match n with
  | 0 => .error .loop
  | n + 1 =>
    if (i : ℤ) < len then do
      let b ← mem (d + i)
      if b &&& 0xF0 ≠ 0 then return (out, -1)
      parseDQTLoop d len n (i + 65)
        { out with quant := Function.update out.quant (Fin.ofNat 16 b.toNat) (some (d + i + 1)) }
    else .ok (out, 0)

/-- `parse_DQT`. -/
def parseDQT (out : RtpJpeg) (d : ℕ) (len : ℤ) : Except Fault (RtpJpeg × ℤ) :=
  parseDQTLoop mem d len (len.toNat + 1) 0 out

/-- The part of the loop of `parse_SOF` for the component described at `c`. -/
def parseComponent (out : RtpJpeg) (c : ℕ) : Except Fault (RtpJpeg × ℤ) := do
  let table ← mem (c + 2)
  if 16 ≤ table ∨ out.quant (Fin.ofNat 16 table.toNat) = none then return (out, -1)
  let id ← mem c
  let sampling ← mem (c + 1)
  if id = 1 then
    if sampling = 0x11 then return ({ out with type := 0, lumaTable := table.toNat }, 0)
    else if sampling = 0x22 then return ({ out with type := 1, lumaTable := table.toNat }, 0)
    else return (out, -1)
  else if id = 2 ∨ id = 3 then
    if sampling ≠ 0x11 then return (out, -1)
    else if out.chromaTable < 0 then return ({ out with chromaTable := table.toNat }, 0)
    else if out.chromaTable ≠ table.toNat then return (out, -1)
    else return (out, 0)
  else return (out, -1)

/-- The loop of `parse_SOF` over the components that are left. -/
def parseComponents (out : RtpJpeg) : List ℕ → Except Fault (RtpJpeg × ℤ)
  | [] => .ok (out, 0)
  | c :: cs => do
    let (out, ret) ← parseComponent mem out c
    if ret < 0 then return (out, -1)
    parseComponents out cs

/-- `parse_SOF`. -/
def parseSOF (out : RtpJpeg) (d : ℕ) : Except Fault (RtpJpeg × ℤ) := do
  let out := { out with chromaTable := -1 }
  if (← mem d) ≠ 8 then return (out, -1)
  let height ← mem.get16 (d + 1)
  let width ← mem.get16 (d + 3)
  if height % 8 ≠ 0 ∨ width % 8 ≠ 0 then
    return ({ out with height := height, width := width }, -1)
  let out := { out with height := height / 8, width := width / 8 }
  if (← mem (d + 5)) ≠ 3 then return (out, -1)
  parseComponents mem out [d + 6, d + 9, d + 12]

/-- The `switch` of `jpeg_process_frame` on the marker at `i + 1`, and the value it returns, if it
does. -/
def jpegSegment (out : RtpJpeg) (length i blen : ℕ) (marker : UInt8) :
    Except Fault (RtpJpeg × Option ℤ) := do
  if marker = 0xDB then
    let (out, ret) ← parseDQT mem out (i + 4) (blen - 2)
    if ret < 0 then return ({ out with scanDataLen := 0 }, some 0) else return (out, none)
  else if marker = 0xC0 then
    let (out, ret) ← parseSOF mem out (i + 4)
    if ret < 0 then return ({ out with scanDataLen := 0 }, some 0) else return (out, none)
  else if marker = 0xC4 then return ({ out with initDone := true }, none)
  else if marker = 0xDA then
    return ({ out with scanData := i + 2 + blen, scanDataLen := (length : ℤ) - i - 2 - blen },
      some (if out.initDone then 1 else 0))
  else return (out, none)

/-- `blen` for the marker at `i + 1`. `SOI` is a bare marker with no length field. -/
def segmentLength (i : ℕ) (marker : UInt8) : Except Fault ℕ :=
  if marker = 0xD8 then .ok 0 else mem.get16 (i + 2)

/-- The loop of `jpeg_process_frame`, at most `n` times, over a frame of `length` bytes. -/
def jpegSegments (length : ℕ) (n : ℕ) (out : RtpJpeg) (i : ℕ) : Except Fault (RtpJpeg × ℤ) :=
  match n with
  | 0 => .error .loop
  | n + 1 =>
    if i < length then do
      if (← mem i) ≠ 0xFF then return ({ out with scanDataLen := 0 }, 0)
      let marker ← mem (i + 1)
      let blen ← segmentLength mem i marker
      match ← jpegSegment mem out length i blen marker with
      | (out, some ret) => return (out, ret)
      | (out, none) => jpegSegments length n out (i + (blen + 2))
    else .ok ({ out with scanDataLen := 0 }, 0)

/-- `jpeg_process_frame`. -/
def jpegProcessFrame (f : MediaFrame) (out : RtpJpeg) : Except Fault (RtpJpeg × ℤ) :=
  jpegSegments mem f.d.length (f.d.length + 1)
    { out with timestamp := f.timestamp, quant := fun _ => none } 0

end Segments

/-! ## Sending -/

/-- An `int` as an `unsigned char`. -/
def toByte (n : ℤ) : UInt8 := UInt8.ofNat (n % 256).toNat

section Send

variable (maxDataSize : ℤ) (mem : FrameMemory) (out : RtpJpeg)

/-- `quant[k]`. -/
def quantAt (k : ℤ) : Except Fault (Option ℕ) :=
  if 0 ≤ k ∧ k < 16 then .ok (out.quant (Fin.ofNat 16 k.toNat)) else .error .overread

/-- The 64 bytes behind an entry of `quant`. -/
def quantBytes (p : Option ℕ) : Except Fault Bytes :=
  match p with
  | none => .error .nullDeref
  | some p => mem.bytes p 64

/-- `vhdr` for the fragment at `i`. -/
def jpegHeader (i : ℤ) : Bytes :=
  [0, toByte (i / 2 ^ 16), toByte (i / 2 ^ 8 % 2 ^ 8), toByte (i % 2 ^ 8), toByte out.type, 255,
    toByte out.width, toByte out.height]

/-- `qhdr`. -/
def quantHeader : Bytes := [0, 0, 0, 128]

/-- The entries `2` to `4` of `v`. -/
def quantTables (luma chroma : Option ℕ) : Except Fault Bytes := do
  let l ← quantBytes mem luma
  let c ← quantBytes mem chroma
  return quantHeader ++ l ++ c

/-- What is in `v` between the main header and the fragment: the tables when `vcnt` is 5, for the
first packet. -/
def tablesOf (luma chroma : Option ℕ) (first : Bool) : Except Fault Bytes :=
  if first then quantTables mem luma chroma else .ok []

/-- `hdr_len`. -/
def jpegHdrLen (first : Bool) : ℤ := if first then 140 else 8

/-- `plen` when `left` bytes are left. -/
def jpegPlen (first : Bool) (left : ℤ) : ℤ :=
  if maxDataSize - jpegHdrLen first < left then maxDataSize - jpegHdrLen first else left

variable (σ : Type) (send : RtpSend σ)

/-- The loop of `jpeg_send`, at most `n` times. -/
def jpegFragments (luma chroma : Option ℕ) (n : ℕ) (i : ℤ) (first : Bool) (s : σ) :
    Except Fault (σ × ℤ) :=
  match n with
  | 0 => .error .loop
  | n + 1 =>
    if i < out.scanDataLen then
      let plen := jpegPlen maxDataSize first (out.scanDataLen - i)
      if plen < 0 then .error .negativeLength
      else do
        let tables ← tablesOf mem luma chroma first
        let data ← mem.bytes (out.scanData + i.toNat) plen.toNat
        let (s, ret) := send ⟨jpegHeader out i ++ tables ++ data, out.timestamp,
          plen + i = out.scanDataLen⟩ s
        if ret < 0 then return (s, -1)
        jpegFragments luma chroma n (i + plen) false s
    else .ok (s, 0)

/-- `jpeg_send`. -/
def jpegSend (s : σ) : Except Fault (σ × ℤ) := do
  let luma ← quantAt out out.lumaTable
  let chroma ← quantAt out out.chromaTable
  jpegFragments maxDataSize mem out σ send luma chroma (out.scanDataLen.toNat + 1) 0 true s

end Send

end Spook
