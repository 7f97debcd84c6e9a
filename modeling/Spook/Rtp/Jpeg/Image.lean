import Spook.Rtp.Jpeg.Send
import Spook.Tcp.Units

set_option relaxedAutoImplicit false
set_option autoImplicit false

/-!
# JPEG images

What an encoder of baseline JPEG hands to `jpeg_process_frame`: segments with quantization tables, a
start of frame, Huffman tables and anything else, in any order in which a table is defined before a
component names it, and the scan behind them.

## Main definitions

* `Spook.JpegPart`, `JpegReading` — a segment, and what is known behind some segments.
* `Spook.JpegImage`, `JpegImage.bytes` — an image and its bytes.
* `Spook.JpegPicture`, `JpegImage.picture` — what a decoder needs of an image.

## Main results

* `Spook.jpegProcessFrame_image` — an image is taken as what it is.
-/

namespace Spook

/-! ## Segments -/

/-- A quantization table with its number. -/
structure QuantTable where
  number : Fin 16
  table : Bytes
  length_eq : table.length = 64

/-- A start of frame with a luma component and two chroma components, which share a table. The size is
in units of eight. -/
structure JpegSof where
  height : Fin 256
  width : Fin 256
  /-- Chroma has half of the samples in both directions. -/
  subsampled : Bool
  luma : Fin 16
  chroma : Fin 16

/-- A segment before the scan. -/
inductive JpegPart
  | tables (ts : List QuantTable)
  | frame (sof : JpegSof)
  | huffman (body : Bytes)
  | other (marker : UInt8) (body : Bytes)

/-- The bytes of a table in its segment. -/
def QuantTable.bytes (t : QuantTable) : Bytes := UInt8.ofNat t.number :: t.table

/-- What is behind the length of a start of frame. -/
def JpegSof.body (s : JpegSof) : Bytes :=
  8 :: (put16 (8 * s.height) ++ put16 (8 * s.width) ++
    [3, 1, if s.subsampled then 0x22 else 0x11, UInt8.ofNat s.luma, 2, 0x11, UInt8.ofNat s.chroma,
      3, 0x11, UInt8.ofNat s.chroma])

def JpegPart.marker : JpegPart → UInt8
  | .tables _ => 0xDB
  | .frame _ => 0xC0
  | .huffman _ => 0xC4
  | .other marker _ => marker

def JpegPart.body : JpegPart → Bytes
  | .tables ts => ts.flatMap QuantTable.bytes
  | .frame sof => sof.body
  | .huffman body => body
  | .other _ body => body

/-- A segment. -/
def segmentBytes (marker : UInt8) (body : Bytes) : Bytes :=
  0xFF :: marker :: (put16 (body.length + 2) ++ body)

def JpegPart.bytes (p : JpegPart) : Bytes := segmentBytes p.marker p.body

/-! ## Images -/

/-- Tables that are defined one after the other. -/
def defineAll (q : Fin 16 → Option Bytes) (ts : List QuantTable) : Fin 16 → Option Bytes :=
  ts.foldl (fun q t => Function.update q t.number (some t.table)) q

/-- What is known behind some segments: the tables, the start of frame, and whether there were Huffman
tables. -/
structure JpegReading where
  quant : Fin 16 → Option Bytes
  sof : Option JpegSof
  huffman : Bool

namespace JpegReading

/-- Nothing is known. -/
def start : JpegReading := ⟨fun _ => none, none, false⟩

/-- A segment behind the others. The last definition of a table counts. -/
def step (r : JpegReading) : JpegPart → JpegReading
  | .tables ts => { r with quant := defineAll r.quant ts }
  | .frame sof => { r with sof := some sof }
  | .huffman _ => { r with huffman := true }
  | .other _ _ => r

/-- A segment may stand behind the others: its length fits, a start of frame names tables that are
defined, and a segment of another kind has a marker of another kind. -/
def Allows (r : JpegReading) (p : JpegPart) : Prop :=
  p.body.length < 65534 ∧
    match p with
    | .frame sof => r.quant sof.luma ≠ none ∧ r.quant sof.chroma ≠ none
    | .other marker _ => marker ∉ [0xD8, 0xDB, 0xC0, 0xC4, 0xDA]
    | .tables _ | .huffman _ => True

/-- Segments that may stand one after the other. -/
def AllowsAll (r : JpegReading) : List JpegPart → Prop
  | [] => True
  | p :: ps => r.Allows p ∧ (r.step p).AllowsAll ps

end JpegReading

/-- An image with a start of frame and a scan that can be sent. -/
structure JpegImage where
  parts : List JpegPart
  scanHead : Bytes
  scan : Bytes
  allowed : JpegReading.start.AllowsAll parts
  framed : (parts.foldl JpegReading.step .start).sof ≠ none
  head_lt : scanHead.length < 65534
  scan_ne : scan ≠ []
  scan_lt : scan.length < 2 ^ 24

/-- What a decoder needs of an image besides its Huffman tables. -/
structure JpegPicture where
  type : UInt8
  width : UInt8
  height : UInt8
  luma : Bytes
  chroma : Bytes
  scan : Bytes
  deriving DecidableEq

namespace JpegImage

variable (I : JpegImage)

def bytes : Bytes :=
  0xFF :: 0xD8 :: (I.parts.flatMap JpegPart.bytes ++ (segmentBytes 0xDA I.scanHead ++ I.scan))

/-- What is known before the scan. -/
def reading : JpegReading := I.parts.foldl JpegReading.step .start

def picture : Option JpegPicture := do
  let sof ← I.reading.sof
  let luma ← I.reading.quant sof.luma
  let chroma ← I.reading.quant sof.chroma
  return ⟨if sof.subsampled then 1 else 0, UInt8.ofNat sof.width, UInt8.ofNat sof.height, luma, chroma,
    I.scan⟩

end JpegImage

/-! ## Reading -/

section Reading

variable {mem : FrameMemory} {f : MediaFrame} {i n k : ℕ} {bs rest : Bytes} {b : UInt8}

/-- A byte of a frame of which it is known how it goes on at `i`. -/
theorem FrameMemory.Holds.at (h : mem.Holds f) (hi : f.d.drop i = bs) (k : ℕ) (hk : bs[k]? = some b) :
    mem (i + k) = .ok b := by
  rw [← hi, List.getElem?_drop] at hk
  exact h _ _ hk

/-- A number of sixteen bits there. -/
theorem FrameMemory.Holds.get16_at (h : mem.Holds f) (hi : f.d.drop i = bs) (k v : ℕ)
    (hv : v < 65536) (hhi : bs[k]? = some (UInt8.ofNat (v / 256)))
    (hlo : bs[k + 1]? = some (UInt8.ofNat v)) : mem.get16 (i + k) = .ok v := by
  have hread : mem.get16 (i + k) =
      .ok ((UInt8.ofNat (v / 256)).toNat * 256 + (UInt8.ofNat v).toNat) := by
    rw [FrameMemory.get16, h.at hi k hhi, ok_bind, Nat.add_assoc, h.at hi (k + 1) hlo]
    rfl
  rw [hread, UInt8.toNat_ofNat', UInt8.toNat_ofNat']
  congr 1
  omega

/-- Some bytes there. -/
theorem FrameMemory.Holds.bytes_at (h : mem.Holds f) (hi : f.d.drop i = bs ++ rest) :
    mem.bytes i bs.length = .ok bs := by
  have hlen : bs.length + rest.length = f.d.length - i := by
    rw [← List.length_append, ← hi, List.length_drop]
  by_cases hnil : bs = []
  · rw [hnil]
    rfl
  have hpos := List.length_pos_iff.2 hnil
  rw [h.bytes (by omega), hi, List.take_left']
  rfl

/-- How a frame goes on behind some bytes. -/
theorem drop_behind {d : Bytes} (hi : d.drop i = bs ++ rest) (hk : k = bs.length) :
    d.drop (i + k) = rest := by
  rw [← List.drop_drop, hi, hk, List.drop_left']
  rfl

end Reading

/-! ## The state behind some segments -/

section State

variable {mem : FrameMemory} {f : MediaFrame} {out : RtpJpeg} {r : JpegReading} {i n d : ℕ}
  {rest : Bytes}

/-- The pointers to the tables point to them. -/
def TablesAt (mem : FrameMemory) (q : Fin 16 → Option Bytes) (quant : Fin 16 → Option ℕ) : Prop :=
  ∀ k, Option.Rel (fun t p => mem.bytes p 64 = .ok t) (q k) (quant k)

/-- What a start of frame has set. -/
structure SofSet (sof : JpegSof) (out : RtpJpeg) : Prop where
  type : out.type = if sof.subsampled then 1 else 0
  height : out.height = (sof.height : ℕ)
  width : out.width = (sof.width : ℕ)
  luma : out.lumaTable = (sof.luma : ℕ)
  chroma : out.chromaTable = (sof.chroma : ℕ)

/-- The state behind some segments, when `ready` was the state of `init_done` before them. -/
structure ReadAs (mem : FrameMemory) (f : MediaFrame) (ready : Bool) (r : JpegReading)
    (out : RtpJpeg) : Prop where
  quant : TablesAt mem r.quant out.quant
  sof : ∀ sof, r.sof = some sof → SofSet sof out
  initDone : out.initDone = (ready || r.huffman)
  timestamp : out.timestamp = f.timestamp

/-- A table that is defined has been found. -/
theorem TablesAt.isSome {q : Fin 16 → Option Bytes} {quant : Fin 16 → Option ℕ}
    (h : TablesAt mem q quant) {k : Fin 16} (hk : q k ≠ none) : quant k ≠ none := by
  intro hnone
  have hrel := h k
  rw [hnone] at hrel
  cases hq : q k with
  | none => exact hk hq
  | some t =>
    rw [hq] at hrel
    cases hrel

/-- A table is defined, in place of the one with its number. -/
theorem TablesAt.update {q : Fin 16 → Option Bytes} {quant : Fin 16 → Option ℕ}
    (h : TablesAt mem q quant) (k : Fin 16) {t : Bytes} {p : ℕ} (hp : mem.bytes p 64 = .ok t) :
    TablesAt mem (Function.update q k (some t)) (Function.update quant k (some p)) := by
  intro j
  by_cases hj : j = k
  · subst hj
    simpa using Option.Rel.some hp
  · simpa [Function.update_of_ne hj] using h j

/-- The first byte of a table. -/
theorem tableByte (k : Fin 16) :
    UInt8.ofNat k &&& 0xF0 = 0 ∧ Fin.ofNat 16 (UInt8.ofNat k).toNat = k ∧
      ¬ 16 ≤ UInt8.ofNat k := by
  revert k
  decide

/-- The loop of `parse_DQT` takes the tables. -/
theorem parseDQTLoop_tables (hmem : mem.Holds f) {ts : List QuantTable} {len : ℤ}
    (hd : f.d.drop (d + i) = ts.flatMap QuantTable.bytes ++ rest)
    (hlen : len = i + 65 * ts.length) (hn : ts.length < n) {q : Fin 16 → Option Bytes}
    (hq : TablesAt mem q out.quant) :
    ∃ quant, parseDQTLoop mem d len n i out = .ok ({ out with quant := quant }, 0) ∧
      TablesAt mem (defineAll q ts) quant := by
  induction ts generalizing n i out q with
  | nil =>
    obtain ⟨n, rfl⟩ := Nat.exists_eq_succ_of_ne_zero (Nat.ne_of_gt (Nat.zero_lt_of_lt hn))
    rw [List.length_nil] at hlen
    rw [parseDQTLoop, if_neg (by omega)]
    exact ⟨out.quant, rfl, hq⟩
  | cons t ts ih =>
    obtain ⟨n, rfl⟩ := Nat.exists_eq_succ_of_ne_zero (Nat.ne_of_gt (Nat.zero_lt_of_lt hn))
    rw [List.length_cons] at hlen hn
    push_cast at hlen
    obtain ⟨hprec, hnumber, -⟩ := tableByte t.number
    have hbyte : mem (d + i) = .ok (UInt8.ofNat t.number) := hmem.at hd 0 rfl
    have hsplit : f.d.drop (d + i) = [UInt8.ofNat t.number] ++
        (t.table ++ (ts.flatMap QuantTable.bytes ++ rest)) := by
      rw [hd]
      simp [QuantTable.bytes]
    have htable : f.d.drop (d + i + 1) = t.table ++ (ts.flatMap QuantTable.bytes ++ rest) :=
      drop_behind hsplit rfl
    have hnext : f.d.drop (d + (i + 65)) = ts.flatMap QuantTable.bytes ++ rest := by
      rw [show d + (i + 65) = d + i + 1 + 64 by omega]
      exact drop_behind htable t.length_eq.symm
    have hread : mem.bytes (d + i + 1) 64 = .ok t.table := by
      rw [← t.length_eq]
      exact hmem.bytes_at htable
    rw [parseDQTLoop, if_pos (by omega), hbyte, ok_bind, if_neg (not_not.2 hprec), hnumber]
    obtain ⟨quant, hrun, hquant⟩ := @ih
      { out with quant := Function.update out.quant t.number (some (d + i + 1)) } (i + 65) n hnext
      (by push_cast; omega) (by omega) _ (hq.update t.number hread)
    exact ⟨quant, hrun, hquant⟩

section Components

variable {c : ℕ} {k : Fin 16}

/-- The luma component. -/
theorem parseComponent_luma (subsampled : Bool) (hid : mem c = .ok 1)
    (hsampling : mem (c + 1) = .ok (if subsampled then 0x22 else 0x11))
    (htable : mem (c + 2) = .ok (UInt8.ofNat k)) (hk : out.quant k ≠ none) :
    parseComponent mem out c =
      .ok ({ out with type := if subsampled then 1 else 0, lumaTable := (k : ℕ) }, 0) := by
  obtain ⟨-, hnumber, hlt⟩ := tableByte k
  have hnat : (UInt8.ofNat (k : ℕ)).toNat = k := by
    rw [UInt8.toNat_ofNat']
    omega
  have hdefined : ¬ (16 ≤ UInt8.ofNat (k : ℕ) ∨ out.quant k = none) :=
    not_or.2 ⟨hlt, hk⟩
  rw [parseComponent, htable, ok_bind, hnumber, if_neg hdefined, hid, ok_bind, hsampling, ok_bind,
    if_pos rfl, hnat]
  cases subsampled <;> rfl

/-- A chroma component, the first one or one with the table of the first one. -/
theorem parseComponent_chroma {id : UInt8} (hid : mem c = .ok id) (hchroma : id = 2 ∨ id = 3)
    (hsampling : mem (c + 1) = .ok 0x11) (htable : mem (c + 2) = .ok (UInt8.ofNat k))
    (hk : out.quant k ≠ none) (hout : out.chromaTable < 0 ∨ out.chromaTable = (k : ℕ)) :
    parseComponent mem out c = .ok ({ out with chromaTable := (k : ℕ) }, 0) := by
  obtain ⟨-, hnumber, hlt⟩ := tableByte k
  have hnat : (UInt8.ofNat (k : ℕ)).toNat = k := by
    rw [UInt8.toNat_ofNat']
    omega
  have hdefined : ¬ (16 ≤ UInt8.ofNat (k : ℕ) ∨ out.quant k = none) :=
    not_or.2 ⟨hlt, hk⟩
  have hluma : id ≠ 1 := by
    rcases hchroma with rfl | rfl <;> decide
  rw [parseComponent, htable, ok_bind, hnumber, if_neg hdefined, hid, ok_bind, hsampling, ok_bind,
    if_neg hluma, if_pos hchroma, if_neg (not_not.2 rfl), hnat]
  rcases hout with hneg | heq
  · rw [if_pos hneg]
    rfl
  · rw [if_neg (by omega), if_neg (not_not.2 heq), ← heq]
    rfl

/-- A component that is accepted. -/
theorem parseComponents_cons {cs : List ℕ} {out' : RtpJpeg}
    (h : parseComponent mem out c = .ok (out', 0)) :
    parseComponents mem out (c :: cs) = parseComponents mem out' cs := by
  rw [parseComponents, h]
  rfl

end Components

/-- `parse_SOF` takes a start of frame. -/
theorem parseSOF_frame (hmem : mem.Holds f) {sof : JpegSof} (hd : f.d.drop d = sof.body ++ rest)
    (hluma : out.quant sof.luma ≠ none) (hchroma : out.quant sof.chroma ≠ none) :
    ∃ out', parseSOF mem out d = .ok (out', 0) ∧ SofSet sof out' ∧ out'.quant = out.quant ∧
      out'.initDone = out.initDone ∧ out'.timestamp = out.timestamp := by
  obtain ⟨⟨h, hh⟩, ⟨w, hw⟩, subsampled, luma, chroma⟩ := sof
  have hat : ∀ k b, (JpegSof.body ⟨⟨h, hh⟩, ⟨w, hw⟩, subsampled, luma, chroma⟩ ++ rest)[k]? = some b →
      mem (d + k) = .ok b := fun k b hk => hmem.at hd k hk
  have hheight : mem.get16 (d + 1) = .ok (8 * h) := hmem.get16_at hd 1 _ (by omega) rfl rfl
  have hwidth : mem.get16 (d + 3) = .ok (8 * w) := hmem.get16_at hd 3 _ (by omega) rfl rfl
  -- the components, one after the other
  let out₀ := { out with chromaTable := -1, height := (h : ℤ), width := (w : ℤ) }
  let out₁ := { out₀ with type := if subsampled then 1 else 0, lumaTable := ((luma : ℕ) : ℤ) }
  let out₂ := { out₁ with chromaTable := ((chroma : ℕ) : ℤ) }
  have hfirst : parseComponent mem out₀ (d + 6) = .ok (out₁, 0) :=
    parseComponent_luma (k := luma) subsampled (hat 6 1 rfl) (hat 7 _ rfl) (hat 8 _ rfl) hluma
  have hsecond : parseComponent mem out₁ (d + 9) = .ok (out₂, 0) :=
    parseComponent_chroma (k := chroma) (hat 9 2 rfl) (.inl rfl) (hat 10 _ rfl) (hat 11 _ rfl)
      hchroma (.inl (by decide : (-1 : ℤ) < 0))
  have hthird : parseComponent mem out₂ (d + 12) = .ok (out₂, 0) :=
    parseComponent_chroma (k := chroma) (hat 12 3 rfl) (.inr rfl) (hat 13 _ rfl) (hat 14 _ rfl)
      hchroma (.inr rfl)
  refine ⟨out₂, ?_, ⟨rfl, rfl, rfl, rfl, rfl⟩, rfl, rfl, rfl⟩
  have hdiv : ∀ n : ℕ, 8 * n % 8 = 0 ∧ ((8 * n : ℕ) : ℤ) / 8 = n := fun n => by omega
  have hsize : ¬ (8 * h % 8 ≠ 0 ∨ 8 * w % 8 ≠ 0) := by omega
  rw [parseSOF, show mem d = .ok 8 from hat 0 8 rfl, ok_bind, if_neg (not_not.2 rfl), hheight, ok_bind,
    hwidth, ok_bind, if_neg hsize, show mem (d + 5) = .ok 3 from hat 5 3 rfl, ok_bind,
    if_neg (not_not.2 rfl), (hdiv h).2, (hdiv w).2, parseComponents_cons hfirst,
    parseComponents_cons hsecond, parseComponents_cons hthird]
  rfl

end State

/-! ## The loop -/

section Loop

variable {mem : FrameMemory} {f : MediaFrame} {out : RtpJpeg} {r : JpegReading} {i n : ℕ}
  {ready : Bool} {marker : UInt8} {body rest : Bytes}

/-- What is read of a segment before its marker is looked at. -/
structure SegmentAt (mem : FrameMemory) (f : MediaFrame) (i : ℕ) (marker : UInt8)
    (body rest : Bytes) : Prop where
  lt : i < f.d.length
  first : mem i = .ok 0xFF
  second : mem (i + 1) = .ok marker
  blen : segmentLength mem i marker = .ok (body.length + 2)
  data : f.d.drop (i + 4) = body ++ rest
  next : f.d.drop (i + (body.length + 2 + 2)) = rest

/-- Where a segment begins, its marker and its length can be read. -/
theorem segmentAt (hmem : mem.Holds f) (hi : f.d.drop i = segmentBytes marker body ++ rest)
    (hbody : body.length < 65534) (hmarker : marker ≠ 0xD8) : SegmentAt mem f i marker body rest := by
  have hlen : (segmentBytes marker body ++ rest).length = f.d.length - i := by
    rw [← hi, List.length_drop]
  have hsplit : f.d.drop i = (0xFF :: marker :: put16 (body.length + 2)) ++ (body ++ rest) := by
    rw [hi]
    simp [segmentBytes]
  have hdata : f.d.drop (i + 4) = body ++ rest := drop_behind hsplit rfl
  refine ⟨?_, hmem.at hi 0 rfl, hmem.at hi 1 rfl, ?_, hdata, ?_⟩
  · simp only [segmentBytes, List.length_append, List.length_cons] at hlen
    omega
  · rw [segmentLength, if_neg hmarker]
    exact hmem.get16_at hi 2 _ (by omega) rfl rfl
  · rw [show i + (body.length + 2 + 2) = i + 4 + body.length by omega]
    exact drop_behind hdata rfl

/-- A marker that is none of those that `jpeg_process_frame` looks for. -/
theorem jpegSegment_other {length blen : ℕ} (h : marker ∉ [0xD8, 0xDB, 0xC0, 0xC4, 0xDA]) :
    jpegSegment mem out length i blen marker = .ok (out, none) := by
  simp only [List.mem_cons, List.not_mem_nil, or_false, not_or] at h
  obtain ⟨-, hdqt, hsof, hdht, hsos⟩ := h
  rw [jpegSegment, if_neg hdqt, if_neg hsof, if_neg hdht, if_neg hsos]
  rfl

/-- A table has its number in front. -/
@[simp] theorem length_tables (ts : List QuantTable) :
    (ts.flatMap QuantTable.bytes).length = 65 * ts.length := by
  induction ts with
  | nil => rfl
  | cons t ts ih =>
    simp only [List.flatMap_cons, List.length_append, ih, QuantTable.bytes, List.length_cons,
      t.length_eq]
    omega

/-- A segment is taken as what it is. -/
theorem jpegSegment_part (hmem : mem.Holds f) {p : JpegPart} (hp : r.Allows p)
    (hdata : f.d.drop (i + 4) = p.body ++ rest) (hout : ReadAs mem f ready r out) :
    ∃ out', jpegSegment mem out f.d.length i (p.body.length + 2) p.marker = .ok (out', none) ∧
      ReadAs mem f ready (r.step p) out' := by
  cases p with
  | tables ts =>
    have hlen : (((JpegPart.tables ts).body.length + 2 : ℕ) : ℤ) - 2 = 65 * ts.length := by
      rw [JpegPart.body, length_tables]
      push_cast
      omega
    obtain ⟨quant, hrun, hquant⟩ := parseDQTLoop_tables (i := 0) (n := (65 * ts.length : ℤ).toNat + 1)
      hmem hdata (by simp : (65 * ts.length : ℤ) = (0 : ℕ) + 65 * ts.length) (by omega) hout.quant
    refine ⟨{ out with quant := quant }, ?_, hquant, fun sof hsof => ?_, hout.initDone,
      hout.timestamp⟩
    · rw [jpegSegment, JpegPart.marker, if_pos rfl, hlen, parseDQT, hrun]
      rfl
    · have hset := hout.sof sof hsof
      exact ⟨hset.type, hset.height, hset.width, hset.luma, hset.chroma⟩
  | frame sof =>
    obtain ⟨out', hrun, hset, hquant, hready, htime⟩ := parseSOF_frame hmem hdata
      (hout.quant.isSome hp.2.1) (hout.quant.isSome hp.2.2)
    refine ⟨out', ?_, ?_, fun sof' hsof => ?_, hready.trans hout.initDone, htime.trans hout.timestamp⟩
    · rw [jpegSegment, JpegPart.marker, if_neg (by decide), if_pos rfl, hrun]
      rfl
    · rw [hquant]
      exact hout.quant
    · cases hsof
      exact hset
  | huffman body =>
    refine ⟨{ out with initDone := true }, rfl, hout.quant, fun sof hsof => ?_,
      by simp [JpegReading.step], hout.timestamp⟩
    have hset := hout.sof sof hsof
    exact ⟨hset.type, hset.height, hset.width, hset.luma, hset.chroma⟩
  | other marker body => exact ⟨out, jpegSegment_other hp.2, hout⟩

/-- No part is another start of image. -/
theorem JpegReading.Allows.marker_ne {p : JpegPart} (hp : r.Allows p) : p.marker ≠ 0xD8 := by
  cases p with
  | tables ts => exact show (0xDB : UInt8) ≠ 0xD8 by decide
  | frame sof => exact show (0xC0 : UInt8) ≠ 0xD8 by decide
  | huffman body => exact show (0xC4 : UInt8) ≠ 0xD8 by decide
  | other marker body =>
    rintro rfl
    exact hp.2 List.mem_cons_self

/-- A segment has its marker and its length in front. -/
@[simp] theorem length_segmentBytes (marker : UInt8) (body : Bytes) :
    (segmentBytes marker body).length = body.length + 4 := by
  simp [segmentBytes, put16]

/-- The loop takes the segments. -/
theorem jpegSegments_parts (hmem : mem.Holds f) {ps : List JpegPart} (hps : r.AllowsAll ps)
    (hi : f.d.drop i = ps.flatMap JpegPart.bytes ++ rest) (hout : ReadAs mem f ready r out) :
    ∃ out', jpegSegments mem f.d.length (ps.length + n) out i =
        jpegSegments mem f.d.length n out' (i + (ps.flatMap JpegPart.bytes).length) ∧
      ReadAs mem f ready (ps.foldl JpegReading.step r) out' := by
  induction ps generalizing r out i with
  | nil => exact ⟨out, by simp, hout⟩
  | cons p ps ih =>
    obtain ⟨hp, hps⟩ := hps
    rw [List.flatMap_cons, List.append_assoc] at hi
    have hat := segmentAt hmem hi hp.1 hp.marker_ne
    obtain ⟨out₁, hseg, hout₁⟩ := jpegSegment_part hmem hp hat.data hout
    obtain ⟨out', hrun, hout'⟩ := ih hps hat.next hout₁
    refine ⟨out', ?_, hout'⟩
    have hend : i + (List.flatMap JpegPart.bytes (p :: ps)).length =
        i + (p.body.length + 2 + 2) + (ps.flatMap JpegPart.bytes).length := by
      simp only [List.flatMap_cons, List.length_append, JpegPart.bytes, length_segmentBytes]
      omega
    rw [hend, ← hrun, show (p :: ps).length + n = ps.length + n + 1 by simp; omega, jpegSegments,
      if_pos hat.lt, hat.first, ok_bind, if_neg (not_not.2 rfl), hat.second, ok_bind, hat.blen, ok_bind,
      hseg, ok_bind]

end Loop

/-! ## The image -/

section Image

variable {mem : FrameMemory} {f : MediaFrame} {out : RtpJpeg} {I : JpegImage}

/-- The scan is where the state says. -/
structure ScanAt (mem : FrameMemory) (scan : Bytes) (out : RtpJpeg) : Prop where
  length : out.scanDataLen = scan.length
  bytes : mem.bytes out.scanData scan.length = .ok scan

/-- Segments have bytes. -/
theorem length_le_flatMap_bytes (ps : List JpegPart) :
    ps.length ≤ (ps.flatMap JpegPart.bytes).length := by
  induction ps with
  | nil => exact le_rfl
  | cons p ps ih =>
    simp only [List.flatMap_cons, List.length_append, List.length_cons, JpegPart.bytes,
      length_segmentBytes]
    omega

/-- **An image is taken as what it is.** It is ready if there were Huffman tables in it or before. -/
theorem jpegProcessFrame_image (hmem : mem.Holds f) (hf : f.d = I.bytes) :
    ∃ out', jpegProcessFrame mem f out = .ok (out', if out'.initDone then 1 else 0) ∧
      ReadAs mem f out.initDone I.reading out' ∧ ScanAt mem I.scan out' := by
  have hstart : ReadAs mem f out.initDone .start
      { out with timestamp := f.timestamp, quant := fun _ => none } :=
    ⟨fun _ => Option.Rel.none, fun _ h => (by cases h), by simp [JpegReading.start], rfl⟩
  have hdrop : f.d.drop 2 =
      I.parts.flatMap JpegPart.bytes ++ (segmentBytes 0xDA I.scanHead ++ I.scan) := by
    rw [hf]
    rfl
  have hlen : f.d.length = 2 + ((I.parts.flatMap JpegPart.bytes).length + (I.scanHead.length + 4 +
      I.scan.length)) := by
    rw [hf]
    simp only [JpegImage.bytes, List.length_cons, List.length_append, length_segmentBytes]
    omega
  have hparts := length_le_flatMap_bytes I.parts
  obtain ⟨n, hn⟩ : ∃ n, f.d.length + 1 = I.parts.length + (n + 1) + 1 :=
    ⟨f.d.length + 1 - (I.parts.length + 2), by omega⟩
  obtain ⟨out₁, hrun, hout₁⟩ := jpegSegments_parts (n := n + 1) hmem I.allowed hdrop hstart
  have hscan := drop_behind hdrop rfl
  set i := 2 + (I.parts.flatMap JpegPart.bytes).length with hidef
  have hat := segmentAt hmem hscan I.head_lt (by decide)
  have hfirst : jpegProcessFrame mem f out = jpegSegments mem f.d.length (n + 1) out₁ i := by
    have hzero : mem 0 = .ok 0xFF := hmem 0 _ (by rw [hf]; rfl)
    have hone : mem 1 = .ok 0xD8 := hmem 1 _ (by rw [hf]; rfl)
    rw [jpegProcessFrame, hn, jpegSegments, if_pos (by omega), hzero, ok_bind,
      if_neg (not_not.2 rfl), hone, ok_bind, segmentLength, if_pos rfl, ok_bind]
    exact hrun
  refine ⟨{ out₁ with
    scanData := i + 2 + (I.scanHead.length + 2)
    scanDataLen := (f.d.length : ℤ) - i - 2 - (I.scanHead.length + 2 : ℕ) }, ?_, ?_, ?_, ?_⟩
  · rw [hfirst, jpegSegments, if_pos hat.lt, hat.first, ok_bind, if_neg (not_not.2 rfl), hat.second,
      ok_bind, hat.blen, ok_bind]
    rfl
  · refine ⟨hout₁.quant, fun sof hsof => ?_, hout₁.initDone, hout₁.timestamp⟩
    have hset := hout₁.sof sof hsof
    exact ⟨hset.type, hset.height, hset.width, hset.luma, hset.chroma⟩
  · dsimp only
    omega
  · dsimp only
    rw [show i + 2 + (I.scanHead.length + 2) = i + (I.scanHead.length + 2 + 2) by omega]
    exact hmem.bytes_at (hat.next.trans (List.append_nil I.scan).symm)

/-- The tables that the start of frame names are defined. -/
def JpegReading.Known (r : JpegReading) : Prop :=
  ∀ sof, r.sof = some sof → r.quant sof.luma ≠ none ∧ r.quant sof.chroma ≠ none

/-- A table stays defined. -/
theorem defineAll_ne_none (ts : List QuantTable) {q : Fin 16 → Option Bytes} {k : Fin 16}
    (hk : q k ≠ none) : defineAll q ts k ≠ none := by
  induction ts generalizing q with
  | nil => exact hk
  | cons t ts ih =>
    apply ih
    by_cases hkt : k = t.number
    · simp [hkt]
    · dsimp only
      rwa [Function.update_of_ne hkt]

/-- One part more. -/
theorem JpegReading.Known.step {r : JpegReading} (h : r.Known) {p : JpegPart} (hp : r.Allows p) :
    (r.step p).Known := by
  intro sof hsof
  cases p with
  | tables ts =>
    obtain ⟨hluma, hchroma⟩ := h sof hsof
    exact ⟨defineAll_ne_none ts hluma, defineAll_ne_none ts hchroma⟩
  | frame sof' =>
    cases hsof
    exact hp.2
  | huffman body => exact h sof hsof
  | other marker body => exact h sof hsof

/-- By induction on the parts. -/
theorem JpegReading.Known.foldl {r : JpegReading} (h : r.Known) {ps : List JpegPart}
    (hps : r.AllowsAll ps) : (ps.foldl JpegReading.step r).Known := by
  induction ps generalizing r with
  | nil => exact h
  | cons p ps ih => exact ih (h.step hps.1) hps.2

/-- The bytes of a table to which there is a pointer. -/
theorem quantTable_of_rel {k : Fin 16} {t : Bytes}
    (h : Option.Rel (fun t p => mem.bytes p 64 = .ok t) (some t) (out.quant k)) {n : ℤ}
    (hn : n = (k : ℕ)) : quantTable mem out n = .ok t := by
  subst hn
  have hk : Fin.ofNat 16 ((k : ℕ) : ℤ).toNat = k := Fin.ext (Nat.mod_eq_of_lt k.isLt)
  have hin : 0 ≤ ((k : ℕ) : ℤ) ∧ ((k : ℕ) : ℤ) < 16 := by omega
  cases hp : out.quant k with
  | none =>
    rw [hp] at h
    cases h
  | some p =>
    rw [hp] at h
    cases h with
    | some hread => rw [quantTable, quantAt, if_pos hin, hk, hp, ok_bind, quantBytes, hread]

/-- What `jpeg_send` takes of the state is the picture. -/
structure Shows (mem : FrameMemory) (out : RtpJpeg) (P : JpegPicture) : Prop where
  type : toByte out.type = P.type
  width : toByte out.width = P.width
  height : toByte out.height = P.height
  luma : quantTable mem out out.lumaTable = .ok P.luma
  chroma : quantTable mem out out.chromaTable = .ok P.chroma

/-- **The state behind an image shows its picture.** -/
theorem JpegImage.picture_shown (I : JpegImage) {ready : Bool} (h : ReadAs mem f ready I.reading out) :
    ∃ P, I.picture = some P ∧ P.scan = I.scan ∧ Shows mem out P := by
  have hknown : I.reading.Known := by
    refine JpegReading.Known.foldl (fun sof hsof => ?_) I.allowed
    cases hsof
  obtain ⟨sof, hsof⟩ := Option.ne_none_iff_exists'.1 I.framed
  have hsof' : I.reading.sof = some sof := hsof
  obtain ⟨hluma, hchroma⟩ := hknown sof hsof'
  obtain ⟨luma, hluma⟩ := Option.ne_none_iff_exists'.1 hluma
  obtain ⟨chroma, hchroma⟩ := Option.ne_none_iff_exists'.1 hchroma
  have hset := h.sof sof hsof'
  have hbyte : ∀ k : Fin 256, toByte ((k : ℕ) : ℤ) = UInt8.ofNat k := fun k => by
    rw [toByte]
    congr 1
    omega
  refine ⟨_, by rw [JpegImage.picture, hsof', Option.bind_eq_bind, Option.bind_some, hluma,
    Option.bind_eq_bind, Option.bind_some, hchroma]; rfl, rfl, ?_, ?_, ?_, ?_, ?_⟩
  · rw [hset.type]
    cases sof.subsampled <;> rfl
  · rw [hset.width, hbyte]
  · rw [hset.height, hbyte]
  · exact quantTable_of_rel (hluma ▸ h.quant sof.luma) hset.luma
  · exact quantTable_of_rel (hchroma ▸ h.quant sof.chroma) hset.chroma

end Image

end Spook
