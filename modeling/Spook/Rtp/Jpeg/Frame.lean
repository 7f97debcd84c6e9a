import Spook.Rtp.Jpeg.Basic
import Mathlib.Data.List.Basic

set_option relaxedAutoImplicit false
set_option autoImplicit false

/-!
# JPEG frames

What `jpeg_process_frame` leaves for `jpeg_send` when it returns 1. The pointers to the tables are
cleared before each frame; the fields that a start of frame sets are not.

## Main definitions

* `Spook.segmentsBefore` — the segments before the scan, latest first.
* `Spook.lastEntry` — the last definition of a table.
* `Spook.JpegFit` — what `jpeg_send` relies on.
* `Spook.FrameDefines` — a frame that defines it.

## Main results

* `Spook.jpegProcessFrame_state` — the state behind a frame, by its segments.
* `Spook.jpegFit_iff` — the frames that leave what `jpeg_send` relies on.

## Notes on the design

The state behind a frame is a function of its segments: a table is the last one that was defined
with its number, and the size and the components are those of the last start of frame. This holds
segment by segment (`SegmentState`), latest first, so that a segment more is a case more.
-/

namespace Spook

/-! ## The segments of a frame -/

/-- A segment: the index of its first byte, its marker and `blen`. -/
structure JpegSegment where
  start : ℕ
  marker : UInt8
  blen : ℕ
  deriving DecidableEq

section Segments

variable (mem : FrameMemory)

/-- The segments before the scan from `i` on, at most `n` of them, in front of `segs`: the latest
first. -/
def segmentsBefore (n i : ℕ) (segs : List JpegSegment) : List JpegSegment :=
  match n with
  | 0 => segs
  | n + 1 =>
    match mem (i + 1) with
    | .error _ => segs
    | .ok marker =>
      if marker = 0xDA then segs
      else
        match segmentLength mem i marker with
        | .error _ => segs
        | .ok blen => segmentsBefore n (i + (blen + 2)) (⟨i, marker, blen⟩ :: segs)

/-- The indices of the entries of a segment with tables, the last one first. -/
def JpegSegment.entries (seg : JpegSegment) : List ℕ :=
  if seg.marker = 0xDB then
    (List.range' (seg.start + 4) ((seg.blen - 2 + 64) / 65) 65).reverse
  else []

/-- The number of the table that the entry at `p` defines. -/
def entryTable (p : ℕ) : Option (Fin 16) :=
  match mem p with
  | .ok b => some (Fin.ofNat 16 b.toNat)
  | .error _ => none

/-- The last entry that defines the table `k`. -/
def lastEntry (segs : List JpegSegment) (k : Fin 16) : Option ℕ :=
  (segs.flatMap JpegSegment.entries).find? fun p => entryTable mem p = some k

/-- The last start of frame. -/
def lastSOF (segs : List JpegSegment) : Option JpegSegment :=
  segs.find? fun seg => seg.marker = 0xC0

/-- Whether the component at `c` has an id. -/
def componentIs (p : UInt8 → Bool) (c : ℕ) : Bool :=
  match mem c with
  | .ok id => p id
  | .error _ => false

/-- The ids of the luma component. -/
def isLuma (id : UInt8) : Bool := id = 1

/-- The ids of the chroma components. -/
def isChroma (id : UInt8) : Bool := id = 2 ∨ id = 3

/-- The indices of the components of a start of frame, the last one first. -/
def JpegSegment.components (seg : JpegSegment) : List ℕ :=
  [seg.start + 4 + 12, seg.start + 4 + 9, seg.start + 4 + 6]

/-- The last component with an id. -/
def JpegSegment.component (seg : JpegSegment) (p : UInt8 → Bool) : Option ℕ :=
  seg.components.find? (componentIs mem p)

end Segments

/-! ## What the sender needs -/

section Needs

variable (mem : FrameMemory) (f : MediaFrame)

/-- The segments of a frame before its scan. -/
def jpegSegmentsOf : List JpegSegment := segmentsBefore mem (f.d.length + 1) 0 []

/-- `n` is the number of a table that an entry of this frame defines, with its 64 bytes in the
frame, and `quant` points to them. -/
def TableFit (out : RtpJpeg) (n : ℤ) : Prop :=
  ∃ (k : Fin 16) (e : ℕ), n = k.val ∧ (∃ seg ∈ jpegSegmentsOf mem f, e ∈ seg.entries) ∧
    entryTable mem e = some k ∧ out.quant k = some (e + 1) ∧ e + 1 + 64 ≤ f.d.length

/-- The type is the one of a luma component at `c`. -/
def TypeFrom (out : RtpJpeg) (c : ℕ) : Prop :=
  (mem (c + 1) = .ok 0x11 ∧ out.type = 0) ∨ (mem (c + 1) = .ok 0x22 ∧ out.type = 1)

/-- The size is the one of the start of frame `seg`, in units of eight. -/
structure SizeFrom (seg : JpegSegment) (out : RtpJpeg) : Prop where
  height : ∃ n : ℕ, mem.get16 (seg.start + 5) = .ok n ∧ out.height = (n / 8 : ℕ)
  width : ∃ n : ℕ, mem.get16 (seg.start + 7) = .ok n ∧ out.width = (n / 8 : ℕ)

/-- What `jpeg_send` relies on: the tables are defined in the frame; the size and the type are those
of the last start of frame, which is in the frame and has all its bytes; and the size fits
in bytes. -/
structure JpegFit (out : RtpJpeg) : Prop where
  luma : TableFit mem f out out.lumaTable
  chroma : TableFit mem f out out.chromaTable
  sof : ∃ seg, lastSOF (jpegSegmentsOf mem f) = some seg ∧ 17 ≤ seg.blen ∧
    seg.start + 2 + seg.blen ≤ f.d.length ∧ SizeFrom mem seg out ∧
    ∃ c ∈ seg.components, mem c = .ok 1 ∧ TypeFrom mem out c
  height : 0 ≤ out.height ∧ out.height < 256
  width : 0 ≤ out.width ∧ out.width < 256

/-- The last definition of the table that the component at `c` names has its 64 bytes in the
frame. -/
def DefinedInside (c : ℕ) : Prop :=
  ∃ k e, entryTable mem (c + 2) = some k ∧ lastEntry mem (jpegSegmentsOf mem f) k = some e ∧
    e + 1 + 64 ≤ f.d.length

/-- The number at `p` is below 2048. -/
def SizeFits (p : ℕ) : Prop := ∃ n, mem.get16 p = .ok n ∧ n < 2048

/-- There is a start of frame before the scan. The last one has all its bytes, a luma and a chroma
component whose tables are inside the frame, and a size that fits. -/
def FrameDefines : Prop :=
  ∃ seg, lastSOF (jpegSegmentsOf mem f) = some seg ∧ 17 ≤ seg.blen ∧
    (∃ c, seg.component mem isLuma = some c ∧ DefinedInside mem f c) ∧
    (∃ c, seg.component mem isChroma = some c ∧ DefinedInside mem f c) ∧
    SizeFits mem (seg.start + 5) ∧ SizeFits mem (seg.start + 7)

end Needs

/-! ## The tables -/

section Tables

variable {mem : FrameMemory} {out out' : RtpJpeg} {d i n : ℕ} {len ret : ℤ}

/-- The entries from the index `i` of the data at `d` on. -/
def dqtEntries (d : ℕ) (len : ℤ) (i : ℕ) : List ℕ :=
  List.range' (d + i) ((len.toNat - i + 64) / 65) 65

/-- One table more. -/
theorem dqtEntries_cons (h : (i : ℤ) < len) :
    dqtEntries d len i = (d + i) :: dqtEntries d len (i + 65) := by
  have hcount : (len.toNat - i + 64) / 65 = (len.toNat - (i + 65) + 64) / 65 + 1 := by omega
  unfold dqtEntries
  rw [hcount, List.range'_succ, Nat.add_assoc]

/-- No table is left. -/
theorem dqtEntries_nil (h : ¬ (i : ℤ) < len) : dqtEntries d len i = [] := by
  have hcount : (len.toNat - i + 64) / 65 = 0 := by omega
  unfold dqtEntries
  rw [hcount, List.range'_zero]

/-- The tables behind the loop of `parse_DQT`. -/
theorem parseDQTLoop_quant (h : parseDQTLoop mem d len n i out = .ok (out', ret)) (hret : ¬ ret < 0) :
    out' = { out with quant := out'.quant } ∧ ∀ k, out'.quant k =
      (((dqtEntries d len i).reverse.find? fun p => entryTable mem p = some k).map (· + 1)).or
        (out.quant k) := by
  induction n generalizing i out with
  | zero => cases h
  | succ n ih =>
    unfold parseDQTLoop at h
    by_cases hi : (i : ℤ) < len
    · rw [if_pos hi] at h
      obtain ⟨b, hb, h⟩ := bind_eq_ok.1 h
      by_cases hprec : b &&& 0xF0 ≠ 0
      · rw [if_pos hprec] at h
        obtain ⟨-, rfl⟩ := Prod.mk.inj (Except.ok.inj h)
        exact absurd (by decide) hret
      · rw [if_neg hprec] at h
        obtain ⟨hframe, hquant⟩ := ih h
        refine ⟨hframe, fun k => ?_⟩
        have hentry : entryTable mem (d + i) = some (Fin.ofNat 16 b.toNat) := by
          unfold entryTable
          rw [hb]
        -- The entry at `i` counts where no later one defines the table.
        rw [hquant k, dqtEntries_cons hi, List.reverse_cons, List.find?_append]
        dsimp only
        generalize Fin.ofNat 16 b.toNat = t at hentry ⊢
        rcases (dqtEntries d len (i + 65)).reverse.find? fun p => entryTable mem p = some k with _ | e
        · by_cases hk : t = k
          · subst hk
            simp [hentry]
          · simp [hentry, hk, Function.update_of_ne (Ne.symm hk)]
        · simp
    · rw [if_neg hi] at h
      obtain ⟨rfl, -⟩ := Prod.mk.inj (Except.ok.inj h)
      simp [dqtEntries_nil hi]

/-- The tables behind a segment with tables. -/
theorem parseDQT_quant {blen : ℕ} (h : parseDQT mem out (i + 4) (blen - 2) = .ok (out', ret))
    (hret : ¬ ret < 0) (segs : List JpegSegment)
    (hquant : ∀ k, out.quant k = (lastEntry mem segs k).map (· + 1)) :
    out' = { out with quant := out'.quant } ∧
      ∀ k, out'.quant k = (lastEntry mem (⟨i, 0xDB, blen⟩ :: segs) k).map (· + 1) := by
  obtain ⟨hframe, hquant'⟩ := parseDQTLoop_quant h hret
  refine ⟨hframe, fun k => ?_⟩
  have hentries : dqtEntries (i + 4) (blen - 2) 0 = List.range' (i + 4) ((blen - 2 + 64) / 65) 65 := by
    unfold dqtEntries
    congr 2
    omega
  rw [hquant' k, hquant k, hentries]
  unfold lastEntry
  rw [List.flatMap_cons, List.find?_append]
  simp only [JpegSegment.entries, if_true, Option.map_or]

end Tables

/-! ## The components -/

section Components

variable {mem : FrameMemory} {out out' : RtpJpeg} {c : ℕ} {cs ds : List ℕ} {ret : ℤ}
  {seg : JpegSegment}

/-- The luma component at `c` gave the type and the table. -/
def LumaFrom (mem : FrameMemory) (c : ℕ) (out : RtpJpeg) : Prop :=
  mem c = .ok 1 ∧ TypeFrom mem out c ∧
    ∃ k : Fin 16, entryTable mem (c + 2) = some k ∧ out.lumaTable = k.val ∧ out.quant k ≠ none

/-- The chroma component at `c` gave the table. -/
def ChromaFrom (mem : FrameMemory) (c : ℕ) (out : RtpJpeg) : Prop :=
  ∃ k : Fin 16, entryTable mem (c + 2) = some k ∧ out.chromaTable = k.val ∧ out.quant k ≠ none

/-- What the components `ds`, the latest first, have set. -/
structure ComponentState (mem : FrameMemory) (ds : List ℕ) (out : RtpJpeg) : Prop where
  luma : ∀ c, ds.find? (componentIs mem isLuma) = some c → LumaFrom mem c out
  chroma : ∀ c, ds.find? (componentIs mem isChroma) = some c → ChromaFrom mem c out
  noChroma : ds.find? (componentIs mem isChroma) = none → out.chromaTable < 0

/-- The component, where it can be read. -/
theorem componentIs_ok {p : UInt8 → Bool} {id : UInt8} (h : mem c = .ok id) :
    componentIs mem p c = p id := by
  unfold componentIs
  rw [h]

/-- A component that is accepted. -/
theorem parseComponent_ok (h : parseComponent mem out c = .ok (out', ret)) (hret : ¬ ret < 0) :
    ∃ (id : UInt8) (k : Fin 16), mem c = .ok id ∧ entryTable mem (c + 2) = some k ∧
      out.quant k ≠ none ∧
      ((id = 1 ∧ ∃ t : ℤ, out' = { out with type := t, lumaTable := k.val } ∧
          TypeFrom mem out' c) ∨
        ((id = 2 ∨ id = 3) ∧ out' = { out with chromaTable := k.val })) := by
  obtain ⟨table, htable, h⟩ := bind_eq_ok.1 h
  by_cases hbad : 16 ≤ table ∨ out.quant (Fin.ofNat 16 table.toNat) = none
  · rw [if_pos hbad] at h
    obtain ⟨-, rfl⟩ := Prod.mk.inj (Except.ok.inj h)
    exact absurd (by decide) hret
  rw [if_neg hbad] at h
  rw [not_or] at hbad
  have hlt : table.toNat < 16 := by
    have hlt := hbad.1
    rw [UInt8.le_iff_toNat_le] at hlt
    simpa using hlt
  have hval : ((Fin.ofNat 16 table.toNat).val : ℤ) = table.toNat := by
    rw [Fin.val_ofNat, Nat.mod_eq_of_lt hlt]
  have hentry : entryTable mem (c + 2) = some (Fin.ofNat 16 table.toNat) := by
    unfold entryTable
    rw [htable]
  obtain ⟨id, hid, h⟩ := bind_eq_ok.1 h
  obtain ⟨sampling, hsampling, h⟩ := bind_eq_ok.1 h
  refine ⟨id, _, hid, hentry, hbad.2, ?_⟩
  rw [hval]
  by_cases hluma : id = 1
  · rw [if_pos hluma] at h
    split_ifs at h with h₁ h₂
    · obtain ⟨rfl, -⟩ := Prod.mk.inj (Except.ok.inj h)
      exact .inl ⟨hluma, 0, rfl, .inl ⟨h₁ ▸ hsampling, rfl⟩⟩
    · obtain ⟨rfl, -⟩ := Prod.mk.inj (Except.ok.inj h)
      exact .inl ⟨hluma, 1, rfl, .inr ⟨h₂ ▸ hsampling, rfl⟩⟩
    · obtain ⟨-, rfl⟩ := Prod.mk.inj (Except.ok.inj h)
      exact absurd (by decide) hret
  rw [if_neg hluma] at h
  split_ifs at h with hchroma h₁ h₂ h₃
  · obtain ⟨-, rfl⟩ := Prod.mk.inj (Except.ok.inj h)
    exact absurd (by decide) hret
  · obtain ⟨rfl, -⟩ := Prod.mk.inj (Except.ok.inj h)
    exact .inr ⟨hchroma, rfl⟩
  · obtain ⟨-, rfl⟩ := Prod.mk.inj (Except.ok.inj h)
    exact absurd (by decide) hret
  · obtain ⟨rfl, -⟩ := Prod.mk.inj (Except.ok.inj h)
    rw [not_not] at h₃
    exact .inr ⟨hchroma, by rw [← h₃]⟩
  · obtain ⟨-, rfl⟩ := Prod.mk.inj (Except.ok.inj h)
    exact absurd (by decide) hret

/-- A component more. -/
theorem ComponentState.cons (h : ComponentState mem ds out)
    (hc : parseComponent mem out c = .ok (out', ret)) (hret : ¬ ret < 0) :
    ComponentState mem (c :: ds) out' := by
  obtain ⟨id, k, hid, hentry, hquant, hset⟩ := parseComponent_ok hc hret
  rcases hset with ⟨rfl, t, rfl, htype⟩ | ⟨hchroma, rfl⟩
  · have hluma : componentIs mem isLuma c = true := componentIs_ok hid
    have hnot : ¬ componentIs mem isChroma c = true := by
      rw [componentIs_ok hid]
      decide
    refine ⟨fun c' hc' => ?_, fun c' hc' => ?_, fun hnone => ?_⟩
    · rw [List.find?_cons_of_pos hluma] at hc'
      obtain rfl := Option.some.inj hc'
      exact ⟨hid, htype, k, hentry, rfl, hquant⟩
    · rw [List.find?_cons_of_neg hnot] at hc'
      exact h.chroma c' hc'
    · rw [List.find?_cons_of_neg hnot] at hnone
      exact h.noChroma hnone
  · have hluma : ¬ componentIs mem isLuma c = true := by
      rw [componentIs_ok hid]
      rcases hchroma with rfl | rfl <;> decide
    have hpos : componentIs mem isChroma c = true := by
      rw [componentIs_ok hid]
      rcases hchroma with rfl | rfl <;> rfl
    refine ⟨fun c' hc' => ?_, fun c' hc' => ?_, fun hnone => ?_⟩
    · rw [List.find?_cons_of_neg hluma] at hc'
      exact h.luma c' hc'
    · rw [List.find?_cons_of_pos hpos] at hc'
      obtain rfl := Option.some.inj hc'
      exact ⟨k, hentry, rfl, hquant⟩
    · rw [List.find?_cons_of_pos hpos] at hnone
      cases hnone

/-- All components. -/
theorem ComponentState.components (h : ComponentState mem ds out)
    (hcs : parseComponents mem out cs = .ok (out', ret)) (hret : ¬ ret < 0) :
    ComponentState mem (cs.reverse ++ ds) out' ∧ out' = { out with
      type := out'.type, lumaTable := out'.lumaTable, chromaTable := out'.chromaTable } := by
  induction cs generalizing ds out with
  | nil =>
    obtain ⟨rfl, -⟩ := Prod.mk.inj (Except.ok.inj hcs)
    exact ⟨h, rfl⟩
  | cons c cs ih =>
    obtain ⟨⟨out₁, ret₁⟩, hc, hcs⟩ := bind_eq_ok.1 hcs
    dsimp only at hcs
    by_cases hret₁ : ret₁ < 0
    · rw [if_pos hret₁] at hcs
      obtain ⟨-, rfl⟩ := Prod.mk.inj (Except.ok.inj hcs)
      exact absurd (by decide) hret
    · rw [if_neg hret₁] at hcs
      obtain ⟨hstate, hframe⟩ := ih (h.cons hc hret₁) hcs
      rw [List.reverse_cons, List.append_assoc]
      refine ⟨hstate, ?_⟩
      obtain ⟨id, k, _, _, _, ⟨_, t, rfl, _⟩ | ⟨_, rfl⟩⟩ := parseComponent_ok hc hret₁
      · exact hframe
      · exact hframe

/-- What a start of frame has set. -/
structure SOFState (mem : FrameMemory) (seg : JpegSegment) (out : RtpJpeg) : Prop where
  size : SizeFrom mem seg out
  components : ComponentState mem seg.components out

/-- The start of frame is kept while the tables change, if none is cleared. -/
theorem SOFState.imp {quant : Fin 16 → Option ℕ} (h : SOFState mem seg out)
    (hquant : ∀ k, out.quant k ≠ none → quant k ≠ none) :
    SOFState mem seg { out with quant := quant } := by
  refine ⟨⟨h.size.height, h.size.width⟩, ?_, ?_, h.components.noChroma⟩
  · intro c hc
    obtain ⟨hid, htype, k, hentry, hk, hdef⟩ := h.components.luma c hc
    exact ⟨hid, htype, k, hentry, hk, hquant k hdef⟩
  · intro c hc
    obtain ⟨k, hentry, hk, hdef⟩ := h.components.chroma c hc
    exact ⟨k, hentry, hk, hquant k hdef⟩

/-- A start of frame that is accepted. -/
theorem parseSOF_state {i : ℕ} (marker : UInt8) (blen : ℕ)
    (h : parseSOF mem out (i + 4) = .ok (out', ret)) (hret : ¬ ret < 0) :
    SOFState mem ⟨i, marker, blen⟩ out' ∧ out'.quant = out.quant := by
  unfold parseSOF at h
  dsimp only at h
  obtain ⟨prec, -, h⟩ := bind_eq_ok.1 h
  by_cases hprec : prec ≠ 8
  · rw [if_pos hprec] at h
    obtain ⟨-, rfl⟩ := Prod.mk.inj (Except.ok.inj h)
    exact absurd (by decide) hret
  rw [if_neg hprec] at h
  obtain ⟨height, hheight, h⟩ := bind_eq_ok.1 h
  obtain ⟨width, hwidth, h⟩ := bind_eq_ok.1 h
  by_cases hsize : height % 8 ≠ 0 ∨ width % 8 ≠ 0
  · rw [if_pos hsize] at h
    obtain ⟨-, rfl⟩ := Prod.mk.inj (Except.ok.inj h)
    exact absurd (by decide) hret
  rw [if_neg hsize] at h
  obtain ⟨count, -, h⟩ := bind_eq_ok.1 h
  by_cases hcount : count ≠ 3
  · rw [if_pos hcount] at h
    obtain ⟨-, rfl⟩ := Prod.mk.inj (Except.ok.inj h)
    exact absurd (by decide) hret
  rw [if_neg hcount] at h
  have hstart : ComponentState mem [] { out with
      chromaTable := -1, height := (height / 8 : ℤ), width := (width / 8 : ℤ) } :=
    ⟨by simp, by simp, fun _ => show (-1 : ℤ) < 0 by decide⟩
  obtain ⟨hstate, hframe⟩ := hstart.components h hret
  refine ⟨⟨⟨⟨height, hheight, ?_⟩, ⟨width, hwidth, ?_⟩⟩, hstate⟩, ?_⟩
  · rw [hframe]
    simp
  · rw [hframe]
    simp
  · rw [hframe]

end Components

/-! ## The loop -/

section Loop

variable {mem : FrameMemory} {out out' : RtpJpeg} {length n i blen : ℕ} {marker : UInt8}
  {segs : List JpegSegment}

/-- The state behind the segments `segs`, the latest first. -/
structure SegmentState (mem : FrameMemory) (segs : List JpegSegment) (out : RtpJpeg) : Prop where
  quant : ∀ k, out.quant k = (lastEntry mem segs k).map (· + 1)
  sof : ∀ seg, lastSOF segs = some seg → SOFState mem seg out

/-- A segment of another kind in front. -/
theorem lastEntry_cons (h : marker ≠ 0xDB) (k : Fin 16) :
    lastEntry mem (⟨i, marker, blen⟩ :: segs) k = lastEntry mem segs k := by
  unfold lastEntry
  rw [List.flatMap_cons, JpegSegment.entries, if_neg h, List.nil_append]

/-- Another segment is no start of frame. -/
theorem lastSOF_cons (h : marker ≠ 0xC0) : lastSOF (⟨i, marker, blen⟩ :: segs) = lastSOF segs := by
  unfold lastSOF
  rw [List.find?_cons_of_neg]
  simpa using h

/-- A segment more.

**Proof sketch.** By the marker. A segment of tables puts its entries behind those before, of which
the last one for a number counts; a start of frame sets the size and the components; all other
segments touch neither. -/
theorem SegmentState.cons (h : SegmentState mem segs out)
    (hseg : jpegSegment mem out length i blen marker = .ok (out', none)) :
    SegmentState mem (⟨i, marker, blen⟩ :: segs) out' := by
  unfold jpegSegment at hseg
  by_cases hdqt : marker = 0xDB
  · subst hdqt
    rw [if_pos rfl] at hseg
    obtain ⟨⟨out₁, ret⟩, hparse, hseg⟩ := bind_eq_ok.1 hseg
    dsimp only at hseg
    split_ifs at hseg with hret
    · cases hseg
    · obtain ⟨rfl, -⟩ := Prod.mk.inj (Except.ok.inj hseg)
      obtain ⟨hframe, hquant⟩ := parseDQT_quant hparse hret segs h.quant
      refine ⟨hquant, fun seg hsof => ?_⟩
      rw [lastSOF_cons (by decide)] at hsof
      rw [hframe]
      refine (h.sof seg hsof).imp fun k hk => ?_
      -- A table that is defined is defined by a later entry, or still by the same one.
      rw [hquant k, lastEntry, List.flatMap_cons, List.find?_append]
      rw [h.quant k, lastEntry] at hk
      rw [Option.map_or]
      exact fun hnone => hk (Option.or_eq_none_iff.1 hnone).2
  rw [if_neg hdqt] at hseg
  by_cases hsof : marker = 0xC0
  · subst hsof
    rw [if_pos rfl] at hseg
    obtain ⟨⟨out₁, ret⟩, hparse, hseg⟩ := bind_eq_ok.1 hseg
    dsimp only at hseg
    split_ifs at hseg with hret
    · cases hseg
    · obtain ⟨rfl, -⟩ := Prod.mk.inj (Except.ok.inj hseg)
      obtain ⟨hstate, hquant⟩ := parseSOF_state 0xC0 blen hparse hret
      refine ⟨fun k => ?_, fun seg hlast => ?_⟩
      · rw [hquant, lastEntry_cons hdqt]
        exact h.quant k
      · obtain rfl := Option.some.inj hlast
        exact hstate
  rw [if_neg hsof] at hseg
  refine ⟨fun k => ?_, fun seg hlast => ?_⟩
  · rw [lastEntry_cons hdqt, ← h.quant k]
    split_ifs at hseg
    · obtain ⟨rfl, -⟩ := Prod.mk.inj (Except.ok.inj hseg)
      rfl
    · cases hseg
    · cases hseg
    · obtain ⟨rfl, -⟩ := Prod.mk.inj (Except.ok.inj hseg)
      rfl
  · rw [lastSOF_cons hsof] at hlast
    have hkept := h.sof seg hlast
    split_ifs at hseg
    · obtain ⟨rfl, -⟩ := Prod.mk.inj (Except.ok.inj hseg)
      exact ⟨⟨hkept.size.height, hkept.size.width⟩, hkept.components.luma, hkept.components.chroma,
        hkept.components.noChroma⟩
    · cases hseg
    · cases hseg
    · obtain ⟨rfl, -⟩ := Prod.mk.inj (Except.ok.inj hseg)
      exact hkept

/-- The segment that makes the frame ready. -/
theorem SegmentState.scan (h : SegmentState mem segs out)
    (hseg : jpegSegment mem out length i blen marker = .ok (out', some 1)) :
    marker = 0xDA ∧ SegmentState mem segs out' := by
  unfold jpegSegment at hseg
  by_cases hdqt : marker = 0xDB
  · rw [if_pos hdqt] at hseg
    obtain ⟨⟨out₁, ret⟩, -, hseg⟩ := bind_eq_ok.1 hseg
    dsimp only at hseg
    split_ifs at hseg <;> cases hseg
  rw [if_neg hdqt] at hseg
  by_cases hsof : marker = 0xC0
  · rw [if_pos hsof] at hseg
    obtain ⟨⟨out₁, ret⟩, -, hseg⟩ := bind_eq_ok.1 hseg
    dsimp only at hseg
    split_ifs at hseg <;> cases hseg
  rw [if_neg hsof] at hseg
  by_cases hdht : marker = 0xC4
  · rw [if_pos hdht] at hseg
    cases hseg
  rw [if_neg hdht] at hseg
  by_cases hsos : marker = 0xDA
  · rw [if_pos hsos] at hseg
    obtain ⟨rfl, -⟩ := Prod.mk.inj (Except.ok.inj hseg)
    refine ⟨hsos, h.quant, fun seg hlast => ?_⟩
    have hkept := h.sof seg hlast
    exact ⟨⟨hkept.size.height, hkept.size.width⟩, hkept.components.luma, hkept.components.chroma,
      hkept.components.noChroma⟩
  · rw [if_neg hsos] at hseg
    cases hseg

/-- The loop of `jpeg_process_frame`, from the index behind `segs` on. -/
theorem jpegSegments_state (h : jpegSegments mem length n out i = .ok (out', 1))
    (hstate : SegmentState mem segs out) (hin : ∀ seg ∈ segs, seg.start + 2 + seg.blen ≤ i) :
    SegmentState mem (segmentsBefore mem n i segs) out' ∧
      ∀ seg ∈ segmentsBefore mem n i segs, seg.start + 2 + seg.blen ≤ length := by
  induction n generalizing out i segs with
  | zero => cases h
  | succ n ih =>
    unfold jpegSegments at h
    unfold segmentsBefore
    by_cases hi : i < length
    · rw [if_pos hi] at h
      obtain ⟨start, -, h⟩ := bind_eq_ok.1 h
      split_ifs at h
      · cases h
      obtain ⟨marker, hmarker, h⟩ := bind_eq_ok.1 h
      obtain ⟨blen, hblen, h⟩ := bind_eq_ok.1 h
      obtain ⟨⟨out₁, _ | ret⟩, hseg, h⟩ := bind_eq_ok.1 h
      · have hsos : marker ≠ 0xDA := by
          rintro rfl
          cases hseg
        simp only [hmarker, if_neg hsos, hblen]
        refine ih h (hstate.cons hseg) fun seg hmem => ?_
        rcases List.mem_cons.1 hmem with rfl | hmem
        · show i + 2 + blen ≤ i + (blen + 2)
          omega
        · have := hin seg hmem
          omega
      · obtain ⟨rfl, rfl⟩ := Prod.mk.inj (Except.ok.inj h)
        obtain ⟨rfl, hscan⟩ := hstate.scan hseg
        simp only [hmarker, if_true]
        exact ⟨hscan, fun seg hmem => Nat.le_trans (hin seg hmem) (Nat.le_of_lt hi)⟩
    · rw [if_neg hi] at h
      cases h

/-- **The state behind a frame**, by its segments. -/
theorem jpegProcessFrame_state {f : MediaFrame} (h : jpegProcessFrame mem f out = .ok (out', 1)) :
    SegmentState mem (jpegSegmentsOf mem f) out' ∧
      ∀ seg ∈ jpegSegmentsOf mem f, seg.start + 2 + seg.blen ≤ f.d.length := by
  refine jpegSegments_state h ⟨fun k => rfl, ?_⟩ ?_
  · simp [lastSOF]
  · simp

end Loop

/-! ## Frames that are ready -/

section Ready

variable {mem : FrameMemory} {f : MediaFrame} {out out' : RtpJpeg} {seg : JpegSegment} {c : ℕ}

/-- A table that a component named is fit if its last definition is inside the frame. -/
theorem tableFit_iff (h : SegmentState mem (jpegSegmentsOf mem f) out) {k : Fin 16} {n : ℤ}
    (hentry : entryTable mem (c + 2) = some k) (hn : n = k.val) :
    TableFit mem f out n ↔ DefinedInside mem f c := by
  subst hn
  constructor
  · rintro ⟨k', e, hk, -, -, hquant, hin⟩
    obtain rfl : k = k' := Fin.ext (by exact_mod_cast hk)
    rw [h.quant k, Option.map_eq_some_iff] at hquant
    obtain ⟨e', hlast, he⟩ := hquant
    obtain rfl : e' = e := by omega
    exact ⟨k, e', hentry, hlast, hin⟩
  · rintro ⟨k', e, hk, hlast, hin⟩
    obtain rfl := Option.some.inj (hentry.symm.trans hk)
    obtain ⟨seg, hseg, he⟩ := List.mem_flatMap.1 (List.mem_of_find?_eq_some hlast)
    refine ⟨k, e, rfl, ⟨seg, hseg, he⟩, ?_, ?_, hin⟩
    · simpa using List.find?_some hlast
    · rw [h.quant k, hlast]
      rfl

/-- A size fits in a byte, in units of eight, if it is below 2048. -/
theorem sizeFits_iff {p n : ℕ} {z : ℤ} (hread : mem.get16 p = .ok n) (hz : z = (n / 8 : ℕ)) :
    0 ≤ z ∧ z < 256 ↔ SizeFits mem p := by
  subst hz
  constructor
  · rintro ⟨-, hlt⟩
    exact ⟨n, hread, by omega⟩
  · rintro ⟨m, hm, hlt⟩
    obtain rfl := Except.ok.inj (hread.symm.trans hm)
    omega

/-- There is a luma component if and only if one is found. -/
theorem component_isSome {p : UInt8 → Bool} {id : UInt8} (hc : c ∈ seg.components)
    (hid : mem c = .ok id) (hp : p id = true) : ∃ c', seg.component mem p = some c' := by
  rw [← Option.isSome_iff_exists, JpegSegment.component, List.find?_isSome]
  exact ⟨c, hc, by rwa [componentIs_ok hid]⟩

/-- A frame that is ready is fit if and only if it defines what the sender needs. -/
theorem jpegFit_of_frame (h : jpegProcessFrame mem f out = .ok (out', 1)) :
    JpegFit mem f out' ↔ FrameDefines mem f := by
  obtain ⟨hstate, hin⟩ := jpegProcessFrame_state h
  constructor
  · intro hfit
    obtain ⟨seg, hlast, hlen, -, -, c₀, hc₀, hid, -⟩ := hfit.sof
    obtain ⟨hsize, hcomps⟩ := hstate.sof seg hlast
    obtain ⟨height, hheight, heq⟩ := hsize.height
    obtain ⟨width, hwidth, hweq⟩ := hsize.width
    refine ⟨seg, hlast, hlen, ?_, ?_, (sizeFits_iff hheight heq).1 hfit.height,
      (sizeFits_iff hwidth hweq).1 hfit.width⟩
    · obtain ⟨c, hc⟩ := component_isSome (p := isLuma) hc₀ hid rfl
      obtain ⟨-, -, k, hentry, hk, -⟩ := hcomps.luma c hc
      exact ⟨c, hc, (tableFit_iff hstate hentry hk).1 hfit.luma⟩
    · rcases hc : seg.component mem isChroma with _ | c
      · -- Without a chroma component the number of the table is below zero.
        have hneg := hcomps.noChroma hc
        obtain ⟨k, -, hk, -⟩ := hfit.chroma
        omega
      · obtain ⟨k, hentry, hk, -⟩ := hcomps.chroma c hc
        exact ⟨c, rfl, (tableFit_iff hstate hentry hk).1 hfit.chroma⟩
  · rintro ⟨seg, hlast, hlen, ⟨c, hc, hluma⟩, ⟨c', hc', hchroma⟩, hhfits, hwfits⟩
    obtain ⟨hsize, hcomps⟩ := hstate.sof seg hlast
    obtain ⟨height, hheight, heq⟩ := hsize.height
    obtain ⟨width, hwidth, hweq⟩ := hsize.width
    obtain ⟨hid, htype, k, hentry, hk, -⟩ := hcomps.luma c hc
    obtain ⟨k', hentry', hk', -⟩ := hcomps.chroma c' hc'
    have hmem : seg ∈ jpegSegmentsOf mem f := List.mem_of_find?_eq_some hlast
    refine ⟨(tableFit_iff hstate hentry hk).2 hluma, (tableFit_iff hstate hentry' hk').2 hchroma,
      ⟨seg, hlast, hlen, hin seg hmem, hsize, c, List.mem_of_find?_eq_some hc, hid, htype⟩, ?_, ?_⟩
    · exact (sizeFits_iff hheight heq).2 hhfits
    · exact (sizeFits_iff hwidth hweq).2 hwfits

end Ready

/-! ## Streams of frames -/

/-- `jpeg_process_frame` for frames one after the other, each with the memory it is in: what every
call leaves and returns. -/
def jpegRun : List (FrameMemory × MediaFrame) → RtpJpeg → Except Fault (List (RtpJpeg × ℤ))
  | [], _ => .ok []
  | (mem, f) :: fs, out => do
    let (out, ret) ← jpegProcessFrame mem f out
    let rest ← jpegRun fs out
    return (out, ret) :: rest

/-- **JPEG frames.** In every stream of frames, from any state on, a call that returns 1 leaves what
`jpeg_send` relies on exactly if its frame defines it. -/
theorem jpegFit_iff {fs : List (FrameMemory × MediaFrame)} {out out' : RtpJpeg}
    {calls : List (RtpJpeg × ℤ)} (hrun : jpegRun fs out = .ok calls) {j : ℕ} {mem : FrameMemory}
    {f : MediaFrame} (hframe : fs[j]? = some (mem, f)) (hcall : calls[j]? = some (out', 1)) :
    JpegFit mem f out' ↔ FrameDefines mem f := by
  induction fs generalizing out calls j with
  | nil => cases hframe
  | cons g gs ih =>
    obtain ⟨mem₀, f₀⟩ := g
    obtain ⟨⟨out₁, ret⟩, hfirst, hrun⟩ := bind_eq_ok.1 hrun
    obtain ⟨rest, hrest, hrun⟩ := bind_eq_ok.1 hrun
    obtain rfl := Except.ok.inj hrun
    cases j with
    | zero =>
      obtain ⟨rfl, rfl⟩ := Prod.mk.inj (Option.some.inj hframe)
      obtain ⟨rfl, rfl⟩ := Prod.mk.inj (Option.some.inj hcall)
      exact jpegFit_of_frame hfirst
    | succ j => exact ih hrest hframe hcall

/-- What a stream starts with; `malloc` gave zeros. -/
def rtpJpegZero : RtpJpeg where
  type := 0
  width := 0
  height := 0
  lumaTable := 0
  chromaTable := 0
  quant _ := none
  scanData := 0
  scanDataLen := 0
  initDone := false
  timestamp := 0

/-- A frame of the segments SOI, `segs`, DHT and SOS. -/
def jpegFrame (segs : Bytes) : MediaFrame :=
  ⟨[0xFF, 0xD8] ++ segs ++ [0xFF, 0xC4, 0, 2, 0xFF, 0xDA, 0, 2], 0⟩

/-- A frame of 16 by 8 with a table. -/
def wholeFrame : MediaFrame :=
  jpegFrame ([0xFF, 0xDB, 0, 67, 0] ++ List.replicate 64 1 ++
    [0xFF, 0xC0, 0, 17, 8, 0, 8, 0, 16, 3, 1, 0x11, 0, 2, 0x11, 0, 3, 0x11, 0])

/-- A frame without a start of frame. -/
def bareFrame : MediaFrame := jpegFrame []

/-- What the calls of a stream return. -/
def jpegReturns (calls : Except Fault (List (RtpJpeg × ℤ))) : List ℤ :=
  match calls with
  | .ok calls => calls.map Prod.snd
  | .error _ => []

/-- A call that returns alone. -/
theorem jpegRun_of_returns (calls : Except Fault (List (RtpJpeg × ℤ))) (ret : ℤ)
    (h : jpegReturns calls = [ret]) : ∃ out, calls = .ok [(out, ret)] := by
  rcases calls with e | calls
  · cases h
  · obtain ⟨⟨out, ret'⟩, rfl, rfl⟩ := List.map_eq_singleton_iff.1 h
    exact ⟨out, rfl⟩

/-- A frame that is fit. -/
theorem jpegFit_iff_whole :
    ∃ out', jpegRun [(wholeFrame.byte, wholeFrame)] rtpJpegZero = .ok [(out', 1)] ∧
      (JpegFit wholeFrame.byte wholeFrame out' ↔ FrameDefines wholeFrame.byte wholeFrame) := by
  obtain ⟨out', hrun⟩ := jpegRun_of_returns
    (jpegRun [(wholeFrame.byte, wholeFrame)] rtpJpegZero) 1 (by decide +kernel)
  exact ⟨out', hrun, jpegFit_iff (j := 0) hrun rfl rfl⟩

/-- Without a start of frame a frame is ready and not fit. -/
theorem jpegFit_bare :
    ¬ ∀ (fs : List (FrameMemory × MediaFrame)) (out out' : RtpJpeg) (calls : List (RtpJpeg × ℤ))
      (j : ℕ) (mem : FrameMemory) (f : MediaFrame), mem.Holds f → jpegRun fs out = .ok calls →
      fs[j]? = some (mem, f) → calls[j]? = some (out', 1) → JpegFit mem f out' := by
  intro h
  obtain ⟨out', hrun⟩ := jpegRun_of_returns
    (jpegRun [(bareFrame.byte, bareFrame)] rtpJpegZero) 1 (by decide +kernel)
  have hfit := h _ _ out' _ 0 bareFrame.byte bareFrame bareFrame.holds_byte hrun rfl rfl
  obtain ⟨seg, hlast, -⟩ := hfit.sof
  have hnone : lastSOF (jpegSegmentsOf bareFrame.byte bareFrame) = none := by decide +kernel
  rw [hnone] at hlast
  cases hlast

end Spook
