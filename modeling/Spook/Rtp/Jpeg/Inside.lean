import Spook.Rtp.Jpeg.Frame

set_option relaxedAutoImplicit false
set_option autoImplicit false

/-!
# Reading JPEG frames

Which frames `jpeg_process_frame` reads within their length. Lengths are taken from the frame, and
compared with nothing.

The segments of a frame are described by its markers and length fields alone. The loop of the source
gets to a segment if every one before it is known, which is said of the bytes of the segments as well;
what is defined in the segments before one, a table or the Huffman tables, is looked up in the list of
these segments.

## Main definitions

* `Spook.MediaFrame.segments` — the segments of a frame.
* `Spook.ComponentKnown`, `SegmentKnown` — segments behind which the loop goes on.
* `Spook.SegmentInside`, `ScanInside` — what is read of a segment, and its scan, are inside.
* `Spook.EachSegment` — something holds of every segment behind known ones.
* `Spook.JpegInside` — a frame that is read inside, with its scan.

## Main results

* `Spook.jpegSegment_step` — a segment, and whether the loop goes on behind it.
* `Spook.jpegInside_iff` — the frames that are read inside.
-/

namespace Spook

variable (f : MediaFrame)

/-! ## The segments of a frame -/

/-- `blen` of the segment at `i`, with zeros behind the frame. -/
def MediaFrame.blen (i : ℕ) : ℕ := if f.pad (i + 1) = 0xD8 then 0 else f.pad16 (i + 2)

/-- The segments of a frame from the index `i` on, at most `n`, up to a start of scan or a byte that
begins no segment. -/
def MediaFrame.segments (n i : ℕ) : List JpegSegment :=
  match n with
  | 0 => []
  | n + 1 =>
    if i < f.d.length ∧ f.pad i = 0xFF then
      ⟨i, f.pad (i + 1), f.blen i⟩ ::
        if f.pad (i + 1) = 0xDA then [] else MediaFrame.segments n (i + (f.blen i + 2))
    else []

/-- The entries of a segment with tables, in order. -/
def JpegSegment.tables (seg : JpegSegment) : List ℕ := dqtEntries (seg.start + 4) (seg.blen - 2) 0

/-! ## Segments that are known -/

/-- No entry has a precision. -/
def EntriesKnown (es : List ℕ) : Prop := ∀ e ∈ es, f.pad e &&& 0xF0 = 0

section Known

variable (segs : List JpegSegment)

/-- The component at `c`, behind the components `ds`, names a table that one of the segments `segs`
defines, and is a luma component with a sampling that is supported, or a chroma component with the
table of the chroma components before it. -/
structure ComponentKnown (ds : List ℕ) (c : ℕ) : Prop where
  number : f.pad (c + 2) < 16
  table : ∃ e, lastEntry f.padded segs (Fin.ofNat 16 (f.pad (c + 2)).toNat) = some e
  sampling : (isLuma (f.pad c) = true ∧ (f.pad (c + 1) = 0x11 ∨ f.pad (c + 1) = 0x22)) ∨
    (isChroma (f.pad c) = true ∧ f.pad (c + 1) = 0x11 ∧
      ∀ c' ∈ ds, isChroma (f.pad c') = true → f.pad (c' + 2) = f.pad (c + 2))

/-- All components are known. -/
def ComponentsKnown : List ℕ → List ℕ → Prop
  | _, [] => True
  | ds, c :: cs => ComponentKnown f segs ds c ∧ ComponentsKnown (c :: ds) cs

/-- The start of frame with its data at `d` has eight bits a sample, a size in whole blocks and three
components that are known. -/
structure SofKnown (d : ℕ) : Prop where
  precision : f.pad d = 8
  size : f.pad16 (d + 1) % 8 = 0 ∧ f.pad16 (d + 3) % 8 = 0
  count : f.pad (d + 5) = 3
  components : ComponentsKnown f segs [] [d + 6, d + 9, d + 12]

/-- A segment behind which the loop goes on. -/
structure SegmentKnown (seg : JpegSegment) : Prop where
  tables : seg.marker = 0xDB → EntriesKnown f seg.tables
  sof : seg.marker = 0xC0 → SofKnown f segs (seg.start + 4)

/-- `p` holds of every segment that has only known ones before it: `p` is given the segments before
one, the latest first, and the segment. -/
def EachSegment (p : List JpegSegment → JpegSegment → Prop) :
    List JpegSegment → List JpegSegment → Prop
  | _, [] => True
  | segs, seg :: rest => p segs seg ∧ (SegmentKnown f segs seg → EachSegment p (seg :: segs) rest)

/-! ## Segments that are read inside -/

/-- The entries up to the first one with a precision are inside the frame. -/
def EntriesInside : List ℕ → Prop
  | [] => True
  | e :: es => e < f.d.length ∧ (f.pad e &&& 0xF0 = 0 → EntriesInside es)

/-- The components up to the first one that is not known are inside the frame. -/
def ComponentsInside : List ℕ → List ℕ → Prop
  | _, [] => True
  | ds, c :: cs => c + 2 < f.d.length ∧ (ComponentKnown f segs ds c → ComponentsInside (c :: ds) cs)

/-- The fields of a start of frame up to the first one that is rejected are inside the frame. -/
def SofInside (d : ℕ) : Prop :=
  d < f.d.length ∧ (f.pad d = 8 → d + 4 < f.d.length ∧
    (f.pad16 (d + 1) % 8 = 0 ∧ f.pad16 (d + 3) % 8 = 0 → d + 5 < f.d.length ∧
      (f.pad (d + 5) = 3 → ComponentsInside f segs [] [d + 6, d + 9, d + 12])))

/-- The marker of a segment, its length, and what is read of it are inside the frame. -/
structure SegmentInside (seg : JpegSegment) : Prop where
  marker : seg.start + 1 < f.d.length
  length : seg.marker ≠ 0xD8 → seg.start + 3 < f.d.length
  tables : seg.marker = 0xDB → EntriesInside f seg.tables
  sof : seg.marker = 0xC0 → SofInside f segs (seg.start + 4)

/-- The scan behind a start of scan begins inside the frame if the stream was initialised before or
by a segment with Huffman tables. -/
def ScanInside (initDone : Bool) (seg : JpegSegment) : Prop :=
  seg.marker = 0xDA → (initDone = true ∨ ∃ s ∈ segs, s.marker = 0xC4) →
    seg.start + 2 + seg.blen ≤ f.d.length

end Known

variable {f}

/-! ## Tables -/

section Tables

variable {out : RtpJpeg} {d i n : ℕ} {len : ℤ}

/-- The entries are read up to the first one with a precision. -/
theorem parseDQTLoop_reads (hn : len.toNat < i + n) :
    f.Reads (fun mem => parseDQTLoop mem d len n i out) (EntriesInside f (dqtEntries d len i)) := by
  induction n generalizing i out with
  | zero =>
    rw [dqtEntries_nil (by omega)]
    exact ReadsIf.const _
  | succ n ih =>
    by_cases hi : (i : ℤ) < len
    · rw [dqtEntries_cons hi]
      simp only [parseDQTLoop, if_pos hi]
      refine ReadsIf.congr (ReadsIf.bind_ok (f.reads_byte (d + i)) (f.padded_eq _)
        (ReadsIf.ite (fun _ => ReadsIf.const _) fun _ => ih (by omega))) ?_
      simp only [EntriesInside, implies_true, true_and, not_not]
    · rw [dqtEntries_nil hi]
      simp only [parseDQTLoop, if_neg hi]
      exact ReadsIf.const _

/-- With zeros behind the frame the loop rejects the segment if an entry has a precision. -/
theorem parseDQTLoop_padded (hpos : 0 < n) (hn : len.toNat < i + n) :
    ∃ out' ret, parseDQTLoop f.padded d len n i out = .ok (out', ret) ∧
      out'.initDone = out.initDone ∧ (¬ ret < 0 ↔ EntriesKnown f (dqtEntries d len i)) := by
  induction n generalizing i out with
  | zero => cases hpos
  | succ n ih =>
    unfold parseDQTLoop
    by_cases hi : (i : ℤ) < len
    · rw [if_pos hi, f.padded_eq, ok_bind, dqtEntries_cons hi, EntriesKnown, List.forall_mem_cons]
      by_cases hprec : f.pad (d + i) &&& 0xF0 = 0
      · rw [if_neg (not_not.2 hprec)]
        obtain ⟨out', ret, hok, hdone, hret⟩ := @ih { out with
          quant := Function.update out.quant (Fin.ofNat 16 (f.pad (d + i)).toNat) (some (d + i + 1)) }
          (i + 65) (by omega) (by omega)
        exact ⟨out', ret, hok, hdone, hret.trans ⟨fun h => ⟨hprec, h⟩, fun h => h.2⟩⟩
      · rw [if_pos hprec]
        exact ⟨out, -1, rfl, rfl, iff_of_false (fun h => h (by decide)) fun h => hprec h.1⟩
    · rw [if_neg hi, dqtEntries_nil hi]
      exact ⟨out, 0, rfl, rfl, iff_of_true (by decide) (by simp [EntriesKnown])⟩

end Tables

/-! ## Components -/

section Components

variable {segs : List JpegSegment} {out : RtpJpeg} {c d : ℕ} {cs ds : List ℕ}

/-- What `parse_SOF` has behind the components `ds`: the tables of the segments before, and the table
of the chroma components among `ds`. -/
structure ComponentsSeen (f : MediaFrame) (segs : List JpegSegment) (ds : List ℕ) (out : RtpJpeg) :
    Prop where
  quant : ∀ k, out.quant k = (lastEntry f.padded segs k).map (· + 1)
  chroma : ∀ c ∈ ds, isChroma (f.pad c) = true → out.chromaTable = (f.pad (c + 2)).toNat
  noChroma : (∀ c ∈ ds, ¬ isChroma (f.pad c) = true) → out.chromaTable < 0

/-- A component is read whole. -/
theorem parseComponent_reads : f.Reads (fun mem => parseComponent mem out c) (c + 2 < f.d.length) := by
  refine ReadsIf.congr (ReadsIf.bind_ok (f.reads_byte (c + 2)) (f.padded_eq _)
    (ReadsIf.ite (fun _ => ReadsIf.const _) fun _ =>
      ReadsIf.bind_ok (f.reads_byte c) (f.padded_eq _)
        (ReadsIf.bind_ok (f.reads_byte (c + 1)) (f.padded_eq _) (ReadsIf.const _)))) ?_
  constructor
  · exact fun h => ⟨h, fun _ => trivial, fun _ => ⟨by omega, by omega, trivial⟩⟩
  · exact fun h => h.1

/-- A table is there if a segment defines it. -/
theorem ComponentsSeen.table (h : ComponentsSeen f segs ds out) (k : Fin 16) :
    out.quant k = none ↔ ¬ ∃ e, lastEntry f.padded segs k = some e := by
  rw [h.quant k, Option.map_eq_none_iff, Option.eq_none_iff_forall_ne_some]
  exact ⟨fun hne ⟨e, he⟩ => hne e he, fun hno e he => hno ⟨e, he⟩⟩

/-- A luma component leaves the table of the chroma components. -/
theorem ComponentsSeen.luma (h : ComponentsSeen f segs ds out) (hid : ¬ isChroma (f.pad c) = true)
    (type table : ℤ) :
    ComponentsSeen f segs (c :: ds) { out with type := type, lumaTable := table } := by
  refine ⟨h.quant, fun c' hc' hchroma => ?_, fun hnone => ?_⟩
  · rcases List.mem_cons.1 hc' with rfl | hc'
    · exact absurd hchroma hid
    · exact h.chroma c' hc' hchroma
  · exact h.noChroma fun c' hc' => hnone c' (List.mem_cons_of_mem _ hc')

/-- A chroma component sets the table, which is the one of all chroma components before it. -/
theorem ComponentsSeen.shared (h : ComponentsSeen f segs ds out) (hid : isChroma (f.pad c) = true)
    (hall : ∀ c' ∈ ds, isChroma (f.pad c') = true → f.pad (c' + 2) = f.pad (c + 2)) :
    ComponentsSeen f segs (c :: ds) { out with chromaTable := (f.pad (c + 2)).toNat } := by
  refine ⟨h.quant, fun c' hc' hchroma => ?_, fun hnone => absurd hid (hnone c List.mem_cons_self)⟩
  rcases List.mem_cons.1 hc' with rfl | hc'
  · rfl
  · rw [hall c' hc' hchroma]

/-- The chroma components before share the table of one if there is no table yet or it is that one. -/
theorem ComponentsSeen.shared_iff (h : ComponentsSeen f segs ds out) (c : ℕ) :
    (∀ c' ∈ ds, isChroma (f.pad c') = true → f.pad (c' + 2) = f.pad (c + 2)) ↔
      out.chromaTable < 0 ∨ out.chromaTable = (f.pad (c + 2)).toNat := by
  by_cases hnone : ∀ c' ∈ ds, ¬ isChroma (f.pad c') = true
  · exact iff_of_true (fun c' hc' hchroma => absurd hchroma (hnone c' hc'))
      (.inl (h.noChroma hnone))
  · rw [not_forall] at hnone
    obtain ⟨c₀, hnone⟩ := hnone
    rw [Classical.not_imp, not_not] at hnone
    obtain ⟨hc₀, hchroma₀⟩ := hnone
    have htable := h.chroma c₀ hc₀ hchroma₀
    constructor
    · intro hall
      rw [htable, hall c₀ hc₀ hchroma₀]
      exact .inr rfl
    · rintro (hneg | heq) c' hc' hchroma
      · omega
      · rw [h.chroma c' hc' hchroma] at heq
        exact UInt8.toNat_inj.1 (by exact_mod_cast heq)

/-- **A component**, with zeros behind the frame: it is rejected if it is not known.

**Proof sketch.** The cases are those of the source: the number of the table and whether there is one,
then the id, and by the id the sampling and, for a chroma component, the table so far. -/
theorem parseComponent_step (h : ComponentsSeen f segs ds out) (c : ℕ) :
    ∃ out' ret, parseComponent f.padded out c = .ok (out', ret) ∧ out'.initDone = out.initDone ∧
      ((ret < 0 ∧ ¬ ComponentKnown f segs ds c) ∨
        (¬ ret < 0 ∧ ComponentKnown f segs ds c ∧ ComponentsSeen f segs (c :: ds) out')) := by
  unfold parseComponent
  simp only [MediaFrame.padded_eq, ok_bind]
  by_cases hbad : 16 ≤ f.pad (c + 2) ∨ out.quant (Fin.ofNat 16 (f.pad (c + 2)).toNat) = none
  · rw [if_pos hbad]
    refine ⟨out, -1, rfl, rfl, .inl ⟨by decide, fun hknown => ?_⟩⟩
    rcases hbad with hbig | hnone
    · exact absurd hknown.number (UInt8.not_lt.2 hbig)
    · exact (h.table _).1 hnone hknown.table
  rw [if_neg hbad]
  rw [not_or] at hbad
  have hnumber : f.pad (c + 2) < 16 := UInt8.not_le.1 hbad.1
  have htable : ∃ e, lastEntry f.padded segs (Fin.ofNat 16 (f.pad (c + 2)).toNat) = some e :=
    not_not.1 fun hno => hbad.2 ((h.table _).2 hno)
  by_cases hluma : f.pad c = 1
  · have hisLuma : isLuma (f.pad c) = true := by rw [hluma]; rfl
    have hnotChroma : ¬ isChroma (f.pad c) = true := by rw [hluma]; decide
    rw [if_pos hluma]
    split_ifs with h₁ h₂
    · exact ⟨_, 0, rfl, rfl, .inr ⟨by decide, ⟨hnumber, htable, .inl ⟨hisLuma, .inl h₁⟩⟩,
        h.luma hnotChroma 0 _⟩⟩
    · exact ⟨_, 0, rfl, rfl, .inr ⟨by decide, ⟨hnumber, htable, .inl ⟨hisLuma, .inr h₂⟩⟩,
        h.luma hnotChroma 1 _⟩⟩
    · refine ⟨out, -1, rfl, rfl, .inl ⟨by decide, fun hknown => ?_⟩⟩
      rcases hknown.sampling with ⟨-, h₁' | h₂'⟩ | ⟨hchroma, -⟩
      · exact h₁ h₁'
      · exact h₂ h₂'
      · exact hnotChroma hchroma
  have hnotLuma : ¬ isLuma (f.pad c) = true := by simpa [isLuma] using hluma
  have hchroma : isChroma (f.pad c) = true ↔ f.pad c = 2 ∨ f.pad c = 3 := by
    simp [isChroma]
  rw [if_neg hluma]
  by_cases hid : f.pad c = 2 ∨ f.pad c = 3
  swap
  · rw [if_neg hid]
    refine ⟨out, -1, rfl, rfl, .inl ⟨by decide, fun hknown => ?_⟩⟩
    rcases hknown.sampling with ⟨hisLuma, -⟩ | ⟨hisChroma, -⟩
    · exact hnotLuma hisLuma
    · exact hid (hchroma.1 hisChroma)
  have hisChroma := hchroma.2 hid
  have hshared := h.shared_iff c
  rw [if_pos hid]
  by_cases hsampling : f.pad (c + 1) = 0x11
  swap
  · rw [if_pos hsampling]
    refine ⟨out, -1, rfl, rfl, .inl ⟨by decide, fun hknown => ?_⟩⟩
    rcases hknown.sampling with ⟨hisLuma, -⟩ | ⟨-, hsampling', -⟩
    · exact hnotLuma hisLuma
    · exact hsampling hsampling'
  rw [if_neg (not_not.2 hsampling)]
  by_cases hneg : out.chromaTable < 0
  · have hall := hshared.2 (.inl hneg)
    rw [if_pos hneg]
    exact ⟨_, 0, rfl, rfl, .inr ⟨by decide,
      ⟨hnumber, htable, .inr ⟨hisChroma, hsampling, hall⟩⟩, h.shared hisChroma hall⟩⟩
  rw [if_neg hneg]
  by_cases hsame : out.chromaTable = (f.pad (c + 2)).toNat
  · have hall := hshared.2 (.inr hsame)
    have hseen := h.shared hisChroma hall
    rw [← hsame] at hseen
    rw [if_neg (not_not.2 hsame)]
    exact ⟨_, 0, rfl, rfl, .inr ⟨by decide,
      ⟨hnumber, htable, .inr ⟨hisChroma, hsampling, hall⟩⟩, hseen⟩⟩
  · rw [if_pos hsame]
    refine ⟨out, -1, rfl, rfl, .inl ⟨by decide, fun hknown => ?_⟩⟩
    rcases hknown.sampling with ⟨hisLuma, -⟩ | ⟨-, -, hall⟩
    · exact hnotLuma hisLuma
    · rcases hshared.1 hall with hneg' | hsame'
      · exact hneg hneg'
      · exact hsame hsame'

/-- The components are read up to the first one that is not known. -/
theorem parseComponents_reads (h : ComponentsSeen f segs ds out) :
    f.Reads (fun mem => parseComponents mem out cs) (ComponentsInside f segs ds cs) := by
  induction cs generalizing ds out with
  | nil => exact ReadsIf.const _
  | cons c cs ih =>
    obtain ⟨out', ret, hok, -, hstep⟩ := parseComponent_step h c
    simp only [parseComponents, ComponentsInside]
    rcases hstep with ⟨hret, hknown⟩ | ⟨hret, hknown, hseen⟩
    · refine ReadsIf.congr (ReadsIf.bind_ok parseComponent_reads hok
        (ReadsIf.ite_pos hret (ReadsIf.const _))) ?_
      exact and_congr_right fun _ => iff_of_true (fun hk => absurd hk hknown) trivial
    · refine ReadsIf.congr (ReadsIf.bind_ok parseComponent_reads hok
        (ReadsIf.ite_neg hret (ih hseen))) ?_
      exact and_congr_right fun _ => ⟨fun hrest => hrest hknown, fun hrest _ => hrest⟩

/-- With zeros behind the frame the components are rejected if one is not known. -/
theorem parseComponents_padded (cs : List ℕ) (h : ComponentsSeen f segs ds out) :
    ∃ out' ret, parseComponents f.padded out cs = .ok (out', ret) ∧
      out'.initDone = out.initDone ∧ (¬ ret < 0 ↔ ComponentsKnown f segs ds cs) := by
  induction cs generalizing ds out with
  | nil => exact ⟨out, 0, rfl, rfl, iff_of_true (by decide) trivial⟩
  | cons c cs ih =>
    obtain ⟨out₁, ret₁, hok, hdone, hstep⟩ := parseComponent_step h c
    simp only [parseComponents, ComponentsKnown, hok, ok_bind]
    rcases hstep with ⟨hret, hknown⟩ | ⟨hret, hknown, hseen⟩
    · rw [if_pos hret]
      exact ⟨out₁, -1, rfl, hdone, iff_of_false (fun hnot => hnot (by decide)) fun hk => hknown hk.1⟩
    · obtain ⟨out', ret, hrest, hdone', hiff⟩ := ih hseen
      rw [if_neg hret]
      exact ⟨out', ret, hrest, hdone'.trans hdone,
        hiff.trans ⟨fun hk => ⟨hknown, hk⟩, fun hk => hk.2⟩⟩

/-- `parse_SOF` starts without a table for the chroma components. -/
theorem componentsSeen_start (height width : ℤ)
    (hquant : ∀ k, out.quant k = (lastEntry f.padded segs k).map (· + 1)) :
    ComponentsSeen f segs []
      { out with chromaTable := -1, height := height, width := width } :=
  ⟨hquant, by simp, fun _ => show (-1 : ℤ) < 0 by decide⟩

/-- A start of frame is read up to the first field that is rejected. -/
theorem parseSOF_reads (hquant : ∀ k, out.quant k = (lastEntry f.padded segs k).map (· + 1)) :
    f.Reads (fun mem => parseSOF mem out d) (SofInside f segs d) := by
  refine ReadsIf.congr (ReadsIf.bind_ok (f.reads_byte d) (f.padded_eq _)
    (ReadsIf.ite (fun _ => ReadsIf.const _) fun _ =>
      ReadsIf.bind_ok (f.reads_get16 (d + 1)) (f.padded_get16 _)
        (ReadsIf.bind_ok (f.reads_get16 (d + 3)) (f.padded_get16 _)
          (ReadsIf.ite (fun _ => ReadsIf.const _) fun _ =>
            ReadsIf.bind_ok (f.reads_byte (d + 5)) (f.padded_eq _)
              (ReadsIf.ite (fun _ => ReadsIf.const _) fun _ =>
                parseComponents_reads (componentsSeen_start _ _ hquant)))))) ?_
  simp only [SofInside, implies_true, true_and, not_not, ne_eq, not_or]
  refine and_congr_right fun _ => imp_congr_right fun _ => ?_
  constructor
  · exact fun h => ⟨by omega, h.1, h.2⟩
  · exact fun h => h.2

/-- With zeros behind the frame a start of frame is rejected if it is not known. -/
theorem parseSOF_padded (d : ℕ)
    (hquant : ∀ k, out.quant k = (lastEntry f.padded segs k).map (· + 1)) :
    ∃ out' ret, parseSOF f.padded out d = .ok (out', ret) ∧ out'.initDone = out.initDone ∧
      (¬ ret < 0 ↔ SofKnown f segs d) := by
  unfold parseSOF
  simp only [MediaFrame.padded_eq, MediaFrame.padded_get16, ok_bind]
  have hneg : ¬ ¬ (-1 : ℤ) < 0 := by decide
  by_cases hprec : f.pad d = 8
  swap
  · rw [if_pos hprec]
    exact ⟨_, -1, rfl, rfl, iff_of_false hneg fun h => hprec h.precision⟩
  rw [if_neg (not_not.2 hprec)]
  by_cases hsize : f.pad16 (d + 1) % 8 ≠ 0 ∨ f.pad16 (d + 3) % 8 ≠ 0
  · rw [if_pos hsize]
    refine ⟨_, -1, rfl, rfl, iff_of_false hneg fun h => ?_⟩
    rcases hsize with hheight | hwidth
    · exact hheight h.size.1
    · exact hwidth h.size.2
  rw [if_neg hsize]
  rw [not_or, not_not, not_not] at hsize
  by_cases hcount : f.pad (d + 5) = 3
  swap
  · rw [if_pos hcount]
    exact ⟨_, -1, rfl, rfl, iff_of_false hneg fun h => hcount h.count⟩
  rw [if_neg (not_not.2 hcount)]
  have hstart := componentsSeen_start (f.pad16 (d + 1) / 8) (f.pad16 (d + 3) / 8) hquant
  obtain ⟨out', ret, hok, hdone, hiff⟩ := parseComponents_padded [d + 6, d + 9, d + 12] hstart
  exact ⟨out', ret, hok, hdone,
    hiff.trans ⟨fun h => ⟨hprec, hsize, hcount, h⟩, fun h => h.components⟩⟩

end Components

/-! ## A segment -/

section Segment

variable {segs : List JpegSegment} {out : RtpJpeg} {i length blen : ℕ} {marker : UInt8}

/-- The marker and the length of a segment. -/
theorem segmentLength_reads (i : ℕ) :
    f.Reads (fun mem => segmentLength mem i (f.pad (i + 1)))
      (f.pad (i + 1) ≠ 0xD8 → i + 3 < f.d.length) := by
  refine ReadsIf.congr (ReadsIf.ite (fun _ => ReadsIf.const _) fun _ => f.reads_get16 (i + 2)) ?_
  simp only [implies_true, true_and]

/-- The length of a segment, with zeros behind the frame. -/
theorem segmentLength_padded (i : ℕ) :
    segmentLength f.padded i (f.pad (i + 1)) = .ok (f.blen i) := by
  unfold segmentLength MediaFrame.blen
  split_ifs
  · rfl
  · rfl

/-- What is read behind the header of a segment. -/
theorem jpegSegment_reads (hquant : ∀ k, out.quant k = (lastEntry f.padded segs k).map (· + 1)) :
    f.Reads (fun mem => jpegSegment mem out length i blen marker)
      ((marker = 0xDB → EntriesInside f (JpegSegment.tables ⟨i, marker, blen⟩)) ∧
        (marker = 0xC0 → SofInside f segs (i + 4))) := by
  have hdqt : f.Reads (fun mem => parseDQT mem out (i + 4) (blen - 2))
      (EntriesInside f (JpegSegment.tables ⟨i, marker, blen⟩)) :=
    parseDQTLoop_reads (by omega)
  refine ReadsIf.congr (ReadsIf.ite (fun _ => hdqt.bind fun _ _ => ReadsIf.const _) fun _ =>
    ReadsIf.ite (fun _ => (parseSOF_reads hquant).bind fun _ _ => ReadsIf.const _) fun _ =>
      ReadsIf.const _) ?_
  constructor
  · exact fun h => ⟨fun hd => ⟨h.1 hd, fun _ _ => trivial⟩, fun _ =>
      ⟨fun hs => ⟨h.2 hs, fun _ _ => trivial⟩, fun _ => trivial⟩⟩
  · refine fun h => ⟨fun hd => (h.1 hd).1, fun hs => ?_⟩
    have hd : ¬ marker = 0xDB := by
      rw [hs]
      decide
    exact ((h.2 hd).1 hs).1

/-- **A segment**, with zeros behind the frame: if it is no start of scan, the loop goes on behind it
exactly if it is known, and Huffman tables initialise the stream. -/
theorem jpegSegment_step (hsos : marker ≠ 0xDA)
    (hquant : ∀ k, out.quant k = (lastEntry f.padded segs k).map (· + 1)) :
    ∃ out', (jpegSegment f.padded out length i blen marker = .ok (out', some 0) ∧
        ¬ SegmentKnown f segs ⟨i, marker, blen⟩) ∨
      (jpegSegment f.padded out length i blen marker = .ok (out', none) ∧
        SegmentKnown f segs ⟨i, marker, blen⟩ ∧
        (out'.initDone = true ↔ out.initDone = true ∨ marker = 0xC4)) := by
  unfold jpegSegment
  by_cases hdqt : marker = 0xDB
  · subst hdqt
    have hsof : (0xDB : UInt8) ≠ 0xC0 := by decide
    obtain ⟨out', ret, hok, hdone, hiff⟩ : ∃ out' ret,
        parseDQT f.padded out (i + 4) (blen - 2) = .ok (out', ret) ∧ out'.initDone = out.initDone ∧
          (¬ ret < 0 ↔ EntriesKnown f (JpegSegment.tables ⟨i, 0xDB, blen⟩)) :=
      parseDQTLoop_padded (by omega) (by omega)
    rw [if_pos rfl, hok, ok_bind]
    dsimp only
    by_cases hret : ret < 0
    · rw [if_pos hret]
      exact ⟨_, .inl ⟨rfl, fun h => hiff.2 (h.tables rfl) hret⟩⟩
    · rw [if_neg hret]
      have hknown : SegmentKnown f segs ⟨i, 0xDB, blen⟩ :=
        ⟨fun _ => hiff.1 hret, fun h => absurd h hsof⟩
      refine ⟨out', .inr ⟨rfl, hknown, ?_⟩⟩
      rw [hdone]
      exact ⟨.inl, fun h => h.resolve_right (by decide)⟩
  rw [if_neg hdqt]
  by_cases hsof : marker = 0xC0
  · subst hsof
    obtain ⟨out', ret, hok, hdone, hiff⟩ := parseSOF_padded (i + 4) hquant
    rw [if_pos rfl, hok, ok_bind]
    dsimp only
    by_cases hret : ret < 0
    · rw [if_pos hret]
      exact ⟨_, .inl ⟨rfl, fun h => hiff.2 (h.sof rfl) hret⟩⟩
    · rw [if_neg hret]
      have hknown : SegmentKnown f segs ⟨i, 0xC0, blen⟩ :=
        ⟨fun h => absurd h hdqt, fun _ => hiff.1 hret⟩
      refine ⟨out', .inr ⟨rfl, hknown, ?_⟩⟩
      rw [hdone]
      exact ⟨.inl, fun h => h.resolve_right (by decide)⟩
  rw [if_neg hsof]
  have hknown : SegmentKnown f segs ⟨i, marker, blen⟩ :=
    ⟨fun h => absurd h hdqt, fun h => absurd h hsof⟩
  by_cases hdht : marker = 0xC4
  · rw [if_pos hdht]
    exact ⟨_, .inr ⟨rfl, hknown, iff_of_true rfl (.inr hdht)⟩⟩
  · rw [if_neg hdht, if_neg hsos]
    exact ⟨out, .inr ⟨rfl, hknown, ⟨.inl, fun h => h.resolve_right hdht⟩⟩⟩

/-- A start of scan ends the loop. -/
theorem jpegSegment_scan (mem : FrameMemory) (out : RtpJpeg) (length i blen : ℕ) :
    jpegSegment mem out length i blen 0xDA =
      .ok ({ out with scanData := i + 2 + blen, scanDataLen := (length : ℤ) - i - 2 - blen },
        some (if out.initDone then 1 else 0)) := rfl

end Segment

/-! ## The loop -/

/-- What a frame that is ready has left lies inside it. -/
def ScanFits (f : MediaFrame) (r : RtpJpeg × ℤ) : Prop :=
  r.2 = 1 → 0 ≤ r.1.scanDataLen ∧ (r.1.scanData : ℤ) + r.1.scanDataLen ≤ f.d.length

/-- The frame is read inside, in finitely many steps, and a scan that is ready lies inside. -/
def JpegInside (f : MediaFrame) (out : RtpJpeg) : Prop :=
  ∃ r, jpegProcessFrame f.byte f out = .ok r ∧ ScanFits f r

section Loop

variable {segs rest : List JpegSegment} {out : RtpJpeg} {i n : ℕ} {initDone : Bool}
  {p q : List JpegSegment → JpegSegment → Prop}

/-- A frame that is not ready leaves nothing. -/
theorem scanFits_zero (out : RtpJpeg) : ScanFits f (out, 0) :=
  fun h => absurd (show (0 : ℤ) = 1 from h) (by decide)

/-- Two things that hold of every segment. -/
theorem eachSegment_and : EachSegment f (fun segs seg => p segs seg ∧ q segs seg) segs rest ↔
    EachSegment f p segs rest ∧ EachSegment f q segs rest := by
  induction rest generalizing segs with
  | nil => exact ⟨fun _ => ⟨trivial, trivial⟩, fun _ => trivial⟩
  | cons seg rest ih =>
    simp only [EachSegment, ih]
    constructor
    · exact fun h => ⟨⟨h.1.1, fun hk => (h.2 hk).1⟩, h.1.2, fun hk => (h.2 hk).2⟩
    · exact fun h => ⟨⟨h.1.1, h.2.1⟩, fun hk => ⟨h.1.2 hk, h.2.2 hk⟩⟩

/-- The state of the loop behind the segments `segs`: the tables that they define, and whether the
stream is initialised. -/
structure LoopState (f : MediaFrame) (initDone : Bool) (segs : List JpegSegment) (out : RtpJpeg) :
    Prop where
  segments : SegmentState f.padded segs out
  init : out.initDone = true ↔ initDone = true ∨ ∃ s ∈ segs, s.marker = 0xC4

/-- A segment more, behind which the loop goes on. -/
theorem LoopState.cons {out' : RtpJpeg} {length blen : ℕ} {marker : UInt8}
    (h : LoopState f initDone segs out)
    (hseg : jpegSegment f.padded out length i blen marker = .ok (out', none))
    (hdone : out'.initDone = true ↔ out.initDone = true ∨ marker = 0xC4) :
    LoopState f initDone (⟨i, marker, blen⟩ :: segs) out' := by
  refine ⟨h.segments.cons hseg, ?_⟩
  rw [hdone, h.init, List.exists_mem_cons_iff, or_assoc, or_comm (a := marker = 0xC4)]

/-- The segments from a start of a segment on. -/
theorem segments_succ (hi : i < f.d.length) (hff : f.pad i = 0xFF) :
    f.segments (n + 1) i = ⟨i, f.pad (i + 1), f.blen i⟩ ::
      if f.pad (i + 1) = 0xDA then [] else f.segments n (i + (f.blen i + 2)) := by
  rw [MediaFrame.segments, if_pos ⟨hi, hff⟩]

/-- What is inside of a segment, in the order in which it is read. -/
theorem segmentInside_iff (segs : List JpegSegment) (i : ℕ) :
    SegmentInside f segs ⟨i, f.pad (i + 1), f.blen i⟩ ↔
      i + 1 < f.d.length ∧ (f.pad (i + 1) ≠ 0xD8 → i + 3 < f.d.length) ∧
        (f.pad (i + 1) = 0xDB → EntriesInside f (JpegSegment.tables ⟨i, f.pad (i + 1), f.blen i⟩)) ∧
        (f.pad (i + 1) = 0xC0 → SofInside f segs (i + 4)) :=
  ⟨fun h => ⟨h.marker, h.length, h.tables, h.sof⟩, fun h => ⟨h.1, h.2.1, h.2.2.1, h.2.2.2⟩⟩

/-- A round that goes on reads its segment, and what is read behind it. -/
theorem jpegRound_reads {out' : RtpJpeg} {c : Prop} (hi : i < f.d.length) (hff : f.pad i = 0xFF)
    (hquant : ∀ k, out.quant k = (lastEntry f.padded segs k).map (· + 1))
    (hseg : jpegSegment f.padded out f.d.length i (f.blen i) (f.pad (i + 1)) = .ok (out', none))
    (hrest : f.Reads (fun mem => jpegSegments mem f.d.length n out' (i + (f.blen i + 2))) c) :
    f.Reads (fun mem => jpegSegments mem f.d.length (n + 1) out i)
      (SegmentInside f segs ⟨i, f.pad (i + 1), f.blen i⟩ ∧ c) := by
  have hmarker := f.reads_byte (i + 1)
  simp only [jpegSegments, if_pos hi]
  refine ReadsIf.congr (ReadsIf.bind_ok (f.reads_byte i) (f.padded_eq _)
    (ReadsIf.ite_neg (not_not.2 hff)
      (ReadsIf.bind_ok hmarker (f.padded_eq _)
        (ReadsIf.bind_ok (segmentLength_reads i) (segmentLength_padded i)
          (ReadsIf.bind_ok (jpegSegment_reads hquant) hseg hrest))))) ?_
  simp only [segmentInside_iff, hi, true_and, and_assoc]

/-- A round that ends the loop reads its segment. -/
theorem jpegRound_ends {out' : RtpJpeg} {ret : ℤ} (hi : i < f.d.length) (hff : f.pad i = 0xFF)
    (hquant : ∀ k, out.quant k = (lastEntry f.padded segs k).map (· + 1))
    (hseg : jpegSegment f.padded out f.d.length i (f.blen i) (f.pad (i + 1)) =
      .ok (out', some ret)) :
    f.Reads (fun mem => jpegSegments mem f.d.length (n + 1) out i)
      (SegmentInside f segs ⟨i, f.pad (i + 1), f.blen i⟩) := by
  have hmarker := f.reads_byte (i + 1)
  simp only [jpegSegments, if_pos hi]
  refine ReadsIf.congr (ReadsIf.bind_ok (f.reads_byte i) (f.padded_eq _)
    (ReadsIf.ite_neg (not_not.2 hff)
      (ReadsIf.bind_ok hmarker (f.padded_eq _)
        (ReadsIf.bind_ok (segmentLength_reads i) (segmentLength_padded i)
          (ReadsIf.bind_ok (jpegSegment_reads hquant) hseg (ReadsIf.const _)))))) ?_
  simp only [segmentInside_iff, hi, true_and, and_true]

/-- **The loop reads inside** if every segment behind known ones is inside.

**Proof sketch.** By induction on the number of rounds, with what the loop has of the segments before.
A round reads its segment; by `jpegSegment_step` the loop goes on exactly behind a known one. -/
theorem jpegSegments_reads (hstate : LoopState f initDone segs out) (hn : f.d.length < i + n) :
    f.Reads (fun mem => jpegSegments mem f.d.length n out i)
      (EachSegment f (SegmentInside f) segs (f.segments n i)) := by
  induction n generalizing i out segs with
  | zero => exact ReadsIf.const _
  | succ n ih =>
    have hquant := hstate.segments.quant
    by_cases hi : i < f.d.length
    swap
    · rw [MediaFrame.segments, if_neg fun h => hi h.1]
      simp only [jpegSegments, if_neg hi]
      exact ReadsIf.const _
    by_cases hff : f.pad i = 0xFF
    swap
    · rw [MediaFrame.segments, if_neg fun h => hff h.2]
      simp only [jpegSegments, if_pos hi]
      refine ReadsIf.congr (ReadsIf.bind_ok (f.reads_byte i) (f.padded_eq _)
        (ReadsIf.ite_pos hff (ReadsIf.const _))) ?_
      simp only [EachSegment, hi, and_self]
    rw [segments_succ hi hff]
    by_cases hsos : f.pad (i + 1) = 0xDA
    · rw [if_pos hsos]
      have hends := jpegRound_ends (n := n) hi hff hquant (by rw [hsos]; exact jpegSegment_scan _ _ _ _ _)
      exact hends.congr ⟨fun h => h.1, fun h => ⟨h, fun _ => trivial⟩⟩
    rw [if_neg hsos]
    obtain ⟨out', ⟨hseg, hknown⟩ | ⟨hseg, hknown, hdone⟩⟩ := jpegSegment_step hsos hquant
    · refine (jpegRound_ends hi hff hquant hseg).congr ?_
      exact ⟨fun h => h.1, fun h => ⟨h, fun hk => absurd hk hknown⟩⟩
    · have hrest := ih (hstate.cons hseg hdone) (i := i + (f.blen i + 2)) (by omega)
      refine (jpegRound_reads hi hff hquant hseg hrest).congr ?_
      exact and_congr_right fun _ => ⟨fun h => h hknown, fun h _ => h⟩

/-- **The scan**, with zeros behind the frame, lies inside if every start of scan behind known segments
says so.

**Proof sketch.** By induction on the number of rounds, as for what is read. A loop that ends anywhere
but at a start of scan returns 0. -/
theorem jpegSegments_padded (hstate : LoopState f initDone segs out) (hpos : 0 < n)
    (hn : f.d.length < i + n) :
    ∃ r, jpegSegments f.padded f.d.length n out i = .ok r ∧
      (ScanFits f r ↔
        EachSegment f (fun segs seg => ScanInside f segs initDone seg) segs (f.segments n i)) := by
  induction n generalizing i out segs with
  | zero => cases hpos
  | succ n ih =>
    have hquant := hstate.segments.quant
    by_cases hi : i < f.d.length
    swap
    · rw [MediaFrame.segments, if_neg fun h => hi h.1, jpegSegments, if_neg hi]
      exact ⟨_, rfl, iff_of_true (scanFits_zero _) trivial⟩
    rw [jpegSegments, if_pos hi, f.padded_eq, ok_bind]
    by_cases hff : f.pad i = 0xFF
    swap
    · rw [if_pos hff, MediaFrame.segments, if_neg fun h => hff h.2]
      exact ⟨_, rfl, iff_of_true (scanFits_zero _) trivial⟩
    rw [segments_succ hi hff, if_neg (not_not.2 hff), f.padded_eq, ok_bind, segmentLength_padded,
      ok_bind]
    by_cases hsos : f.pad (i + 1) = 0xDA
    · rw [hsos, jpegSegment_scan, ok_bind, if_pos rfl]
      refine ⟨_, rfl, ?_⟩
      have hdone := hstate.init
      simp only [EachSegment, ScanInside, ScanFits, true_implies, implies_true, and_true, ← hdone]
      by_cases hinit : out.initDone = true
      · simp only [hinit, if_true, true_implies]
        omega
      · simp [hinit]
    rw [if_neg hsos]
    have hnoScan : ScanInside f segs initDone ⟨i, f.pad (i + 1), f.blen i⟩ :=
      fun h => absurd h hsos
    obtain ⟨out', ⟨hseg, hknown⟩ | ⟨hseg, hknown, hdone⟩⟩ := jpegSegment_step hsos hquant
    · rw [hseg]
      exact ⟨_, rfl, iff_of_true (scanFits_zero _) ⟨hnoScan, fun hk => absurd hk hknown⟩⟩
    · obtain ⟨r, hr, hfits⟩ := ih (hstate.cons hseg hdone) (i := i + (f.blen i + 2))
        (by omega) (by omega)
      rw [hseg]
      exact ⟨r, hr, hfits.trans ⟨fun h => ⟨hnoScan, fun _ => h⟩, fun h => h.2 hknown⟩⟩

end Loop

/-- What `jpeg_process_frame` does first. -/
def RtpJpeg.newFrame (out : RtpJpeg) (f : MediaFrame) : RtpJpeg :=
  { out with timestamp := f.timestamp, quant := fun _ => none }

/-- Before the first segment no table is defined. -/
theorem loopState_first (f : MediaFrame) (out : RtpJpeg) :
    LoopState f out.initDone [] (out.newFrame f) :=
  ⟨⟨fun _ => rfl, by simp [lastSOF]⟩, by simp [RtpJpeg.newFrame]⟩

/-- **Reading JPEG frames.** A frame is read inside, and its scan lies inside when it is ready, exactly
if this holds of every segment behind known ones. -/
theorem jpegInside_iff (f : MediaFrame) (out : RtpJpeg) :
    JpegInside f out ↔ EachSegment f
      (fun segs seg => SegmentInside f segs seg ∧ ScanInside f segs out.initDone seg) []
      (f.segments (f.d.length + 1) 0) := by
  have hreads : f.Reads (fun mem => jpegProcessFrame mem f out) _ :=
    jpegSegments_reads (n := f.d.length + 1) (loopState_first f out) (i := 0) (by omega)
  obtain ⟨r, hr, hfits⟩ := jpegSegments_padded (n := f.d.length + 1) (i := 0)
    (loopState_first f out) (by omega) (by omega)
  have hpadded : jpegProcessFrame f.padded f out = .ok r := hr
  rw [eachSegment_and, ← hfits]
  constructor
  · rintro ⟨r', hr', hfits'⟩
    by_cases hall : EachSegment f (SegmentInside f) [] (f.segments (f.d.length + 1) 0)
    · rw [hreads.inside hall, hpadded] at hr'
      obtain rfl := Except.ok.inj hr'
      exact ⟨hall, hfits'⟩
    · rw [hreads.outside hall] at hr'
      cases hr'
  · rintro ⟨hall, hscan⟩
    exact ⟨r, (hreads.inside hall).trans hpadded, hscan⟩

end Spook
