import Spook.Rtp.Mpeg4.Bits
import Mathlib.Data.List.Basic

set_option relaxedAutoImplicit false
set_option autoImplicit false

/-!
# Units of MPEG-4

Where a unit of a frame ends, and what `parse_mpeg4_frame` does with one, by its kind: to `config`
and `pali`, and to `iov`.

The header of a video object layer and that of a video object plane are described by the places of
their fields: where a field begins depends on flags before it, and the parse functions go on only
behind certain markers. Both are stated with the bits of the unit.

## Main definitions

* `Spook.unitLength` — the length of the unit at an index.
* `Spook.volMarkerAt`, `VolReads`, `VolComplete` — the header of a video object layer.
* `Spook.vopMarkerAt`, `VopReads` — the header of a video object plane.
* `Spook.Mpeg4Head`, `Mpeg4Head.after` — what is collected, and what a unit changes of it.
* `Spook.UnitRuns` — a unit that is gone through without a fault.
* `Spook.UnitFits` — a unit that is queued when there is room.

## Main results

* `Spook.unitLength_next` — a unit ends where the next one begins.
* `Spook.parseUnit_result` — what a unit comes to.
* `Spook.parseUnit_collects` — what a unit changes of what is collected.

## Notes on the design

The parsers of the headers read a field only if the markers before it are set. `VolReads` and
`VopReads` say this field by field, from the bits of the unit, and do not mention the parsers; the
proofs that these agree go down the parsers once.
-/

namespace Spook

/-! ## Where a unit ends -/

/-- What `mpeg4_process_frame` does first. -/
def RtpMpeg4.newFrame (out : RtpMpeg4) (f : MediaFrame) : RtpMpeg4 :=
  { out with iov := [], timestamp := f.timestamp }

/-- `flen` at `start`, in a frame of `length` bytes. -/
def unitLength (mem : FrameMemory) (length start : ℕ) : Except Fault ℕ := do
  let flen ← findNextCode mem start (length - start)
  return if flen = 0 then length - start else flen

section Ends

variable {mem : FrameMemory} {f : MediaFrame} {length start len d i : ℕ} {is js : List ℕ}
  {pre u rest : Bytes}

/-- The loop of `mpeg4_process_frame` goes from unit to unit. -/
theorem mpeg4Units_succ (out : RtpMpeg4) (n : ℕ) (h : start < length) :
    mpeg4Units mem length (n + 1) out start = (do
      let len ← unitLength mem length start
      let (out, _) ← parseMpeg4Frame mem out start len
      mpeg4Units mem length n out (start + len)) := by
  rw [mpeg4Units, if_pos h]
  unfold unitLength
  rcases findNextCode mem start (length - start) with e | flen
  · rfl
  · rfl

/-- A code is found inside the rest of the frame. -/
theorem findCodeIn_mem (h : findCodeIn mem d is = .ok i) : i = 0 ∨ i ∈ is := by
  induction is with
  | nil => exact .inl (Except.ok.inj h).symm
  | cons j js ih =>
    obtain ⟨found, -, h⟩ := bind_eq_ok.1 h
    cases found with
    | true =>
      obtain rfl := Except.ok.inj h
      exact .inr List.mem_cons_self
    | false =>
      rcases ih h with hi | hi
      · exact .inl hi
      · exact .inr (List.mem_cons_of_mem _ hi)

/-- A unit is not empty, and inside the frame. -/
theorem unitLength_bounds (hstart : start < length) (h : unitLength mem length start = .ok len) :
    0 < len ∧ start + len ≤ length := by
  obtain ⟨flen, hflen, h⟩ := bind_eq_ok.1 h
  obtain rfl := Except.ok.inj h
  have hmem := findCodeIn_mem hflen
  rw [List.mem_range'_1] at hmem
  split_ifs <;> omega

/-- Whether a start code is at an index of a frame. -/
theorem startsCode_eq (hmem : mem.Holds f) (h : d + 2 < f.d.length) :
    startsCode mem d = .ok (decide ([0, 0, 1] <+: f.d.drop d)) := by
  have hread : ∀ j, j ≤ 2 → ∀ hj : d + j < f.d.length, mem (d + j) = .ok f.d[d + j] :=
    fun j _ hj => hmem _ _ (List.getElem?_eq_getElem hj)
  have hdrop : f.d.drop d = f.d[d] :: f.d[d + 1] :: f.d[d + 2] :: f.d.drop (d + 3) := by
    rw [List.drop_eq_getElem_cons (by omega), List.drop_eq_getElem_cons (by omega),
      List.drop_eq_getElem_cons (by omega)]
  have h₀ := hread 0 (by omega) (by omega)
  have h₁ := hread 1 (by omega) (by omega)
  have h₂ := hread 2 (by omega) (by omega)
  rw [hdrop]
  simp only [startsCode, Nat.add_zero] at h₀ ⊢
  rw [h₀, h₁, h₂]
  simp only [ok_bind, List.cons_prefix_cons, List.nil_prefix, and_true]
  by_cases h0 : f.d[d] = 0
  · by_cases h1 : f.d[d + 1] = 0
    · by_cases h2 : f.d[d + 2] = 1
      · simp [h0, h1, h2, pure, Except.pure]
      · have h2' : ¬ 1 = f.d[d + 2] := Ne.symm h2
        simp [h0, h1, h2, h2', pure, Except.pure]
    · have h1' : ¬ 0 = f.d[d + 1] := Ne.symm h1
      simp [h0, h1, h1', pure, Except.pure]
  · have h0' : ¬ 0 = f.d[d] := Ne.symm h0
    simp [h0, h0', pure, Except.pure]

/-- Indices without a code are passed over. -/
theorem findCodeIn_append (h : ∀ i ∈ is, startsCode mem (d + i) = .ok false) :
    findCodeIn mem d (is ++ js) = findCodeIn mem d js := by
  induction is with
  | nil => rfl
  | cons i is ih =>
    rw [List.cons_append, findCodeIn, h i List.mem_cons_self]
    exact ih fun j hj => h j (List.mem_cons_of_mem _ hj)

/-- A start code does not begin inside a unit and end behind it. -/
theorem not_code_inside (hu : ¬ HasStartCode (u.drop 1)) (hrest : rest = [] ∨ [0, 0, 1] <+: rest)
    (hpos : 1 ≤ i) (hi : i < u.length) : ¬ [0, 0, 1] <+: (u ++ rest).drop i := by
  rw [List.drop_append_of_le_length (Nat.le_of_lt hi)]
  intro hcode
  have hlen : (u.drop i).length = u.length - i := List.length_drop
  rcases hdrop : u.drop i with _ | ⟨x, _ | ⟨y, _ | ⟨z, t⟩⟩⟩
  · rw [hdrop] at hlen
    simp at hlen
    omega
  · rw [hdrop] at hcode
    rcases hrest with rfl | ⟨t, rfl⟩ <;> simp at hcode
  · rw [hdrop] at hcode
    rcases hrest with rfl | ⟨t, rfl⟩ <;> simp at hcode
  · -- The code is inside the unit.
    apply hu
    have hpre : [0, 0, 1] <+: u.drop i := by
      rw [hdrop] at hcode ⊢
      simpa using hcode
    have hsuffix : u.drop i <:+ u.drop 1 := by
      rw [show i = 1 + (i - 1) by omega, ← List.drop_drop]
      exact List.drop_suffix _ _
    exact hpre.isInfix.trans hsuffix.isInfix

/-- **A unit ends where the next one begins.** -/
theorem unitLength_next (hmem : mem.Holds f) (hf : f.d = pre ++ (u ++ rest)) (hne : u ≠ [])
    (hu : ¬ HasStartCode (u.drop 1)) (hrest : rest = [] ∨ [0, 0, 1] <+: rest) :
    unitLength mem f.d.length pre.length = .ok u.length := by
  have hpos := List.length_pos_of_ne_nil hne
  have hlen : f.d.length = pre.length + (u.length + rest.length) := by simp [hf]
  have hdrop : ∀ i, f.d.drop (pre.length + i) = (u ++ rest).drop i := by
    intro i
    rw [hf, ← List.drop_drop, List.drop_left]
  -- Inside the unit no code is found.
  have hinside : ∀ i, 1 ≤ i → i < u.length → pre.length + i + 2 < f.d.length →
      startsCode mem (pre.length + i) = .ok false := by
    intro i h1 hi hin
    rw [startsCode_eq hmem hin, hdrop i, decide_eq_false (not_code_inside hu hrest h1 hi)]
  unfold unitLength findNextCode
  rw [show f.d.length - pre.length = u.length + rest.length by omega]
  rcases hrest with rfl | hcode
  · rw [← List.append_nil (List.range' _ _), findCodeIn_append]
    · simp [findCodeIn, pure, Except.pure]
    · intro i hi
      rw [List.mem_range'_1] at hi
      simp only [List.length_nil] at hi hlen
      exact hinside i hi.1 (by omega) (by omega)
  · have hthree : 3 ≤ rest.length := hcode.length_le
    have hsplit : List.range' 1 (u.length + rest.length - 3) =
        List.range' 1 (u.length - 1) ++ u.length :: List.range' (u.length + 1) (rest.length - 3) := by
      rw [← List.range'_succ, show u.length + rest.length - 3 = u.length - 1 + (rest.length - 3 + 1) by
        omega, ← List.range'_append, Nat.one_mul, show 1 + (u.length - 1) = u.length by omega]
    rw [hsplit, findCodeIn_append]
    · have hfound : startsCode mem (pre.length + u.length) = .ok true := by
        rw [startsCode_eq hmem (by omega), hdrop u.length, List.drop_left, decide_eq_true hcode]
      simp [findCodeIn, hfound, pure, Except.pure, Nat.ne_of_gt hpos]
    · intro i hi
      rw [List.mem_range'_1] at hi
      exact hinside i hi.1 (by omega) (by omega)

end Ends

/-! ## What is collected -/

/-- `config` behind a call of `add_to_config`. -/
def configAdd (config u : Bytes) : Bytes :=
  if configSize < config.length + u.length then config else config ++ u

/-- `config` behind a call of `add_to_config` that stands behind the test of `config_len`. -/
def configAddStarted (config u : Bytes) : Bytes := if config = [] then [] else configAdd config u

section Header

variable (mem : FrameMemory) (d len : ℕ)

/-- The bit of the aspect ratio in a video object layer, behind the object layer identifier: seven
bits more when its flag is set. -/
def volRatio : ℕ := if mem.bit d 41 = 1 then 49 else 42

/-- The bit of the flag for the control parameters, behind the aspect ratio: 16 bits more when that
is 15. -/
def volControl : ℕ :=
  if mem.field d 4 (volRatio mem d) = 15 then volRatio mem d + 20 else volRatio mem d + 4

/-- The bit of the first marker, behind the control parameters, if there are any, and two bits of
shape. The control parameters are four bits, and 79 more when the last of the four is set. -/
def volMarkerAt : ℕ :=
  if mem.bit d (volControl mem d) ≠ 1 then volControl mem d + 3
  else if mem.bit d (volControl mem d + 4) ≠ 1 then volControl mem d + 7
  else volControl mem d + 86

/-- The resolution, between the two markers. -/
def volResolution : ℕ := mem.field d 16 (volMarkerAt mem d + 1)

/-- The fields before the first marker that are looked at can be read. -/
structure VolReadable : Prop where
  identifier : mem.Readable d 1 41
  ratio : mem.Readable d 4 (volRatio mem d)
  control : mem.Readable d 1 (volControl mem d)
  vbv : mem.bit d (volControl mem d) = 1 → mem.Readable d 1 (volControl mem d + 4)

/-- The fields of a video object layer that are looked at can be read: none behind a marker that is
not set, and the increment, which has as many bits as the resolution, only if it is fixed. -/
structure VolReads : Prop where
  before : VolReadable mem d
  first : mem.Readable d 1 (volMarkerAt mem d)
  second : mem.bit d (volMarkerAt mem d) = 1 → mem.Readable d 17 (volMarkerAt mem d + 1)
  fixed : mem.bit d (volMarkerAt mem d) = 1 → mem.bit d (volMarkerAt mem d + 17) = 1 →
    mem.Readable d 1 (volMarkerAt mem d + 18)
  increment : mem.bit d (volMarkerAt mem d) = 1 → mem.bit d (volMarkerAt mem d + 17) = 1 →
    mem.bit d (volMarkerAt mem d + 18) = 1 →
      mem.Readable d (volResolution mem d).size (volMarkerAt mem d + 19)

/-- Both markers of a video object layer are set, and a fixed increment is not 0. -/
structure VolMarked : Prop where
  first : mem.bit d (volMarkerAt mem d) = 1
  second : mem.bit d (volMarkerAt mem d + 17) = 1
  increment : mem.bit d (volMarkerAt mem d + 18) = 1 →
    mem.field d (volResolution mem d).size (volMarkerAt mem d + 19) ≠ 0

/-- A video object layer with a complete header. -/
def VolComplete : Prop := VolReads mem d ∧ VolMarked mem d

instance decidableVolReadable : Decidable (VolReadable mem d) :=
  decidable_of_iff (mem.Readable d 1 41 ∧ mem.Readable d 4 (volRatio mem d) ∧
      mem.Readable d 1 (volControl mem d) ∧
      (mem.bit d (volControl mem d) = 1 → mem.Readable d 1 (volControl mem d + 4)))
    ⟨fun h => ⟨h.1, h.2.1, h.2.2.1, h.2.2.2⟩, fun h => ⟨h.1, h.2, h.3, h.4⟩⟩

instance decidableVolReads : Decidable (VolReads mem d) :=
  decidable_of_iff (VolReadable mem d ∧ mem.Readable d 1 (volMarkerAt mem d) ∧
      (mem.bit d (volMarkerAt mem d) = 1 → mem.Readable d 17 (volMarkerAt mem d + 1)) ∧
      (mem.bit d (volMarkerAt mem d) = 1 → mem.bit d (volMarkerAt mem d + 17) = 1 →
        mem.Readable d 1 (volMarkerAt mem d + 18)) ∧
      (mem.bit d (volMarkerAt mem d) = 1 → mem.bit d (volMarkerAt mem d + 17) = 1 →
        mem.bit d (volMarkerAt mem d + 18) = 1 →
          mem.Readable d (volResolution mem d).size (volMarkerAt mem d + 19)))
    ⟨fun h => ⟨h.1, h.2.1, h.2.2.1, h.2.2.2.1, h.2.2.2.2⟩, fun h => ⟨h.1, h.2, h.3, h.4, h.5⟩⟩

instance decidableVolMarked : Decidable (VolMarked mem d) :=
  decidable_of_iff (mem.bit d (volMarkerAt mem d) = 1 ∧ mem.bit d (volMarkerAt mem d + 17) = 1 ∧
      (mem.bit d (volMarkerAt mem d + 18) = 1 →
        mem.field d (volResolution mem d).size (volMarkerAt mem d + 19) ≠ 0))
    ⟨fun h => ⟨h.1, h.2.1, h.2.2⟩, fun h => ⟨h.1, h.2, h.3⟩⟩

instance decidableVolComplete : Decidable (VolComplete mem d) :=
  inferInstanceAs (Decidable (VolReads mem d ∧ VolMarked mem d))

/-- Behind the first zero from the bit `off` on, or where a unit of `len` bytes ends. -/
def behindZero (off : ℕ) : ℕ :=
  match (List.range' off (8 * len - off)).find? fun i => mem.bit d i = 0 with
  | some i => i + 1
  | none => max off (8 * len)

/-- The bit of the marker in a video object plane of `len` bytes: behind the ones of the modulo time
base, which begins at the bit 34, and a zero. -/
def vopMarkerAt : ℕ := behindZero mem d len 34

/-- The fields of a video object plane of `len` bytes that are looked at can be read: all bits up to
its marker, and the increment of `vtirBitlen` bits if the marker is set. -/
structure VopReads (vtirBitlen : ℕ) : Prop where
  marker : mem.Readable d (vopMarkerAt mem d len - 31) 32
  increment : mem.bit d (vopMarkerAt mem d len) = 1 →
    mem.Readable d vtirBitlen (vopMarkerAt mem d len + 1)

instance decidableVopReads (vtirBitlen : ℕ) : Decidable (VopReads mem d len vtirBitlen) :=
  decidable_of_iff (mem.Readable d (vopMarkerAt mem d len - 31) 32 ∧
      (mem.bit d (vopMarkerAt mem d len) = 1 →
        mem.Readable d vtirBitlen (vopMarkerAt mem d len + 1)))
    ⟨fun h => ⟨h.1, h.2⟩, fun h => ⟨h.1, h.2⟩⟩

/-- The fields of a visual object can be read: they are in the byte behind its start code, or in the
two bytes when the first bit is set. -/
def VisualReads : Prop := mem.CanRead (d + 4) ∧ (mem.bit d 32 = 1 → mem.CanRead (d + 5))

/-- `config` behind a unit `u` at `d`. -/
def configAfter (kind : Mpeg4Unit) (config u : Bytes) : Bytes :=
  match kind with
  | .visualObjectSequence | .videoObject => configAdd config u
  | .userData | .visualObject => configAddStarted config u
  | .videoObjectLayer => if VolComplete mem d then configAddStarted config u else config
  | .videoObjectPlane => []
  | .other => config

/-- `pali` behind a unit at `d`. -/
def paliAfter (kind : Mpeg4Unit) (pali : ℕ) : ℕ :=
  if kind = .visualObjectSequence then (mem.byteAt (d + 4)).toNat else pali

/-- `vtir_bitlen` behind a unit at `d`: a video object layer with both markers sets it. -/
def vtirAfter (kind : Mpeg4Unit) (vtirBitlen : ℕ) : ℕ :=
  if kind = .videoObjectLayer ∧ mem.bit d (volMarkerAt mem d) = 1 ∧
      mem.bit d (volMarkerAt mem d + 17) = 1 then
    (volResolution mem d).size
  else vtirBitlen

/-- What a stream has collected: `config`, `pali`, `vtir_bitlen` and `init_done`. -/
structure Mpeg4Head where
  config : Bytes
  pali : ℕ
  vtirBitlen : ℕ
  initDone : Bool

def RtpMpeg4.head (out : RtpMpeg4) : Mpeg4Head :=
  ⟨out.config, out.pali, out.vtirBitlen, out.initDone⟩

/-- What is collected behind a unit `u` at `d`. -/
def Mpeg4Head.after (kind : Mpeg4Unit) (h : Mpeg4Head) (u : Bytes) : Mpeg4Head where
  config := configAfter mem d kind h.config u
  pali := paliAfter mem d kind h.pali
  vtirBitlen := vtirAfter mem d kind h.vtirBitlen
  initDone := h.initDone || decide (kind = .videoObjectPlane ∧ h.config ≠ [])

end Header

/-! ## The fields of a header -/

section Fields

variable {mem : FrameMemory} {d len n off : ℕ}

/-- The place of the first marker. -/
theorem volMarker_cases (mem : FrameMemory) (d : ℕ) :
    (VolReadable mem d ∧ volMarker mem d = .ok (volMarkerAt mem d)) ∨
      (¬ VolReadable mem d ∧ ∃ e, volMarker mem d = .error e) := by
  have hflag : ∀ i, mem.field d 1 i ≠ 0 ↔ mem.bit d i = 1 := by
    intro i
    rw [FrameMemory.field_one, FrameMemory.bit_ne_zero]
  unfold volMarker
  rcases getField_cases mem d 1 41 with ⟨hid, heq⟩ | ⟨hid, e, heq⟩
  swap
  · exact .inr ⟨fun h => hid h.identifier, e, by rw [heq]; rfl⟩
  have hratio : (if mem.field d 1 41 ≠ 0 then 41 + 1 + 7 else 41 + 1) = volRatio mem d := by
    simp only [hflag]
    rfl
  rw [heq, ok_bind]
  dsimp only
  rw [hratio]
  rcases getField_cases mem d 4 (volRatio mem d) with ⟨hpar, heq⟩ | ⟨hpar, e, heq⟩
  swap
  · exact .inr ⟨fun h => hpar h.ratio, e, by rw [heq]; rfl⟩
  have hcontrol : (if mem.field d 4 (volRatio mem d) = 15 then volRatio mem d + 4 + 16
      else volRatio mem d + 4) = volControl mem d := rfl
  rw [heq, ok_bind]
  dsimp only
  rw [hcontrol]
  rcases getField_cases mem d 1 (volControl mem d) with ⟨hflags, heq⟩ | ⟨hflags, e, heq⟩
  swap
  · exact .inr ⟨fun h => hflags h.control, e, by rw [heq]; rfl⟩
  rw [heq, ok_bind]
  dsimp only
  by_cases hnone : mem.bit d (volControl mem d) ≠ 1
  · rw [if_pos (not_not.1 fun h => hnone ((hflag _).1 h))]
    refine .inl ⟨⟨hid, hpar, hflags, fun h => absurd h hnone⟩, ?_⟩
    unfold volMarkerAt
    rw [if_pos hnone]
    rfl
  rw [if_neg ((hflag _).2 (not_not.1 hnone))]
  rcases getField_cases mem d 1 (volControl mem d + 4) with ⟨hvbv, heq⟩ | ⟨hvbv, e, heq⟩
  swap
  · exact .inr ⟨fun h => hvbv (h.vbv (not_not.1 hnone)), e, by rw [heq]; rfl⟩
  refine .inl ⟨⟨hid, hpar, hflags, fun _ => hvbv⟩, ?_⟩
  unfold volMarkerAt
  rw [heq, ok_bind, if_neg hnone]
  simp only [hflag]
  by_cases hset : mem.bit d (volControl mem d + 4) = 1
  · rw [if_pos hset, if_neg (not_not.2 hset)]
    rfl
  · rw [if_neg hset, if_pos hset]
    rfl

/-- The first zero is not before the bit where it is looked for. -/
theorem le_behindZero (mem : FrameMemory) (d len off : ℕ) : off ≤ behindZero mem d len off := by
  unfold behindZero
  rcases hfind : (List.range' off (8 * len - off)).find? fun i => mem.bit d i = 0 with _ | i
  · exact Nat.le_max_left _ _
  · have hmem := List.mem_of_find?_eq_some hfind
    rw [List.mem_range'_1] at hmem
    exact Nat.le_succ_of_le hmem.1

/-- A zero is found at once, or behind a one. -/
theorem behindZero_eq (h : off / 8 < len) : behindZero mem d len off =
    if mem.bit d off = 0 then off + 1 else behindZero mem d len (off + 1) := by
  have hcount : 8 * len - off = 8 * len - (off + 1) + 1 := by omega
  unfold behindZero
  rw [hcount, List.range'_succ, List.find?_cons]
  by_cases hzero : mem.bit d off = 0
  · simp [hzero]
  · have hmax : max off (8 * len) = max (off + 1) (8 * len) := by omega
    simp [hzero, hmax]

/-- **The loop over the modulo time base** ends behind the first zero, if all bits up to there can be
read.

**Proof sketch.** By induction on the number of rounds; a round either finds the zero or leaves the
search one bit further on. -/
theorem moduloTimeBase_cases (hpos : 0 < n) (hn : 8 * len < off + n) :
    (mem.Readable d (behindZero mem d len off - off) off ∧
      moduloTimeBase mem d len n off = .ok (behindZero mem d len off)) ∨
    (¬ mem.Readable d (behindZero mem d len off - off) off ∧
      ∃ e, moduloTimeBase mem d len n off = .error e) := by
  induction n generalizing off with
  | zero => cases hpos
  | succ n ih =>
    unfold moduloTimeBase
    by_cases hoff : off / 8 < len
    swap
    · have hend : behindZero mem d len off = off := by
        unfold behindZero
        rw [show 8 * len - off = 0 by omega]
        exact max_eq_left (by omega)
      rw [if_neg hoff, hend, Nat.sub_self]
      exact .inl ⟨fun k hk => absurd hk (Nat.not_lt_zero k), rfl⟩
    rw [if_pos hoff]
    have hle := le_behindZero mem d len (off + 1)
    -- The bit at `off`, and the bits behind it.
    have hsplit : mem.bit d off ≠ 0 → (mem.Readable d (behindZero mem d len off - off) off ↔
        mem.Readable d 1 off ∧
          mem.Readable d (behindZero mem d len (off + 1) - (off + 1)) (off + 1)) := by
      intro hone
      rw [behindZero_eq hoff, if_neg hone, ← FrameMemory.readable_add,
        show 1 + (behindZero mem d len (off + 1) - (off + 1)) =
          behindZero mem d len (off + 1) - off by omega]
    have hfirst : mem.Readable d (behindZero mem d len off - off) off → mem.Readable d 1 off := by
      intro h k hk
      refine h k ?_
      rw [behindZero_eq hoff]
      split_ifs <;> omega
    rcases getField_cases mem d 1 off with ⟨hbit, heq⟩ | ⟨hbit, e, heq⟩
    swap
    · exact .inr ⟨fun h => hbit (hfirst h), e, by rw [heq]; rfl⟩
    rw [heq, ok_bind, FrameMemory.field_one]
    dsimp only
    by_cases hzero : mem.bit d off = 0
    · rw [if_pos hzero, behindZero_eq hoff, if_pos hzero, Nat.add_sub_cancel_left]
      exact .inl ⟨hbit, rfl⟩
    · rw [if_neg hzero, hsplit hzero]
      rcases @ih (off + 1) (by omega) (by omega) with ⟨hrest, hok⟩ | ⟨hrest, e, herr⟩
      · rw [hok, behindZero_eq hoff, if_neg hzero]
        exact .inl ⟨⟨hbit, hrest⟩, rfl⟩
      · exact .inr ⟨fun h => hrest h.2, e, herr⟩

/-- The bits up to the marker of a video object plane are those of its type, of its modulo time base
and the marker. -/
theorem vopReadable_iff (mem : FrameMemory) (d len : ℕ) :
    mem.Readable d (vopMarkerAt mem d len - 31) 32 ↔
      mem.Readable d 2 32 ∧ mem.Readable d (vopMarkerAt mem d len - 34) 34 ∧
        mem.Readable d 1 (vopMarkerAt mem d len) := by
  have hle : 34 ≤ vopMarkerAt mem d len := le_behindZero mem d len 34
  generalize vopMarkerAt mem d len = m at hle ⊢
  rw [show m - 31 = 2 + (m - 34 + 1) by omega, FrameMemory.readable_add,
    FrameMemory.readable_add, show 32 + 2 + (m - 34) = m by omega]

/-- `parse_video_object_plane` reads the fields, and goes on if the marker is set. -/
theorem vopFields_cases (mem : FrameMemory) (d len vtirBitlen : ℕ) :
    (VopReads mem d len vtirBitlen ∧
      vopFields mem d len vtirBitlen = .ok (decide (mem.bit d (vopMarkerAt mem d len) = 1))) ∨
    (¬ VopReads mem d len vtirBitlen ∧ ∃ e, vopFields mem d len vtirBitlen = .error e) := by
  have hiff := vopReadable_iff mem d len
  unfold vopFields
  rcases getField_cases mem d 2 32 with ⟨htype, heq⟩ | ⟨htype, e, heq⟩
  swap
  · exact .inr ⟨fun h => htype (hiff.1 h.marker).1, e, by rw [heq]; rfl⟩
  rw [heq, ok_bind]
  dsimp only
  rcases @moduloTimeBase_cases mem d len (8 * len + 1) 34 (by omega) (by omega) with
    ⟨hbase, hok⟩ | ⟨hbase, e, herr⟩
  swap
  · exact .inr ⟨fun h => hbase (hiff.1 h.marker).2.1, e, by rw [herr]; rfl⟩
  rw [hok, ok_bind, ← vopMarkerAt]
  rcases getField_cases mem d 1 (vopMarkerAt mem d len) with ⟨hmarker, heq⟩ | ⟨hmarker, e, heq⟩
  swap
  · exact .inr ⟨fun h => hmarker (hiff.1 h.marker).2.2, e, by rw [heq]; rfl⟩
  have hreadable := hiff.2 ⟨htype, hbase, hmarker⟩
  rw [heq, ok_bind, FrameMemory.field_one]
  dsimp only
  by_cases hzero : mem.bit d (vopMarkerAt mem d len) = 0
  · have hunset : ¬ mem.bit d (vopMarkerAt mem d len) = 1 := by omega
    rw [if_pos hzero, decide_eq_false hunset]
    exact .inl ⟨⟨hreadable, fun h => absurd h hunset⟩, rfl⟩
  rw [if_neg hzero, decide_eq_true (FrameMemory.bit_ne_zero.1 hzero)]
  rcases getField_cases mem d vtirBitlen (vopMarkerAt mem d len + 1) with
    ⟨hincr, heq⟩ | ⟨hincr, e, heq⟩
  · rw [heq]
    exact .inl ⟨⟨hreadable, fun _ => hincr⟩, rfl⟩
  · exact .inr ⟨fun h => hincr (h.increment (FrameMemory.bit_ne_zero.1 hzero)), e, by rw [heq]; rfl⟩

end Fields

/-! ## The parts of `parse_mpeg4_frame` -/

section Parts

variable {mem : FrameMemory} {out out' : RtpMpeg4} {d len : ℕ} {u : Bytes}

/-- `add_to_config` of bytes that can be read. -/
theorem addToConfig_eq (hu : mem.bytes d len = .ok u) :
    addToConfig mem out d len = .ok { out with config := configAdd out.config u } := by
  have hlen := FrameMemory.length_bytes hu
  unfold addToConfig configAdd
  rw [hlen]
  split_ifs
  · rfl
  · rw [hu]
    rfl

/-- What is added to a configuration that has been started. -/
theorem addToStartedConfig_eq (hu : mem.bytes d len = .ok u) :
    addToStartedConfig mem out d len =
      .ok { out with config := configAddStarted out.config u } := by
  unfold addToStartedConfig configAddStarted
  by_cases hnil : out.config = []
  · rw [if_neg (not_not.2 hnil), if_pos hnil, ← hnil]
  · rw [if_pos hnil, if_neg hnil, addToConfig_eq hu]

/-- A unit that is queued leaves the configuration. -/
@[simp] theorem addToRtpBuf_config : (addToRtpBuf out d len).config = out.config := by
  unfold addToRtpBuf
  split_ifs <;> rfl

/-- A unit that is queued leaves the profile and level. -/
@[simp] theorem addToRtpBuf_pali : (addToRtpBuf out d len).pali = out.pali := by
  unfold addToRtpBuf
  split_ifs <;> rfl

/-- A unit that is queued leaves the flag. -/
@[simp] theorem addToRtpBuf_initDone : (addToRtpBuf out d len).initDone = out.initDone := by
  unfold addToRtpBuf
  split_ifs <;> rfl

/-- A unit that is queued leaves the length of the time. -/
@[simp] theorem addToRtpBuf_vtirBitlen : (addToRtpBuf out d len).vtirBitlen = out.vtirBitlen := by
  unfold addToRtpBuf
  split_ifs <;> rfl

/-- All but the fields that a video object layer sets. -/
def VolFrame (out out' : RtpMpeg4) : Prop :=
  out' = { out with
    vopTimeIncrementResolution := out'.vopTimeIncrementResolution
    vtirBitlen := out'.vtirBitlen
    vopTimeIncrement := out'.vopTimeIncrement
    tsIncr := out'.tsIncr }

/-- What `volFields` comes to: it faults if a field cannot be read, and goes on if the markers are
set. -/
inductive VolResult (mem : FrameMemory) (d : ℕ) (out : RtpMpeg4) :
    Except Fault (RtpMpeg4 × Bool) → Prop
  | fault (e : Fault) : ¬ VolReads mem d → VolResult mem d out (.error e)
  | incomplete (out' : RtpMpeg4) : VolReads mem d → ¬ VolMarked mem d → VolFrame out out' →
      out'.vtirBitlen = vtirAfter mem d .videoObjectLayer out.vtirBitlen →
      VolResult mem d out (.ok (out', false))
  | complete (out' : RtpMpeg4) : VolReads mem d → VolMarked mem d → VolFrame out out' →
      out'.vtirBitlen = vtirAfter mem d .videoObjectLayer out.vtirBitlen →
      VolResult mem d out (.ok (out', true))

/-- Behind both markers the header is complete unless a fixed increment is 0. -/
theorem volRate_result {out : RtpMpeg4} (hbefore : VolReadable mem d)
    (hfirst : mem.Readable d 1 (volMarkerAt mem d))
    (hsecond : mem.Readable d 17 (volMarkerAt mem d + 1))
    (hmarker : mem.bit d (volMarkerAt mem d) = 1)
    (hmarker₂ : mem.bit d (volMarkerAt mem d + 17) = 1) :
    VolResult mem d out (volRate mem { out with
      vopTimeIncrementResolution := volResolution mem d
      vtirBitlen := (volResolution mem d).size } d (volMarkerAt mem d + 18)) := by
  -- The number of bits of the increment is known.
  have hvtir : (volResolution mem d).size =
      vtirAfter mem d .videoObjectLayer out.vtirBitlen := by
    rw [vtirAfter, if_pos ⟨rfl, hmarker, hmarker₂⟩]
  unfold volRate
  rcases getField_cases mem d 1 (volMarkerAt mem d + 18) with ⟨hfixed, heq⟩ | ⟨hfixed, e, heq⟩
  swap
  · rw [heq]
    exact .fault e fun h => hfixed (h.fixed hmarker hmarker₂)
  rw [heq, ok_bind, FrameMemory.field_one]
  dsimp only
  by_cases hfree : mem.bit d (volMarkerAt mem d + 18) = 0
  · have hunset : ¬ mem.bit d (volMarkerAt mem d + 18) = 1 := by omega
    have hreads : VolReads mem d :=
      ⟨hbefore, hfirst, fun _ => hsecond, fun _ _ => hfixed, fun _ _ h => absurd h hunset⟩
    have hmarked : VolMarked mem d := ⟨hmarker, hmarker₂, fun h => absurd h hunset⟩
    rw [if_pos hfree]
    generalize (volResolution mem d).size = size at hvtir
    exact .complete _ hreads hmarked rfl hvtir
  rw [if_neg hfree]
  have hflag := FrameMemory.bit_ne_zero.1 hfree
  rw [show volMarkerAt mem d + 18 + 1 = volMarkerAt mem d + 19 by omega]
  rcases getField_cases mem d (volResolution mem d).size (volMarkerAt mem d + 19) with
    ⟨hincr, heq⟩ | ⟨hincr, e, heq⟩
  swap
  · rw [heq]
    exact .fault e fun h => hincr (h.increment hmarker hmarker₂ hflag)
  have hreads : VolReads mem d :=
    ⟨hbefore, hfirst, fun _ => hsecond, fun _ _ => hfixed, fun _ _ _ => hincr⟩
  rw [heq, ok_bind]
  dsimp only
  by_cases hnone : mem.field d (volResolution mem d).size (volMarkerAt mem d + 19) = 0
  · have hunmarked : ¬ VolMarked mem d := fun h => h.increment hflag hnone
    rw [if_pos hnone]
    generalize (volResolution mem d).size = size at hvtir
    exact .incomplete _ hreads hunmarked rfl hvtir
  · have hmarked : VolMarked mem d := ⟨hmarker, hmarker₂, fun _ => hnone⟩
    rw [if_neg hnone]
    generalize Int.tdiv _ _ = tsIncr
    generalize (volResolution mem d).size = size at hvtir
    exact .complete _ hreads hmarked rfl hvtir

/-- **The fields of a video object layer.**

**Proof sketch.** The fields are read one behind the other. At each of them the read faults, which is
one of the fields of `VolReads`; or it is a marker that is not set, and no field behind it counts; or
the next one is looked at. What is behind the second marker is the matter of `volRate_result`. -/
theorem volFields_result (mem : FrameMemory) (out : RtpMpeg4) (d : ℕ) :
    VolResult mem d out (volFields mem out d) := by
  unfold volFields
  rcases volMarker_cases mem d with ⟨hbefore, heq⟩ | ⟨hbefore, e, heq⟩
  swap
  · rw [heq]
    exact .fault e fun h => hbefore h.before
  rw [heq, ok_bind]
  rcases getField_cases mem d 1 (volMarkerAt mem d) with ⟨hfirst, heq⟩ | ⟨hfirst, e, heq⟩
  swap
  · rw [heq]
    exact .fault e fun h => hfirst h.first
  rw [heq, ok_bind, FrameMemory.field_one]
  dsimp only
  by_cases hzero : mem.bit d (volMarkerAt mem d) = 0
  · have hunset : ¬ mem.bit d (volMarkerAt mem d) = 1 := by omega
    have hreads : VolReads mem d := ⟨hbefore, hfirst, fun h => absurd h hunset,
      fun h => absurd h hunset, fun h => absurd h hunset⟩
    rw [if_pos hzero]
    exact .incomplete out hreads (fun h => hunset h.first) rfl (by simp [vtirAfter, hunset])
  rw [if_neg hzero]
  have hmarker := FrameMemory.bit_ne_zero.1 hzero
  rcases getField_cases mem d 16 (volMarkerAt mem d + 1) with ⟨hres, heq⟩ | ⟨hres, e, heq⟩
  swap
  · rw [heq]
    exact .fault e fun h => hres ((FrameMemory.readable_add 16 1).1 (h.second hmarker)).1
  rw [heq, ok_bind, ← volResolution]
  dsimp only
  rcases getField_cases mem d 1 (volMarkerAt mem d + 1 + 16) with ⟨hlast, heq⟩ | ⟨hlast, e, heq⟩
  swap
  · rw [heq]
    exact .fault e fun h => hlast ((FrameMemory.readable_add 16 1).1 (h.second hmarker)).2
  have hsecond : mem.Readable d 17 (volMarkerAt mem d + 1) :=
    (FrameMemory.readable_add 16 1).2 ⟨hres, hlast⟩
  rw [heq, ok_bind, FrameMemory.field_one]
  dsimp only
  rw [show volMarkerAt mem d + 1 + 16 = volMarkerAt mem d + 17 by omega]
  by_cases hzero₂ : mem.bit d (volMarkerAt mem d + 17) = 0
  · have hunset : ¬ mem.bit d (volMarkerAt mem d + 17) = 1 := by omega
    have hreads : VolReads mem d := ⟨hbefore, hfirst, fun _ => hsecond,
      fun _ h => absurd h hunset, fun _ h => absurd h hunset⟩
    rw [if_pos hzero₂]
    exact .incomplete _ hreads (fun h => hunset h.second) rfl (by simp [vtirAfter, hunset])
  rw [if_neg hzero₂, show volMarkerAt mem d + 17 + 1 = volMarkerAt mem d + 18 by omega]
  exact volRate_result hbefore hfirst hsecond hmarker (FrameMemory.bit_ne_zero.1 hzero₂)

/-- The text fits `fmtp`. -/
def FmtpFits (pali : ℕ) (config : Bytes) : Prop := (fmtpText pali config).length + 1 ≤ fmtpSize

/-- `finish_config` where the text fits. -/
theorem finishConfig_eq (h : FmtpFits out.pali out.config) :
    finishConfig out =
      .ok { out with fmtp := fmtpText out.pali out.config, config := [], initDone := true } := by
  unfold FmtpFits at h
  unfold finishConfig
  rw [if_neg (Nat.not_lt.2 h)]

/-- `finish_config` only comes to its end where the text fits. -/
theorem finishConfig_ok (h : finishConfig out = .ok out') : FmtpFits out.pali out.config := by
  unfold finishConfig at h
  split_ifs at h with hlen
  exact Nat.not_lt.1 hlen

/-- What `parse_video_object_plane` does first. -/
def planeStart (out : RtpMpeg4) : Except Fault RtpMpeg4 :=
  if out.config ≠ [] then finishConfig out else .ok out

/-- What was collected is printed and fits, and what is collected starts again. -/
theorem planeStart_ok (h : planeStart out = .ok out') :
    (out.config ≠ [] → FmtpFits out.pali out.config) ∧ out'.config = [] ∧ out'.pali = out.pali ∧
      out'.iov = out.iov ∧ out'.vtirBitlen = out.vtirBitlen ∧
      out'.initDone = (out.initDone || decide (out.config ≠ [])) := by
  unfold planeStart at h
  by_cases hnil : out.config = []
  · rw [if_neg (not_not.2 hnil)] at h
    obtain rfl := Except.ok.inj h
    exact ⟨fun hne => absurd hnil hne, hnil, rfl, rfl, rfl, by simp [hnil]⟩
  · rw [if_pos hnil] at h
    have hfits := finishConfig_ok h
    rw [finishConfig_eq hfits] at h
    obtain rfl := Except.ok.inj h
    exact ⟨fun _ => hfits, rfl, rfl, rfl, rfl, by simp [hnil]⟩

/-- Behind configuration that fits, or none, the plane is looked at. -/
theorem planeStart_fits (h : out.config ≠ [] → FmtpFits out.pali out.config) :
    ∃ out', planeStart out = .ok out' := by
  unfold planeStart
  by_cases hnil : out.config = []
  · rw [if_neg (not_not.2 hnil)]
    exact ⟨_, rfl⟩
  · rw [if_pos hnil, finishConfig_eq (h hnil)]
    exact ⟨_, rfl⟩

end Parts

/-! ## A unit -/

section Unit

variable (mem : FrameMemory) (d len : ℕ)

/-- A unit that is gone through without a fault: the fields that are looked at can be read, and what
was collected before a video object plane fits `fmtp`. -/
def UnitRuns (kind : Mpeg4Unit) (h : Mpeg4Head) : Prop :=
  match kind with
  | .visualObjectSequence => mem.CanRead (d + 4)
  | .visualObject => VisualReads mem d
  | .videoObjectLayer => VolReads mem d
  | .videoObjectPlane => (h.config ≠ [] → FmtpFits h.pali h.config) ∧
    (h.initDone = true ∨ h.config ≠ [] → VopReads mem d len h.vtirBitlen)
  | .userData | .videoObject | .other => True

/-- A unit of a kind that is queued, with its markers: for a video object layer also with no fixed
increment of 0, and for a video object plane with the stream initialised. -/
def UnitMarked (kind : Mpeg4Unit) (h : Mpeg4Head) : Prop :=
  match kind with
  | .videoObjectLayer => VolMarked mem d
  | .videoObjectPlane =>
    (h.initDone = true ∨ h.config ≠ []) ∧ mem.bit d (vopMarkerAt mem d len) = 1
  | .visualObjectSequence | .userData | .visualObject | .videoObject => True
  | .other => False

/-- A unit that is queued when there is room. -/
def UnitFits (kind : Mpeg4Unit) (h : Mpeg4Head) : Prop :=
  UnitRuns mem d len kind h ∧ UnitMarked mem d len kind h

instance decidableUnitRuns (kind : Mpeg4Unit) (h : Mpeg4Head) :
    Decidable (UnitRuns mem d len kind h) :=
  match kind with
  | .visualObjectSequence => inferInstanceAs (Decidable (mem.CanRead (d + 4)))
  | .visualObject =>
    inferInstanceAs (Decidable (mem.CanRead (d + 4) ∧ (mem.bit d 32 = 1 → mem.CanRead (d + 5))))
  | .videoObjectLayer => inferInstanceAs (Decidable (VolReads mem d))
  | .videoObjectPlane =>
    inferInstanceAs (Decidable ((h.config ≠ [] → (fmtpText h.pali h.config).length + 1 ≤ fmtpSize) ∧
      (h.initDone = true ∨ h.config ≠ [] → VopReads mem d len h.vtirBitlen)))
  | .userData | .videoObject | .other => inferInstanceAs (Decidable True)

instance decidableUnitMarked (kind : Mpeg4Unit) (h : Mpeg4Head) :
    Decidable (UnitMarked mem d len kind h) :=
  match kind with
  | .videoObjectLayer => inferInstanceAs (Decidable (VolMarked mem d))
  | .videoObjectPlane =>
    inferInstanceAs (Decidable ((h.initDone = true ∨ h.config ≠ []) ∧
      mem.bit d (vopMarkerAt mem d len) = 1))
  | .visualObjectSequence | .userData | .visualObject | .videoObject =>
    inferInstanceAs (Decidable True)
  | .other => inferInstanceAs (Decidable False)

instance decidableUnitFits (kind : Mpeg4Unit) (h : Mpeg4Head) :
    Decidable (UnitFits mem d len kind h) :=
  inferInstanceAs (Decidable (UnitRuns mem d len kind h ∧ UnitMarked mem d len kind h))

end Unit

/-- What a unit at `d` comes to: it faults, or leaves `iov`, or is queued if there is room. -/
inductive UnitResult (mem : FrameMemory) (out : RtpMpeg4) (d len : ℕ) (kind : Mpeg4Unit) :
    Except Fault RtpMpeg4 → Prop
  | fault (e : Fault) : ¬ UnitRuns mem d len kind out.head →
      UnitResult mem out d len kind (.error e)
  | dropped (out' : RtpMpeg4) : UnitRuns mem d len kind out.head →
      ¬ UnitMarked mem d len kind out.head → out'.iov = out.iov →
      UnitResult mem out d len kind (.ok out')
  | queued (out' : RtpMpeg4) : UnitRuns mem d len kind out.head →
      UnitMarked mem d len kind out.head → out'.iov = (addToRtpBuf out d len).iov →
      UnitResult mem out d len kind (.ok out')

section Results

variable {mem : FrameMemory} {out out' : RtpMpeg4} {d len : ℕ} {u : Bytes}

/-- What is queued depends on what was queued. -/
theorem addToRtpBuf_iov (h : out'.iov = out.iov) :
    (addToRtpBuf out' d len).iov = (addToRtpBuf out d len).iov := by
  unfold addToRtpBuf
  rw [h]
  split_ifs
  · exact h
  · rfl

/-- Queuing collects nothing. -/
@[simp] theorem addToRtpBuf_head : (addToRtpBuf out d len).head = out.head := by
  simp [RtpMpeg4.head]

/-- A visual object sequence fits if its profile and level can be read. -/
theorem parseVisualObjectSequence_result (hu : mem.bytes d len = .ok u) :
    UnitResult mem out d len .visualObjectSequence (parseVisualObjectSequence mem out d len) := by
  unfold parseVisualObjectSequence
  rcases hb : mem (d + 4) with e | b
  · refine .fault e ?_
    rintro ⟨b, hb'⟩
    rw [hb] at hb'
    cases hb'
  · simp only [ok_bind, addToConfig_eq hu]
    exact .queued _ ⟨b, hb⟩ trivial (addToRtpBuf_iov rfl)

/-- User data fits. -/
theorem parse1b2_result (hu : mem.bytes d len = .ok u) :
    UnitResult mem out d len .userData (parse1b2 mem out d len) := by
  unfold parse1b2
  simp only [ok_bind, addToStartedConfig_eq hu]
  exact .queued _ trivial trivial (addToRtpBuf_iov rfl)

/-- A video object fits. -/
theorem parseVideoObject_result (hu : mem.bytes d len = .ok u) :
    UnitResult mem out d len .videoObject (parseVideoObject mem out d len) := by
  unfold parseVideoObject
  simp only [ok_bind, addToConfig_eq hu]
  exact .queued _ trivial trivial (addToRtpBuf_iov rfl)

/-- A visual object fits if its type can be read. -/
theorem parseVisualObject_result (hu : mem.bytes d len = .ok u) :
    UnitResult mem out d len .visualObject (parseVisualObject mem out d len) := by
  unfold parseVisualObject
  rcases getField_cases mem d 1 32 with ⟨hid, heq⟩ | ⟨hid, e, heq⟩
  swap
  · rw [heq]
    exact .fault e fun h => hid ((FrameMemory.readable_byte Nat.one_pos (by decide)).2 h.1)
  have hfirst : mem.CanRead (d + 4) := hid.first Nat.one_pos
  rw [heq, ok_bind, FrameMemory.field_one]
  dsimp only
  by_cases hset : mem.bit d 32 = 1
  · rw [if_pos (by omega)]
    rcases getField_cases mem d 4 40 with ⟨htype, heq⟩ | ⟨htype, e, heq⟩
    swap
    · rw [heq]
      exact .fault e fun h =>
        htype ((FrameMemory.readable_byte (by decide) (by decide)).2 (h.2 hset))
    simp only [heq, ok_bind, addToStartedConfig_eq hu]
    exact .queued _ ⟨hfirst, fun _ => htype.first (by decide)⟩ trivial (addToRtpBuf_iov rfl)
  · rw [if_neg fun h => hset (FrameMemory.bit_ne_zero.1 h)]
    have htype : mem.Readable d 4 33 :=
      (FrameMemory.readable_byte (by decide) (by decide)).2 hfirst
    simp only [getField_eq htype, ok_bind, addToStartedConfig_eq hu]
    exact .queued _ ⟨hfirst, fun h => absurd h hset⟩ trivial (addToRtpBuf_iov rfl)

/-- A video object layer fits if its header is complete. -/
theorem parseVideoObjectLayer_result (hu : mem.bytes d len = .ok u) :
    UnitResult mem out d len .videoObjectLayer (parseVideoObjectLayer mem out d len) := by
  have hresult := volFields_result mem out d
  unfold parseVideoObjectLayer
  generalize volFields mem out d = fields at hresult ⊢
  cases hresult with
  | fault e hnot => exact .fault e hnot
  | incomplete out₁ hreads hnot hframe _ => exact .dropped out₁ hreads hnot (by rw [hframe])
  | complete out₁ hreads hmarked hframe _ =>
    simp only [ok_bind, if_true, addToStartedConfig_eq hu]
    exact .queued _ hreads hmarked (addToRtpBuf_iov (by rw [hframe]))

/-- `parse_video_object_plane` in two parts. -/
theorem parseVideoObjectPlane_eq (mem : FrameMemory) (out : RtpMpeg4) (d len : ℕ) :
    parseVideoObjectPlane mem out d len = (do
      let out ← planeStart out
      if out.initDone then
        if ← vopFields mem d len out.vtirBitlen then return addToRtpBuf out d len
        else return out
      else return out) := by
  unfold parseVideoObjectPlane planeStart
  split_ifs
  · rfl
  · rfl

/-- A video object plane is queued if the stream is initialised behind what was collected, and the
marker is set. -/
theorem parseVideoObjectPlane_result :
    UnitResult mem out d len .videoObjectPlane (parseVideoObjectPlane mem out d len) := by
  rw [parseVideoObjectPlane_eq]
  rcases hstart : planeStart out with e | out₁
  · refine .fault e ?_
    rintro ⟨hfits, -⟩
    obtain ⟨out₁, hok⟩ := planeStart_fits hfits
    rw [hstart] at hok
    cases hok
  obtain ⟨hfits, -, -, hiov, hvtir, hdone⟩ := planeStart_ok hstart
  have hinit : out₁.initDone = true ↔ out.head.initDone = true ∨ out.head.config ≠ [] := by
    rw [hdone, Bool.or_eq_true, decide_eq_true_iff]
    rfl
  simp only [ok_bind]
  by_cases hgoes : out₁.initDone = true
  swap
  · rw [if_neg hgoes]
    rw [hinit] at hgoes
    exact .dropped out₁ ⟨hfits, fun h => absurd h hgoes⟩ (fun h => hgoes h.1) hiov
  rw [if_pos hgoes, hvtir]
  rw [hinit] at hgoes
  rcases vopFields_cases mem d len out.vtirBitlen with ⟨hreads, heq⟩ | ⟨hreads, e, heq⟩
  swap
  · rw [heq]
    exact .fault e fun h => hreads (h.2 hgoes)
  rw [heq, ok_bind]
  by_cases hset : mem.bit d (vopMarkerAt mem d len) = 1
  · rw [decide_eq_true hset]
    exact .queued _ ⟨hfits, fun _ => hreads⟩ ⟨hgoes, hset⟩ (addToRtpBuf_iov hiov)
  · rw [decide_eq_false hset]
    exact .dropped _ ⟨hfits, fun _ => hreads⟩ (fun h => hset h.2) hiov

/-- `parse_mpeg4_frame` without its value. -/
def parseUnit (mem : FrameMemory) (out : RtpMpeg4) (d len : ℕ) (kind : Mpeg4Unit) :
    Except Fault RtpMpeg4 :=
  match kind with
  | .visualObjectSequence => parseVisualObjectSequence mem out d len
  | .userData => parse1b2 mem out d len
  | .visualObject => parseVisualObject mem out d len
  | .videoObject => parseVideoObject mem out d len
  | .videoObjectLayer => parseVideoObjectLayer mem out d len
  | .videoObjectPlane => parseVideoObjectPlane mem out d len
  | .other => .ok out

/-- The function for the kind of the unit is called. -/
theorem parseMpeg4Frame_eq (mem : FrameMemory) (out : RtpMpeg4) (d len : ℕ) :
    parseMpeg4Frame mem out d len = (do
      let kind := mpeg4Unit (← mem.get32 d)
      return (← parseUnit mem out d len kind, if kind = .videoObjectPlane then 1 else 0)) := by
  unfold parseMpeg4Frame
  rcases mem.get32 d with e | code
  · rfl
  · simp only [ok_bind]
    cases mpeg4Unit code <;> rfl

/-- A unit whose start code is known. -/
theorem parseMpeg4Frame_ok {code : ℕ} {ret : ℤ} (hcode : mem.get32 d = .ok code)
    (h : parseMpeg4Frame mem out d len = .ok (out', ret)) :
    parseUnit mem out d len (mpeg4Unit code) = .ok out' := by
  rw [parseMpeg4Frame_eq, hcode, ok_bind] at h
  obtain ⟨out₁, hunit, h⟩ := bind_eq_ok.1 h
  obtain ⟨rfl, -⟩ := Prod.mk.inj (Except.ok.inj h)
  exact hunit

/-- A round of the loop of `mpeg4_process_frame`, for a unit whose end and start code are known. -/
theorem mpeg4Units_unit {length start n code : ℕ} (hstart : start < length)
    (hlen : unitLength mem length start = .ok len) (hcode : mem.get32 start = .ok code) :
    mpeg4Units mem length (n + 1) out start = (do
      let out ← parseUnit mem out start len (mpeg4Unit code)
      mpeg4Units mem length n out (start + len)) := by
  rw [mpeg4Units_succ out n hstart, hlen, ok_bind, parseMpeg4Frame_eq, hcode, ok_bind]
  show (parseUnit mem out start len (mpeg4Unit code) >>= _) >>= _ = _
  rcases parseUnit mem out start len (mpeg4Unit code) with e | out₁
  · rfl
  · rfl

/-- **What a unit comes to.** -/
theorem parseUnit_result (out : RtpMpeg4) (hu : mem.bytes d len = .ok u) (kind : Mpeg4Unit) :
    UnitResult mem out d len kind (parseUnit mem out d len kind) := by
  cases kind with
  | visualObjectSequence => exact parseVisualObjectSequence_result hu
  | userData => exact parse1b2_result hu
  | visualObject => exact parseVisualObject_result hu
  | videoObject => exact parseVideoObject_result hu
  | videoObjectLayer => exact parseVideoObjectLayer_result hu
  | videoObjectPlane => exact parseVideoObjectPlane_result
  | other => exact .dropped out trivial id rfl

/-- **What a unit changes of what is collected.**

**Proof sketch.** By the kind of the unit. Each parse function adds the unit to `config`, by
`addToConfig_eq` and `addToStartedConfig_eq`; a video object layer does so behind its fields, of which
`volFields_result` says what they set, and a video object plane starts with `planeStart`. -/
theorem parseUnit_collects (hu : mem.bytes d len = .ok u) {kind : Mpeg4Unit}
    (h : parseUnit mem out d len kind = .ok out') : out'.head = out.head.after mem d kind u := by
  cases kind with
  | visualObjectSequence =>
    obtain ⟨b, hb, h⟩ := bind_eq_ok.1 h
    rw [addToConfig_eq hu] at h
    obtain rfl := Except.ok.inj h
    simp [RtpMpeg4.head, Mpeg4Head.after, configAfter, paliAfter, vtirAfter,
      FrameMemory.byteAt_eq hb]
  | userData =>
    simp only [parseUnit, parse1b2, addToStartedConfig_eq hu, ok_bind] at h
    obtain rfl := Except.ok.inj h
    simp [RtpMpeg4.head, Mpeg4Head.after, configAfter, paliAfter, vtirAfter]
  | visualObject =>
    obtain ⟨⟨v, off⟩, -, h⟩ := bind_eq_ok.1 h
    obtain ⟨w, -, h⟩ := bind_eq_ok.1 h
    rw [addToStartedConfig_eq hu] at h
    obtain rfl := Except.ok.inj h
    simp [RtpMpeg4.head, Mpeg4Head.after, configAfter, paliAfter, vtirAfter]
  | videoObject =>
    simp only [parseUnit, parseVideoObject, addToConfig_eq hu, ok_bind] at h
    obtain rfl := Except.ok.inj h
    simp [RtpMpeg4.head, Mpeg4Head.after, configAfter, paliAfter, vtirAfter]
  | videoObjectLayer =>
    have hresult := volFields_result mem out d
    obtain ⟨⟨out₁, goesOn⟩, hfields, h⟩ := bind_eq_ok.1 h
    rw [hfields] at hresult
    cases hresult with
    | incomplete _ _ hnot hframe hvtir =>
      obtain rfl := Except.ok.inj h
      simp only [RtpMpeg4.head, Mpeg4Head.after, hvtir]
      rw [hframe]
      simp [configAfter, paliAfter, VolComplete, hnot]
    | complete _ hreads hmarked hframe hvtir =>
      simp only [if_true, addToStartedConfig_eq hu, ok_bind] at h
      obtain rfl := Except.ok.inj h
      rw [addToRtpBuf_head]
      simp only [RtpMpeg4.head, Mpeg4Head.after, hvtir]
      rw [hframe]
      simp [configAfter, paliAfter, VolComplete, hreads, hmarked]
  | videoObjectPlane =>
    rw [parseUnit, parseVideoObjectPlane_eq] at h
    obtain ⟨out₁, hstart, h⟩ := bind_eq_ok.1 h
    obtain ⟨-, hconfig, hpali, -, hvtir, hdone⟩ := planeStart_ok hstart
    have hhead : out₁.head = out.head.after mem d .videoObjectPlane u := by
      simp [RtpMpeg4.head, Mpeg4Head.after, configAfter, paliAfter, vtirAfter, hconfig, hpali,
        hvtir, hdone]
    split_ifs at h
    · obtain ⟨goesOn, -, h⟩ := bind_eq_ok.1 h
      cases goesOn with
      | false =>
        obtain rfl := Except.ok.inj h
        exact hhead
      | true =>
        obtain rfl := Except.ok.inj h
        rw [addToRtpBuf_head, hhead]
    · obtain rfl := Except.ok.inj h
      exact hhead
  | other =>
    obtain rfl := Except.ok.inj h
    simp [RtpMpeg4.head, Mpeg4Head.after, configAfter, paliAfter, vtirAfter]

/-- A stream that is initialised stays so. -/
theorem parseUnit_initDone (hu : mem.bytes d len = .ok u) {kind : Mpeg4Unit}
    (hinit : out.initDone = true) (h : parseUnit mem out d len kind = .ok out') :
    out'.initDone = true := by
  have hdone := congrArg Mpeg4Head.initDone (parseUnit_collects hu h)
  simp only [RtpMpeg4.head, Mpeg4Head.after, hinit, Bool.true_or] at hdone
  exact hdone

end Results

end Spook
