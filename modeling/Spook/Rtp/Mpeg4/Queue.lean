import Spook.Rtp.Mpeg4.Units

set_option relaxedAutoImplicit false
set_option autoImplicit false

/-!
# Queuing MPEG-4

The elements that `mpeg4_process_frame` queues of a frame that is a sequence of units. A unit that is
not queued is missing, as the lengths of the elements show.

## Main definitions

* `Spook.unitBytes`, `unitsBytes` — units behind their start codes.
* `Spook.QueuedWhole` — the elements make up the frame.
* `Spook.UnitsFit` — units that are all queued when there is room.

## Main results

* `Spook.mpeg4ProcessFrame_ready` — a frame is always reported as ready.
* `Spook.queuedWhole_iff` — the frames that are queued whole.
-/

namespace Spook

/-- A unit: the last byte of its start code, and what is behind it. -/
abbrev CodedUnit := UInt8 × Bytes

/-- The bytes of a unit. -/
def unitBytes (u : CodedUnit) : Bytes := [0, 0, 1, u.1] ++ u.2

/-- The bytes of units one behind the other. -/
def unitsBytes (us : List CodedUnit) : Bytes := us.flatMap unitBytes

/-- The kind of a unit. -/
def unitKind (u : CodedUnit) : Mpeg4Unit := mpeg4Unit (0x100 + u.1.toNat)

/-- The elements make up the frame, which is reported as ready. -/
def QueuedWhole (mem : FrameMemory) (f : MediaFrame) (out : RtpMpeg4) : Prop :=
  ∃ out', mpeg4ProcessFrame mem f out = .ok (out', 1) ∧
    out'.iov.flatMap (Mpeg4Element.bytes f) = f.d

/-- The units `us`, of which the first is at `d`, all fit, with `h` collected before them. -/
def UnitsFit (mem : FrameMemory) (h : Mpeg4Head) (d : ℕ) : List CodedUnit → Prop
  | [] => True
  | u :: us => UnitFits mem d (unitBytes u).length (unitKind u) h ∧
    UnitsFit mem (h.after mem d (unitKind u) (unitBytes u)) (d + (unitBytes u).length) us

/-- Whether units fit is found out from the first to the last. -/
def decideUnitsFit (mem : FrameMemory) :
    (h : Mpeg4Head) → (d : ℕ) → (us : List CodedUnit) → Decidable (UnitsFit mem h d us)
  | _, _, [] => isTrue trivial
  | h, d, u :: us =>
    @instDecidableAnd _ _ (decidableUnitFits mem d (unitBytes u).length (unitKind u) h)
      (decideUnitsFit mem (h.after mem d (unitKind u) (unitBytes u)) (d + (unitBytes u).length) us)

instance decidableUnitsFit (mem : FrameMemory) (h : Mpeg4Head) (d : ℕ) (us : List CodedUnit) :
    Decidable (UnitsFit mem h d us) := decideUnitsFit mem h d us

/-- The number of bytes of some elements. -/
def queuedLength (iov : List Mpeg4Element) : ℕ := (iov.map Mpeg4Element.len).sum

/-- The elements of the units `us`, of which the first is at `d`. -/
def unitElements (d : ℕ) : List CodedUnit → List Mpeg4Element
  | [] => []
  | u :: us => ⟨d, (unitBytes u).length⟩ :: unitElements (d + (unitBytes u).length) us

section Elements

variable {mem : FrameMemory} {f : MediaFrame} {out out' : RtpMpeg4} {u : CodedUnit}
  {us : List CodedUnit} {pre : Bytes} {d len n : ℕ} {ret : ℤ}

/-- The elements of units are the bytes of the units. -/
theorem unitElements_bytes (pre : Bytes) (hf : f.d = pre ++ unitsBytes us) :
    (unitElements pre.length us).flatMap (Mpeg4Element.bytes f) = unitsBytes us := by
  induction us generalizing pre with
  | nil => rfl
  | cons u us ih =>
    have hsplit : unitsBytes (u :: us) = unitBytes u ++ unitsBytes us := List.flatMap_cons
    rw [hsplit] at hf ⊢
    have hrest := ih (pre ++ unitBytes u) (by rw [hf, List.append_assoc])
    rw [List.length_append] at hrest
    rw [unitElements, List.flatMap_cons, hrest, Mpeg4Element.bytes, hf, List.drop_left,
      List.take_left]

/-- No element has more bytes than its length. -/
theorem length_flatMap_le (iov : List Mpeg4Element) :
    (iov.flatMap (Mpeg4Element.bytes f)).length ≤ queuedLength iov := by
  induction iov with
  | nil => exact Nat.le_refl _
  | cons e iov ih =>
    rw [List.flatMap_cons, List.length_append, queuedLength, List.map_cons, List.sum_cons]
    have helem : (e.bytes f).length ≤ e.len := List.length_take_le _ _
    exact Nat.add_le_add helem ih

/-- The start code of a unit. -/
theorem get32_unit (hmem : mem.Holds f) (hf : f.d = pre ++ (unitBytes u ++ unitsBytes us)) :
    mem.get32 pre.length = .ok (0x100 + u.1.toNat) := by
  have hread : ∀ j b, (unitBytes u)[j]? = some b → mem (pre.length + j) = .ok b := by
    intro j b hb
    apply hmem
    rw [hf, List.getElem?_append_right (Nat.le_add_right _ _), Nat.add_sub_cancel_left]
    exact List.getElem?_append_left (List.getElem?_eq_some_iff.1 hb).1 ▸ hb
  have h₀ : mem pre.length = .ok 0 := hread 0 0 rfl
  have h₁ := hread 1 0 rfl
  have h₂ := hread 2 1 rfl
  have h₃ := hread 3 u.1 rfl
  simp [FrameMemory.get32, FrameMemory.get16, h₀, h₁, h₂, h₃, Nat.add_assoc, pure, Except.pure]

/-- A unit that is followed by units is parsed first. -/
theorem mpeg4Units_cons (hmem : mem.Holds f) (hf : f.d = pre ++ (unitBytes u ++ unitsBytes us))
    (hu : ¬ HasStartCode (u.1 :: u.2)) (out : RtpMpeg4) (n : ℕ) :
    mpeg4Units mem f.d.length (n + 1) out pre.length = (do
      let out ← parseUnit mem out pre.length (unitBytes u).length (unitKind u)
      mpeg4Units mem f.d.length n out (pre ++ unitBytes u).length) := by
  have hne : unitBytes u ≠ [] := by simp [unitBytes]
  have hinside : ¬ HasStartCode ((unitBytes u).drop 1) := by
    simpa [HasStartCode, unitBytes, List.infix_cons_iff] using hu
  have hrest : unitsBytes us = [] ∨ [0, 0, 1] <+: unitsBytes us := by
    cases us with
    | nil => exact .inl rfl
    | cons v us => exact .inr ⟨v.1 :: v.2 ++ unitsBytes us, by simp [unitsBytes, unitBytes]⟩
  have hlt : pre.length < f.d.length := by
    rw [hf, List.length_append, List.length_append]
    have := List.length_pos_of_ne_nil hne
    omega
  rw [mpeg4Units_unit hlt (unitLength_next hmem hf hne hinside hrest) (get32_unit hmem hf),
    List.length_append]
  rfl

/-- Behind the last unit the loop ends. -/
theorem mpeg4Units_nil (hf : f.d = pre) (out : RtpMpeg4) (n : ℕ) :
    mpeg4Units mem f.d.length (n + 1) out pre.length = .ok out := by
  rw [mpeg4Units, hf, if_neg (Nat.lt_irrefl _)]

/-- The bytes of a unit can be read. -/
theorem bytes_unit (hmem : mem.Holds f) (hf : f.d = pre ++ (unitBytes u ++ unitsBytes us)) :
    mem.bytes pre.length (unitBytes u).length = .ok (unitBytes u) := by
  rw [hmem.bytes]
  · rw [hf, List.drop_left, List.take_left]
  · simp [hf]

/-- An element more, if there is room. -/
theorem addToRtpBuf_iov_eq (hle : out.iov.length ≤ 24) : (addToRtpBuf out d len).iov =
    if out.iov.length < 24 then out.iov ++ [⟨d, len⟩] else out.iov := by
  unfold addToRtpBuf
  by_cases hfull : out.iov.length = 24
  · rw [if_pos hfull, if_neg (by omega)]
  · rw [if_neg hfull, if_pos (by omega)]

/-- **The elements of a frame.** No more bytes are queued than the units have, and as many only if
all units fit and there is room for them.

**Proof sketch.** By induction on the units. A unit that is dropped adds nothing, so that the bytes
cannot be as many any more. One that is queued adds its bytes if there is an entry left, and then
the rest must be complete as well. -/
theorem mpeg4Units_queued (pre : Bytes) (hmem : mem.Holds f) (hf : f.d = pre ++ unitsBytes us)
    (hcodes : ∀ u ∈ us, ¬ HasStartCode (u.1 :: u.2)) (hinit : out.initDone = true)
    (hle : out.iov.length ≤ 24) (h : mpeg4Units mem f.d.length n out pre.length = .ok out') :
    out'.initDone = true ∧
      queuedLength out'.iov ≤ queuedLength out.iov + (unitsBytes us).length ∧
      (queuedLength out'.iov = queuedLength out.iov + (unitsBytes us).length →
        UnitsFit mem out.head pre.length us ∧ out.iov.length + us.length ≤ 24) := by
  induction us generalizing pre out n with
  | nil =>
    cases n with
    | zero => cases h
    | succ n =>
      rw [mpeg4Units_nil (by simpa [unitsBytes] using hf)] at h
      obtain rfl := Except.ok.inj h
      exact ⟨hinit, Nat.le_add_right _ _, fun _ => ⟨trivial, hle⟩⟩
  | cons u us ih =>
    cases n with
    | zero => cases h
    | succ n =>
      have hsplit : unitsBytes (u :: us) = unitBytes u ++ unitsBytes us := List.flatMap_cons
      rw [hsplit] at hf ⊢
      have hpos : 0 < (unitBytes u).length := by simp [unitBytes]
      have hu := hcodes u List.mem_cons_self
      have hus : ∀ v ∈ us, ¬ HasStartCode (v.1 :: v.2) := fun v hv => hcodes v (List.mem_cons_of_mem _ hv)
      have hf' : f.d = (pre ++ unitBytes u) ++ unitsBytes us := by rw [hf, List.append_assoc]
      have hresult := parseUnit_result out (bytes_unit hmem hf) (unitKind u)
      rw [mpeg4Units_cons hmem hf hu] at h
      obtain ⟨out₁, hunit, h⟩ := bind_eq_ok.1 h
      rw [hunit] at hresult
      have hdone := parseUnit_initDone (bytes_unit hmem hf) hinit hunit
      have hhead := parseUnit_collects (bytes_unit hmem hf) hunit
      cases hresult with
      | dropped _ _ _ hiov =>
        obtain ⟨hdone', hle', -⟩ := ih (pre ++ unitBytes u) hf' hus hdone (hiov ▸ hle) h
        rw [hiov] at hle'
        refine ⟨hdone', ?_, fun heq => ?_⟩
        · rw [List.length_append]
          omega
        · rw [List.length_append] at heq
          omega
      | queued _ hruns hmarked hiov =>
        rw [addToRtpBuf_iov_eq hle] at hiov
        by_cases hroom : out.iov.length < 24
        · rw [if_pos hroom] at hiov
          have hcount : out₁.iov.length = out.iov.length + 1 := by simp [hiov]
          have hqueued : queuedLength out₁.iov = queuedLength out.iov + (unitBytes u).length := by
            simp [hiov, queuedLength]
          obtain ⟨hdone', hle', hall⟩ := ih (pre ++ unitBytes u) hf' hus hdone (by omega) h
          rw [hqueued] at hle' hall
          refine ⟨hdone', ?_, fun heq => ?_⟩
          · rw [List.length_append]
            omega
          · rw [List.length_append] at heq
            obtain ⟨hrest, hroom'⟩ := hall (by omega)
            rw [hhead, List.length_append] at hrest
            refine ⟨⟨⟨hruns, hmarked⟩, hrest⟩, ?_⟩
            rw [List.length_cons]
            omega
        · rw [if_neg hroom] at hiov
          obtain ⟨hdone', hle', -⟩ := ih (pre ++ unitBytes u) hf' hus hdone (hiov ▸ hle) h
          rw [hiov] at hle'
          refine ⟨hdone', ?_, fun heq => ?_⟩
          · rw [List.length_append]
            omega
          · rw [List.length_append] at heq
            omega

/-- Units that all fit are queued. -/
theorem mpeg4Units_fit (pre : Bytes) (hmem : mem.Holds f) (hf : f.d = pre ++ unitsBytes us)
    (hcodes : ∀ u ∈ us, ¬ HasStartCode (u.1 :: u.2)) (hinit : out.initDone = true)
    (hfit : UnitsFit mem out.head pre.length us) (hroom : out.iov.length + us.length ≤ 24)
    (hn : us.length < n) :
    ∃ out', mpeg4Units mem f.d.length n out pre.length = .ok out' ∧ out'.initDone = true ∧
      out'.iov = out.iov ++ unitElements pre.length us := by
  induction us generalizing pre out n with
  | nil =>
    cases n with
    | zero => cases hn
    | succ n =>
      rw [mpeg4Units_nil (by simpa [unitsBytes] using hf)]
      exact ⟨out, rfl, hinit, (List.append_nil _).symm⟩
  | cons u us ih =>
    cases n with
    | zero => cases hn
    | succ n =>
      have hsplit : unitsBytes (u :: us) = unitBytes u ++ unitsBytes us := List.flatMap_cons
      rw [hsplit] at hf
      rw [List.length_cons] at hroom hn
      have hu := hcodes u List.mem_cons_self
      have hus : ∀ v ∈ us, ¬ HasStartCode (v.1 :: v.2) := fun v hv => hcodes v (List.mem_cons_of_mem _ hv)
      have hf' : f.d = (pre ++ unitBytes u) ++ unitsBytes us := by rw [hf, List.append_assoc]
      have hresult := parseUnit_result out (bytes_unit hmem hf) (unitKind u)
      rw [mpeg4Units_cons hmem hf hu]
      obtain ⟨hfits, hrest⟩ := hfit
      generalize hunit : parseUnit mem out pre.length (unitBytes u).length (unitKind u) = result
        at hresult ⊢
      cases hresult with
      | fault _ hnot => exact absurd hfits.1 hnot
      | dropped _ _ hnot _ => exact absurd hfits.2 hnot
      | queued out₁ _ _ hiov =>
        have hdone := parseUnit_initDone (bytes_unit hmem hf) hinit hunit
        have hhead := parseUnit_collects (bytes_unit hmem hf) hunit
        rw [addToRtpBuf_iov_eq (by omega), if_pos (by omega)] at hiov
        rw [← hhead, ← List.length_append] at hrest
        have hroom' : out₁.iov.length + us.length ≤ 24 := by
          rw [hiov, List.length_append, List.length_singleton]
          omega
        obtain ⟨out', hok, hdone', hiov'⟩ :=
          ih (n := n) (pre ++ unitBytes u) hf' hus hdone hrest hroom' (by omega)
        refine ⟨out', hok, hdone', ?_⟩
        rw [hiov', hiov, unitElements, List.length_append, List.append_assoc]
        rfl

/-- A frame is always reported as ready. -/
theorem mpeg4ProcessFrame_ready (hmem : mem.Holds f) (hf : f.d = unitsBytes us)
    (hcodes : ∀ u ∈ us, ¬ HasStartCode (u.1 :: u.2)) (hinit : out.initDone = true)
    (h : mpeg4ProcessFrame mem f out = .ok (out', ret)) : ret = 1 := by
  obtain ⟨out₁, hunits, h⟩ := bind_eq_ok.1 h
  obtain ⟨rfl, rfl⟩ := Prod.mk.inj (Except.ok.inj h)
  have hinit' : (out.newFrame f).initDone = true := hinit
  obtain ⟨hdone, -⟩ := mpeg4Units_queued [] hmem hf hcodes hinit' (Nat.zero_le _) hunits
  rw [if_pos hdone]

/-- There are no more units than bytes. -/
theorem length_le_unitsBytes (us : List CodedUnit) : us.length ≤ (unitsBytes us).length := by
  induction us with
  | nil => exact Nat.le_refl _
  | cons u us ih =>
    have hpos : 0 < (unitBytes u).length := by simp [unitBytes]
    rw [unitsBytes, List.flatMap_cons, List.length_append, ← unitsBytes, List.length_cons]
    omega

end Elements

/-- **MPEG-4 frames.** Once the stream is initialised, the elements of a frame that is a sequence of
units make up the frame exactly if there are at most 24 units and all of them fit. -/
theorem queuedWhole_iff {mem : FrameMemory} {f : MediaFrame} {us : List CodedUnit}
    (hmem : mem.Holds f) (hf : f.d = unitsBytes us)
    (hcodes : ∀ u ∈ us, ¬ HasStartCode (u.1 :: u.2)) {out : RtpMpeg4} (hinit : out.initDone = true) :
    QueuedWhole mem f out ↔ us.length ≤ 24 ∧ UnitsFit mem out.head 0 us := by
  have hinit' : (out.newFrame f).initDone = true := hinit
  constructor
  · rintro ⟨out', hok, hwhole⟩
    obtain ⟨out₁, hunits, hok⟩ := bind_eq_ok.1 hok
    obtain ⟨rfl, -⟩ := Prod.mk.inj (Except.ok.inj hok)
    obtain ⟨-, hle, hall⟩ := mpeg4Units_queued [] hmem hf hcodes hinit' (Nat.zero_le _) hunits
    have hlen := length_flatMap_le (f := f) out₁.iov
    rw [hwhole, hf] at hlen
    have hnone : queuedLength (out.newFrame f).iov = 0 := rfl
    rw [hnone, Nat.zero_add] at hle hall
    obtain ⟨hfit, hroom⟩ := hall (Nat.le_antisymm hle hlen)
    have hroom' : 0 + us.length ≤ 24 := hroom
    exact ⟨by omega, hfit⟩
  · rintro ⟨hroom, hfit⟩
    have hn : us.length < f.d.length + 1 := by
      rw [hf]
      exact Nat.lt_succ_of_le (length_le_unitsBytes us)
    have hroom' : (out.newFrame f).iov.length + us.length ≤ 24 := by
      rw [RtpMpeg4.newFrame, List.length_nil, Nat.zero_add]
      exact hroom
    obtain ⟨out', hunits, hdone, hiov⟩ :=
      mpeg4Units_fit [] hmem hf hcodes hinit' hfit hroom' hn
    refine ⟨out', ?_, ?_⟩
    · have hunits' : mpeg4Units mem f.d.length (f.d.length + 1)
          { out with iov := [], timestamp := f.timestamp } 0 = .ok out' := hunits
      simp only [mpeg4ProcessFrame, hunits', ok_bind, hdone, if_true]
      rfl
    · have hiov' : out'.iov = unitElements 0 us := hiov
      rw [hiov']
      exact (unitElements_bytes [] hf).trans hf.symm

/-- A stream that is initialised, with nothing collected. -/
def rtpMpeg4Started : RtpMpeg4 where
  iov := []
  config := []
  pali := 1
  fmtp := []
  initDone := true
  tsIncr := 0
  vopTimeIncrementResolution := 25
  vopTimeIncrement := 0
  vtirBitlen := 5
  timestamp := 0

/-- A video object plane with its marker. -/
def planeUnit : CodedUnit := (0xB6, [0x10, 0x40])

/-- A video object layer with both markers, a resolution of 25 and a fixed increment of 1. -/
def layerUnit : CodedUnit := (0x20, [0, 0x84, 0x40, 0x06, 0x70, 0x80])

/-- The frame of some units. -/
def unitsFrame (us : List CodedUnit) : MediaFrame := ⟨unitsBytes us, 0⟩

/-- A frame of a video object layer, user data and a video object plane is queued whole. -/
theorem queuedWhole_iff_plane :
    QueuedWhole (unitsFrame [layerUnit, (0xB2, [1]), planeUnit]).byte
      (unitsFrame [layerUnit, (0xB2, [1]), planeUnit]) rtpMpeg4Started := by
  have hcodes : ∀ u ∈ [layerUnit, (0xB2, [1]), planeUnit], ¬ HasStartCode (u.1 :: u.2) := by
    unfold HasStartCode
    decide
  have hfit : UnitsFit (unitsFrame [layerUnit, (0xB2, [1]), planeUnit]).byte rtpMpeg4Started.head 0
      [layerUnit, (0xB2, [1]), planeUnit] := by
    decide +kernel
  exact (queuedWhole_iff (MediaFrame.holds_byte _) rfl hcodes rfl).2 ⟨by decide, hfit⟩

/-- A group of video object planes is dropped, and the frame is ready. -/
theorem queuedWhole_group :
    ¬ ∀ (mem : FrameMemory) (f : MediaFrame) (us : List CodedUnit) (out : RtpMpeg4), mem.Holds f →
      f.d = unitsBytes us → (∀ u ∈ us, ¬ HasStartCode (u.1 :: u.2)) →
      (∀ u ∈ us, unitKind u ≠ .other ∨ u.1 = 0xB3) →
      (∃ u, us.getLast? = some u ∧ unitKind u = .videoObjectPlane) → out.initDone = true →
      QueuedWhole mem f out := by
  intro h
  have hcodes : ∀ u ∈ [((0xB3, [1]) : CodedUnit), planeUnit], ¬ HasStartCode (u.1 :: u.2) := by
    unfold HasStartCode
    decide
  obtain ⟨out', hok, hwhole⟩ := h (MediaFrame.byte ⟨unitsBytes [(0xB3, [1]), planeUnit], 0⟩)
    ⟨unitsBytes [(0xB3, [1]), planeUnit], 0⟩ [(0xB3, [1]), planeUnit] rtpMpeg4Started
    (MediaFrame.holds_byte _) rfl hcodes (by decide) ⟨planeUnit, rfl, by decide⟩ rfl
  have hout : mpeg4ProcessFrame (MediaFrame.byte ⟨unitsBytes [(0xB3, [1]), planeUnit], 0⟩)
      ⟨unitsBytes [(0xB3, [1]), planeUnit], 0⟩ rtpMpeg4Started =
      .ok ({ rtpMpeg4Started with iov := [⟨5, 6⟩] }, 1) := by
    decide +kernel
  obtain ⟨rfl, -⟩ := Prod.mk.inj (Except.ok.inj (hok.symm.trans hout))
  have hlen := congrArg List.length hwhole
  revert hlen
  decide

end Spook
