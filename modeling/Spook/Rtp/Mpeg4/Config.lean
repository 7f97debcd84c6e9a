import Spook.Rtp.Mpeg4.Units

set_option relaxedAutoImplicit false
set_option autoImplicit false

/-!
# The configuration of MPEG-4

What `finish_config` prints, in every stream of frames. The units that describe the stream are
collected in 512 bytes and printed into 600, two digits for a byte.

## Main definitions

* `Spook.Mpeg4At` — how a stream of frames gets to a unit.
* `Spook.configUnits` — the units with configuration since the last video object plane.
* `Spook.FinishedWell` — a call of `finish_config` that prints some bytes.
* `Spook.ConfigWell` — units that are collected and fit.

## Main results

* `Spook.Mpeg4At.processFrame` — a frame is a sequence of units.
* `Spook.finishedWell_iff` — the calls of `finish_config` that print the units.
-/

namespace Spook

/-! ## Streams of units -/

/-- A unit that was given to `parse_mpeg4_frame`: where it is, its kind and its bytes. -/
structure ReceivedUnit where
  mem : FrameMemory
  start : ℕ
  kind : Mpeg4Unit
  bytes : Bytes

/-- A stream of frames got to the index `start` of the frame `f`, in the state `out`, behind the units
`seen`, the latest first. -/
inductive Mpeg4At (left : RtpMpeg4) :
    List ReceivedUnit → FrameMemory → MediaFrame → ℕ → RtpMpeg4 → Prop
  | first {mem : FrameMemory} {f : MediaFrame} : mem.Holds f →
      Mpeg4At left [] mem f 0 ((newRtpMediaMpeg4 left).newFrame f)
  | unit {seen : List ReceivedUnit} {mem : FrameMemory} {f : MediaFrame} {start len code : ℕ}
      {out out' : RtpMpeg4} {ret : ℤ} : Mpeg4At left seen mem f start out → start < f.d.length →
      unitLength mem f.d.length start = .ok len → mem.get32 start = .ok code →
      parseMpeg4Frame mem out start len = .ok (out', ret) →
      Mpeg4At left (⟨mem, start, mpeg4Unit code, (f.d.drop start).take len⟩ :: seen) mem f
        (start + len) out'
  | frame {seen : List ReceivedUnit} {mem mem' : FrameMemory} {f f' : MediaFrame} {start : ℕ}
      {out : RtpMpeg4} : Mpeg4At left seen mem f start out → ¬ start < f.d.length → mem'.Holds f' →
      Mpeg4At left seen mem' f' 0 (out.newFrame f')

section Streams

variable {left out out' : RtpMpeg4} {seen : List ReceivedUnit} {mem : FrameMemory} {f : MediaFrame}
  {length start len n : ℕ} {ret : ℤ}

/-- The loop of `mpeg4_process_frame` goes from unit to unit. -/
theorem Mpeg4At.units (hat : Mpeg4At left seen mem f start out)
    (h : mpeg4Units mem f.d.length n out start = .ok out') :
    ∃ seen' start', Mpeg4At left (seen' ++ seen) mem f start' out' ∧ ¬ start' < f.d.length := by
  induction n generalizing seen start out with
  | zero => cases h
  | succ n ih =>
    by_cases hstart : start < f.d.length
    · rw [mpeg4Units_succ out n hstart] at h
      obtain ⟨len, hlen, h⟩ := bind_eq_ok.1 h
      obtain ⟨⟨out₁, ret⟩, hparse, h⟩ := bind_eq_ok.1 h
      have hcode := hparse
      rw [parseMpeg4Frame_eq] at hcode
      obtain ⟨code, hcode, -⟩ := bind_eq_ok.1 hcode
      obtain ⟨seen', start', hat', hend⟩ := ih (hat.unit hstart hlen hcode hparse) h
      exact ⟨seen' ++ [_], start', by simpa using hat', hend⟩
    · rw [mpeg4Units, if_neg hstart] at h
      obtain rfl := Except.ok.inj h
      exact ⟨[], start, hat, hstart⟩

/-- A frame of a stream is a sequence of units. -/
theorem Mpeg4At.processFrame (hat : Mpeg4At left seen mem f 0 (out.newFrame f))
    (h : mpeg4ProcessFrame mem f out = .ok (out', ret)) :
    ∃ seen' start, Mpeg4At left (seen' ++ seen) mem f start out' ∧ ¬ start < f.d.length := by
  obtain ⟨out₁, hunits, h⟩ := bind_eq_ok.1 h
  obtain ⟨rfl, -⟩ := Prod.mk.inj (Except.ok.inj h)
  exact hat.units hunits

/-- The frame is in its memory. -/
theorem Mpeg4At.holds (hat : Mpeg4At left seen mem f start out) : mem.Holds f := by
  induction hat with
  | first hmem => exact hmem
  | unit _ _ _ _ _ ih => exact ih
  | frame _ _ hmem _ => exact hmem

end Streams

/-! ## What is collected -/

section Collected

/-- `config` behind some units, the latest first. -/
def collected : List ReceivedUnit → Bytes
  | [] => []
  | u :: seen => configAfter u.mem u.start u.kind (collected seen) u.bytes

/-- `pali` behind some units, the latest first. -/
def collectedPali : List ReceivedUnit → ℕ
  | [] => 0
  | u :: seen => paliAfter u.mem u.start u.kind (collectedPali seen)

/-- Whether a unit describes the stream. -/
def Mpeg4Unit.isConfig (kind : Mpeg4Unit) : Bool :=
  kind ≠ .videoObjectPlane ∧ kind ≠ .other

/-- The units with configuration since the last video object plane, in order; `seen` has the latest
first. -/
def configUnits (seen : List ReceivedUnit) : List ReceivedUnit :=
  ((seen.takeWhile fun u => u.kind ≠ .videoObjectPlane).filter fun u => u.kind.isConfig).reverse

/-- The bytes of these units. -/
def configBytes (seen : List ReceivedUnit) : Bytes :=
  ((configUnits seen).map ReceivedUnit.bytes).flatten

variable {left out : RtpMpeg4} {seen : List ReceivedUnit} {mem : FrameMemory} {f : MediaFrame}
  {start : ℕ} {u : ReceivedUnit}

/-- What is collected is stored. -/
theorem Mpeg4At.collects (hat : Mpeg4At left seen mem f start out) :
    out.config = collected seen ∧ out.pali = collectedPali seen ∧ ∀ u ∈ seen, u.bytes ≠ [] := by
  induction hat with
  | first _ => exact ⟨rfl, rfl, by simp⟩
  | @unit seen mem f start len code out out' ret hat hstart hlen hcode hparse ih =>
    obtain ⟨hconfig, hpali, hbytes⟩ := ih
    obtain ⟨hpos, hin⟩ := unitLength_bounds hstart hlen
    have hhead := parseUnit_collects (hat.holds.bytes hin) (parseMpeg4Frame_ok hcode hparse)
    have hconfig' := congrArg Mpeg4Head.config hhead
    have hpali' := congrArg Mpeg4Head.pali hhead
    simp only [RtpMpeg4.head, Mpeg4Head.after, hconfig, hpali] at hconfig' hpali'
    refine ⟨hconfig', hpali', fun u hu => ?_⟩
    rcases List.mem_cons.1 hu with rfl | hu
    · apply List.ne_nil_of_length_pos
      rw [List.length_take, List.length_drop]
      omega
    · exact hbytes u hu
  | frame _ _ _ ih => exact ih

/-- A VOP ends the configuration. -/
theorem configUnits_plane (h : u.kind = .videoObjectPlane) : configUnits (u :: seen) = [] := by
  simp [configUnits, h]

/-- A unit of another kind is not part of it. -/
theorem configUnits_other (h : u.kind = .other) : configUnits (u :: seen) = configUnits seen := by
  simp [configUnits, h, Mpeg4Unit.isConfig]

/-- A configuration unit goes behind those before it. -/
theorem configUnits_config (h : u.kind.isConfig = true) :
    configUnits (u :: seen) = configUnits seen ++ [u] := by
  have hne : u.kind ≠ .videoObjectPlane := by
    intro hplane
    rw [hplane] at h
    cases h
  simp [configUnits, h, hne]

/-- So do its bytes. -/
theorem configBytes_config (h : u.kind.isConfig = true) :
    configBytes (u :: seen) = configBytes seen ++ u.bytes := by
  simp [configBytes, configUnits_config h]

/-- A unit that is added where what is collected is no more than `bytes`. -/
theorem configAdd_eq_iff {config bytes u : Bytes} (hlen : config.length ≤ bytes.length) (hu : u ≠ []) :
    configAdd config u = bytes ++ u ↔ config = bytes ∧ (bytes ++ u).length ≤ configSize := by
  have hpos := List.length_pos_of_ne_nil hu
  unfold configAdd
  constructor
  · intro h
    split_ifs at h with hfull
    · -- A unit that is refused is missing.
      have := congrArg List.length h
      rw [List.length_append] at this
      omega
    · obtain rfl := List.append_cancel_right h
      rw [List.length_append]
      exact ⟨rfl, Nat.not_lt.1 hfull⟩
  · rintro ⟨rfl, hfits⟩
    rw [List.length_append] at hfits
    rw [if_neg (Nat.not_lt.2 hfits)]

/-- A unit goes into a buffer that has been started exactly if there is room for it. -/
theorem configAddStarted_eq_iff {config bytes u : Bytes} (hlen : config.length ≤ bytes.length)
    (hu : u ≠ []) :
    configAddStarted config u = bytes ++ u ↔
      config ≠ [] ∧ config = bytes ∧ (bytes ++ u).length ≤ configSize := by
  unfold configAddStarted
  by_cases hnil : config = []
  · rw [if_pos hnil]
    refine iff_of_false (fun h => ?_) fun h => h.1 hnil
    exact hu (List.append_eq_nil_iff.1 h.symm).2
  · rw [if_neg hnil, configAdd_eq_iff hlen hu]
    simp [hnil]

/-- The buffer grows by the unit, or not at all. -/
theorem length_configAdd_le (config u : Bytes) :
    (configAdd config u).length ≤ config.length + u.length := by
  unfold configAdd
  split_ifs
  · omega
  · rw [List.length_append]

/-- The buffer grows by the unit, or not at all. -/
theorem length_configAddStarted_le (config u : Bytes) :
    (configAddStarted config u).length ≤ config.length + u.length := by
  unfold configAddStarted
  split_ifs
  · exact Nat.zero_le _
  · exact length_configAdd_le config u

/-- A unit with configuration adds no more than its bytes. -/
theorem length_configAfter_le (mem : FrameMemory) (d : ℕ) (kind : Mpeg4Unit) (config u : Bytes) :
    (configAfter mem d kind config u).length ≤ config.length + u.length := by
  cases kind with
  | visualObjectSequence => exact length_configAdd_le config u
  | userData => exact length_configAddStarted_le config u
  | visualObject => exact length_configAddStarted_le config u
  | videoObject => exact length_configAdd_le config u
  | videoObjectLayer =>
    simp only [configAfter]
    split_ifs
    · exact length_configAddStarted_le config u
    · omega
  | videoObjectPlane => exact Nat.zero_le _
  | other => exact Nat.le_add_right _ _

/-- No more is collected than the units have. -/
theorem length_collected_le (seen : List ReceivedUnit) :
    (collected seen).length ≤ (configBytes seen).length := by
  induction seen with
  | nil => exact Nat.le_refl _
  | cons u seen ih =>
    rcases hconfig : u.kind.isConfig with _ | _
    · rcases hkind : u.kind with _ | _ | _ | _ | _ | _ | _ <;> rw [hkind] at hconfig
      case videoObjectPlane => simp [collected, hkind, configAfter]
      case other => simpa [collected, hkind, configAfter, configBytes, configUnits_other hkind] using ih
      all_goals cases hconfig
    · have hafter := length_configAfter_le u.mem u.start u.kind (collected seen) u.bytes
      rw [configBytes_config hconfig, List.length_append]
      exact Nat.le_trans hafter (Nat.add_le_add_right ih _)

/-! ## Units that are all collected -/

/-- The kinds of units that are collected when nothing is. -/
def Mpeg4Unit.starts (kind : Mpeg4Unit) : Prop :=
  kind = .visualObjectSequence ∨ kind = .videoObject

/-- The first unit is a visual object sequence or a video object. -/
def StartsConfig (us : List ReceivedUnit) : Prop := ∀ u, us.head? = some u → u.kind.starts

/-- Every video object layer has a complete header. -/
def LayersComplete (us : List ReceivedUnit) : Prop :=
  ∀ u ∈ us, u.kind = .videoObjectLayer → VolComplete u.mem u.start

/-- A unit that may start the configuration. -/
theorem startsConfig_concat {us : List ReceivedUnit} (h : u.kind.starts) :
    StartsConfig (us ++ [u]) ↔ StartsConfig us := by
  cases us with
  | nil => simpa [StartsConfig] using h
  | cons v us => simp [StartsConfig]

/-- A unit that may not must be behind another. -/
theorem startsConfig_concat_other {us : List ReceivedUnit} (h : ¬ u.kind.starts) :
    StartsConfig (us ++ [u]) ↔ us ≠ [] ∧ StartsConfig us := by
  cases us with
  | nil => simpa [StartsConfig] using h
  | cons v us => simp [StartsConfig]

/-- One unit more. -/
theorem layersComplete_concat {us : List ReceivedUnit} :
    LayersComplete (us ++ [u]) ↔
      LayersComplete us ∧ (u.kind = .videoObjectLayer → VolComplete u.mem u.start) := by
  simp only [LayersComplete, List.mem_append, List.mem_singleton, or_imp, forall_and, forall_eq]

/-- There are no bytes if and only if there are no units. -/
theorem configBytes_eq_nil_iff (hbytes : ∀ u ∈ seen, u.bytes ≠ []) :
    configBytes seen = [] ↔ configUnits seen = [] := by
  unfold configBytes
  constructor
  · intro h
    rw [List.flatten_eq_nil_iff] at h
    refine List.eq_nil_iff_forall_not_mem.2 fun u hu => ?_
    have hmem : u ∈ seen := by
      have hu' := List.mem_reverse.1 hu
      exact (List.takeWhile_sublist _).subset (List.mem_of_mem_filter hu')
    exact hbytes u hmem (h u.bytes (List.mem_map_of_mem hu))
  · intro h
    rw [h]
    rfl

/-- What the units make up is collected exactly if none of them is dropped.

**Proof sketch.** By induction on the units, the last of which is `u`. A unit that may start the
configuration is added if there is room. One that may not is added if there is room and something is
there already. A layer that is cut off is dropped, so that what is collected is too short. A VOP
begins anew, and other units change neither side. -/
theorem collected_eq_iff (hbytes : ∀ u ∈ seen, u.bytes ≠ []) :
    collected seen = configBytes seen ↔ StartsConfig (configUnits seen) ∧
      LayersComplete (configUnits seen) ∧ (configBytes seen).length ≤ configSize := by
  induction seen with
  | nil => simp [collected, configBytes, configUnits, StartsConfig, LayersComplete]
  | cons u seen ih =>
    have hu : u.bytes ≠ [] := hbytes u List.mem_cons_self
    have hseen : ∀ u ∈ seen, u.bytes ≠ [] := fun v hv => hbytes v (List.mem_cons_of_mem _ hv)
    have ih := ih hseen
    have hlen := length_collected_le seen
    have hnil := configBytes_eq_nil_iff hseen
    have hless : (configBytes seen ++ u.bytes).length ≤ configSize →
        (configBytes seen).length ≤ configSize := by
      rw [List.length_append]
      omega
    -- A unit that is added in any case.
    have hadd : u.kind.starts → u.kind.isConfig = true →
        collected (u :: seen) = configAdd (collected seen) u.bytes →
        (collected (u :: seen) = configBytes (u :: seen) ↔ StartsConfig (configUnits (u :: seen)) ∧
          LayersComplete (configUnits (u :: seen)) ∧
          (configBytes (u :: seen)).length ≤ configSize) := by
      intro hstarts hconfig hcollected
      have hlayer : u.kind ≠ .videoObjectLayer := by
        rcases hstarts with h | h <;> rw [h] <;> decide
      rw [hcollected, configBytes_config hconfig, configUnits_config hconfig,
        configAdd_eq_iff hlen hu, startsConfig_concat hstarts, layersComplete_concat, ih]
      simp only [hlayer, false_implies, and_true]
      constructor
      · rintro ⟨⟨hs, hl, -⟩, hfits⟩
        exact ⟨hs, hl, hfits⟩
      · rintro ⟨hs, hl, hfits⟩
        exact ⟨⟨hs, hl, hless hfits⟩, hfits⟩
    -- A unit that is added behind another one.
    have hstarted : ¬ u.kind.starts → u.kind.isConfig = true →
        (u.kind = .videoObjectLayer → VolComplete u.mem u.start) →
        collected (u :: seen) = configAddStarted (collected seen) u.bytes →
        (collected (u :: seen) = configBytes (u :: seen) ↔ StartsConfig (configUnits (u :: seen)) ∧
          LayersComplete (configUnits (u :: seen)) ∧
          (configBytes (u :: seen)).length ≤ configSize) := by
      intro hstarts hconfig hlayer hcollected
      rw [hcollected, configBytes_config hconfig, configUnits_config hconfig,
        configAddStarted_eq_iff hlen hu, startsConfig_concat_other hstarts, layersComplete_concat]
      constructor
      · rintro ⟨hne, heq, hfits⟩
        rw [heq, Ne, hnil] at hne
        obtain ⟨hs, hl, -⟩ := ih.1 heq
        exact ⟨⟨hne, hs⟩, ⟨hl, hlayer⟩, hfits⟩
      · rintro ⟨⟨hne, hs⟩, ⟨hl, -⟩, hfits⟩
        have heq := ih.2 ⟨hs, hl, hless hfits⟩
        refine ⟨?_, heq, hfits⟩
        rwa [heq, Ne, hnil]
    rcases hkind : u.kind with _ | _ | _ | _ | _ | _ | _
    · exact hadd (.inl hkind) (by rw [hkind]; rfl) (by simp [collected, hkind, configAfter])
    · exact hstarted (by simp [hkind, Mpeg4Unit.starts]) (by rw [hkind]; rfl) (by simp [hkind])
        (by simp [collected, hkind, configAfter])
    · exact hstarted (by simp [hkind, Mpeg4Unit.starts]) (by rw [hkind]; rfl) (by simp [hkind])
        (by simp [collected, hkind, configAfter])
    · exact hadd (.inr hkind) (by rw [hkind]; rfl) (by simp [collected, hkind, configAfter])
    · by_cases hcomplete : VolComplete u.mem u.start
      · exact hstarted (by simp [hkind, Mpeg4Unit.starts]) (by rw [hkind]; rfl)
          (fun _ => hcomplete) (by simp [collected, hkind, configAfter, hcomplete])
      · -- A layer that is dropped is missing.
        have hconfig : u.kind.isConfig = true := by rw [hkind]; rfl
        have hpos := List.length_pos_of_ne_nil hu
        refine iff_of_false (fun h => ?_) fun h => ?_
        · have hlen' := congrArg List.length h
          rw [configBytes_config hconfig, List.length_append] at hlen'
          simp only [collected, hkind, configAfter, if_neg hcomplete] at hlen'
          omega
        · rw [configUnits_config hconfig, layersComplete_concat] at h
          exact hcomplete (h.2.1.2 hkind)
    · have hunits : configUnits (u :: seen) = [] := configUnits_plane hkind
      simp [collected, hkind, configAfter, configBytes, hunits, StartsConfig, LayersComplete]
    · have hunits : configUnits (u :: seen) = configUnits seen := configUnits_other hkind
      have hbytes' : configBytes (u :: seen) = configBytes seen := by
        unfold configBytes
        rw [hunits]
      rw [hunits, hbytes', ← ih]
      simp [collected, hkind, configAfter]

end Collected

/-! ## The calls of `finish_config` -/

/-- A call of `finish_config` stays inside `fmtp` and prints, behind `config=`, digits of the bytes
`bytes`. -/
def FinishedWell (out : RtpMpeg4) (bytes : Bytes) : Prop :=
  ∃ out', finishConfig out = .ok out' ∧ ∃ hex,
    out'.fmtp = str "profile-level-id=" ++ decimal out.pali ++ str ";config=" ++ hex ∧
      hexRead hex = some bytes

/-- The units since the last video object plane start with a visual object sequence or a video
object, every video object layer among them has a complete header, and their text fits `fmtp`. -/
structure ConfigWell (seen : List ReceivedUnit) : Prop where
  starts : StartsConfig (configUnits seen)
  layers : LayersComplete (configUnits seen)
  fits : FmtpFits (collectedPali seen) (configBytes seen)

section Finish

variable {left out : RtpMpeg4} {seen : List ReceivedUnit} {mem : FrameMemory} {f : MediaFrame}
  {start code : ℕ} {bytes : Bytes}

/-- A call prints what is collected. -/
theorem finishedWell_config :
    FinishedWell out bytes ↔ FmtpFits out.pali out.config ∧ out.config = bytes := by
  constructor
  · rintro ⟨out', hfinish, hex, htext, hread⟩
    have hfits := finishConfig_ok hfinish
    rw [finishConfig_eq hfits] at hfinish
    obtain rfl := Except.ok.inj hfinish
    refine ⟨hfits, ?_⟩
    have hhex : hexDump out.config = hex := List.append_cancel_left htext
    rw [← hhex, hexRead_hexDump] at hread
    exact Option.some.inj hread
  · rintro ⟨hfits, rfl⟩
    exact ⟨_, finishConfig_eq hfits, hexDump out.config, rfl, hexRead_hexDump _⟩

/-- Text that fits is of bytes that fit `config`. -/
theorem FmtpFits.config {pali : ℕ} (h : FmtpFits pali bytes) : bytes.length ≤ configSize := by
  unfold FmtpFits fmtpText fmtpSize at h
  rw [List.length_append, length_hexDump] at h
  unfold configSize
  omega

/-- **The configuration.** Wherever a stream of frames gets to, a call of `finish_config` prints the
units with configuration since the last video object plane, inside `fmtp`, exactly if they are
well. -/
theorem finishedWell_iff (hat : Mpeg4At left seen mem f start out) :
    FinishedWell out (configBytes seen) ↔ ConfigWell seen := by
  obtain ⟨hconfig, hpali, hbytes⟩ := hat.collects
  rw [finishedWell_config, hconfig, hpali]
  constructor
  · rintro ⟨hfits, heq⟩
    obtain ⟨hstarts, hlayers, -⟩ := (collected_eq_iff hbytes).1 heq
    exact ⟨hstarts, hlayers, heq ▸ hfits⟩
  · rintro ⟨hstarts, hlayers, hfits⟩
    have heq := (collected_eq_iff hbytes).2 ⟨hstarts, hlayers, hfits.config⟩
    exact ⟨heq.symm ▸ hfits, heq⟩

/-- `finish_config` is called for a video object plane behind anything collected. -/
theorem parseMpeg4Frame_finish {code len : ℕ} (hcode : mem.get32 start = .ok code)
    (hkind : mpeg4Unit code = .videoObjectPlane) (hcall : out.config ≠ [])
    (hfault : finishConfig out = .error .overrun) :
    parseMpeg4Frame mem out start len = .error .overrun := by
  rw [parseMpeg4Frame_eq, hcode, ok_bind, hkind]
  simp only [parseUnit, parseVideoObjectPlane_eq, planeStart, if_pos hcall, hfault, error_bind]

end Finish

/-! ## A long configuration -/

/-- What `malloc` may give. -/
def rtpMpeg4Left : RtpMpeg4 where
  iov := []
  config := []
  pali := 0
  fmtp := []
  initDone := false
  tsIncr := 0
  vopTimeIncrementResolution := 0
  vopTimeIncrement := 0
  vtirBitlen := 0
  timestamp := 0

/-- A visual object sequence of `n + 4` bytes. -/
def sequenceBytes (n : ℕ) : Bytes := [0, 0, 1, 0xB0] ++ List.replicate n 1

/-- A visual object sequence, and a video object plane. -/
def sequenceFrame (n : ℕ) : MediaFrame := ⟨sequenceBytes n ++ [0, 0, 1, 0xB6], 0⟩

/-- The visual object sequence. -/
def sequenceUnit (n : ℕ) : ReceivedUnit :=
  ⟨(sequenceFrame n).byte, 0, .visualObjectSequence, ((sequenceFrame n).d.drop 0).take (n + 4)⟩

/-- A start code and the bytes behind it. -/
theorem length_sequenceBytes (n : ℕ) : (sequenceBytes n).length = n + 4 := by
  simp [sequenceBytes]

/-- The frame begins with its one unit. -/
theorem take_sequenceFrame (n : ℕ) : ((sequenceFrame n).d.drop 0).take (n + 4) = sequenceBytes n := by
  rw [← length_sequenceBytes, List.drop_zero, sequenceFrame, List.take_left]

/-- The sequence is got over. -/
theorem mpeg4At_sequence (n : ℕ) :
    ∃ out, Mpeg4At rtpMpeg4Left [sequenceUnit n] (sequenceFrame n).byte (sequenceFrame n)
      (0 + (n + 4)) out := by
  have hfirst : Mpeg4At rtpMpeg4Left [] (sequenceFrame n).byte (sequenceFrame n) 0
      ((newRtpMediaMpeg4 rtpMpeg4Left).newFrame (sequenceFrame n)) :=
    .first (sequenceFrame n).holds_byte
  have hpos : 4 < (sequenceFrame n).d.length := by simp [sequenceFrame, sequenceBytes]
  have hf : (sequenceFrame n).d = [] ++ (sequenceBytes n ++ [0, 0, 1, 0xB6]) := rfl
  have hlen : unitLength (sequenceFrame n).byte (sequenceFrame n).d.length 0 = .ok (n + 4) := by
    rw [← length_sequenceBytes]
    refine unitLength_next (sequenceFrame n).holds_byte hf ?_ ?_ (.inr ⟨[0xB6], rfl⟩)
    · simp [sequenceBytes]
    · intro hcode
      have hzero : [0, 0, 1] <:+: List.replicate n (1 : UInt8) := by
        simpa [HasStartCode, sequenceBytes, List.infix_cons_iff] using hcode
      have hmem := hzero.subset (List.mem_cons_self (a := 0))
      exact absurd (List.eq_of_mem_replicate hmem) (by decide)
  have hcode : FrameMemory.get32 (sequenceFrame n).byte 0 = .ok 0x1B0 := rfl
  obtain ⟨b, hb⟩ : ∃ b, (sequenceFrame n).byte 4 = .ok b :=
    ⟨_, (sequenceFrame n).holds_byte 4 _ (List.getElem?_eq_getElem hpos)⟩
  have hbytes : FrameMemory.bytes (sequenceFrame n).byte 0 (n + 4) = .ok (sequenceBytes n) := by
    rw [(sequenceFrame n).holds_byte.bytes, take_sequenceFrame]
    simp [sequenceFrame, sequenceBytes]
  have hparse := parseMpeg4Frame_eq (sequenceFrame n).byte
    ((newRtpMediaMpeg4 rtpMpeg4Left).newFrame (sequenceFrame n)) 0 (n + 4)
  have hkind : mpeg4Unit 0x1B0 = .visualObjectSequence := rfl
  rw [hcode, ok_bind, hkind] at hparse
  simp only [parseUnit, parseVisualObjectSequence, hb, ok_bind, addToConfig_eq hbytes,
    Nat.zero_add] at hparse
  exact ⟨_, hfirst.unit (Nat.lt_of_le_of_lt (Nat.zero_le _) hpos) hlen hcode hparse⟩

/-- A short sequence. -/
theorem finishedWell_iff_short : ∃ out, Mpeg4At rtpMpeg4Left [sequenceUnit 1] (sequenceFrame 1).byte
    (sequenceFrame 1) (0 + (1 + 4)) out ∧
      (FinishedWell out (configBytes [sequenceUnit 1]) ↔ ConfigWell [sequenceUnit 1]) := by
  obtain ⟨out, hat⟩ := mpeg4At_sequence 1
  exact ⟨out, hat, finishedWell_iff hat⟩

/-- A sequence of 300 bytes is printed behind the end of `fmtp`. -/
theorem finishConfig_overrun :
    ¬ ∀ (left out : RtpMpeg4) (seen : List ReceivedUnit) (mem : FrameMemory) (f : MediaFrame)
      (start : ℕ), Mpeg4At left seen mem f start out → start < f.d.length →
      (∃ code, mem.get32 start = .ok code ∧ mpeg4Unit code = .videoObjectPlane) → out.config ≠ [] →
      FinishedWell out (configBytes seen) := by
  intro h
  obtain ⟨out, hat⟩ := mpeg4At_sequence 296
  have hlen : out.config.length = 300 := by
    rw [hat.collects.1]
    show (configAdd [] (((sequenceFrame 296).d.drop 0).take (296 + 4))).length = 300
    rw [take_sequenceFrame, configAdd, length_sequenceBytes, if_neg (by decide), List.nil_append,
      length_sequenceBytes]
  have hne : out.config ≠ [] := by
    apply List.ne_nil_of_length_pos
    omega
  have hstart : 0 + (296 + 4) < (sequenceFrame 296).d.length := by
    rw [sequenceFrame, List.length_append, length_sequenceBytes]
    decide
  have hwell := h _ out _ _ _ _ hat hstart ⟨0x1B6, by decide +kernel, by decide⟩ hne
  have hfits := (finishedWell_config.1 hwell).1
  unfold FmtpFits fmtpText fmtpSize at hfits
  rw [List.length_append, length_hexDump] at hfits
  omega

end Spook
