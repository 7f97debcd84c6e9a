import Spook.Rtp.H264
import Spook.Rtp.Jpeg.Inside
import Spook.Rtp.Mpeg4.Inside
import Spook.Rtp.Mpeg4.Queue

set_option relaxedAutoImplicit false
set_option autoImplicit false

/-!
# Frames that are read inside

The three parsers of frames, on a frame behind which nothing can be read.

## Main definitions

* `Spook.H264Inside` — a frame that `h264_process_frame` reads inside.

## Main results

* `Spook.framesInside_iff` — the frames that each of the parsers reads inside.
-/

namespace Spook

/-- The frame is read inside, and what is taken of it, when it is ready, is its end. -/
def H264Inside (f : MediaFrame) (out : RtpH264) : Prop :=
  ∃ r, h264ProcessFrame f out = .ok r ∧ (r.2 = 1 → r.1.d <:+ f.d)

/-- The frame is a beginning of a start code without its end. -/
def CutStartCode (f : MediaFrame) : Prop := f.d.length < 4 ∧ ∀ b ∈ f.d, b = 0

section H264

variable {f : MediaFrame} {out : RtpH264}

/-- What is taken of a frame is its end. -/
theorem h264Scan_suffix {is : List ℕ} {r : RtpH264 × ℤ} (h : h264Scan f out is = .ok r)
    (hr : r.2 = 1) : r.1.d <:+ f.d := by
  induction is with
  | nil =>
    obtain rfl := Except.ok.inj h
    cases hr
  | cons i is ih =>
    obtain ⟨b, -, h⟩ := bind_eq_ok.1 h
    by_cases h₁ : b = 1
    · rw [if_pos h₁] at h
      obtain rfl := Except.ok.inj h
      exact List.drop_suffix _ _
    rw [if_neg h₁] at h
    by_cases h₀ : b ≠ 0
    · rw [if_pos h₀] at h
      obtain rfl := Except.ok.inj h
      cases hr
    · rw [if_neg h₀] at h
      exact ih h

/-- What is sent is the end of the frame. -/
theorem h264ProcessFrame_suffix {r : RtpH264 × ℤ} (h : h264ProcessFrame f out = .ok r)
    (hr : r.2 = 1) : r.1.d <:+ f.d := by
  obtain ⟨b₀, -, h⟩ := bind_eq_ok.1 h
  by_cases h₀ : b₀ ≠ 0
  · rw [if_pos h₀] at h
    obtain rfl := Except.ok.inj h
    cases hr
  rw [if_neg h₀] at h
  obtain ⟨b₁, -, h⟩ := bind_eq_ok.1 h
  by_cases h₁ : b₁ ≠ 0
  · rw [if_pos h₁] at h
    obtain rfl := Except.ok.inj h
    cases hr
  rw [if_neg h₁] at h
  exact h264Scan_suffix h hr

/-- The parser reads on only behind zeros. -/
theorem h264ProcessFrame_ok_iff :
    (∃ r, h264ProcessFrame f out = .ok r) ↔ ¬ CutStartCode f := by
  obtain ⟨d, t⟩ := f
  unfold CutStartCode
  rcases d with _ | ⟨b₀, d⟩
  · simp [h264ProcessFrame, MediaFrame.byte]
  by_cases h₀ : b₀ = 0
  swap
  · simp [h264ProcessFrame, MediaFrame.byte, h₀, pure, Except.pure]
  rcases d with _ | ⟨b₁, d⟩
  · simp [h264ProcessFrame, MediaFrame.byte, h₀]
  by_cases h₁ : b₁ = 0
  swap
  · simp [h264ProcessFrame, MediaFrame.byte, h₀, h₁, pure, Except.pure]
  rcases d with _ | ⟨b₂, d⟩
  · simp [h264ProcessFrame, h264Scan, MediaFrame.byte, h₀, h₁]
  by_cases h₂ : b₂ = 0
  swap
  · have hscan : ∃ r, h264ProcessFrame ⟨b₀ :: b₁ :: b₂ :: d, t⟩ out = .ok r := by
      simp only [h264ProcessFrame, h264Scan, MediaFrame.byte, h₀, h₁, List.getElem?_cons_zero,
        List.getElem?_cons_succ, ok_bind, ne_eq, not_true_eq_false, if_false, h₂, not_false_eq_true,
        if_true]
      exact exists_ok_ite (fun _ => ⟨_, rfl⟩) fun _ => ⟨_, rfl⟩
    simp [hscan, h₂]
  rcases d with _ | ⟨b₃, d⟩
  · simp [h264ProcessFrame, h264Scan, MediaFrame.byte, h₀, h₁, h₂]
  · refine iff_of_true ?_ fun h => ?_
    · simp only [h264ProcessFrame, h264Scan, MediaFrame.byte, h₀, h₁, h₂, List.getElem?_cons_zero,
        List.getElem?_cons_succ, ok_bind, ne_eq, not_true_eq_false, if_false]
      exact exists_ok_ite (fun _ => ⟨_, rfl⟩) fun _ =>
        exists_ok_ite (fun _ => ⟨_, rfl⟩) fun _ => exists_ok_ite (fun _ => ⟨_, rfl⟩) fun _ => ⟨_, rfl⟩
    · have hlen := h.1
      simp only [List.length_cons] at hlen
      omega

/-- The scan reads outside exactly where the frame ends in a part of a start code. -/
theorem h264Inside_iff : H264Inside f out ↔ ¬ CutStartCode f := by
  rw [← h264ProcessFrame_ok_iff]
  constructor
  · rintro ⟨r, hr, -⟩
    exact ⟨r, hr⟩
  · rintro ⟨r, hr⟩
    exact ⟨r, hr, h264ProcessFrame_suffix hr⟩

end H264

/-- **Frames that are read inside.** Each of the three parsers stops, reads inside the frame and leaves
what lies inside it: `h264_process_frame` exactly if the frame does not end inside a start code,
`jpeg_process_frame` if every segment behind known ones is inside, and the scan if it is ready, and
`mpeg4_process_frame` if the start codes of all units and what is looked at of their headers are
inside, and what is printed there fits. -/
theorem framesInside_iff (f : MediaFrame) (h : RtpH264) (j : RtpJpeg) (m : RtpMpeg4) :
    (H264Inside f h ↔ ¬ CutStartCode f) ∧
    (JpegInside f j ↔ EachSegment f
      (fun segs seg => SegmentInside f segs seg ∧ ScanInside f segs j.initDone seg) []
      (f.segments (f.d.length + 1) 0)) ∧
    (Mpeg4Inside f m ↔ UnitsInside f m.head 0 (cutUnits f.d)) :=
  ⟨h264Inside_iff, jpegInside_iff f j, mpeg4Inside_iff f m⟩

/-- A frame that ends in a start of scan with a length of 65535. -/
def longScanFrame : MediaFrame := ⟨[0xFF, 0xD8, 0xFF, 0xC4, 0, 2, 0xFF, 0xDA, 0xFF, 0xFF], 0⟩

/-- What a call returns, and the length of the scan that it leaves. -/
def scanLeft (r : Except Fault (RtpJpeg × ℤ)) : Option (ℤ × ℤ) :=
  match r with
  | .ok r => some (r.2, r.1.scanDataLen)
  | .error _ => none

/-- Behind a zero byte the first and the third parser read on, and the second one leaves a scan of a
length below zero. -/
theorem framesInside_cut :
    (¬ ∀ (f : MediaFrame) (out : RtpH264), H264Inside f out) ∧
      (¬ ∀ (f : MediaFrame) (out : RtpJpeg), JpegInside f out) ∧
      ¬ ∀ (f : MediaFrame) (out : RtpMpeg4), Mpeg4Inside f out := by
  refine ⟨fun h => ?_, fun h => ?_, fun h => ?_⟩
  · obtain ⟨r, hr, -⟩ := h ⟨[0], 0⟩ ⟨[], true, 0, 0⟩
    cases hr
  · obtain ⟨r, hr, hfits⟩ := h longScanFrame rtpJpegZero
    have hleft : scanLeft (jpegProcessFrame longScanFrame.byte longScanFrame rtpJpegZero) =
        some (1, -65533) := by
      decide +kernel
    rw [hr] at hleft
    obtain ⟨hret, hlen⟩ := Prod.mk.inj (Option.some.inj hleft)
    have hin := (hfits hret).1
    omega
  · obtain ⟨r, hr, -⟩ := h ⟨[0], 0⟩ rtpMpeg4Started
    have hfault : faultOf (mpeg4ProcessFrame (MediaFrame.byte ⟨[0], 0⟩) ⟨[0], 0⟩ rtpMpeg4Started) =
        some .overread := by
      decide +kernel
    rw [hr] at hfault
    cases hfault

end Spook
