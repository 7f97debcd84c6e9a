import Mathlib.Algebra.Order.Ring.Int
import Spook.Exchanger

set_option relaxedAutoImplicit false
set_option autoImplicit false

/-!
# The capture inputs

`input-video.c` and `input-audio.c` on their exchanger. The capture thread is the slave: its
callback gets an empty frame, fills it from the chunk and delivers it. The server is the master:
`get_back_frame` takes a new frame from the heap of `frame.c`, puts it into the exchanger in place
of the filled one and hands the filled one to the stream.

The bytes of the chunks, their decoding and the meters are left out.

## Main definitions

* `Spook.FrameHeap` with `newFrame`, `refFrame` and `unrefFrame` — the frame heap.
* `Spook.getVideoFrame`, `Spook.getAudioChunk` — what the callbacks make of the frame they get.
* `Spook.captureMachine` — any interleaving of a capture thread, the master and the rest of the
  program.
* `Spook.Keeps` — the steps that put the frame back.

## Main results

* `Spook.frames_conserved` — no frame leaves the circulation as long as every step keeps it, and
  every step that does not loses one for good.

## Notes on the design

Conservation is a balance: the frames that wait in the exchanger, those that are queued for the
master and those in flight are as many as the exchanger has slots. It follows from what was put into
the exchanger and what was delivered (`Circulates`), and a step that keeps it moves a frame from one
of the three to another.
-/

namespace Spook

/-- The formats of `frame.h`. -/
inductive Format
  | empty | rawRgb24 | rawUyvy | rawBgr24 | pcm | mpeg4 | jpeg | mpv | h263 | h264 | mpa | alaw
  | adpcm
  deriving DecidableEq

/-- `struct frame`, less its data and its destructor. -/
structure Frame where
  refCount : ℤ
  format : Format
  width : ℤ
  height : ℤ
  length : UInt32
  key : Bool
  timestamp : UInt32

/-- What `new_frame` stores in a frame. -/
def Frame.fresh : Frame :=
  { refCount := 1, format := .empty, width := 0, height := 0, length := 0, key := false,
    timestamp := 0 }

/-! ## The frame heap -/

/-- The ring of free frames of `frame.c`, and what is stored in every frame. -/
structure FrameHeap where
  nSlots : ℕ
  slots : ℕ → Option ℕ
  take : ℕ
  put : ℕ
  frames : ℕ → Frame

namespace FrameHeap

/-- `new_frame`. -/
def newFrame (h : FrameHeap) : FrameHeap × Option ℕ :=
  match h.slots h.take with
  | some f =>
    ({ h with slots := Function.update h.slots h.take none,
              take := (h.take + 1) % h.nSlots,
              frames := Function.update h.frames f .fresh }, some f)
  | none => (h, none)

/-- `ref_frame`. -/
def refFrame (h : FrameHeap) (f : ℕ) : FrameHeap :=
  let frame := { h.frames f with refCount := (h.frames f).refCount + 1 }
  { h with frames := Function.update h.frames f frame }

/-- `unref_frame` of a frame without a destructor. A frame that finds the slot occupied is left
there with the mutex of the heap locked. -/
def unrefFrame (h : FrameHeap) (f : ℕ) : Except Fault FrameHeap :=
  let r := (h.frames f).refCount - 1
  let frame := { h.frames f with refCount := r }
  if r > 0 then .ok { h with frames := Function.update h.frames f frame }
  else if (h.slots h.put).isSome then .error .heapLocked
  else
    let freed := { frame with length := 0, timestamp := 0 }
    .ok { h with slots := Function.update h.slots h.put (some f),
                 put := (h.put + 1) % h.nSlots,
                 frames := Function.update h.frames f freed }

end FrameHeap

/-! ## The callbacks -/

/-- What `get_video_frame_cb` reads of a `VIDEO_FRAME`. -/
structure VideoFrame where
  keyframe : Bool
  tick : UInt32
  len : UInt32

/-- What `get_video_frame_cb` reads of a `struct video_spook_input`. -/
structure VideoConf where
  format : Format
  width : ℤ
  height : ℤ

/-- `AUDIO_CODEC`, and the values that are neither of the two. -/
inductive AudioCodec
  | pcm
  | adpcm
  | other (codec : ℕ)
  deriving DecidableEq

/-- What `get_audio_chunk_cb` reads of an `AUDIO_CHUNK`. -/
structure AudioChunk where
  codec : AudioCodec
  tick : UInt32
  len : UInt32

/-- What `get_audio_chunk_cb` reads of a `struct audio_spook_input`. -/
structure AudioConf where
  format : Format

/-- `get_video_frame_cb` after `get_next_frame`: the frame that it delivers. -/
def getVideoFrame (conf : VideoConf) (vf : VideoFrame) (f : Frame) : Frame :=
  { f with length := vf.len, format := conf.format, width := conf.width, height := conf.height,
           key := vf.keyframe, timestamp := vf.tick }

/-- `get_audio_chunk_cb` after `get_next_frame`: the frame, and whether it is delivered. The
callback returns early when the decoded samples cannot be allocated, and on other codecs. -/
def getAudioChunk (conf : AudioConf) (vf : AudioChunk) (mallocOk : Bool) (f : Frame) :
    Frame × Bool :=
  let f := { f with length := vf.len, timestamp := vf.tick }
  match vf.codec with
  | .pcm => ({ f with format := .pcm, key := true }, true)
  | .adpcm =>
    if conf.format = .adpcm then ({ f with format := .adpcm, key := true }, true)
    else if mallocOk then
      ({ f with format := .pcm, length := (vf.len - 4) <<< 2, key := true }, true)
    else ({ f with format := .pcm }, false)
  | .other _ => (f, false)

/-- A capture input. -/
inductive Input
  | video (conf : VideoConf)
  | audio (conf : AudioConf)

/-- What the callback of an input is called with. -/
def Input.Chunk : Input → Type
  | .video _ => VideoFrame
  | .audio _ => AudioChunk

/-- The part of the callback of an input after `get_next_frame`. -/
def Input.callback : (i : Input) → i.Chunk → Bool → Frame → Frame × Bool
  | .video conf => fun vf _ f => (getVideoFrame conf vf f, true)
  | .audio conf => getAudioChunk conf

/-- The chunks whose frame is delivered: all of video, and of audio those with a codec that the
callback knows, when they need no memory or there is some. -/
def Input.Delivers : (i : Input) → i.Chunk → Bool → Prop
  | .video _ => fun _ _ => True
  | .audio conf => fun vf mallocOk =>
    vf.codec = .pcm ∨ vf.codec = .adpcm ∧ (conf.format = .adpcm ∨ mallocOk = true)

/-- The chunks whose frame the callback delivers. -/
theorem Input.callback_delivers (i : Input) (c : i.Chunk) (mallocOk : Bool) (f : Frame) :
    (i.callback c mallocOk f).2 = true ↔ i.Delivers c mallocOk := by
  cases i with
  | video conf => simp [Input.callback, Input.Delivers]
  | audio conf =>
    obtain ⟨codec, tick, len⟩ := c
    simp only [Input.callback, Input.Delivers, getAudioChunk]
    cases codec with
    | pcm => simp
    | other => simp
    | adpcm => by_cases hf : conf.format = .adpcm <;> cases mallocOk <;> simp [hf]

/-! ## Interleaved callbacks -/

/-- Where the master is in `exchanger_read` and `get_back_frame`. -/
inductive Master
  /-- Outside `exchanger_read`. -/
  | idle
  /-- A byte was read. -/
  | read
  /-- `get_back_frame` is called with a frame. -/
  | taken (f : Option ℕ)
  /-- `get_back_frame` has a new frame. -/
  | renewed (f : Option ℕ) (newf : ℕ)

/-- How many frames the master has out of the exchanger. -/
def Master.inFlight : Master → ℕ
  | .idle | .read => 0
  | .taken _ | .renewed _ _ => 1

/-- A capture input with the heap. -/
structure CapState (i : Input) where
  ex : Exchanger ℕ
  heap : FrameHeap
  /-- The frame and the chunk of the capture callback in progress. -/
  capture : Option (ℕ × i.Chunk)
  master : Master

/-- A step of the capture thread, of the master, or of the rest of the program. -/
inductive CapAct (i : Input)
  /-- The capture callback is called, up to `get_next_frame`. -/
  | capture (c : i.Chunk)
  /-- The capture callback completes. -/
  | finish (mallocOk : Bool)
  /-- `exchanger_read` reads a byte. -/
  | readByte
  /-- `exchanger_read` takes a slot and calls `get_back_frame`. -/
  | takeSlot
  /-- `get_back_frame` calls `new_frame`. -/
  | newFrame
  /-- `get_back_frame` calls `exchange_frame` and `deliver_frame_to_stream`. -/
  | exchange
  /-- Another part of the program calls `new_frame`. -/
  | otherNew
  /-- Another part of the program calls `ref_frame`. -/
  | otherRef (f : ℕ)
  /-- Another part of the program calls `unref_frame`. -/
  | otherUnref (f : ℕ)

/-- What can be seen of a step. -/
inductive CapEvent
  /-- A capture callback got no frame and drops its chunk. -/
  | dropped
  /-- A capture callback got a frame. -/
  | obtained (f : ℕ)
  /-- A capture callback delivered its frame. -/
  | delivered (f : ℕ)
  /-- A capture callback returned with its frame. -/
  | returned (f : ℕ)
  /-- `get_back_frame` put a new frame into the exchanger and gave this one to the stream. -/
  | streamed (f newf : ℕ)
  /-- `get_back_frame` got no new frame and released this one. -/
  | released (f : ℕ)
  deriving DecidableEq

variable {i : Input}

/-- How many frames are out of the exchanger in a callback in progress. -/
def CapState.inFlight (s : CapState i) : ℕ :=
  s.capture.isSome.toNat + s.master.inFlight

/-- One step. A step that its thread is not at changes nothing. -/
def capStep (s : CapState i) : CapAct i → Except Fault (CapState i × List CapEvent)
  | .capture c =>
    match s.capture with
    | some _ => .ok (s, [])
    | none =>
      match s.ex.getNextFrame with
      | (ex, some f) => .ok ({ s with ex, capture := some (f, c) }, [.obtained f])
      | (_, none) => .ok (s, [.dropped])
  | .finish mallocOk =>
    match s.capture with
    | none => .ok (s, [])
    | some (f, c) =>
      let (frame, deliver) := i.callback c mallocOk (s.heap.frames f)
      let heap := { s.heap with frames := Function.update s.heap.frames f frame }
      if deliver then
        .ok ({ s with ex := s.ex.deliverFrame f, heap, capture := none }, [.delivered f])
      else .ok ({ s with heap, capture := none }, [.returned f])
  | .readByte =>
    match s.master with
    | .idle =>
      if s.ex.pipe = 0 then .ok (s, [])
      else .ok ({ s with ex := { s.ex with pipe := s.ex.pipe - 1 }, master := .read }, [])
    | _ => .ok (s, [])
  | .takeSlot =>
    match s.master with
    | .read =>
      let (ex, f) := s.ex.takeSlot
      .ok ({ s with ex, master := .taken f }, [])
    | _ => .ok (s, [])
  | .newFrame =>
    match s.master with
    | .taken f =>
      match s.heap.newFrame with
      | (heap, some newf) => .ok ({ s with heap, master := .renewed f newf }, [])
      | (_, none) =>
        match f with
        | none => .error .nullDeref
        | some f => do
          let heap ← s.heap.unrefFrame f
          .ok ({ s with heap, master := .idle }, [.released f])
    | _ => .ok (s, [])
  | .exchange =>
    match s.master with
    | .renewed f newf =>
      match f with
      | none => .error .nullDeref
      | some f =>
        .ok ({ s with ex := (s.ex.exchangeFrame newf).1, master := .idle }, [.streamed f newf])
    | _ => .ok (s, [])
  | .otherNew => .ok ({ s with heap := s.heap.newFrame.1 }, [])
  | .otherRef f => .ok ({ s with heap := s.heap.refFrame f }, [])
  | .otherUnref f => do
    let heap ← s.heap.unrefFrame f
    .ok ({ s with heap }, [])

/-- The exchanger that `end_block` fills. -/
def filled (fs : List ℕ) : Exchanger ℕ :=
  fs.foldl (fun ex f => (ex.exchangeFrame f).1) (.newExchanger fs.length)

/-- A capture input whose exchanger has `n` slots, started with the exchanger filled. -/
def captureMachine (i : Input) (n : ℕ) : Machine (CapState i) (CapAct i) CapEvent Fault where
  Init s := (∃ fs : List ℕ, fs.length = n ∧ s.ex = filled fs) ∧ s.capture = none ∧
    s.master = .idle
  step := capStep

/-- The state that a capture input starts in. -/
def CapState.started (fs : List ℕ) (heap : FrameHeap) : CapState i :=
  { ex := filled fs, heap, capture := none, master := .idle }

/-- It is an initial state. -/
theorem captureMachine_started (i : Input) {n : ℕ} {fs : List ℕ} (hn : fs.length = n)
    (heap : FrameHeap) : (captureMachine i n).Init (.started fs heap) :=
  ⟨⟨fs, hn, rfl⟩, rfl, rfl⟩

/-- The step keeps the frame in circulation: the capture callback completes with a chunk whose
frame it delivers, and the heap has a frame when `get_back_frame` calls `new_frame`. -/
def Keeps (s : CapState i) : CapAct i → Prop
  | .finish mallocOk => ∀ f c, s.capture = some (f, c) → i.Delivers c mallocOk
  | .newFrame => ∀ f, s.master = .taken f → (s.heap.slots s.heap.take).isSome
  | _ => True

instance : (i : Input) → (c : i.Chunk) → (mallocOk : Bool) → Decidable (i.Delivers c mallocOk)
  | .video _, _, _ => inferInstanceAs (Decidable True)
  | .audio conf, vf, mallocOk => inferInstanceAs (Decidable
      (vf.codec = .pcm ∨ vf.codec = .adpcm ∧ (conf.format = .adpcm ∨ mallocOk = true)))

instance (s : CapState i) : (a : CapAct i) → Decidable (Keeps s a)
  | .finish mallocOk =>
    match hc : s.capture with
    | none => isTrue (by simp [Keeps, hc])
    | some (_, c) => decidable_of_iff (i.Delivers c mallocOk) (by simp [Keeps, hc])
  | .newFrame =>
    match hm : s.master with
    | .taken _ => decidable_of_iff (s.heap.slots s.heap.take).isSome (by simp [Keeps, hm])
    | .idle | .read | .renewed _ _ => isTrue (by simp [Keeps, hm])
  | .capture _ | .readByte | .takeSlot | .exchange | .otherNew | .otherRef _ | .otherUnref _ =>
    isTrue trivial

/-- Every frame is available to the capture thread, queued for the master, or in a callback in
progress. -/
structure Conserved (n : ℕ) (s : CapState i) : Prop where
  balance : s.ex.waiting.length + s.ex.queued.length + s.inFlight = n
  complete : s.inFlight = 0 → s.ex.waiting.length + s.ex.queued.length = n
  again : s.capture = none → s.ex.queued = [] → s.inFlight < n →
    s.ex.getNextFrame.2.isSome

/-- Whether the master has read a byte and not taken the slot yet. -/
def Master.reading : Master → Bool
  | .read => true
  | _ => false

/-- The frames `A` were put into the exchanger and the frames `D` delivered, and `get_back_frame`
was called `r` times; the exchanger is full but for the frames in flight. -/
structure Circulates (n : ℕ) (s : CapState i) (A D : List ℕ) (r : ℕ) : Prop where
  nSlots : s.ex.nSlots = n
  tracks : Tracks s.ex A D r s.capture.isSome
  bytes : s.ex.pipe + s.master.reading.toNat + r = D.length
  full : A.length + s.master.inFlight = r + n

namespace Circulates

variable {n : ℕ} {s s' : CapState i} {A D : List ℕ} {r : ℕ} {o : List CapEvent}

/-- Frames put into an exchanger that has room for them. -/
theorem fill (fs : List ℕ) {ex : Exchanger ℕ} {A : List ℕ} (h : Tracks ex A [] 0 false)
    (hn : 0 < ex.nSlots) (hroom : A.length + fs.length ≤ ex.nSlots) :
    Tracks (fs.foldl (fun ex f => (ex.exchangeFrame f).1) ex) (A ++ fs) [] 0 false ∧
      (fs.foldl (fun ex f => (ex.exchangeFrame f).1) ex).nSlots = ex.nSlots ∧
      (fs.foldl (fun ex f => (ex.exchangeFrame f).1) ex).pipe = ex.pipe := by
  induction fs generalizing ex A with
  | nil => exact ⟨by simpa using h, rfl, rfl⟩
  | cons f fs ih =>
    rw [List.length_cons] at hroom
    rcases h.exchange hn (by simp) f with ⟨-, -, -, ht⟩ | ⟨hfull, -⟩
    · have hrest := ih ht (by simpa using hn) (by simpa using by omega)
      simpa using hrest
    · omega

/-- A filled exchanger. -/
theorem init (hn : 1 ≤ n) (h : (captureMachine i n).Init s) : ∃ A, Circulates n s A [] 0 := by
  obtain ⟨⟨fs, hlen, hex⟩, hcap, hmaster⟩ := h
  have hfill := fill fs (.newExchanger fs.length) (by rw [hlen]; exact hn)
    (by simp [Exchanger.newExchanger])
  refine ⟨fs, ?_, ?_, ?_, ?_⟩
  · rw [hex, ← hlen]
    exact hfill.2.1
  · rw [hex, hcap]
    simpa [filled] using hfill.1
  · rw [hex, hmaster]
    simpa [filled, Master.reading, Exchanger.newExchanger] using hfill.2.2
  · rw [hmaster, Master.inFlight, hlen]
    omega

/-- The frames that circulate. -/
theorem conserved (hn : 1 ≤ n) (h : Circulates n s A D r) : Conserved n s := by
  obtain ⟨h1, h2, h3⟩ := h.tracks.order
  have hfull := h.full
  have hw := congrArg List.length h.tracks.waiting
  have hq := congrArg List.length h.tracks.queued
  rw [List.length_drop] at hw hq
  have hbalance : s.ex.waiting.length + s.ex.queued.length + s.inFlight = n := by
    unfold CapState.inFlight
    omega
  refine ⟨hbalance, by omega, fun hcap hnil hlt => ?_⟩
  rw [hnil] at hq
  have hnum := h.nSlots
  rcases h.tracks.get (by omega) with ⟨-, f, hf, -⟩ | ⟨hheld | hlen, -⟩
  · rw [hf]
    rfl
  · rw [hcap] at hheld
    cases hheld
  · rw [CapState.inFlight, hcap] at hlt
    simp at hlt hq
    omega

/-- The capture callback is called. -/
theorem capture (hn : 1 ≤ n) (h : Circulates n s A D r) {c : i.Chunk}
    (hs : capStep s (.capture c) = .ok (s', o)) : Circulates n s' A D r := by
  have hpos : 0 < s.ex.nSlots := by
    have hnum := h.nSlots
    omega
  simp only [capStep] at hs
  rcases hcap : s.capture with _ | p
  · rw [hcap] at hs
    have ht := h.tracks
    rw [hcap] at ht
    rcases ht.get hpos with ⟨-, f, hf, -, hget⟩ | ⟨-, hnone⟩
    · rcases hg : s.ex.getNextFrame with ⟨ex, g⟩
      rw [hg] at hf hget hs
      cases hf
      cases hs
      have hnum := s.ex.getNextFrame_nSlots
      have hpipe := s.ex.getNextFrame_pipe
      rw [hg] at hnum hpipe
      have hb := h.bytes
      rw [← hpipe] at hb
      exact ⟨hnum.trans h.nSlots, hget, hb, h.full⟩
    · rw [hnone] at hs
      cases hs
      exact h
  · rw [hcap] at hs
    cases hs
    exact h

/-- The capture callback completes. -/
theorem finish (h : Circulates n s A D r) {mallocOk : Bool} (hk : Keeps s (.finish mallocOk))
    (hs : capStep s (.finish mallocOk) = .ok (s', o)) : ∃ D', Circulates n s' A D' r := by
  simp only [capStep] at hs
  rcases hcap : s.capture with _ | ⟨f, c⟩
  · rw [hcap] at hs
    cases hs
    exact ⟨D, h⟩
  · rw [hcap] at hs
    have hdel := (i.callback_delivers c mallocOk (s.heap.frames f)).2 (hk f c hcap)
    simp only [hdel, if_true] at hs
    cases hs
    have ht := h.tracks
    rw [hcap, Option.isSome_some] at ht
    have hb := h.bytes
    refine ⟨D ++ [f], h.nSlots, ht.deliver f, ?_, h.full⟩
    simp only [Exchanger.deliverFrame_pipe, List.length_append, List.length_singleton]
    omega

/-- A byte is read. -/
theorem readByte (h : Circulates n s A D r) (hs : capStep s .readByte = .ok (s', o)) :
    Circulates n s' A D r := by
  have hb := h.bytes
  have hfull := h.full
  simp only [capStep] at hs
  rcases hm : s.master with _ | _ | f | ⟨f, newf⟩ <;> rw [hm] at hs hb hfull
  · simp only [Master.reading, Master.inFlight, Bool.toNat_false] at hb hfull
    split_ifs at hs with h0 <;> cases hs
    · exact h
    · refine ⟨h.nSlots, h.tracks.setPipe _, ?_, hfull⟩
      simp only [Master.reading, Bool.toNat_true]
      omega
  all_goals
    cases hs
    exact h

/-- A slot is taken. -/
theorem takeSlot (h : Circulates n s A D r) (hs : capStep s .takeSlot = .ok (s', o)) :
    ∃ r', Circulates n s' A D r' := by
  have hb := h.bytes
  have hfull := h.full
  simp only [capStep] at hs
  rcases hm : s.master with _ | _ | f | ⟨f, newf⟩ <;> rw [hm] at hs hb hfull
  case read =>
    simp only [Master.reading, Master.inFlight, Bool.toNat_true] at hb hfull
    cases hs
    refine ⟨r + 1, h.nSlots, (h.tracks.take (by omega)).2, ?_, ?_⟩
    · simp only [Exchanger.takeSlot_pipe, Master.reading, Bool.toNat_false]
      omega
    · simp only [Master.inFlight]
      omega
  all_goals
    cases hs
    exact ⟨r, h⟩

/-- A new frame is taken from the heap. -/
theorem newFrame (h : Circulates n s A D r) (hk : Keeps s .newFrame)
    (hs : capStep s .newFrame = .ok (s', o)) : Circulates n s' A D r := by
  have hb := h.bytes
  have hfull := h.full
  simp only [capStep] at hs
  rcases hm : s.master with _ | _ | f | ⟨f, newf⟩ <;> rw [hm] at hs hb hfull
  case taken =>
    obtain ⟨g, hg⟩ := Option.isSome_iff_exists.1 (hk f hm)
    simp only [FrameHeap.newFrame, hg] at hs
    cases hs
    exact ⟨h.nSlots, h.tracks, hb, hfull⟩
  all_goals
    cases hs
    exact h

/-- The new frame is put into the exchanger. It never meets the slot of the frame that the
capture callback holds, as the exchanger is short of one frame only. -/
theorem exchange (hn : 1 ≤ n) (h : Circulates n s A D r)
    (hs : capStep s .exchange = .ok (s', o)) : ∃ A', Circulates n s' A' D r := by
  have hb := h.bytes
  have hfull := h.full
  simp only [capStep] at hs
  rcases hm : s.master with _ | _ | f | ⟨f, newf⟩ <;> rw [hm] at hs hb hfull
  case renewed =>
    simp only [Master.reading, Master.inFlight, Bool.toNat_false] at hb hfull
    cases f with
    | none => cases hs
    | some f =>
      cases hs
      obtain ⟨h1, h2, h3⟩ := h.tracks.order
      have hnum := h.nSlots
      have hslot : ¬ (s.capture.isSome = true ∧ s.ex.masterWrite = s.ex.slaveCur) := by
        rintro ⟨hheld, hcur⟩
        rw [hheld, Bool.toNat_true] at h2
        rw [h.tracks.masterWrite, h.tracks.slaveCur] at hcur
        have heq := SlotRing.mod_inj (w := r) ⟨by omega, by omega⟩ ⟨by omega, by omega⟩ hcur
        omega
      rcases h.tracks.exchange (by omega) hslot newf with ⟨-, -, -, ht⟩ | ⟨hlen, -⟩
      · refine ⟨A ++ [newf], by simpa using hnum, ht, ?_, ?_⟩
        · simpa [Master.reading] using hb
        · simp only [List.length_append, List.length_singleton, Master.inFlight]
          omega
      · omega
  all_goals
    cases hs
    exact ⟨A, h⟩

/-- What the rest of the program does to the heap. -/
theorem setHeap (h : Circulates n s A D r) (heap : FrameHeap) :
    Circulates n { s with heap } A D r :=
  ⟨h.nSlots, h.tracks, h.bytes, h.full⟩

/-- **One step.** A step that keeps its frame keeps all frames in circulation. -/
theorem step (hn : 1 ≤ n) (h : Circulates n s A D r) {a : CapAct i} (hk : Keeps s a)
    (hs : capStep s a = .ok (s', o)) : ∃ A' D' r', Circulates n s' A' D' r' := by
  cases a with
  | capture c => exact ⟨A, D, r, h.capture hn hs⟩
  | finish mallocOk =>
    obtain ⟨D', h'⟩ := h.finish hk hs
    exact ⟨A, D', r, h'⟩
  | readByte => exact ⟨A, D, r, h.readByte hs⟩
  | takeSlot =>
    obtain ⟨r', h'⟩ := h.takeSlot hs
    exact ⟨A, D, r', h'⟩
  | newFrame => exact ⟨A, D, r, h.newFrame hk hs⟩
  | exchange =>
    obtain ⟨A', h'⟩ := h.exchange hn hs
    exact ⟨A', D, r, h'⟩
  | otherNew =>
    cases hs
    exact ⟨A, D, r, h.setHeap _⟩
  | otherRef f =>
    cases hs
    exact ⟨A, D, r, h.setHeap _⟩
  | otherUnref f =>
    simp only [capStep] at hs
    cases hf : s.heap.unrefFrame f <;> rw [hf] at hs <;> cases hs
    exact ⟨A, D, r, h.setHeap _⟩

end Circulates

/-- A step that does not keep its frame loses it: the exchanger holds what it held, and there is
one frame less in flight. -/
theorem Conserved.lost {n : ℕ} {s s' : CapState i} {o : List CapEvent} (h : Conserved n s)
    {a : CapAct i} (hk : ¬ Keeps s a) (hs : capStep s a = .ok (s', o)) :
    s'.ex.waiting.length + s'.ex.queued.length + s'.inFlight + 1 = n := by
  have hb := h.balance
  cases a with
  | finish mallocOk =>
    simp only [Keeps, not_forall] at hk
    obtain ⟨f, c, hcap, hdel⟩ := hk
    rw [← i.callback_delivers c mallocOk (s.heap.frames f), Bool.not_eq_true] at hdel
    simp only [capStep, hcap, hdel, Bool.false_eq_true, if_false] at hs
    cases hs
    simp only [CapState.inFlight, hcap, Option.isSome_some, Option.isSome_none, Bool.toNat_true,
      Bool.toNat_false] at hb ⊢
    omega
  | newFrame =>
    simp only [Keeps, not_forall] at hk
    obtain ⟨f, hm, hfree⟩ := hk
    rw [Option.not_isSome_iff_eq_none] at hfree
    simp only [capStep, hm, FrameHeap.newFrame, hfree] at hs
    cases f with
    | none => cases hs
    | some f =>
      cases hf : s.heap.unrefFrame f <;> simp only [hf, ok_bind, error_bind] at hs <;> cases hs
      simp only [CapState.inFlight, hm, Master.inFlight] at hb ⊢
      omega
  | _ => exact absurd trivial hk

/-- **Frames in circulation.** In every run of a capture input whose steps keep their frames every
frame is accounted for, and the next step keeps it so exactly if it keeps its frame. -/
theorem frames_conserved {i : Input} {n : ℕ} (hn : 1 ≤ n) {as : List (CapAct i)}
    {os : List CapEvent} {s : CapState i}
    (h : Machine.Run (captureMachine i n) Keeps as os s) :
    Conserved n s ∧ ∀ a s' o, capStep s a = .ok (s', o) → (Conserved n s' ↔ Keeps s a) := by
  have hinv : ∃ A D r, Circulates n s A D r := by
    refine h.invariant (fun s => ∃ A D r, Circulates n s A D r) ?_ ?_
    · intro s hs
      obtain ⟨A, h0⟩ := Circulates.init hn hs
      exact ⟨A, [], 0, h0⟩
    · rintro s a s' o ⟨A, D, r, hc⟩ hk hs
      exact hc.step hn hk hs
  obtain ⟨A, D, r, hc⟩ := hinv
  refine ⟨hc.conserved hn, fun a s' o hs => ⟨fun h' => ?_, fun hk => ?_⟩⟩
  · by_contra hk
    have hlost := (hc.conserved hn).lost hk hs
    have hb := h'.balance
    omega
  · obtain ⟨A', D', r', hc'⟩ := hc.step hn hk hs
    exact hc'.conserved hn

/-- A video input with two slots and a heap of four frames. -/
theorem frames_conserved_video : ∃ s : CapState (.video ⟨.h264, 1280, 720⟩),
    Conserved 2 s ∧ s.ex.waiting = [1, 2] := by
  have hrun : ∃ s : CapState (.video ⟨.h264, 1280, 720⟩),
      Machine.Run (captureMachine (.video ⟨.h264, 1280, 720⟩) 2) Keeps
        [.capture (⟨true, 40, 900⟩ : VideoFrame), .finish true, .readByte, .takeSlot, .newFrame,
          .exchange]
        [.obtained 0, .delivered 0, .streamed 0 2] s ∧ s.ex.waiting = [1, 2] :=
    Machine.Run.of_exec (fun s => s.ex.waiting)
      (captureMachine_started _ (show [0, 1].length = 2 from rfl)
        ⟨4, fun k => if k < 2 then none else some k, 2, 0, fun _ => .fresh⟩)
      (by decide +kernel)
  obtain ⟨s, hrun, hwait⟩ := hrun
  exact ⟨s, (frames_conserved (by decide) hrun).1, hwait⟩

/-- An audio input of PCM samples that is sent an ADPCM chunk when there is no memory: the callback
returns with its frame, and no callback gets a frame any more. -/
theorem frames_leak : ¬ ∀ (i : Input) (n : ℕ), 1 ≤ n → ∀ (as : List (CapAct i))
    (os : List CapEvent) (s : CapState i),
    Machine.Run (captureMachine i n) Machine.anyStep as os s → Conserved n s := by
  intro h
  have hrun : ∃ s : CapState (.audio ⟨.pcm⟩),
      Machine.Run (captureMachine (.audio ⟨.pcm⟩) 25) Machine.anyStep
        [.capture (⟨.adpcm, 40, 164⟩ : AudioChunk), .finish false] [.obtained 0, .returned 0] s ∧
      (s.capture.isSome, s.ex.queued, s.inFlight, s.ex.getNextFrame.2) = (false, [], 0, none) :=
    Machine.Run.of_exec
      (fun s => (s.capture.isSome, s.ex.queued, s.inFlight, s.ex.getNextFrame.2))
      (captureMachine_started _ (List.length_range (n := 25))
        ⟨0, fun _ => none, 0, 0, fun _ => .fresh⟩)
      (by decide +kernel)
  obtain ⟨s, hrun, hread⟩ := hrun
  simp only [Prod.mk.injEq, Option.isSome_eq_false_iff, Option.isNone_iff_eq_none] at hread
  obtain ⟨hcap, hqueue, hflight, hget⟩ := hread
  have hagain := (h _ 25 (by decide) _ _ s hrun).again hcap hqueue (by omega)
  rw [hget] at hagain
  cases hagain

end Spook
