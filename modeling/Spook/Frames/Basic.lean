import Spook.Capture
import Spook.Lib.Wp

set_option relaxedAutoImplicit false
set_option autoImplicit false

/-!
# Frames and their data

The frame heap of `frame.c` with all that its functions read and write of a frame: the destructor
that `clone_frame` sets, and the data that `unref_frame` frees. The producers of frames are
modelled with what they do to a frame and its data: the capture callbacks, the converter of
`stream.c`, and the audio ring of `audio.c`. The bytes of the data are left out.

Memory is a list of blocks, each returned by `malloc` once; a block remembers the frame whose data
it was allocated for.

## Main definitions

* `Spook.FrameStore` — the heap, the frames, the blocks and the audio rings.
* `Spook.newFrame`, `Spook.cloneFrame`, `Spook.refFrame`, `Spook.unrefFrame` — `frame.c`.
* `Spook.captureFrame`, `Spook.convertUyvyToRgb24`, `Spook.audioRingInput` — the producers.
* `Spook.frameMachine` — any sequence of their calls, with the references that the program holds.
* `Spook.Disciplined` — each reference is used by its holder and released once.

## Notes on the design

The bytes of the data do not matter to who owns them, so a block is its size, whether it is there,
and the frame it was allocated for. The last of these is not in the program: it is there to say
whose data is freed.
-/

namespace Spook

/-! ## The store -/

/-- A pointer into a block. -/
structure Ptr where
  block : ℕ
  offset : ℕ
  deriving DecidableEq

/-- A block that `malloc` returned. -/
structure Block where
  size : ℕ
  live : Bool
  /-- The frame whose data it was allocated for. -/
  frame : Option ℕ
  deriving DecidableEq

/-- `struct frame`. The destructor is null or `clone_destructor`, with the frame that it is called
with. -/
structure DataFrame extends Frame where
  destructor : Option ℕ
  step : ℕ
  d : Option Ptr

/-- What `new_frame` stores in a frame. -/
def DataFrame.fresh (f : DataFrame) : DataFrame :=
  { toFrame := .fresh, destructor := none, step := f.step, d := none }

/-- The frame with another `ref_count`. -/
def DataFrame.setCount (f : DataFrame) (r : ℤ) : DataFrame := { f with refCount := r }

/-- `struct audio_ring`, less its meter and its queue. -/
structure AudioRing where
  framelen : ℕ
  sampleSize : ℕ
  sampleRate : ℕ
  adjustRate : ℤ
  adjustCount : ℤ
  ir : ℕ
  iw : ℕ
  buflen : ℕ
  /-- The block of the buffer. -/
  buf : ℕ

/-- What can be seen of a call. -/
inductive FrameEvent
  /-- `new_frame` returned a frame. -/
  | taken (f : ℕ)
  /-- `unref_frame` freed the data of a frame. -/
  | freed (f : ℕ) (p : Ptr)
  /-- A producer delivered a frame. -/
  | delivered (f : ℕ)
  deriving DecidableEq

/-- The frame heap, the frames, the blocks, the audio rings, and what happened in the call. -/
structure FrameStore where
  nSlots : ℕ
  slots : ℕ → Option ℕ
  take : ℕ
  put : ℕ
  frames : ℕ → DataFrame
  blocks : List Block
  rings : List AudioRing
  log : List FrameEvent

/-- A function on the store. -/
abbrev FrameM := StateT FrameStore (Except Fault)

/-- Read a frame. -/
def getFrame (f : ℕ) : FrameM DataFrame := do
  let s ← get
  pure (s.frames f)

/-- The store with a frame written. -/
def FrameStore.withFrame (s : FrameStore) (f : ℕ) (frame : DataFrame) : FrameStore :=
  { s with frames := Function.update s.frames f frame }

/-- Write a frame. -/
def setFrame (f : ℕ) (frame : DataFrame) : FrameM Unit := modify fun s => s.withFrame f frame

/-- Record what happened. -/
def emit (e : FrameEvent) : FrameM Unit :=
  modify fun s => { s with log := s.log ++ [e] }

/-- `malloc`, when it succeeds. -/
def malloc (size : ℕ) (frame : Option ℕ) : FrameM ℕ := do
  let s ← get
  set { s with blocks := s.blocks ++ [Block.mk size true frame] }
  pure s.blocks.length

/-- `free` of a pointer that is not null. -/
def free (p : Ptr) : FrameM Unit := do
  let s ← get
  let b ← found s.blocks[p.block]? .badFree
  if b.live = true ∧ p.offset = 0 then
    set { s with blocks := s.blocks.set p.block { b with live := false } }
  else throw .badFree

/-! ## The frame heap -/

/-- `init_frame_heap`. -/
def FrameStore.initFrameHeap (count : ℕ) (frames : ℕ → DataFrame) : FrameStore :=
  { nSlots := count, slots := fun k => if k < count then some k else none, take := 0, put := 0,
    frames, blocks := [], rings := [], log := [] }

/-- `new_frame`. -/
def newFrame : FrameM (Option ℕ) := do
  let s ← get
  match s.slots s.take with
  | some f =>
    set { s with slots := Function.update s.slots s.take none,
                 take := (s.take + 1) % s.nSlots,
                 frames := Function.update s.frames f (s.frames f).fresh }
    emit (.taken f)
    pure (some f)
  | none => pure none

/-- `ref_frame`. -/
def refFrame (f : ℕ) : FrameM Unit := do
  let frame ← getFrame f
  if frame.refCount = 2 ^ 31 - 1 then throw .overflow
  else setFrame f (frame.setCount (frame.refCount + 1))

/-- The data of a frame is freed. -/
def freeData (f : ℕ) : FrameM Unit := do
  let frame ← getFrame f
  match frame.d with
  | none => pure ()
  | some p =>
    free p
    emit (.freed f p)
    setFrame f { frame with d := none, length := 0 }

/-- A frame is given back to the heap. One that finds the slot occupied is left there with the
mutex of the heap locked. -/
def giveBack (f : ℕ) : FrameM Unit := do
  let frame ← getFrame f
  setFrame f { frame with timestamp := 0 }
  let s ← get
  if (s.slots s.put).isSome then throw .heapLocked
  else set { s with slots := Function.update s.slots s.put (some f),
                    put := (s.put + 1) % s.nSlots }

/-- `unref_frame`, with `clone_destructor`. A clone releases its original before it is given back
itself; the depth of these calls is bounded by `fuel`. -/
def unrefFrame : ℕ → ℕ → FrameM Unit
  | 0, _ => throw .loop
  | fuel + 1, f => do
    let frame ← getFrame f
    let r := frame.refCount - 1
    setFrame f (frame.setCount r)
    if r > 0 then pure ()
    else
      match frame.destructor with
      | none =>
        freeData f
        giveBack f
      | some orig =>
        setFrame f (frame.setCount 1)
        unrefFrame fuel orig
        freeData f
        giveBack f

/-- `clone_frame`. -/
def cloneFrame (orig : ℕ) : FrameM (Option ℕ) := do
  let f ← newFrame
  match f with
  | none => pure none
  | some f =>
    let frame ← getFrame f
    let o ← getFrame orig
    setFrame f { frame with destructor := some orig, format := o.format, width := o.width,
                            height := o.height, length := o.length, key := o.key, step := o.step,
                            d := o.d }
    refFrame orig
    pure (some f)

/-! ## The producers -/

/-- The size of the buffer that the callback of an input makes the data of its frame: the data of
the chunk, or the decoded samples. -/
def Input.buffer : (i : Input) → i.Chunk → Bool → Option ℕ
  | .video _ => fun vf _ => some vf.len.toNat
  | .audio conf => fun vf mallocOk =>
    match vf.codec with
    | .pcm => some vf.len.toNat
    | .adpcm =>
      if conf.format = .adpcm then some vf.len.toNat
      else if mallocOk then some ((vf.len - 4) * 4).toNat
      else none
    | .other _ => none

/-- The capture callback of an input with the frame that it gets; the result tells whether the
frame is delivered. -/
def captureFrame (f : ℕ) (i : Input) (c : i.Chunk) (mallocOk : Bool) : FrameM Bool := do
  let frame ← getFrame f
  let filled := i.callback c mallocOk frame.toFrame
  match i.buffer c mallocOk with
  | none =>
    setFrame f { frame with toFrame := filled.1, d := none }
    pure filled.2
  | some size =>
    let b ← malloc size (some f)
    setFrame f { frame with toFrame := filled.1, d := some ⟨b, 0⟩ }
    if filled.2 then
      emit (.delivered f)
      pure true
    else pure false

/-- `convert_uyvy_to_rgb24`. -/
def convertUyvyToRgb24 (uyvy : ℕ) : FrameM ℕ := do
  let rgb ← newFrame
  let rgb ← found rgb .nullDeref
  let frame ← getFrame rgb
  let u ← getFrame uyvy
  setFrame rgb { frame with format := .rawRgb24, width := u.width, height := u.height,
                            length := .ofInt (u.height * u.width * 3), key := u.key }
  -- `uyvy2rgb` stores through `rgb->d` if there is a pixel
  if 2 ≤ u.length.toBitVec.toInt ∧ frame.d = none then throw .nullDeref
  else
    let s ← get
    unrefFrame s.nSlots uyvy
    emit (.delivered rgb)
    pure rgb

/-- `sample_size * sample_rate`, which is an `int`. -/
def ringBytes (sampleSize sampleRate : ℕ) : ℤ := Int.bmod (sampleSize * sampleRate) (2 ^ 32)

/-- `new_audio_ring`. There is no buffer of a length below zero, and then no ring. -/
def newAudioRing (sampleSize sampleRate framelen : ℕ) : FrameM Unit := do
  if framelen = 0 then throw .divZero
  else
    let buflen := ringBytes sampleSize sampleRate
    let buflen := buflen - buflen.tmod framelen
    if buflen < 0 then pure ()
    else
      let buf ← malloc buflen.toNat none
      let ring : AudioRing := { framelen, sampleSize, sampleRate, adjustRate := 0,
                                adjustCount := 0, ir := 0, iw := 0, buflen := buflen.toNat, buf }
      modify fun s => { s with rings := s.rings ++ [ring] }

/-- Write a ring. -/
def setRing (k : ℕ) (ring : AudioRing) : FrameM Unit :=
  modify fun s => { s with rings := s.rings.set k ring }

/-- A sample is copied into the ring. -/
def AudioRing.store (ring : AudioRing) : FrameM AudioRing :=
  if ring.buflen < ring.iw + ring.sampleSize then throw .overrun
  else
    let iw := ring.iw + ring.sampleSize
    pure { ring with iw := if iw = ring.buflen then 0 else iw }

/-- A sample is copied into the ring so many times. -/
def AudioRing.storeCopies : ℕ → AudioRing → FrameM AudioRing
  | 0, ring => pure ring
  | copies + 1, ring => do
    let ring ← ring.store
    ring.storeCopies copies

/-- What a sample is to the rate adjustment: dropped, doubled, or taken as it is; with the ring's
new counter. -/
def AudioRing.adjust (ring : AudioRing) : AudioRing × ℕ :=
  if ring.adjustRate < 0 then
    if ring.adjustCount - 1 = 0 then ({ ring with adjustCount := -ring.adjustRate }, 0)
    else ({ ring with adjustCount := ring.adjustCount - 1 }, 1)
  else if ring.adjustRate > 0 then
    if ring.adjustCount - 1 = 0 then ({ ring with adjustCount := ring.adjustRate }, 2)
    else ({ ring with adjustCount := ring.adjustCount - 1 }, 1)
  else (ring, 1)

/-- A frame of the ring is queued, if there is one. `queueOk` is whether `soft_queue_add` has
room; the result is the frame that was queued. -/
def queueFrame (ring : AudioRing) (queueOk : Bool) : FrameM (Option ℕ) := do
  let f ← newFrame
  match f with
  | none => pure none
  | some f =>
    let frame ← getFrame f
    setFrame f { frame with format := .pcm, width := 0, height := 0, key := true,
                            step := ring.sampleSize, length := .ofNat ring.framelen,
                            d := some ⟨ring.buf, ring.ir⟩ }
    if queueOk then
      emit (.delivered f)
      pure (some f)
    else
      let s ← get
      unrefFrame s.nSlots f
      pure none

/-- One turn of the loop of `audio_ring_input`: the ring, `avail`, and the frame that was
queued. -/
def ringSample (ring : AudioRing) (avail : ℕ) (queueOk : Bool) :
    FrameM (AudioRing × ℕ × Option ℕ) :=
  match ring.adjust with
  | (ring, 0) => pure (ring, avail, none)
  | (ring, copies) => do
    let ring ← ring.storeCopies copies
    let avail := avail + copies * ring.sampleSize
    if ring.framelen ≤ avail then do
      let f ← queueFrame ring queueOk
      let ir := ring.ir + ring.framelen
      pure ({ ring with ir := if ir = ring.buflen then 0 else ir }, avail - ring.framelen, f)
    else pure (ring, avail, none)

/-- The loop of `audio_ring_input` over the samples, with what each `soft_queue_add` returns. The
frames are those that were queued, the last one first. -/
def ringLoop : List Bool → AudioRing → ℕ → FrameM (AudioRing × List ℕ)
  | [], ring, _ => pure (ring, [])
  | queueOk :: rest, ring, avail => do
    let (ring, avail, f) ← ringSample ring avail queueOk
    let (ring, fs) ← ringLoop rest ring avail
    pure (ring, fs ++ f.toList)

/-- `audio_ring_input`. The list has one entry for each sample; `rate` is the rate that
`meter_count` sets, if it does. -/
def audioRingInput (k : ℕ) (rate : Option ℤ) (samples : List Bool) : FrameM (List ℕ) := do
  let s ← get
  let ring ← found s.rings[k]? .nullDeref
  let ring := match rate with
    | none => ring
    | some r => { ring with adjustRate := r, adjustCount := 1 }
  let avail := if ring.iw < ring.ir then ring.buflen - ring.ir + ring.iw else ring.iw - ring.ir
  let (ring, fs) ← ringLoop samples ring avail
  setRing k ring
  pure fs

/-! ## Sequences of calls -/

/-- The store, and the references that the program holds. -/
structure FrameState where
  store : FrameStore
  /-- The references, each with its frame. -/
  refs : List ℕ
  /-- The frames that wait in an exchanger for a capture callback. -/
  pool : List ℕ
  /-- The frames that a capture callback returned with. -/
  lost : List ℕ

/-- A call. -/
inductive FrameAct
  /-- `new_frame`. -/
  | new
  /-- `clone_frame`. -/
  | clone (orig : ℕ)
  /-- `ref_frame`. -/
  | ref (f : ℕ)
  /-- `unref_frame`. -/
  | unref (f : ℕ)
  /-- `exchange_frame(ex, new_frame())`. -/
  | exchange
  /-- A capture callback gets this frame. -/
  | capture (f : ℕ) (i : Input) (c : i.Chunk) (mallocOk : Bool)
  /-- `convert_uyvy_to_rgb24`. -/
  | convert (uyvy : ℕ)
  /-- `new_audio_ring`. -/
  | newRing (sampleSize sampleRate framelen : ℕ)
  /-- `audio_ring_input`. -/
  | ringInput (k : ℕ) (rate : Option ℤ) (samples : List Bool)

/-- Call a function; `k` makes its result known to the holders of references. -/
def FrameState.call {α : Type} (s : FrameState) (x : FrameM α) (k : α → FrameState → FrameState) :
    Except Fault (FrameState × List FrameEvent) :=
  match x.run { s.store with log := [] } with
  | .ok (a, store) => .ok (k a { s with store }, store.log)
  | .error e => .error e

/-- One call. -/
def frameStep (s : FrameState) : FrameAct → Except Fault (FrameState × List FrameEvent)
  | .new => s.call newFrame fun f s => { s with refs := f.toList ++ s.refs }
  | .clone orig => s.call (cloneFrame orig) fun f s => { s with refs := f.toList ++ s.refs }
  | .ref f => s.call (refFrame f) fun _ s => { s with refs := f :: s.refs }
  | .unref f => s.call (unrefFrame s.store.nSlots f) fun _ s => { s with refs := s.refs.erase f }
  | .exchange => s.call newFrame fun f s =>
    { s with refs := f.toList ++ s.refs, pool := f.toList ++ s.pool }
  | .capture f i c mallocOk => s.call (captureFrame f i c mallocOk) fun deliver s =>
    { s with pool := s.pool.erase f, lost := if deliver then s.lost else f :: s.lost }
  | .convert uyvy => s.call (convertUyvyToRgb24 uyvy) fun rgb s =>
    { s with refs := rgb :: s.refs.erase uyvy }
  | .newRing sampleSize sampleRate framelen =>
    s.call (newAudioRing sampleSize sampleRate framelen) fun _ s => s
  | .ringInput k rate samples => s.call (audioRingInput k rate samples) fun fs s =>
    { s with refs := fs ++ s.refs }

/-- A heap of `n` frames, started with nothing handed out. -/
def frameMachine (n : ℕ) : Machine FrameState FrameAct FrameEvent Fault where
  Init s := (∃ frames, s.store = .initFrameHeap n frames) ∧ s.refs = [] ∧ s.pool = [] ∧ s.lost = []
  step := frameStep

/-- The program holds a reference to the frame, besides those in exchangers and the lost ones. -/
def FrameState.Holds (s : FrameState) (f : ℕ) : Prop :=
  s.pool.count f + s.lost.count f < s.refs.count f

/-- A reference is used by its holder: a call is made on a frame that is held, a capture callback
gets a frame of its exchanger. -/
def Disciplined (s : FrameState) : FrameAct → Prop
  | .clone f | .ref f | .unref f | .convert f => s.Holds f
  | .capture f _ _ _ => f ∈ s.pool
  | .new | .exchange | .newRing _ _ _ | .ringInput _ _ _ => True

instance (s : FrameState) (f : ℕ) : Decidable (s.Holds f) := inferInstanceAs (Decidable (_ < _))

instance (s : FrameState) : (a : FrameAct) → Decidable (Disciplined s a)
  | .clone f | .ref f | .unref f | .convert f => inferInstanceAs (Decidable (s.Holds f))
  | .capture f _ _ _ => inferInstanceAs (Decidable (f ∈ s.pool))
  | .new | .exchange | .newRing _ _ _ | .ringInput _ _ _ => isTrue trivial

end Spook
