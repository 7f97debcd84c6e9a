import Mathlib.Data.List.Nodup
import Spook.Conversions
import Spook.Lib.Every
import Spook.Lib.Machine
import Spook.Lib.Wp
import Spook.Streams.Order

set_option relaxedAutoImplicit false
set_option autoImplicit false

/-!
# Frames on their way

`deliver_frame_to_stream` hands a frame to the destinations of a stream that wait for it;
`do_framedrop` passes every so many frames on, `convert_uyvy_to_rgb24` a picture made of the one that
it gets. What the output modules do with a frame is left open: they may call `set_waiting`.

## Main definitions

* `Spook.Flow.deliver` — `deliver_frame_to_stream`.
* `Spook.flowMachine` — captured frames and changes of the flags, in any order.
* `Spook.Flow.Took` — what a destination made of the frames that it was offered.
* `Spook.Flow.Sound` — what every delivery keeps.
* `Spook.Flow.captured` — the frames that an input module delivered.

## Main results

* `Spook.Flow.wp_deliver` — one delivery.
* `Spook.Flow.flowing_run`, `captured_run` — what holds in every run.

## Notes on the design

A delivery recurses through filters and converters, always to streams that were made later. So the
induction is on the depth that is left, and what is known of a delivery to a stream (`Keeps`) is
about the destinations of that stream and of all later ones (`Sound`), while those of earlier streams
are as they were (`Spared`). Inside the loop of one stream the destinations that are still to come
lag behind by the frame (`Halfway`).

The formats of frames are no part of this: a frame gets the format of its stream from the module that
captures it, and nothing in the code sees to it.
-/

namespace Spook

/-- `struct frame`, less its count, its destructor and its timestamp. -/
structure Picture where
  format : Format
  width : ℤ
  height : ℤ
  length : ℤ
  key : Bool
  data : Bytes
  deriving DecidableEq

/-- `convert_uyvy_to_rgb24` before the delivery, where `free` says whether `new_frame` finds a frame.
The `d` of the frame is a null pointer: there is no byte to write to. -/
def Flow.convertUyvyToRgb24 (uyvy : Picture) (free : Bool) : Except Fault Picture :=
  if free then do
    let data ← uyvy2rgb uyvy.data [] (uyvy.length.tdiv 2)
    pure { format := .rawRgb24, width := uyvy.width, height := uyvy.height,
           length := Int.bmod (uyvy.height * uyvy.width * 3) (2 ^ 32), key := uyvy.key, data }
  else .error .nullDeref

/-- The streams at run time. -/
structure Flow where
  net : StreamNet
  /-- `waiting` of the destinations. -/
  waiting : ℕ → Bool
  /-- `count` of the filters. -/
  count : ℕ → ℤ
  /-- Whether `new_frame` finds a frame, in the `n`-th call of a `process_frame`. -/
  heap : ℕ → Bool
  /-- What an output module makes of the flags, in the `n`-th call of a `process_frame`. -/
  react : ℕ → (ℕ → Bool) → ℕ → Bool
  calls : ℕ
  /-- The frames that were delivered to a stream. -/
  delivered : ℕ → List Picture
  /-- The frames that a destination processed. -/
  processed : ℕ → List Picture
  /-- How many frames passed a destination that did not wait. -/
  missed : ℕ → ℕ

/-- A function on the streams at run time. -/
abbrev FlowM := StateT Flow (Except Fault)

namespace Flow

/-- A frame is delivered to a stream. -/
def hand (f : Picture) (s : ℕ) (σ : Flow) : Flow :=
  { σ with delivered := Function.update σ.delivered s (σ.delivered s ++ [f]) }

/-- `process_frame` of a destination is called. -/
def call (f : Picture) (d : ℕ) (σ : Flow) : Flow :=
  { σ with calls := σ.calls + 1,
           processed := Function.update σ.processed d (σ.processed d ++ [f]) }

/-- A destination does not wait. -/
def skip (d : ℕ) (σ : Flow) : Flow :=
  { σ with missed := Function.update σ.missed d (σ.missed d + 1) }

/-- `if( ++drop->count == drop->scale ) drop->count = 0;`. -/
def countUp (k : ℕ) (σ : Flow) : Flow :=
  let count := σ.count k + 1
  { σ with count := Function.update σ.count k (if count = (σ.net.drops k).scale then 0 else count) }

/-- `process_frame` of a destination. -/
def process (deliver : Picture → ℕ → FlowM Unit) (f : Picture) : Processor → FlowM Unit
  | .output => modify fun σ => { σ with waiting := σ.react σ.calls σ.waiting }
  | .framedrop k => do
    let σ ← get
    if σ.count k = 0 then do
      let s ← found (σ.net.drops k).output .nullDeref
      deliver f s
    modify (countUp k)
  | .convert s => do
    let σ ← get
    let rgb ← (convertUyvyToRgb24 f (σ.heap σ.calls) : FlowM Picture)
    deliver rgb s

/-- The loop of `deliver_frame_to_stream`. -/
def visit (deliver : Picture → ℕ → FlowM Unit) (f : Picture) : List ℕ → FlowM Unit
  | [] => pure ()
  | d :: ds => do
    let σ ← get
    if σ.waiting d = true then do
      modify (call f d)
      process deliver f (σ.net.dests d).process
    else modify (skip d)
    visit deliver f ds

/-- `deliver_frame_to_stream`. The depth of the calls is bounded by `fuel`. -/
def deliver : ℕ → Picture → ℕ → FlowM Unit
  | 0, _, _ => throw .loop
  | fuel + 1, f, s => do
    modify (hand f s)
    let σ ← get
    visit (deliver fuel) f (σ.net.streams s).destList

end Flow

/-- What happens to the streams. -/
inductive FlowAction
  /-- An input module delivers a frame. -/
  | capture (f : Picture) (s : ℕ)
  /-- `set_waiting` is called outside of a delivery. -/
  | wait (waiting : ℕ → Bool)

/-- The filters of a configuration have passed `end_block`. -/
def StreamNet.Ended (net : StreamNet) : Prop :=
  ∀ k < net.nDrops, (net.drops k).input.isSome ∧ (net.drops k).output.isSome ∧
    1 ≤ (net.drops k).scale

instance StreamNet.decidableEnded (net : StreamNet) : Decidable net.Ended :=
  inferInstanceAs (Decidable (∀ k < net.nDrops, _))

/-- The streams of a configuration whose filters have one `input` line each, and any captured frames
and changes of the flags. -/
def flowMachine : Machine Flow FlowAction Empty Fault where
  Init σ := (∃ ls : List StreamNet.Line, (ls.filterMap StreamNet.Line.inputOf).Nodup ∧
      StreamNet.empty.configured ls = some σ.net) ∧ σ.net.Ended ∧
    (∀ k, σ.count k = 0) ∧ (∀ s, σ.delivered s = []) ∧ (∀ d, σ.processed d = []) ∧
    ∀ d, σ.missed d = 0
  step σ a := match a with
    | .capture f s => ((Flow.deliver σ.net.nStreams f s).run σ).map fun r => (r.2, [])
    | .wait waiting => .ok ({ σ with waiting }, [])

/-- The stream is one of an input module. -/
def Origin.isInput : Origin → Bool
  | .input _ _ => true
  | _ => false

/-- An input module delivers frames to its stream, whatever they are. -/
def Flow.Captures (σ : Flow) : FlowAction → Prop
  | .capture _ s => s < σ.net.nStreams ∧ (σ.net.streams s).origin.isInput = true
  | .wait _ => True

instance Flow.decidableCaptures (σ : Flow) : ∀ a, Decidable (σ.Captures a)
  | .capture _ _ => inferInstanceAs (Decidable (_ ∧ _))
  | .wait _ => inferInstanceAs (Decidable True)

/-! ## The layout -/

/-- What a delivery relies on. -/
structure StreamNet.Layout (net : StreamNet) : Prop where
  well : net.WellFormed
  upward : net.Upward
  ended : net.Ended

/-- A destination passes frames on to a stream. -/
def StreamNet.Feeds (net : StreamNet) (d t : ℕ) : Prop :=
  (net.dests d).process = .convert t ∨
    ∃ k, (net.dests d).process = .framedrop k ∧ (net.drops k).output = some t

namespace StreamNet

variable {net : StreamNet} {d e t : ℕ}

/-- A filter has an input, an output and a scale. -/
theorem Ended.filter (h : net.Ended) {k : ℕ} (hk : k < net.nDrops) : ∃ d t,
    (net.drops k).input = some d ∧ (net.drops k).output = some t ∧ 1 ≤ (net.drops k).scale := by
  obtain ⟨hin, hout, hscale⟩ := h k hk
  obtain ⟨d, hd⟩ := Option.isSome_iff_exists.1 hin
  obtain ⟨t, ht⟩ := Option.isSome_iff_exists.1 hout
  exact ⟨d, t, hd, ht, hscale⟩

/-- What a filter feeds. -/
theorem Layout.output (h : net.Layout) {k : ℕ} (hd : d < net.nDests)
    (hk : (net.dests d).process = .framedrop k) (ht : (net.drops k).output = some t) :
    t < net.nStreams ∧ (net.streams t).origin = .framedrop k ∧ (net.dests d).stream < t ∧
      (net.streams t).format = (net.streams (net.dests d).stream).format := by
  obtain ⟨hlt, horigin⟩ := h.well.output k (h.well.filters d hd k hk) t ht
  exact ⟨hlt, horigin, h.upward.upward t hlt k horigin d hd hk,
    h.upward.format t hlt k horigin d hd hk⟩

/-- Frames only go up. -/
theorem Layout.feeds_lt (h : net.Layout) (hd : d < net.nDests) (hf : net.Feeds d t) :
    (net.dests d).stream < t ∧ t < net.nStreams := by
  rcases hf with hc | ⟨k, hk, ht⟩
  · obtain ⟨hlt, hup, -⟩ := h.well.converts d hd t hc
    exact ⟨hup, hlt⟩
  · obtain ⟨hlt, -, hup, -⟩ := h.output hd hk ht
    exact ⟨hup, hlt⟩

/-- A stream is fed by one destination. -/
theorem Layout.feeds_unique (h : net.Layout) (hd : d < net.nDests) (he : e < net.nDests)
    (hdt : net.Feeds d t) (het : net.Feeds e t) : d = e := by
  rcases hdt with hc | ⟨k, hk, ht⟩ <;> rcases het with hc' | ⟨k', hk', ht'⟩
  · have horigin := (h.well.converts d hd t hc).2.2.1
    rw [(h.well.converts e he t hc').2.2.1] at horigin
    exact (Origin.convert.inj horigin).symm
  · have horigin := (h.well.converts d hd t hc).2.2.1
    rw [(h.output he hk' ht').2.1] at horigin
    cases horigin
  · have horigin := (h.well.converts e he t hc').2.2.1
    rw [(h.output hd hk ht).2.1] at horigin
    cases horigin
  · have horigin := (h.output hd hk ht).2.1
    rw [(h.output he hk' ht').2.1] at horigin
    cases horigin
    exact h.upward.unique d hd e he k hk hk'

end StreamNet

/-! ## What a delivery keeps -/

/-- The picture that a converter makes: there are no bytes in it. -/
def Picture.toRgb (uyvy : Picture) : Picture :=
  { format := .rawRgb24, width := uyvy.width, height := uyvy.height,
    length := Int.bmod (uyvy.height * uyvy.width * 3) (2 ^ 32), key := uyvy.key, data := [] }

/-- **A converter makes a picture of an empty frame only.** -/
theorem Flow.convertUyvyToRgb24_eq_ok {uyvy rgb : Picture} {free : Bool} :
    Flow.convertUyvyToRgb24 uyvy free = .ok rgb ↔ free = true ∧ uyvy.length < 2 ∧ rgb = uyvy.toRgb := by
  have hzero : roundsOf (uyvy.length.tdiv 2 * 2) 4 = 0 ↔ uyvy.length < 2 := by
    unfold roundsOf
    rw [Int.tdiv_eq_ediv, show Int.sign 2 = 1 from rfl]
    split_ifs <;> omega
  have hloop : ∀ data, uyvy2rgb uyvy.data [] (uyvy.length.tdiv 2) = .ok data ↔
      uyvy.length < 2 ∧ data = [] := by
    intro data
    constructor
    · intro h
      have h0 : roundsOf (uyvy.length.tdiv 2 * 2) 4 = 0 := by
        rcases (convertPixels_ok_iff (n := 6) (fun _ => rfl) rfl).1 ⟨data, h⟩ with h0 | ⟨-, hdest⟩
        · exact h0
        · simpa using hdest
      unfold uyvy2rgb convertPixels at h
      rw [h0] at h
      exact ⟨hzero.1 h0, (Except.ok.inj h).symm⟩
    · rintro ⟨hlt, rfl⟩
      unfold uyvy2rgb convertPixels
      rw [hzero.2 hlt]
      rfl
  unfold Flow.convertUyvyToRgb24
  cases free with
  | false => simp
  | true =>
    rw [if_pos rfl, bind_eq_ok]
    constructor
    · rintro ⟨data, hdata, hrgb⟩
      obtain ⟨hlt, rfl⟩ := (hloop data).1 hdata
      exact ⟨rfl, hlt, (Except.ok.inj hrgb).symm⟩
    · rintro ⟨-, hlt, rfl⟩
      exact ⟨[], (hloop []).2 ⟨hlt, rfl⟩, rfl⟩

namespace Flow

variable {σ σ' σ₁ σ₂ : Flow} {d e k s t : ℕ} {f : Picture} {offered : List Picture} {ds : List ℕ}

/-- What a destination made of the frames that it was offered. -/
structure Took (σ : Flow) (d : ℕ) (offered : List Picture) : Prop where
  sublist : (σ.processed d).Sublist offered
  missed : (σ.processed d).length + σ.missed d = offered.length
  count : ∀ k, (σ.net.dests d).process = .framedrop k →
    σ.count k = (σ.processed d).length % (σ.net.drops k).scale
  filter : ∀ k, (σ.net.dests d).process = .framedrop k → ∀ t, (σ.net.drops k).output = some t →
    σ.delivered t = every (σ.net.drops k).scale.toNat (σ.processed d)
  convert : ∀ t, (σ.net.dests d).process = .convert t →
    (∀ f ∈ σ.processed d, f.length < 2) ∧ σ.delivered t = (σ.processed d).map Picture.toRgb

/-- The destinations of the streams from `s` on took what was delivered. -/
structure Sound (s : ℕ) (σ : Flow) : Prop where
  took : ∀ d < σ.net.nDests, s ≤ (σ.net.dests d).stream →
    σ.Took d (σ.delivered (σ.net.dests d).stream)

/-- What a delivery to the stream `s` leaves alone. -/
structure Spared (s : ℕ) (σ σ' : Flow) : Prop where
  net : σ'.net = σ.net
  processed : ∀ d < σ.net.nDests, (σ.net.dests d).stream < s → σ'.processed d = σ.processed d
  missed : ∀ d < σ.net.nDests, (σ.net.dests d).stream < s → σ'.missed d = σ.missed d
  count : ∀ d < σ.net.nDests, (σ.net.dests d).stream < s →
    ∀ k, (σ.net.dests d).process = .framedrop k → σ'.count k = σ.count k
  delivered : ∀ t, t ≠ s → (∀ d < σ.net.nDests, σ.net.Feeds d t → (σ.net.dests d).stream < s) →
    σ'.delivered t = σ.delivered t

/-- Nothing has happened. -/
theorem Spared.refl : Spared s σ σ := ⟨rfl, fun _ _ _ => rfl, fun _ _ _ => rfl,
  fun _ _ _ _ _ => rfl, fun _ _ _ => rfl⟩

/-- Two steps. -/
theorem Spared.trans (h : Spared s σ σ₁) (h' : Spared s σ₁ σ₂) : Spared s σ σ₂ := by
  obtain ⟨hnet, hp, hm, hc, hd⟩ := h'
  rw [h.net] at hnet hp hm hc hd
  exact ⟨hnet, fun d hlt hs => (hp d hlt hs).trans (h.processed d hlt hs),
    fun d hlt hs => (hm d hlt hs).trans (h.missed d hlt hs),
    fun d hlt hs k hk => (hc d hlt hs k hk).trans (h.count d hlt hs k hk),
    fun t ht hf => (hd t ht hf).trans (h.delivered t ht hf)⟩

/-- A delivery to a stream that is fed by a destination of `s` is part of one to `s`. -/
theorem Spared.of_feeds (h : Spared t σ σ') (hl : σ.net.Layout) (hd : d < σ.net.nDests)
    (hf : σ.net.Feeds d t) : Spared (σ.net.dests d).stream σ σ' where
  net := h.net
  processed e he hs := h.processed e he (hs.trans (hl.feeds_lt hd hf).1)
  missed e he hs := h.missed e he (hs.trans (hl.feeds_lt hd hf).1)
  count e he hs := h.count e he (hs.trans (hl.feeds_lt hd hf).1)
  delivered t' ht' hfed := by
    refine h.delivered t' ?_ fun e he hfe => (hfed e he hfe).trans (hl.feeds_lt hd hf).1
    rintro rfl
    exact lt_irrefl _ (hfed d hd hf)

/-- What a destination took stays as it is when a later stream gets a frame. -/
theorem Took.spared (h : σ.Took e offered) (hsp : Spared t σ σ') (hl : σ.net.Layout)
    (he : e < σ.net.nDests) (hlt : (σ.net.dests e).stream < t) (hnot : ¬ σ.net.Feeds e t) :
    σ'.Took e offered := by
  have hfed : ∀ t', σ.net.Feeds e t' → σ'.delivered t' = σ.delivered t' := by
    intro t' hf
    refine hsp.delivered t' ?_ fun e' he' hf' => ?_
    · rintro rfl
      exact hnot hf
    · rw [hl.feeds_unique he' he hf' hf]
      exact hlt
  have hp := hsp.processed e he hlt
  refine ⟨hp ▸ h.sublist, ?_, fun k hk => ?_, fun k hk t' ht' => ?_, fun t' ht' => ?_⟩
  · rw [hp, hsp.missed e he hlt]
    exact h.missed
  · rw [hsp.net] at hk ⊢
    rw [hp, hsp.count e he hlt k hk]
    exact h.count k hk
  · rw [hsp.net] at hk ht' ⊢
    rw [hp, hfed t' (.inr ⟨k, hk, ht'⟩)]
    exact h.filter k hk t' ht'
  · rw [hsp.net] at ht'
    rw [hp, hfed t' (.inl ht')]
    exact h.convert t' ht'

/-! ## The loop -/

/-- Halfway through the loop for `f`: the destinations `ds` are still to come, and `d` is set aside.
-/
structure Halfway (s d : ℕ) (before : List Picture) (f : Picture) (ds : List ℕ) (σ : Flow) :
    Prop where
  handed : σ.delivered s = before ++ [f]
  ahead : ∀ e ∈ ds, σ.Took e before
  behind : ∀ e < σ.net.nDests, s ≤ (σ.net.dests e).stream → e ≠ d → e ∉ ds →
    σ.Took e (σ.delivered (σ.net.dests e).stream)

section Halfway

variable {before : List Picture}

/-- The destination that is set aside and its filter do not matter to the others. -/
theorem Halfway.congr (h : σ.Halfway s d before f ds) (hnot : d ∉ ds) (hnet : σ'.net = σ.net)
    (hdelivered : σ'.delivered = σ.delivered)
    (hprocessed : ∀ e, e ≠ d → σ'.processed e = σ.processed e)
    (hmissed : ∀ e, e ≠ d → σ'.missed e = σ.missed e)
    (hcount : ∀ e k, e ∈ ds ∨ e < σ.net.nDests → e ≠ d →
      (σ.net.dests e).process = .framedrop k → σ'.count k = σ.count k) :
    σ'.Halfway s d before f ds := by
  have htook : ∀ e offered, e ∈ ds ∨ e < σ.net.nDests → e ≠ d → σ.Took e offered →
      σ'.Took e offered := by
    intro e offered he hne ht
    refine ⟨?_, ?_, fun k hk => ?_, fun k hk t hkt => ?_, fun t hkt => ?_⟩
    · exact hprocessed e hne ▸ ht.sublist
    · rw [hprocessed e hne, hmissed e hne]
      exact ht.missed
    · rw [hnet] at hk ⊢
      rw [hprocessed e hne, hcount e k he hne hk]
      exact ht.count k hk
    · rw [hnet] at hk hkt ⊢
      rw [hprocessed e hne, hdelivered]
      exact ht.filter k hk t hkt
    · rw [hnet] at hkt
      rw [hprocessed e hne, hdelivered]
      exact ht.convert t hkt
  refine ⟨hdelivered ▸ h.handed, fun e he => ?_, fun e he hs hne hnin => ?_⟩
  · refine htook e before (.inl he) ?_ (h.ahead e he)
    rintro rfl
    exact hnot he
  · rw [hnet] at he hs ⊢
    rw [hdelivered]
    exact htook e _ (.inr he) hne (h.behind e he hs hne hnin)

/-- The destination that is set aside passes a frame on. -/
theorem Halfway.fed (h : σ.Halfway (σ.net.dests d).stream d before f ds) (hl : σ.net.Layout)
    (hd : d < σ.net.nDests) (hnot : d ∉ ds) (hft : σ.net.Feeds d t)
    (hds : ∀ e ∈ ds, e < σ.net.nDests ∧ (σ.net.dests e).stream = (σ.net.dests d).stream)
    (hsp : Spared t σ σ') (hsound : σ'.Sound t) :
    σ'.Halfway (σ.net.dests d).stream d before f ds := by
  have hlt := (hl.feeds_lt hd hft).1
  have hfeeds : ∀ e < σ.net.nDests, e ≠ d → ¬ σ.net.Feeds e t := fun e he hne hf =>
    hne (hl.feeds_unique he hd hf hft)
  have hbelow : ∀ s < t, σ'.delivered s = σ.delivered s := fun s hs =>
    hsp.delivered s hs.ne fun e he hf => (hl.feeds_lt he hf).1.trans hs
  refine ⟨?_, fun e he => ?_, fun e he hs hne hnin => ?_⟩
  · rw [hbelow _ hlt]
    exact h.handed
  · obtain ⟨hlt', hs⟩ := hds e he
    refine (h.ahead e he).spared hsp hl hlt' (hs ▸ hlt) (hfeeds e hlt' ?_)
    rintro rfl
    exact hnot he
  · rw [hsp.net] at he hs ⊢
    by_cases hup : t ≤ (σ.net.dests e).stream
    · have htook := hsound.took e (hsp.net ▸ he) (hsp.net ▸ hup)
      rwa [hsp.net] at htook
    · rw [hbelow _ (not_le.1 hup)]
      exact (h.behind e he hs hne hnin).spared hsp hl he (not_le.1 hup) (hfeeds e he hne)

end Halfway

/-- Some destination converts what it gets. -/
def Converts (net : StreamNet) : Prop := ∃ d < net.nDests, ∃ t, (net.dests d).process = .convert t

/-- What a delivery to one of the streams after `s` keeps. -/
def Keeps (deliver : Picture → ℕ → FlowM Unit) (net : StreamNet) (s : ℕ) : Prop :=
  ∀ f t σ, σ.net = net → s < t → t < net.nStreams → σ.Sound t →
    wp (deliver f t) (fun _ σ' => σ'.Sound t ∧ Spared t σ σ' ∧
      σ'.delivered t = σ.delivered t ++ [f]) (fun _ => Converts net) σ

section Process

variable {before : List Picture} {dl : Picture → ℕ → FlowM Unit}

/-- A destination of a later stream is called. -/
theorem spared_call (hs : s ≤ (σ.net.dests d).stream) : Spared s σ (call f d σ) where
  net := rfl
  processed e he hlt := Function.update_of_ne (by rintro rfl; omega) ..
  missed _ _ _ := rfl
  count _ _ _ _ _ := rfl
  delivered _ _ _ := rfl

/-- A frame is dropped for a later stream. -/
theorem spared_skip (hs : s ≤ (σ.net.dests d).stream) : Spared s σ (skip d σ) where
  net := rfl
  processed _ _ _ := rfl
  missed e he hlt := Function.update_of_ne (by rintro rfl; omega) ..
  count _ _ _ _ _ := rfl
  delivered _ _ _ := rfl

/-- The input of a frame dropper of a later stream is counted. -/
theorem spared_countUp (hl : σ.net.Layout) (hd : d < σ.net.nDests)
    (hk : (σ.net.dests d).process = .framedrop k) (hs : s ≤ (σ.net.dests d).stream) :
    Spared s σ (countUp k σ) where
  net := rfl
  processed _ _ _ := rfl
  missed _ _ _ := rfl
  count e he hlt k' hk' := by
    refine Function.update_of_ne ?_ ..
    rintro rfl
    obtain rfl := hl.upward.unique e he d hd _ hk' hk
    omega
  delivered _ _ _ := rfl

/-- The counter of a filter. -/
theorem count_succ {m : ℕ} {n : ℤ} (hn : 1 ≤ n) :
    (if (m : ℤ) % n + 1 = n then 0 else (m : ℤ) % n + 1) = ((m + 1 : ℕ) : ℤ) % n := by
  have hlt := Int.emod_lt_of_pos (m : ℤ) (show 0 < n by omega)
  have hpos := Int.emod_nonneg (m : ℤ) (show n ≠ 0 by omega)
  rw [Nat.cast_succ, ← Int.emod_add_emod (m : ℤ) n 1]
  split_ifs with h
  · rw [h, Int.emod_self]
  · exact (Int.emod_eq_of_lt (by omega) (by omega)).symm

/-- The frames that a filter lets through. -/
theorem every_count {xs : List Picture} {n : ℤ} (hn : 1 ≤ n) : every n.toNat (xs ++ [f]) =
    if (xs.length : ℤ) % n = 0 then every n.toNat xs ++ [f] else every n.toNat xs := by
  have hdvd : n.toNat ∣ xs.length ↔ (xs.length : ℤ) % n = 0 := by
    rw [← Int.natCast_dvd_natCast, Int.toNat_of_nonneg (by omega), Int.dvd_iff_emod_eq_zero]
  rw [every_concat]
  simp only [hdvd]
  split_ifs
  · rfl
  · rw [List.append_nil]

/-- A frame goes to a destination that waits. -/
theorem Took.call_sublist (h : σ.Took d before) :
    ((call f d σ).processed d).Sublist (before ++ [f]) ∧
      ((call f d σ).processed d).length + σ.missed d = (before ++ [f]).length := by
  have hp : (call f d σ).processed d = σ.processed d ++ [f] := Function.update_self ..
  rw [hp]
  refine ⟨h.sublist.append (List.Sublist.refl _), ?_⟩
  rw [List.length_append, List.length_append, ← h.missed]
  omega

/-- The destination has been called, and is not one of those that are left. -/
theorem Halfway.call (h : σ.Halfway s d before f ds) (hnot : d ∉ ds) :
    (call f d σ).Halfway s d before f ds :=
  h.congr hnot rfl rfl (fun _ he => Function.update_of_ne he ..) (fun _ _ => rfl)
    fun _ _ _ _ _ => rfl

/-- The streams above the one that is looped over are sound. -/
theorem Halfway.sound (h : σ.Halfway s d before f ds) (hst : s < t)
    (hd : (σ.net.dests d).stream = s)
    (hds : ∀ e ∈ ds, e < σ.net.nDests ∧ (σ.net.dests e).stream = s) : σ.Sound t where
  took e he hs := by
    refine h.behind e he (hst.le.trans hs) (fun hed => ?_) fun hmem => ?_
    · subst hed
      omega
    · have hstream := (hds e hmem).2
      omega

/-- The turn of the destination `d` in the loop for `f` over the destinations of its stream, of which
`ds` are left. It waits, and has taken what it was offered before. -/
structure Turn (d : ℕ) (before : List Picture) (f : Picture) (ds : List ℕ) (σ : Flow) : Prop where
  layout : σ.net.Layout
  lt : d < σ.net.nDests
  notMem : d ∉ ds
  left : ∀ e ∈ ds, e < σ.net.nDests ∧ (σ.net.dests e).stream = (σ.net.dests d).stream
  halfway : σ.Halfway (σ.net.dests d).stream d before f ds
  took : σ.Took d before

/-- What its turn leaves: it has taken the frame as well, and the loop can go on. -/
structure Turned (d : ℕ) (before : List Picture) (f : Picture) (ds : List ℕ) (σ σ' : Flow) :
    Prop where
  halfway : σ'.Halfway (σ.net.dests d).stream d before f ds
  took : σ'.Took d (before ++ [f])
  spared : Spared (σ.net.dests d).stream σ σ'

/-- In its turn the destination is called. -/
theorem Turn.called (h : σ.Turn d before f ds) :
    (call f d σ).Halfway (σ.net.dests d).stream d before f ds ∧
      (call f d σ).processed d = σ.processed d ++ [f] ∧
      Spared (σ.net.dests d).stream σ (call f d σ) :=
  ⟨h.halfway.call h.notMem, Function.update_self .., spared_call le_rfl⟩

/-- **An output takes the frame.** It may set flags. -/
theorem wp_process_output (h : σ.Turn d before f ds)
    (hp : (σ.net.dests d).process = .output) :
    wp (process dl f .output) (fun _ => σ.Turned d before f ds) (fun _ => Converts σ.net)
      (call f d σ) := by
  obtain ⟨hcall, -, hspared⟩ := h.called
  obtain ⟨hsub, hmissed⟩ := h.took.call_sublist (f := f)
  unfold process
  rw [wp_modify]
  refine ⟨hcall.congr h.notMem rfl rfl (fun _ _ => rfl) (fun _ _ => rfl) fun _ _ _ _ _ => rfl,
    ⟨hsub, hmissed, fun k hk => ?_, fun k hk => ?_, fun t hk => ?_⟩,
    ⟨rfl, hspared.processed, hspared.missed, hspared.count, hspared.delivered⟩⟩
  all_goals
    rw [show (σ.net.dests d).process = _ from hk] at hp
    cases hp

/-- Once the frame is delivered, or not, the counter of the filter goes on. -/
theorem Turn.countUp (h : σ.Turn d before f ds) (hp : (σ.net.dests d).process = .framedrop k)
    (hscale : 1 ≤ (σ.net.drops k).scale) (hout : (σ.net.drops k).output = some t)
    (hhalf : σ'.Halfway (σ.net.dests d).stream d before f ds)
    (hsp : Spared (σ.net.dests d).stream (call f d σ) σ')
    (hprocessed : σ'.processed d = σ.processed d ++ [f]) (hmissed : σ'.missed d = σ.missed d)
    (hcount : σ'.count k = σ.count k)
    (hdelivered : σ'.delivered t = every (σ.net.drops k).scale.toNat (σ.processed d ++ [f])) :
    σ.Turned d before f ds (countUp k σ') := by
  obtain ⟨-, hself, hspared⟩ := h.called
  obtain ⟨hsub, hlen⟩ := h.took.call_sublist (f := f)
  have hnet : σ'.net = σ.net := hsp.net
  have hup : Spared (σ.net.dests d).stream σ' (Flow.countUp k σ') := by
    have hl := h.layout
    have hd := h.lt
    rw [← hnet] at hl hd hp ⊢
    exact spared_countUp hl hd hp le_rfl
  have hfilter : ∀ k', (σ'.net.dests d).process = .framedrop k' → k' = k := by
    intro k' hk'
    rw [hnet, hp] at hk'
    exact (Processor.framedrop.inj hk').symm
  refine ⟨hhalf.congr h.notMem rfl rfl (fun _ _ => rfl) (fun _ _ => rfl)
      fun e k' he hne hk' => ?_,
    ⟨?_, ?_, fun k' hk' => ?_, fun k' hk' t' ht' => ?_, fun t' ht' => ?_⟩,
    (hspared.trans hsp).trans hup⟩
  · refine Function.update_of_ne ?_ ..
    rintro rfl
    rw [hnet] at he hk'
    have hlt := he.elim (fun hmem => (h.left e hmem).1) id
    exact hne (h.layout.upward.unique e hlt d h.lt _ hk' hp)
  · exact hprocessed ▸ hself ▸ hsub
  · exact hprocessed ▸ hmissed ▸ hself ▸ hlen
  · obtain rfl := hfilter k' hk'
    have hcount' : σ'.count k' = (σ.processed d).length % (σ'.net.drops k').scale := by
      rw [hnet, hcount]
      exact h.took.count k' hp
    have hmore : ((Flow.countUp k' σ').processed d).length = (σ.processed d).length + 1 := by
      rw [show (Flow.countUp k' σ').processed d = σ.processed d ++ [f] from hprocessed]
      simp
    refine (Function.update_self ..).trans ?_
    rw [hmore, hcount']
    exact count_succ (hnet ▸ hscale)
  · obtain rfl := hfilter k' hk'
    have ht' : (σ.net.drops k').output = some t' := hnet ▸ ht'
    obtain rfl := Option.some.inj (ht'.symm.trans hout)
    rw [show (Flow.countUp k' σ').net = σ.net from hnet,
      show (Flow.countUp k' σ').processed d = σ.processed d ++ [f] from hprocessed]
    exact hdelivered
  · have ht' : (σ.net.dests d).process = .convert t' := hnet ▸ ht'
    exact absurd (ht'.symm.trans hp) (by simp)

/-- **A filter takes the frame**, and passes it on if its counter is at zero. -/
theorem wp_process_framedrop (hkeep : Keeps dl σ.net (σ.net.dests d).stream)
    (h : σ.Turn d before f ds) (hp : (σ.net.dests d).process = .framedrop k) :
    wp (process dl f (.framedrop k)) (fun _ => σ.Turned d before f ds)
      (fun _ => Converts σ.net) (call f d σ) := by
  obtain ⟨hcall, hself, -⟩ := h.called
  have hk := h.layout.well.filters d h.lt k hp
  obtain ⟨-, t, -, hout, hscale⟩ := h.layout.ended.filter hk
  obtain ⟨hlt, -, hup, -⟩ := h.layout.output h.lt hp hout
  have hfeeds : σ.net.Feeds d t := .inr ⟨k, hp, hout⟩
  have hcount : σ.count k = (σ.processed d).length % (σ.net.drops k).scale :=
    h.took.count k hp
  have hbefore := h.took.filter k hp t hout
  unfold process
  rw [wp_bind, wp_get]
  dsimp only
  rw [wp_ite]
  refine ⟨fun hzero => ?_, fun hzero => ?_⟩
  · rw [wp_bind, wp_found]
    refine ⟨fun s hs => ?_, fun hnone => ?_⟩
    · obtain rfl := Option.some.inj (hs.symm.trans hout)
      rw [wp_bind]
      refine (hkeep f s (call f d σ) rfl hup hlt (hcall.sound hup rfl h.left)).imp
        fun _ σ₂ h₂ => ?_
      obtain ⟨hsound, hsp, hdel⟩ := h₂
      refine h.countUp hp hscale hout
        (Halfway.fed (σ := call f d σ) hcall h.layout h.lt h.notMem hfeeds h.left hsp hsound)
        (hsp.of_feeds h.layout h.lt hfeeds) ((hsp.processed d h.lt hup).trans hself)
        (hsp.missed d h.lt hup) (hsp.count d h.lt hup k hp) ?_
      rw [hdel, every_count hscale, if_pos (hcount.symm.trans hzero)]
      exact congrArg (· ++ [f]) hbefore
    · exact absurd (hnone.symm.trans hout) (by simp)
  · refine h.countUp hp hscale hout hcall .refl hself rfl rfl ?_
    rw [every_count hscale, if_neg fun heq => hzero (hcount.trans heq)]
    exact hbefore

/-- **A converter takes the frame**, and delivers the picture that it makes of it; or the picture
does not fit. -/
theorem wp_process_convert (hkeep : Keeps dl σ.net (σ.net.dests d).stream)
    (h : σ.Turn d before f ds) (hp : (σ.net.dests d).process = .convert t) :
    wp (process dl f (.convert t)) (fun _ => σ.Turned d before f ds)
      (fun _ => Converts σ.net) (call f d σ) := by
  obtain ⟨hcall, hself, hspared⟩ := h.called
  obtain ⟨hsub, hmissed⟩ := h.took.call_sublist (f := f)
  have hfeeds : σ.net.Feeds d t := .inl hp
  obtain ⟨hup, hlt⟩ := h.layout.feeds_lt h.lt hfeeds
  unfold process
  rw [wp_bind, wp_get, wp_bind]
  rcases hconv : convertUyvyToRgb24 f ((call f d σ).heap (call f d σ).calls) with e | rgb
  · exact ⟨d, h.lt, t, hp⟩
  obtain ⟨-, hlen, rfl⟩ := convertUyvyToRgb24_eq_ok.1 hconv
  refine (hkeep f.toRgb t (call f d σ) rfl hup hlt (hcall.sound hup rfl h.left)).imp
    fun _ σ₂ h₂ => ?_
  obtain ⟨hsound, hsp, hdel⟩ := h₂
  obtain ⟨hshort, hmap⟩ := h.took.convert t hp
  have hprocessed : σ₂.processed d = σ.processed d ++ [f] :=
    (hsp.processed d h.lt hup).trans hself
  refine ⟨Halfway.fed (σ := call f d σ) hcall h.layout h.lt h.notMem hfeeds h.left hsp hsound,
    ⟨?_, ?_, fun k hk => ?_, fun k hk => ?_, fun t' ht' => ?_⟩,
    hspared.trans (hsp.of_feeds h.layout h.lt hfeeds)⟩
  · rw [hprocessed, ← hself]
    exact hsub
  · rw [hprocessed, ← hself, hsp.missed d h.lt hup]
    exact hmissed
  · rw [hsp.net] at hk
    exact absurd (hk.symm.trans hp) (by simp)
  · rw [hsp.net] at hk
    exact absurd (hk.symm.trans hp) (by simp)
  · rw [hsp.net] at ht'
    obtain rfl := Processor.convert.inj (ht'.symm.trans hp)
    rw [hprocessed, hdel, List.map_append]
    refine ⟨fun g hg => ?_, congrArg (· ++ [f.toRgb]) hmap⟩
    rcases List.mem_append.1 hg with hg | hg
    · exact hshort g hg
    · exact List.mem_singleton.1 hg ▸ hlen

/-- **One destination**, whatever it is. -/
theorem wp_process (hkeep : Keeps dl σ.net (σ.net.dests d).stream) (h : σ.Turn d before f ds) :
    wp (process dl f (σ.net.dests d).process) (fun _ => σ.Turned d before f ds)
      (fun _ => Converts σ.net) (call f d σ) := by
  cases hp : (σ.net.dests d).process with
  | output => exact wp_process_output h hp
  | framedrop k => exact wp_process_framedrop hkeep h hp
  | convert t => exact wp_process_convert hkeep h hp

/-- One destination after the other. -/
theorem wp_visit {net : StreamNet} (hkeep : Keeps dl net s) (hl : net.Layout) (hnodup : ds.Nodup)
    (hds : ∀ e ∈ ds, e < net.nDests ∧ (net.dests e).stream = s)
    (hnet : σ.net = net)
    (h : σ.Halfway s net.nDests before f ds) :
    wp (visit dl f ds) (fun _ σ' => σ'.Halfway s net.nDests before f [] ∧ Spared s σ σ')
      (fun _ => Converts net) σ := by
  induction ds generalizing σ with
  | nil => exact ⟨h, .refl⟩
  | cons d ds ih =>
    subst hnet
    obtain ⟨hnot, hnodup⟩ := List.nodup_cons.1 hnodup
    obtain ⟨hd, rfl⟩ := hds d List.mem_cons_self
    have hds' := fun e he => hds e (List.mem_cons_of_mem d he)
    have htook := h.ahead d List.mem_cons_self
    have haside : σ.Halfway (σ.net.dests d).stream d before f ds := by
      refine ⟨h.handed, fun e he => h.ahead e (List.mem_cons_of_mem d he),
        fun e he hs hne hnin => h.behind e he hs he.ne ?_⟩
      exact fun hmem => (List.mem_cons.1 hmem).elim hne hnin
    -- the destination joins the others, and the loop goes on
    have hrest : ∀ σ₁ : Flow, σ₁.Halfway (σ.net.dests d).stream d before f ds →
        σ₁.Took d (before ++ [f]) → Spared (σ.net.dests d).stream σ σ₁ →
        wp (visit dl f ds) (fun _ σ' => σ'.Halfway (σ.net.dests d).stream σ.net.nDests before f [] ∧
          Spared (σ.net.dests d).stream σ σ') (fun _ => Converts σ.net) σ₁ := by
      intro σ₁ h₁ ht₁ hsp
      refine (ih hnodup hds' hsp.net ⟨h₁.handed, h₁.ahead, fun e he hs _ hnin => ?_⟩).imp
        fun _ σ' h' => ⟨h'.1, hsp.trans h'.2⟩
      by_cases hed : e = d
      · subst hed
        rw [hsp.net, h₁.handed]
        exact ht₁
      · exact h₁.behind e he hs hed hnin
    unfold visit
    rw [wp_bind, wp_get]
    dsimp only
    rw [wp_ite]
    refine ⟨fun _ => ?_, fun _ => ?_⟩
    · rw [wp_bind, wp_modify, wp_bind]
      refine (wp_process hkeep ⟨hl, hd, hnot, hds', haside, htook⟩).imp fun _ σ₁ h₁ => ?_
      exact hrest σ₁ h₁.halfway h₁.took h₁.spared
    · rw [wp_bind, wp_modify]
      refine hrest _ (haside.congr hnot rfl rfl (fun _ _ => rfl)
        (fun _ he => Function.update_of_ne he ..) fun _ _ _ _ _ => rfl)
        ⟨?_, ?_, htook.count, htook.filter, htook.convert⟩ (spared_skip le_rfl)
      · exact htook.sublist.trans (List.sublist_append_left before [f])
      · have hm : (skip d σ).missed d = σ.missed d + 1 := Function.update_self ..
        rw [hm, List.length_append, ← htook.missed]
        rfl

/-- Frames that are handed to a stream do not reach destinations of earlier ones. -/
theorem Took.hand (h : σ.Took e offered) (hl : σ.net.Layout) (he : e < σ.net.nDests)
    (hs : s ≤ (σ.net.dests e).stream) : (hand f s σ).Took e offered := by
  have hfed : ∀ t, σ.net.Feeds e t → (Flow.hand f s σ).delivered t = σ.delivered t := fun t hf =>
    Function.update_of_ne (hs.trans_lt (hl.feeds_lt he hf).1).ne' ..
  refine ⟨h.sublist, h.missed, h.count, fun k hk t ht => ?_, fun t ht => ?_⟩
  · rw [hfed t (.inr ⟨k, hk, ht⟩)]
    exact h.filter k hk t ht
  · rw [hfed t (.inl ht)]
    exact h.convert t ht

/-- **A delivery.** -/
theorem wp_deliver {net : StreamNet} (hl : net.Layout) (fuel : ℕ) :
    ∀ s f σ, σ.net = net → s < net.nStreams → σ.Sound s → net.nStreams ≤ fuel + s →
      wp (deliver fuel f s) (fun _ σ' => σ'.Sound s ∧ Spared s σ σ' ∧
        σ'.delivered s = σ.delivered s ++ [f]) (fun _ => Converts net) σ := by
  induction fuel with
  | zero => exact fun s f σ _ hs _ hfuel => absurd hfuel (by omega)
  | succ fuel ih =>
    rintro s f σ rfl hs hsound hfuel
    have hkeep : Keeps (deliver fuel) σ.net s := fun f t σ' hnet hst ht hsound =>
      ih t f σ' hnet ht hsound (by omega)
    have hself : (hand f s σ).delivered s = σ.delivered s ++ [f] := Function.update_self ..
    have hother : ∀ t, t ≠ s → (hand f s σ).delivered t = σ.delivered t := fun t ht =>
      Function.update_of_ne ht ..
    have hdests := hl.well.destList s hs
    have hstart : (hand f s σ).Halfway s σ.net.nDests (σ.delivered s) f (σ.net.streams s).destList := by
      refine ⟨hself, fun e he => ?_, fun e he hse _ hnin => ?_⟩
      · obtain ⟨hlt, hes⟩ := (hdests e).1 he
        have htook := hsound.took e hlt hes.ge
        rw [hes] at htook
        exact htook.hand hl hlt hes.ge
      · have hne : (σ.net.dests e).stream ≠ s := fun heq => hnin ((hdests e).2 ⟨he, heq⟩)
        rw [show (hand f s σ).net = σ.net from rfl, hother _ hne]
        exact (hsound.took e he hse).hand hl he hse
    unfold deliver
    rw [wp_bind, wp_modify, wp_bind, wp_get]
    refine (wp_visit (σ := hand f s σ) hkeep hl (hl.well.nodup s hs) (fun e he => (hdests e).1 he)
      rfl hstart).imp fun _ σ' h' => ?_
    obtain ⟨hdone, hsp⟩ := h'
    refine ⟨⟨fun e he hse => ?_⟩, ?_, hdone.handed⟩
    · rw [hsp.net] at he
      exact hdone.behind e (hsp.net ▸ he) hse (Nat.ne_of_lt he) List.not_mem_nil
    · have hhand : Spared s σ (hand f s σ) := ⟨rfl, fun _ _ _ => rfl, fun _ _ _ => rfl,
        fun _ _ _ _ _ => rfl, fun t ht _ => hother t ht⟩
      exact hhand.trans hsp

end Process

/-! ## Runs -/

/-- The frames that were captured for a stream. -/
def captured (s : ℕ) (as : List FlowAction) : List Picture :=
  as.flatMap fun a => match a with
    | .capture f t => if t = s then [f] else []
    | .wait _ => []

/-- A frame was captured for a stream in one of the calls. -/
theorem mem_captured {as : List FlowAction} (h : f ∈ captured s as) : .capture f s ∈ as := by
  obtain ⟨a, ha, hf⟩ := List.mem_flatMap.1 h
  cases a with
  | capture g t =>
    dsimp only at hf
    split_ifs at hf with hts
    · rwa [List.mem_singleton.1 hf, ← hts]
    · cases hf
  | wait => cases hf

/-- What holds in every run. -/
structure Flowing (σ : Flow) : Prop where
  layout : σ.net.Layout
  sound : σ.Sound 0

/-- It holds at the start. -/
theorem flowing_init (h : flowMachine.Init σ) : σ.Flowing := by
  obtain ⟨⟨ls, honce, hls⟩, hended, hcount, hdelivered, hprocessed, hmissed⟩ := h
  refine ⟨⟨StreamNet.wellFormed_configured hls, StreamNet.upward_configured honce hls, hended⟩,
    ⟨fun d _ _ => ⟨?_, ?_, fun k _ => ?_, fun k _ t _ => ?_, fun t _ => ?_⟩⟩⟩
  · rw [hprocessed, hdelivered]
  · rw [hprocessed, hmissed, hdelivered]
    rfl
  · rw [hcount, hprocessed]
    simp
  · rw [hprocessed, hdelivered]
    rfl
  · rw [hprocessed, hdelivered]
    exact ⟨fun f hf => absurd hf List.not_mem_nil, rfl⟩

/-- What happens in one step: the streams stay what they are, and a stream that no destination feeds
gets what was captured for it. -/
structure Stepped (σ : Flow) (a : FlowAction) (σ' : Flow) : Prop where
  flowing : σ'.Flowing
  net : σ'.net = σ.net
  unfed : ∀ t, (∀ d < σ.net.nDests, ¬ σ.net.Feeds d t) →
    σ'.delivered t = σ.delivered t ++ captured t [a]

/-- A captured frame.

**Proof sketch.** The streams of input modules are fed by no destination, so nothing that is known
of earlier streams is about the stream of the module; what `wp_deliver` says of that stream and the
later ones, and `Spared` of the earlier ones, is all there is to know. -/
theorem Flowing.capture (h : σ.Flowing) (hs : s < σ.net.nStreams)
    (hinput : (σ.net.streams s).origin.isInput = true) :
    wp (deliver σ.net.nStreams f s) (fun _ σ' => Stepped σ (.capture f s) σ')
      (fun _ => Converts σ.net) σ := by
  have hunfed : ∀ d < σ.net.nDests, ¬ σ.net.Feeds d s := by
    rintro d hd (hc | ⟨k, hk, ht⟩)
    · rw [(h.layout.well.converts d hd s hc).2.2.1] at hinput
      cases hinput
    · rw [(h.layout.output hd hk ht).2.1] at hinput
      cases hinput
  have hsound : σ.Sound s := ⟨fun d hd _ => h.sound.took d hd (Nat.zero_le _)⟩
  refine (wp_deliver h.layout σ.net.nStreams s f σ rfl hs hsound (Nat.le_add_right _ _)).imp
    fun _ σ' h' => ?_
  obtain ⟨hsound', hsp, hdelivered⟩ := h'
  refine ⟨⟨hsp.net ▸ h.layout, ⟨fun d hd _ => ?_⟩⟩, hsp.net, fun t ht => ?_⟩
  · by_cases hup : s ≤ (σ'.net.dests d).stream
    · exact hsound'.took d hd hup
    · -- nothing happened below the stream
      rw [hsp.net] at hd hup ⊢
      have hlt := not_le.1 hup
      have hsame : σ'.delivered (σ.net.dests d).stream = σ.delivered (σ.net.dests d).stream :=
        hsp.delivered _ hlt.ne fun e he hf => (h.layout.feeds_lt he hf).1.trans hlt
      rw [hsame]
      exact (h.sound.took d hd (Nat.zero_le _)).spared hsp h.layout hd hlt (hunfed d hd)
  · by_cases hts : t = s
    · subst hts
      simpa [captured] using hdelivered
    · rw [hsp.delivered t hts fun d hd hf => absurd hf (ht d hd)]
      simp [captured, Ne.symm hts]

/-- **One step.** -/
theorem Flowing.step (h : σ.Flowing) {a : FlowAction} {os : List Empty} (hguard : σ.Captures a)
    (hstep : flowMachine.step σ a = .ok (σ', os)) : Stepped σ a σ' := by
  cases a with
  | capture f s =>
    have hwp := h.capture (f := f) hguard.1 hguard.2
    change ((deliver σ.net.nStreams f s).run σ).map _ = _ at hstep
    rcases hrun : (deliver σ.net.nStreams f s).run σ with e | ⟨u, σ₁⟩ <;> rw [hrun] at hstep
    · cases hstep
    · cases hstep
      exact hwp.ok hrun
  | wait waiting =>
    cases hstep
    refine ⟨⟨h.layout, ⟨fun d hd hs => ?_⟩⟩, rfl, fun t _ => (List.append_nil _).symm⟩
    have htook := h.sound.took d hd hs
    exact ⟨htook.sublist, htook.missed, htook.count, htook.filter, htook.convert⟩

section Runs

variable {as : List FlowAction} {os : List Empty}

/-- **Every run** keeps what a delivery keeps. -/
theorem flowing_run (h : Machine.Run flowMachine Captures as os σ) : σ.Flowing :=
  h.invariant Flowing (fun _ h0 => flowing_init h0) fun _ _ _ _ hflow hguard hstep =>
    (hflow.step hguard hstep).flowing

/-- **In every run** a stream that no destination feeds gets the frames that were captured for it, in
their order. -/
theorem captured_run (h : Machine.Run flowMachine Captures as os σ)
    (ht : ∀ d < σ.net.nDests, ¬ σ.net.Feeds d t) : σ.delivered t = captured t as := by
  refine (h.history (fun as _ (σ : Flow) => σ.Flowing ∧ ∀ t, (∀ d < σ.net.nDests, ¬ σ.net.Feeds d t) →
    σ.delivered t = captured t as) ?_ ?_).2 t ht
  · exact fun σ h0 => ⟨flowing_init h0, fun t _ => h0.2.2.2.1 t⟩
  · rintro as os σ a σ' o ⟨hflow, hall⟩ hguard hstep
    have hnext := hflow.step hguard hstep
    refine ⟨hnext.flowing, fun t ht => ?_⟩
    rw [hnext.net] at ht
    rw [hnext.unfed t ht, hall t ht]
    exact List.flatMap_append.symm

end Runs

end Flow

end Spook
