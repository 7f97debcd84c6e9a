import Mathlib.Data.Int.ModEq
import Spook.Streams.Flow

set_option relaxedAutoImplicit false
set_option autoImplicit false

/-!
# What comes out of the streams

The formats of the frames that the modules get, the frames that come through filters and the frame
rate that their streams tell, and what comes through a converter.

## Main definitions

* `Spook.StreamNet.getFramerate` — `get_framerate` of a stream.
* `Spook.StreamNet.Behind` — a stream stands behind filters.

## Main results

* `Spook.formats_run` — a module gets frames in the formats that it asked for, if the modules that
  capture them keep to the formats of their streams.
* `Spook.framerate_run` — behind filters a stream gets every so many frames, as its frame rate says.
* `Spook.converter_run` — no byte comes through a converter.
-/

namespace Spook

namespace StreamNet

/-- `get_framerate` of a stream. The depth of the calls is bounded by `fuel`. -/
def getFramerate (net : StreamNet) : ℕ → ℕ → Except Fault (ℤ × ℤ)
  | 0, _ => .error .loop
  | fuel + 1, s =>
    match (net.streams s).origin with
    | .input fincr fbase => .ok (fincr, fbase)
    | .convert d => net.getFramerate fuel (net.dests d).stream
    | .framedrop k =>
      match (net.drops k).input with
      | none => .error .nullDeref
      | some d => do
        let (fincr, fbase) ← net.getFramerate fuel (net.dests d).stream
        pure (Int.bmod (fincr * (net.drops k).scale) (2 ^ 32), fbase)

/-- The stream `t` stands behind filters with the inputs `ds`, of which every `n`-th frame of `s`
comes through. -/
inductive Behind (net : StreamNet) (s : ℕ) : List ℕ → ℕ → ℕ → Prop
  | here : Behind net s [] s 1
  | filter {ds : List ℕ} {t n d k : ℕ} : Behind net s ds (net.dests d).stream n → d < net.nDests →
      (net.dests d).process = .framedrop k → (net.drops k).output = some t →
      Behind net s (d :: ds) t (n * (net.drops k).scale.toNat)

variable {net : StreamNet} {ds : List ℕ} {s t n fuel : ℕ} {fincr fbase : ℤ}

/-- Some frames come through. -/
theorem Layout.behind_pos (h : net.Layout) (hb : net.Behind s ds t n) : 0 < n := by
  induction hb with
  | here => exact Nat.one_pos
  | @filter ds t n d k hb hd hk ht ih =>
    obtain ⟨-, -, -, -, hscale⟩ := h.ended.filter (h.well.filters d hd k hk)
    exact Nat.mul_pos ih (by omega)

/-- The frame rate that a stream behind filters tells: the base is that of the source, and the
increment is that of the source, `n` times, as far as an `int` holds it. -/
def Tells (net : StreamNet) (fuel t n : ℕ) (fincr fbase : ℤ) : Prop :=
  ∃ incr, net.getFramerate fuel t = .ok (incr, fbase) ∧ incr ≡ fincr * n [ZMOD 2 ^ 32] ∧
    (-2 ^ 31 ≤ fincr * n → fincr * n < 2 ^ 31 → incr = fincr * n)

/-- The frame rate of a filter.

**Proof sketch.** Induction on the filters. Each multiplies by its scale and wraps, which keeps the
increment modulo `2 ^ 32`, and an `int` that is congruent to one is that one. -/
theorem Layout.tells (h : net.Layout) (hb : net.Behind s ds t n)
    (horigin : (net.streams s).origin = .input fincr fbase) (hfuel : t < fuel) :
    net.Tells fuel t n fincr fbase := by
  induction hb generalizing fuel with
  | here =>
    obtain ⟨fuel, rfl⟩ := Nat.exists_eq_succ_of_ne_zero (Nat.ne_zero_of_lt hfuel)
    refine ⟨fincr, ?_, ?_, fun _ _ => ?_⟩
    · simp [StreamNet.getFramerate, horigin]
    · simp
    · simp
  | @filter ds t n d k hb hd hk ht ih =>
    obtain ⟨fuel, rfl⟩ := Nat.exists_eq_succ_of_ne_zero (Nat.ne_zero_of_lt hfuel)
    obtain ⟨-, hkind, hup, -⟩ := h.output hd hk ht
    have hkn := h.well.filters d hd k hk
    obtain ⟨e, -, hin, -, hscale⟩ := h.ended.filter hkn
    obtain ⟨he, hke⟩ := h.well.input k hkn e hin
    obtain rfl := h.upward.unique d hd e he k hk hke
    obtain ⟨incr, hbelow, hmod, -⟩ := @ih fuel (by omega)
    have hcast : ((n * (net.drops k).scale.toNat : ℕ) : ℤ) = n * (net.drops k).scale := by
      rw [Nat.cast_mul, Int.toNat_of_nonneg (by omega)]
    have hnext : Int.bmod (incr * (net.drops k).scale) (2 ^ 32) ≡
        fincr * (n * (net.drops k).scale) [ZMOD 2 ^ 32] := by
      rw [← mul_assoc]
      exact (Int.bmod_emod ..).trans (hmod.mul_right _)
    refine ⟨_, ?_, hcast ▸ hnext, fun hlow hhigh => ?_⟩
    · simp only [StreamNet.getFramerate, hkind, hin, hbelow]
      rfl
    · rw [hcast] at hlow hhigh ⊢
      have hle := Int.le_bmod (x := incr * (net.drops k).scale) (m := 2 ^ 32) (by decide)
      have hlt := Int.bmod_lt (x := incr * (net.drops k).scale) (m := 2 ^ 32) (by decide)
      unfold Int.ModEq at hnext
      omega

end StreamNet

namespace Flow

variable {σ : Flow} {ds : List ℕ} {s t n : ℕ}

/-- The frames come through filters in their order. -/
theorem Flowing.sublist (h : σ.Flowing) (hb : σ.net.Behind s ds t n) :
    (σ.delivered t).Sublist (σ.delivered s) := by
  induction hb with
  | here => exact List.Sublist.refl _
  | @filter ds t n d k hb hd hk ht ih =>
    have htook := h.sound.took d hd (Nat.zero_le _)
    rw [htook.filter k hk t ht]
    exact every_sublist.trans (htook.sublist.trans ih)

/-- The frames of all streams are in the formats of the streams, if those are that no destination
feeds.

**Proof sketch.** Induction on the place of the stream. One that is fed has its frames from an
earlier one, in its order or as pictures in RGB, and its format is that of the earlier one or RGB. -/
theorem Flowing.formats (h : σ.Flowing)
    (hunfed : ∀ t < σ.net.nStreams, (∀ d < σ.net.nDests, ¬ σ.net.Feeds d t) →
      ∀ f ∈ σ.delivered t, f.format = (σ.net.streams t).format) :
    ∀ t < σ.net.nStreams, ∀ f ∈ σ.delivered t, f.format = (σ.net.streams t).format := by
  intro t
  induction t using Nat.strong_induction_on with
  | _ t ih =>
    intro ht f hf
    by_cases hfed : ∃ d < σ.net.nDests, σ.net.Feeds d t
    · obtain ⟨d, hd, hfeeds⟩ := hfed
      have htook := h.sound.took d hd (Nat.zero_le _)
      have hlow := (h.layout.feeds_lt hd hfeeds).1
      rcases hfeeds with hc | ⟨k, hk, hout⟩
      · obtain ⟨-, -, -, -, hrgb, -⟩ := h.layout.well.converts d hd t hc
        rw [(htook.convert t hc).2] at hf
        obtain ⟨g, -, rfl⟩ := List.mem_map.1 hf
        exact hrgb.symm
      · obtain ⟨-, -, -, hsame⟩ := h.layout.output hd hk hout
        rw [htook.filter k hk t hout] at hf
        have hmem := htook.sublist.subset (every_sublist.subset hf)
        exact (ih _ hlow (hlow.trans ht) f hmem).trans hsame.symm
    · exact hunfed t ht (fun d hd hf => hfed ⟨d, hd, hf⟩) f hf

/-- Every `n`-th frame comes through filters that wait. -/
theorem Flowing.every (h : σ.Flowing) (hb : σ.net.Behind s ds t n)
    (hmissed : ∀ d ∈ ds, σ.missed d = 0) : σ.delivered t = every n (σ.delivered s) := by
  induction hb with
  | here => exact every_one.symm
  | @filter ds t n d k hb hd hk ht ih =>
    have htook := h.sound.took d hd (Nat.zero_le _)
    have hall : σ.processed d = σ.delivered (σ.net.dests d).stream := by
      refine htook.sublist.eq_of_length ?_
      rw [← htook.missed, hmissed d List.mem_cons_self, Nat.add_zero]
    rw [htook.filter k hk t ht, hall, ih fun e he => hmissed e (List.mem_cons_of_mem d he),
      every_every (h.layout.behind_pos hb)]

end Flow

open StreamNet Spook.Flow

variable {σ : Flow} {as : List FlowAction} {os : List Empty}

/-- The streams of a configuration at the start, where everybody waits and frames are there. -/
def Flow.started (net : StreamNet) : Flow :=
  { net, waiting := fun _ => true, count := fun _ => 0, heap := fun _ => true,
    react := fun _ waiting => waiting, calls := 0, delivered := fun _ => [], processed := fun _ => [],
    missed := fun _ => 0 }

/-- Configurations in which no filter has two input lines are such that the machine can start. -/
theorem flowMachine_started {net : StreamNet} {ls : List Line}
    (honce : (ls.filterMap Line.inputOf).Nodup) (h : StreamNet.empty.configured ls = some net)
    (hended : net.Ended) : flowMachine.Init (.started net) :=
  ⟨⟨ls, honce, h⟩, hended, fun _ => rfl, fun _ => rfl, fun _ => rfl, fun _ => rfl⟩

/-- A frame of the camera, without a byte. -/
def emptyFrame (width : ℕ) : Picture :=
  { format := .rawUyvy, width, height := 1, length := 0, key := true, data := [] }

/-- Seven frames of the camera. -/
def sevenFrames : List FlowAction := (List.range 7).map fun i => .capture (emptyFrame i) 0

/-- What there is of the filters and of the frames. -/
def SlowedView (σ : Flow) : Prop :=
  (σ.net.nDests = 5 ∧ (σ.net.streams 0).origin = .input 1 25 ∧
      (σ.net.streams 0).format = .rawUyvy) ∧
    ((σ.net.dests 0).stream = 0 ∧ (σ.net.dests 0).process = .framedrop 0 ∧
      (σ.net.drops 0).output = some 1 ∧ (σ.net.drops 0).scale = 2) ∧
    ((σ.net.dests 1).stream = 1 ∧ (σ.net.dests 1).process = .framedrop 1 ∧
      (σ.net.drops 1).output = some 2 ∧ (σ.net.drops 1).scale = 3) ∧
    ((σ.net.dests 2).process = .output ∧ (σ.net.dests 3).process = .convert 3 ∧
      (σ.net.dests 4).process = .output ∧ (σ.net.dests 4).stream = 3) ∧
    (σ.delivered 0).length = 7 ∧ (σ.processed 2).length = 2 ∧ (σ.processed 4).length = 7 ∧
    σ.missed 0 = 0 ∧ σ.missed 1 = 0

instance decidableSlowedView (σ : Flow) : Decidable (SlowedView σ) :=
  inferInstanceAs (Decidable (_ ∧ _))

/-- Seven frames through a filter of every second one. -/
theorem slowed_run : ∃ σ, Machine.Run flowMachine Captures sevenFrames [] σ ∧ SlowedView σ := by
  obtain ⟨net, hnet⟩ := Option.isSome_iff_exists.1
    (show (StreamNet.empty.configured slowed).isSome = true by decide +kernel)
  have hrun : ∃ σ, Machine.Run flowMachine Captures sevenFrames [] σ ∧
      decide (SlowedView σ) = true := by
    obtain rfl := Option.some.inj (hnet.symm.trans rfl)
    exact Machine.Run.of_exec (fun σ => decide (SlowedView σ))
      (flowMachine_started (by decide +kernel) hnet (by decide +kernel)) (by decide +kernel)
  obtain ⟨σ, hrun, hσ⟩ := hrun
  exact ⟨σ, hrun, of_decide_eq_true hσ⟩

/-- **Formats.** However frames are captured and flags change, if each captured frame is in the
format of the stream that it is captured for, then every frame that a module processes is in the
format of its stream, which has the name that the module asked for and a format that it takes; and
whatever is captured, it only leads to a fault where there are converters. -/
theorem formats_run (h : Machine.Run flowMachine Captures as os σ)
    (hcaptured : ∀ f s, .capture f s ∈ as → f.format = (σ.net.streams s).format) :
    (∀ d < σ.net.nDests, ∀ f ∈ σ.processed d,
      f.format = (σ.net.streams (σ.net.dests d).stream).format ∧
      ((∀ t, (σ.net.dests d).process ≠ .convert t) →
        (σ.net.streams (σ.net.dests d).stream).name = (σ.net.dests d).name ∧
          formatMatch f.format (σ.net.dests d).formats = true)) ∧
    (¬ Converts σ.net → ∀ a, σ.Captures a → ∃ σ', flowMachine.step σ a = .ok (σ', [])) := by
  have hflow := flowing_run h
  refine ⟨fun d hd f hf => ?_, fun hnone a ha => ?_⟩
  · have hmem := (hflow.sound.took d hd (Nat.zero_le _)).sublist.subset hf
    have hformat := hflow.formats (fun t _ hunfed f hf => hcaptured f t (mem_captured
      (captured_run h hunfed ▸ hf))) _ (hflow.layout.well.stream d hd) f hmem
    refine ⟨hformat, fun hnot => ?_⟩
    obtain ⟨hname, hmatch⟩ := hflow.layout.well.asked d hd hnot
    exact ⟨hname, hformat ▸ hmatch⟩
  · rcases a with ⟨f, s⟩ | w
    · obtain ⟨hs, hinput⟩ := ha
      have hwp := hflow.capture (f := f) hs hinput
      unfold wp at hwp
      rcases hrun : (deliver σ.net.nStreams f s).run σ with e | ⟨u, σ'⟩ <;> rw [hrun] at hwp
      · exact absurd hwp hnone
      · refine ⟨σ', ?_⟩
        change ((deliver σ.net.nStreams f s).run σ).map _ = _
        rw [hrun]
        rfl
    · exact ⟨_, rfl⟩

/-- The modules behind the filters and behind the converter. -/
theorem formats_run_slowed : ∃ σ : Flow, (σ.processed 2).length = 2 ∧
    (∀ f ∈ σ.processed 2, formatMatch f.format (σ.net.dests 2).formats = true) ∧
    (σ.processed 4).length = 7 ∧
    ∀ f ∈ σ.processed 4, formatMatch f.format (σ.net.dests 4).formats = true := by
  obtain ⟨σ, hrun, ⟨hn, -, hformat⟩, -, -, ⟨hp₂, -, hp₄, -⟩, -, hlen₂, hlen₄, -⟩ := slowed_run
  obtain ⟨hformats, -⟩ := formats_run hrun fun f s hmem => by
    obtain ⟨i, -, hi⟩ := List.mem_map.1 hmem
    obtain ⟨rfl, rfl⟩ := FlowAction.capture.inj hi
    exact hformat.symm
  refine ⟨σ, hlen₂, fun f hf => ?_, hlen₄, fun f hf => ?_⟩
  · exact ((hformats 2 (by omega) f hf).2 fun t ht => by cases hp₂.symm.trans ht).2
  · exact ((hformats 4 (by omega) f hf).2 fun t ht => by cases hp₄.symm.trans ht).2

/-- **Frame rates.** A stream behind filters gets frames of the one before them in their order; as
long as none passed an input that did not wait, it gets every `n`-th of them, where `n` is the
product of the scales, and the frame rate that it tells is that of the source with `n` times the
increment, as far as that is an `int`. -/
theorem framerate_run (h : Machine.Run flowMachine Captures as os σ) {s t n : ℕ} {ds : List ℕ}
    (hb : σ.net.Behind s ds t n) :
    (σ.delivered t).Sublist (σ.delivered s) ∧
      ((∀ d ∈ ds, σ.missed d = 0) → σ.delivered t = every n (σ.delivered s) ∧
        (σ.delivered t).length = ((σ.delivered s).length + (n - 1)) / n) ∧
      ∀ fincr fbase, (σ.net.streams s).origin = .input fincr fbase →
        ∀ fuel, t < fuel → σ.net.Tells fuel t n fincr fbase := by
  have hflow := flowing_run h
  refine ⟨hflow.sublist hb, fun hmissed => ?_, fun fincr fbase horigin fuel hfuel => ?_⟩
  · have hall := hflow.every hb hmissed
    refine ⟨hall, ?_⟩
    rw [hall, length_every (hflow.layout.behind_pos hb)]
  · exact hflow.layout.tells hb horigin hfuel

/-- Of seven frames of the camera the first and the last come through both filters. -/
theorem framerate_run_slowed : ∃ σ : Flow, (σ.delivered 0).length = 7 ∧
    (σ.delivered 2).Sublist (σ.delivered 0) ∧ σ.delivered 2 = every 6 (σ.delivered 0) ∧
    (σ.delivered 2).length = 2 ∧ σ.net.getFramerate 3 2 = .ok (6, 25) := by
  obtain ⟨σ, hrun, ⟨hn, horigin, -⟩, ⟨hs₀, hp₀, ho₀, hc₀⟩, ⟨hs₁, hp₁, ho₁, hc₁⟩, -, hlen, -, -, hm₀,
    hm₁⟩ := slowed_run
  have hcamera : σ.net.Behind 0 [] (σ.net.dests 0).stream 1 := by
    rw [hs₀]
    exact .here
  have hfirst : σ.net.Behind 0 [0] (σ.net.dests 1).stream 2 := by
    have hb := Behind.filter hcamera (by omega) hp₀ ho₀
    rw [hc₀] at hb
    rwa [hs₁]
  have hb : σ.net.Behind 0 [1, 0] 2 6 := by
    have hb := Behind.filter hfirst (by omega) hp₁ ho₁
    rwa [hc₁] at hb
  obtain ⟨hsub, hmissed, hrate⟩ := framerate_run hrun hb
  obtain ⟨hall, hcount⟩ := hmissed fun d hd => by
    rcases List.mem_cons.1 hd with rfl | hd
    · exact hm₁
    · exact List.mem_singleton.1 hd ▸ hm₀
  rw [hlen] at hcount
  obtain ⟨incr, hincr, -, hexact⟩ := hrate 1 25 horigin 3 (by decide)
  obtain rfl := hexact (by decide) (by decide)
  exact ⟨σ, hlen, hsub, hall, hcount, hincr⟩

/-- **Converters.** In no run does a byte come through a converter. Every frame of the stream of a
converter is made of one that the converter processed, and those have a length below `2`: a longer
one ends the program. -/
theorem converter_run (h : Machine.Run flowMachine Captures as os σ) :
    ∀ d < σ.net.nDests, ∀ t, (σ.net.dests d).process = .convert t →
      σ.delivered t = (σ.processed d).map Picture.toRgb ∧ (∀ f ∈ σ.processed d, f.length < 2) ∧
        ∀ e < σ.net.nDests, (σ.net.dests e).stream = t → ∀ f ∈ σ.processed e, f.data = [] := by
  have hflow := flowing_run h
  intro d hd t ht
  obtain ⟨hshort, hmap⟩ := (hflow.sound.took d hd (Nat.zero_le _)).convert t ht
  refine ⟨hmap, hshort, fun e he hst f hf => ?_⟩
  have hmem := (hflow.sound.took e he (Nat.zero_le _)).sublist.subset hf
  rw [hst, hmap] at hmem
  obtain ⟨g, -, rfl⟩ := List.mem_map.1 hmem
  rfl

/-- Frames without a byte come through a converter. -/
theorem converter_run_slowed : ∃ σ : Flow, (σ.processed 4).length = 7 ∧
    σ.delivered 3 = (σ.processed 3).map Picture.toRgb ∧ ∀ f ∈ σ.processed 4, f.data = [] := by
  obtain ⟨σ, hrun, ⟨hn, -⟩, -, -, ⟨-, hp₃, -, hs₄⟩, -, -, hlen₄, -⟩ := slowed_run
  obtain ⟨hmap, -, hempty⟩ := converter_run hrun 3 (by omega) 3 hp₃
  exact ⟨σ, hlen₄, hmap, hempty 4 (by omega) hs₄⟩

end Spook
