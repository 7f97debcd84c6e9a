import Spook.Streams.Basic

set_option relaxedAutoImplicit false
set_option autoImplicit false

/-!
# The order of the streams

A framedrop filter whose `input` line occurs once gets its frames from one destination, of a stream
that was made before those of the filter. Frames then never come back to a stream that they left.

## Main definitions

* `Spook.StreamNet.Upward` — the streams of a filter come after the one that it gets its frames from.

## Main results

* `Spook.StreamNet.upward_configured` — the filters of a configuration with one `input` line each.
-/

namespace Spook

namespace StreamNet

variable {net net' : StreamNet} {d k : ℕ} {process : Processor} {name : Bytes} {format : Format}
  {origin : Origin}

/-- The filter whose `input` line it is. -/
def Line.inputOf : Line → Option ℕ
  | .setInput drop _ => some drop
  | _ => none

/-- No destination is the input of the filter. -/
def NoInput (net : StreamNet) (k : ℕ) : Prop :=
  ∀ d < net.nDests, (net.dests d).process ≠ .framedrop k

/-- A filter has one input; its streams come after the one that it gets its frames from, and have
its format. -/
structure Upward (net : StreamNet) : Prop where
  unique : ∀ d < net.nDests, ∀ e < net.nDests, ∀ k, (net.dests d).process = .framedrop k →
    (net.dests e).process = .framedrop k → d = e
  upward : ∀ t < net.nStreams, ∀ k, (net.streams t).origin = .framedrop k →
    ∀ d < net.nDests, (net.dests d).process = .framedrop k → (net.dests d).stream < t
  format : ∀ t < net.nStreams, ∀ k, (net.streams t).origin = .framedrop k →
    ∀ d < net.nDests, (net.dests d).process = .framedrop k →
      (net.streams t).format = (net.streams (net.dests d).stream).format
  fed : ∀ t < net.nStreams, ∀ k, (net.streams t).origin = .framedrop k → ¬ net.NoInput k

/-- Another process does not give the frame dropper an input. -/
theorem NoInput.connect (h : net.NoInput k) (hc : net.Connected process net' d)
    (hprocess : process ≠ .framedrop k) : net'.NoInput k := by
  intro e he heq
  by_cases hlt : e < net.nDests
  · exact h e hlt (hc.dests e hlt ▸ heq)
  · by_cases hed : e = d
    · exact hprocess ((hed ▸ hc.process).symm.trans heq)
    · obtain ⟨t, ht⟩ := hc.others e he (not_lt.1 hlt) hed
      rw [ht] at heq
      cases heq

/-- A new destination is above what there was. -/
theorem Upward.connect (h : net.Upward) (hw : net.WellFormed) (hc : net.Connected process net' d)
    (hnew : ∀ k, process = .framedrop k → net.NoInput k) : net'.Upward := by
  have hold : ∀ e < net'.nDests, ∀ k, (net'.dests e).process = .framedrop k →
      e < net.nDests ∧ (net.dests e).process = .framedrop k ∨ e = d ∧ process = .framedrop k := by
    intro e he k hk
    by_cases hlt : e < net.nDests
    · exact .inl ⟨hlt, hc.dests e hlt ▸ hk⟩
    · by_cases hed : e = d
      · exact .inr ⟨hed, (hed ▸ hc.process).symm.trans hk⟩
      · obtain ⟨t, ht⟩ := hc.others e he (not_lt.1 hlt) hed
        rw [ht] at hk
        cases hk
  have hstream : ∀ t < net'.nStreams, ∀ k, (net'.streams t).origin = .framedrop k →
      t < net.nStreams ∧ (net.streams t).origin = .framedrop k := by
    intro t ht k hk
    by_cases hlt : t < net.nStreams
    · exact ⟨hlt, (hc.origin t hlt).symm.trans hk⟩
    · obtain ⟨e, he⟩ := hc.made t ht (not_lt.1 hlt)
      rw [he] at hk
      cases hk
  refine ⟨fun e he e' he' k hk hk' => ?_, fun t ht k hk e he hke => ?_,
    fun t ht k hk e he hke => ?_, fun t ht k hk hno => ?_⟩
  · rcases hold e he k hk with ⟨hlt, hke⟩ | ⟨rfl, hp⟩ <;>
      rcases hold e' he' k hk' with ⟨hlt', hke'⟩ | ⟨rfl, hp'⟩
    · exact h.unique e hlt e' hlt' k hke hke'
    · exact absurd hke (hnew k hp' e hlt)
    · exact absurd hke' (hnew k hp e' hlt')
    · rfl
  · obtain ⟨hlt, horigin⟩ := hstream t ht k hk
    rcases hold e he k hke with ⟨hlt', hke'⟩ | ⟨rfl, hp⟩
    · rw [hc.dests e hlt']
      exact h.upward t hlt k horigin e hlt' hke'
    · exact absurd (hnew k hp) (h.fed t hlt k horigin)
  · obtain ⟨hlt, horigin⟩ := hstream t ht k hk
    rcases hold e he k hke with ⟨hlt', hke'⟩ | ⟨rfl, hp⟩
    · rw [hc.dests e hlt', hc.format t hlt, hc.format _ (hw.stream e hlt')]
      exact h.format t hlt k horigin e hlt' hke'
    · exact absurd (hnew k hp) (h.fed t hlt k horigin)
  · obtain ⟨hlt, horigin⟩ := hstream t ht k hk
    refine h.fed t hlt k horigin fun e he heq => ?_
    exact hno e (he.trans_le hc.nDests) ((hc.dests e he).symm ▸ heq)

/-- A new stream comes after the others. -/
theorem Upward.newStream (h : net.Upward) (hw : net.WellFormed)
    (hformat : ∀ k, origin = .framedrop k → ∀ d < net.nDests,
      (net.dests d).process = .framedrop k → format = (net.streams (net.dests d).stream).format)
    (hfed : ∀ k, origin = .framedrop k → ¬ net.NoInput k) :
    (net.newStream name format origin).1.Upward := by
  have hold : ∀ t < net.nStreams, (net.newStream name format origin).1.streams t = net.streams t :=
    fun t ht => addStream_of_lt ht
  have hself : (net.newStream name format origin).1.streams net.nStreams =
      ⟨name, format, [], origin⟩ := addStream_self
  refine ⟨h.unique, fun t ht k hk e he hke => ?_, fun t ht k hk e he hke => ?_,
    fun t ht k hk hno => ?_⟩
  · rcases Nat.lt_or_eq_of_le (Nat.le_of_lt_succ ht) with hlt | rfl
    · exact h.upward t hlt k (hold t hlt ▸ hk) e he hke
    · exact hw.stream e he
  · have hsame : (net.newStream name format origin).1.streams (net.dests e).stream =
        net.streams (net.dests e).stream := hold _ (hw.stream e he)
    rcases Nat.lt_or_eq_of_le (Nat.le_of_lt_succ ht) with hlt | rfl
    · exact (congrArg StreamNode.format (hold t hlt)).trans
        ((h.format t hlt k (hold t hlt ▸ hk) e he hke).trans
          (congrArg StreamNode.format hsame).symm)
    · rw [hself] at hk
      exact (congrArg StreamNode.format hself).trans
        ((hformat k hk e he hke).trans (congrArg StreamNode.format hsame).symm)
  · rcases Nat.lt_or_eq_of_le (Nat.le_of_lt_succ ht) with hlt | rfl
    · exact h.fed t hlt k (hold t hlt ▸ hk) hno
    · rw [hself] at hk
      exact hfed k hk hno

/-- A line gives an input to one frame dropper at most, which had none. -/
theorem Upward.configure (h : net.Upward) (hw : net.WellFormed) {l : Line}
    (hnew : ∀ k, l.inputOf = some k → net.NoInput k) (hl : net.configure l = some net') :
    net'.Upward ∧ ∀ k, l.inputOf ≠ some k → net.NoInput k → net'.NoInput k := by
  cases l with
  | source name format fincr fbase =>
    cases hl
    exact ⟨h.newStream hw (fun k hk => by cases hk) (fun k hk => by cases hk), fun k _ hno => hno⟩
  | sink name formats =>
    obtain ⟨⟨net₁, d⟩, hc, rfl⟩ := Option.map_eq_some_iff.1 hl
    obtain ⟨-, hmade⟩ := hw.connect (fun t => by simp) (fun k hk => by cases hk) hc
    exact ⟨h.connect hw hmade (fun k hk => by cases hk), fun k _ hno => hno.connect hmade (by simp)⟩
  | filter =>
    cases hl
    exact ⟨⟨h.unique, h.upward, h.format, h.fed⟩, fun k _ hno => hno⟩
  | setInput drop name =>
    simp only [StreamNet.configure, Option.ite_none_right_eq_some, Option.map_eq_some_iff] at hl
    obtain ⟨hdrop, ⟨net₁, d⟩, hc, rfl⟩ := hl
    obtain ⟨-, hmade⟩ := hw.connect (fun t => by simp) (fun k hk => by cases hk; exact hdrop) hc
    have hup := h.connect hw hmade fun k hk => by
      cases hk
      exact hnew drop rfl
    have hkeep : ∀ k, (Line.setInput drop name).inputOf ≠ some k → net.NoInput k → net₁.NoInput k :=
      fun k hk hno => hno.connect hmade fun heq => hk (congrArg some (Processor.framedrop.inj heq))
    exact ⟨⟨hup.unique, hup.upward, hup.format, hup.fed⟩, hkeep⟩
  | setOutput drop name =>
    simp only [StreamNet.configure, Option.ite_none_right_eq_some, Option.map_eq_some_iff] at hl
    obtain ⟨hdrop, d, hd, rfl⟩ := hl
    obtain ⟨hlt, hprocess⟩ := hw.input drop hdrop d hd
    have hup : (net.newStream name (net.streams (net.dests d).stream).format
        (.framedrop drop)).1.Upward :=
      h.newStream hw
        (fun k hk e he hke => by
          cases hk
          rw [h.unique d hlt e he drop hprocess hke])
        fun k hk hno => by
          cases hk
          exact hno d hlt hprocess
    exact ⟨⟨hup.unique, hup.upward, hup.format, hup.fed⟩, fun k _ hno => hno⟩
  | setScale drop scale =>
    simp only [StreamNet.configure, Option.ite_none_right_eq_some, Option.some.injEq] at hl
    obtain ⟨-, rfl⟩ := hl
    exact ⟨⟨h.unique, h.upward, h.format, h.fed⟩, fun k _ hno => hno⟩
  | endBlock drop =>
    simp only [StreamNet.configure, Option.ite_none_right_eq_some, Option.some.injEq] at hl
    exact hl.2 ▸ ⟨h, fun k _ hno => hno⟩

/-- What holds as long as no filter gets a second line of some kind: `key` finds the filter of such a
line, and `Free` says that it has none so far. -/
theorem configured_once (Holds : StreamNet → Prop) (Free : StreamNet → ℕ → Prop)
    (key : Line → Option ℕ)
    (hstep : ∀ {net net' l}, net.WellFormed → Holds net → (∀ k, key l = some k → Free net k) →
      net.configure l = some net' →
      Holds net' ∧ ∀ k, key l ≠ some k → Free net k → Free net' k)
    (hw : net.WellFormed) (h : Holds net) {ls : List Line} (honce : (ls.filterMap key).Nodup)
    (hnew : ∀ k ∈ ls.filterMap key, Free net k) (hls : net.configured ls = some net') :
    Holds net' := by
  induction ls generalizing net with
  | nil => exact Option.some.inj hls ▸ h
  | cons l ls ih =>
    obtain ⟨net₁, hl, hls⟩ := Option.bind_eq_some_iff.1 hls
    have hhead : ∀ k, key l = some k → Free net k := fun k hk =>
      hnew k (List.mem_filterMap.2 ⟨l, List.mem_cons_self, hk⟩)
    obtain ⟨hnext, hkeep⟩ := hstep hw h hhead hl
    have htail : (ls.filterMap key).Nodup ∧ ∀ k ∈ ls.filterMap key, key l ≠ some k := by
      cases hin : key l with
      | none => exact ⟨by simpa [hin] using honce, fun k _ => by simp⟩
      | some i =>
        rw [List.filterMap_cons_some hin, List.nodup_cons] at honce
        exact ⟨honce.2, fun k hk heq => honce.1 (Option.some.inj heq ▸ hk)⟩
    refine ih (hw.configure hl) hnext htail.1 (fun k hk => hkeep k (htail.2 k hk) ?_) hls
    obtain ⟨l', hmem, hl'⟩ := List.mem_filterMap.1 hk
    exact hnew k (List.mem_filterMap.2 ⟨l', List.mem_cons_of_mem l hmem, hl'⟩)

/-- **Filters with one `input` line each stand behind their input.** -/
theorem upward_configured {ls : List Line} (honce : (ls.filterMap Line.inputOf).Nodup)
    (hls : empty.configured ls = some net) : net.Upward :=
  configured_once Upward NoInput Line.inputOf (fun hw h => h.configure hw) wellFormed_empty
    ⟨fun d hd => absurd hd (Nat.not_lt_zero d), fun t ht => absurd ht (Nat.not_lt_zero t),
      fun t ht => absurd ht (Nat.not_lt_zero t), fun t ht => absurd ht (Nat.not_lt_zero t)⟩
    honce (fun _ _ d hd => absurd hd (Nat.not_lt_zero d)) hls

/-- A camera, of whose frames a filter drops the half and another two of three, with a module behind
both and one that takes RGB of all frames. -/
def slowed : List Line :=
  [.source [99] .rawUyvy 1 25,
    .filter, .setInput 0 [99], .setOutput 0 [104], .setScale 0 2, .endBlock 0,
    .filter, .setInput 1 [104], .setOutput 1 [115], .setScale 1 3, .endBlock 1,
    .sink [115] [.jpeg, .rawUyvy], .sink [99] [.rawRgb24]]

end StreamNet

end Spook
