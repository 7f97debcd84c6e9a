import Spook.Demand
import Spook.Streams.Order

set_option relaxedAutoImplicit false
set_option autoImplicit false

/-!
# Demand in a configuration

The streams of a configuration, less their names and formats, are a graph as `set_waiting` sees it.
Filters with one `input` line and one `output` line each make graphs in which the streams run when a
module behind them waits.

## Main definitions

* `Spook.StreamNet.toNet` — the graph.

## Main results

* `Spook.StreamNet.toNet_configured` — the lines of a configuration make what the directives of the
  graph make.
* `Spook.demand_configured` — a stream of a configuration runs when a module behind it waits.
-/

namespace Spook

/-- The `private` pointer of a stream. -/
def Origin.toPrivate : Origin → Private
  | .input _ _ => .capture
  | .convert d => .convert d
  | .framedrop k => .framedrop k

namespace StreamNet

/-- The streams and the destinations without names and formats. -/
def toNet (net : StreamNet) : Net where
  nStreams := net.nStreams
  nDests := net.nDests
  nDrops := net.nDrops
  priv s := (net.streams s).origin.toPrivate
  destList s := (net.streams s).destList
  stream d := (net.dests d).stream
  dropInput k := (net.drops k).input

variable {net net' : StreamNet} {s t d k : ℕ} {process : Processor} {name : Bytes}
  {formats : List Format} {format : Format} {origin : Origin} {ls : List Line}

/-! ## The same graph -/

/-- The abstract net of a net with a new destination. -/
theorem toNet_newDest :
    (net.newDest s process name formats).1.toNet = (net.toNet.newDest s).1 := by
  simp only [toNet, Net.newDest, StreamNet.newDest, Net.mk.injEq, true_and, and_true]
  refine ⟨?_, ?_, ?_⟩ <;> funext x <;> simp only [Function.update_apply] <;> split_ifs with h
  all_goals first | rfl | rw [h]

/-- The abstract net of a net with a new stream. -/
theorem toNet_newStream : (net.newStream name format origin).1.toNet =
    (net.toNet.newStream origin.toPrivate).1 := by
  simp only [toNet, Net.newStream, StreamNet.newStream, addStream, Net.mk.injEq, true_and, and_true]
  refine ⟨?_, ?_⟩ <;> funext x <;> simp only [Function.update_apply] <;> split_ifs <;> rfl

/-- The abstract net of a net with a new converter. -/
theorem toNet_newConvertStream (hs : s < net.nStreams) :
    (net.newConvertStream s format).1.toNet = (net.toNet.newConvertStream s).1 := by
  have hne : net.nStreams ≠ s := hs.ne'
  simp only [toNet, Net.newConvertStream, Net.newDest, Net.newStream, StreamNet.newConvertStream,
    StreamNet.newDest, addStream, Net.mk.injEq, true_and, and_true]
  refine ⟨?_, ?_, ?_⟩ <;> funext x <;> simp only [Function.update_apply, hne.symm, if_false]
  · by_cases hx : x = s
    · rw [if_pos hx, if_neg (hx ▸ hne.symm), hx]
    · rw [if_neg hx]
      split_ifs <;> rfl
  · by_cases hx : x = s
    · rw [if_pos hx, if_neg (hx ▸ hne.symm)]
      simp [hx]
    · rw [if_neg hx]
      split_ifs <;> rfl
  · split_ifs <;> rfl

/-- A stream or a converter is found. -/
theorem toNet_connect (hlist : ∀ s ∈ net.streamList, s < net.nStreams)
    (hc : net.connect name process formats = some (net', d)) :
    ∃ s convert, s < net.nStreams ∧ (net.toNet.connect s convert) = (net'.toNet, d) := by
  rcases connect_cases hc with ⟨s, hmem, -, -, heq⟩ | ⟨s, hmem, -, -, -, heq⟩
  · have hnet : net' = (net.newDest s process name formats).1 := congrArg Prod.fst heq
    have hd : d = net.nDests := congrArg Prod.snd heq
    refine ⟨s, false, hlist s hmem, ?_⟩
    rw [hnet, hd, toNet_newDest]
    rfl
  · have hnet : net' =
        ((net.newConvertStream s .rawRgb24).1.newDest net.nStreams process name formats).1 :=
      congrArg Prod.fst heq
    have hd : d = net.nDests + 1 := congrArg Prod.snd heq
    refine ⟨s, true, hlist s hmem, ?_⟩
    rw [hnet, hd, toNet_newDest, toNet_newConvertStream (hlist s hmem)]
    rfl

/-- The abstract net looks at the input of a frame dropper alone. -/
theorem toNet_setDrop {f : Framedropper} : (net.setDrop k f).toNet =
    { net.toNet with dropInput := Function.update net.toNet.dropInput k f.input } := by
  simp only [toNet, setDrop, Net.mk.injEq, true_and]
  funext x
  simp only [Function.update_apply]
  split_ifs <;> rfl

/-- A line does what at most one directive does. -/
theorem toNet_configure (hlist : ∀ s ∈ net.streamList, s < net.nStreams) {l : Line}
    (hl : net.configure l = some net') : ∃ ds, net.toNet.configured ds = some net'.toNet := by
  have hone : ∀ dir : Net.Directive, net.toNet.configure dir = some net'.toNet →
      ∃ ds, net.toNet.configured ds = some net'.toNet := fun dir h =>
    ⟨[dir], by simp [Net.configured, h]⟩
  cases l with
  | source name format fincr fbase =>
    cases hl
    exact hone .source (by rw [toNet_newStream]; rfl)
  | sink name formats =>
    obtain ⟨⟨net₁, d⟩, hc, rfl⟩ := Option.map_eq_some_iff.1 hl
    obtain ⟨s, convert, hs, heq⟩ := toNet_connect hlist hc
    refine hone (.sink s convert) ?_
    refine (if_pos hs).trans ?_
    rw [heq]
  | filter =>
    cases hl
    have hnew : (net.setDrop net.nDrops ⟨none, none, 0⟩).toNet.dropInput =
        Function.update net.toNet.dropInput net.nDrops none :=
      congrArg Net.dropInput toNet_setDrop
    exact hone .filter (congrArg
      (fun f => some ({ net.toNet with nDrops := net.nDrops + 1, dropInput := f } : Net)) hnew.symm)
  | setInput drop name =>
    simp only [StreamNet.configure, Option.ite_none_right_eq_some, Option.map_eq_some_iff] at hl
    obtain ⟨hdrop, ⟨net₁, d⟩, hc, rfl⟩ := hl
    obtain ⟨s, convert, hs, heq⟩ := toNet_connect hlist hc
    refine hone (.setInput drop s convert) ?_
    have hdir : net.toNet.configure (.setInput drop s convert) =
        some { (net.toNet.connect s convert).1 with
          dropInput := Function.update (net.toNet.connect s convert).1.dropInput drop
            (some (net.toNet.connect s convert).2) } := if_pos ⟨hdrop, hs⟩
    rw [hdir, heq, toNet_setDrop]
  | setOutput drop name =>
    simp only [StreamNet.configure, Option.ite_none_right_eq_some, Option.map_eq_some_iff] at hl
    obtain ⟨hdrop, d, hd, rfl⟩ := hl
    refine hone (.setOutput drop) ?_
    refine (if_pos ⟨hdrop, Option.isSome_iff_exists.2 ⟨d, hd⟩⟩).trans ?_
    rw [toNet_setDrop, toNet_newStream]
    have hsame : Function.update net.toNet.dropInput drop (net.drops drop).input =
        net.toNet.dropInput := Function.update_eq_self ..
    exact congrArg (fun f => some { (net.toNet.newStream (.framedrop drop)).1 with dropInput := f })
      hsame.symm
  | setScale drop scale =>
    simp only [StreamNet.configure, Option.ite_none_right_eq_some, Option.some.injEq] at hl
    obtain ⟨-, rfl⟩ := hl
    refine ⟨[], ?_⟩
    have hsame : Function.update net.toNet.dropInput drop (net.drops drop).input =
        net.toNet.dropInput := Function.update_eq_self ..
    rw [toNet_setDrop]
    exact congrArg (fun f => some { net.toNet with dropInput := f }) hsame.symm
  | endBlock drop =>
    simp only [StreamNet.configure, Option.ite_none_right_eq_some, Option.some.injEq] at hl
    exact ⟨[], congrArg (fun net : StreamNet => some net.toNet) hl.2⟩

/-- Directives behind directives. -/
theorem configured_append {net net' : Net} {ds es : List Net.Directive}
    (hds : net.configured ds = some net') : net.configured (ds ++ es) = net'.configured es := by
  induction ds generalizing net with
  | nil => rw [Option.some.inj hds, List.nil_append]
  | cons d ds ih =>
    obtain ⟨net₁, hd, hds⟩ := Option.bind_eq_some_iff.1 hds
    rw [List.cons_append, Net.configured, hd]
    exact ih hds

/-- **The lines of a configuration make what some directives of the graph make.** -/
theorem toNet_configured (hw : net.WellFormed) (hls : net.configured ls = some net') :
    ∃ ds, net.toNet.configured ds = some net'.toNet := by
  induction ls generalizing net with
  | nil => exact ⟨[], congrArg (fun net : StreamNet => some net.toNet) (Option.some.inj hls)⟩
  | cons l ls ih =>
    obtain ⟨net₁, hl, hls⟩ := Option.bind_eq_some_iff.1 hls
    obtain ⟨ds, hds⟩ := toNet_configure (fun s hs => (hw.list s).1 hs) hl
    obtain ⟨es, hes⟩ := ih (hw.configure hl) hls
    exact ⟨ds ++ es, (configured_append hds).trans hes⟩

/-! ## One output -/

/-- The filter whose `output` line it is. -/
def Line.outputOf : Line → Option ℕ
  | .setOutput drop _ => some drop
  | _ => none

/-- No stream is one of the filter. -/
def NoOutput (net : StreamNet) (k : ℕ) : Prop :=
  ∀ t < net.nStreams, (net.streams t).origin ≠ .framedrop k

/-- A filter has one stream. -/
def Single (net : StreamNet) : Prop :=
  ∀ t < net.nStreams, ∀ t' < net.nStreams, ∀ k, (net.streams t).origin = .framedrop k →
    (net.streams t').origin = .framedrop k → t = t'

/-- A new destination is no output. -/
theorem NoOutput.connect (h : net.NoOutput k) (hc : net.Connected process net' d) :
    net'.NoOutput k := by
  intro t ht hk
  by_cases hlt : t < net.nStreams
  · exact h t hlt ((hc.origin t hlt).symm.trans hk)
  · obtain ⟨e, he⟩ := hc.made t ht (not_lt.1 hlt)
    cases he.symm.trans hk

/-- A new destination leaves every filter its one output. -/
theorem Single.connect (h : net.Single) (hc : net.Connected process net' d) : net'.Single := by
  have hold : ∀ t < net'.nStreams, ∀ k, (net'.streams t).origin = .framedrop k →
      t < net.nStreams ∧ (net.streams t).origin = .framedrop k := by
    intro t ht k hk
    by_cases hlt : t < net.nStreams
    · exact ⟨hlt, (hc.origin t hlt).symm.trans hk⟩
    · obtain ⟨e, he⟩ := hc.made t ht (not_lt.1 hlt)
      cases he.symm.trans hk
  intro t ht t' ht' k hk hk'
  obtain ⟨hlt, horigin⟩ := hold t ht k hk
  obtain ⟨hlt', horigin'⟩ := hold t' ht' k hk'
  exact h t hlt t' hlt' k horigin horigin'

/-- The streams of a filter before and after a new stream. -/
theorem newStream_origin (ht : t < (net.newStream name format origin).1.nStreams)
    (hk : ((net.newStream name format origin).1.streams t).origin = .framedrop k) :
    t < net.nStreams ∧ (net.streams t).origin = .framedrop k ∨
      t = net.nStreams ∧ origin = .framedrop k := by
  rcases Nat.lt_or_eq_of_le (Nat.le_of_lt_succ ht) with hlt | rfl
  · have hsame : (net.newStream name format origin).1.streams t = net.streams t := addStream_of_lt hlt
    exact .inl ⟨hlt, hsame ▸ hk⟩
  · have hself : (net.newStream name format origin).1.streams net.nStreams =
        ⟨name, format, [], origin⟩ := addStream_self
    rw [hself] at hk
    exact .inr ⟨rfl, hk⟩

/-- A filter gets an output that had none. -/
theorem Single.newStream (h : net.Single) (hnew : ∀ k, origin = .framedrop k → net.NoOutput k) :
    (net.newStream name format origin).1.Single := by
  intro t ht t' ht' k hk hk'
  rcases newStream_origin ht hk with ⟨hlt, ho⟩ | ⟨rfl, ho⟩ <;>
    rcases newStream_origin ht' hk' with ⟨hlt', ho'⟩ | ⟨rfl, ho'⟩
  · exact h t hlt t' hlt' k ho ho'
  · exact absurd ho (hnew k ho' t hlt)
  · exact absurd ho' (hnew k ho t' hlt')
  · rfl

/-- Another stream is no output of the filter. -/
theorem NoOutput.newStream (h : net.NoOutput k) (hk : origin ≠ .framedrop k) :
    (net.newStream name format origin).1.NoOutput k := by
  intro t ht ho
  rcases newStream_origin ht ho with ⟨hlt, ho⟩ | ⟨-, ho⟩
  · exact h t hlt ho
  · exact hk ho

/-- A line gives an output to one filter at most. -/
theorem Single.configure (h : net.Single) (hw : net.WellFormed) {l : Line}
    (hnew : ∀ k, l.outputOf = some k → net.NoOutput k) (hl : net.configure l = some net') :
    net'.Single ∧ ∀ k, l.outputOf ≠ some k → net.NoOutput k → net'.NoOutput k := by
  cases l with
  | source name format fincr fbase =>
    cases hl
    exact ⟨h.newStream (fun k hk => by cases hk), fun k _ hno => hno.newStream (by simp)⟩
  | sink name formats =>
    obtain ⟨⟨net₁, d⟩, hc, rfl⟩ := Option.map_eq_some_iff.1 hl
    obtain ⟨-, hmade⟩ := hw.connect (fun t => by simp) (fun k hk => by cases hk) hc
    exact ⟨h.connect hmade, fun k _ hno => hno.connect hmade⟩
  | filter =>
    cases hl
    exact ⟨h, fun k _ hno => hno⟩
  | setInput drop name =>
    simp only [StreamNet.configure, Option.ite_none_right_eq_some, Option.map_eq_some_iff] at hl
    obtain ⟨hdrop, ⟨net₁, d⟩, hc, rfl⟩ := hl
    obtain ⟨-, hmade⟩ := hw.connect (fun t => by simp) (fun k hk => by cases hk; exact hdrop) hc
    have hkeep : ∀ k, net.NoOutput k → net₁.NoOutput k := fun k hno => hno.connect hmade
    have hsingle : net₁.Single := h.connect hmade
    exact ⟨hsingle, fun k _ => hkeep k⟩
  | setOutput drop name =>
    simp only [StreamNet.configure, Option.ite_none_right_eq_some, Option.map_eq_some_iff] at hl
    obtain ⟨-, d, -, rfl⟩ := hl
    have hkeep : ∀ k, (Line.setOutput drop name).outputOf ≠ some k → net.NoOutput k →
        (net.newStream name (net.streams (net.dests d).stream).format (.framedrop drop)).1.NoOutput k :=
      fun k hk hno => hno.newStream fun heq => hk (congrArg some (Origin.framedrop.inj heq))
    exact ⟨h.newStream (fun k hk => hnew k (congrArg some (Origin.framedrop.inj hk))), hkeep⟩
  | setScale drop scale =>
    simp only [StreamNet.configure, Option.ite_none_right_eq_some, Option.some.injEq] at hl
    obtain ⟨-, rfl⟩ := hl
    exact ⟨h, fun k _ hno => hno⟩
  | endBlock drop =>
    simp only [StreamNet.configure, Option.ite_none_right_eq_some, Option.some.injEq] at hl
    exact hl.2 ▸ ⟨h, fun k _ hno => hno⟩

/-- By induction on the lines, none of which is the second output of a filter. -/
theorem single_configured (honce : (ls.filterMap Line.outputOf).Nodup)
    (hls : empty.configured ls = some net) : net.Single :=
  configured_once Single NoOutput Line.outputOf (fun hw h => h.configure hw) wellFormed_empty
    (fun t ht => absurd ht (Nat.not_lt_zero t)) honce
    (fun _ _ t ht => absurd ht (Nat.not_lt_zero t)) hls

/-! ## Demand -/

/-- The destination through which a stream gets its frames. -/
theorem input_eq (hw : net.WellFormed) (ht : t < net.nStreams) (hd : net.toNet.input t = some d) :
    d < net.nDests ∧ ((net.dests d).process = .convert t ∨
      ∃ k, (net.streams t).origin = .framedrop k ∧ (net.dests d).process = .framedrop k) := by
  unfold Net.input at hd
  cases ho : (net.streams t).origin with
  | input fincr fbase => simp [toNet, ho, Origin.toPrivate] at hd
  | convert e =>
    simp only [toNet, ho, Origin.toPrivate, Option.some.injEq] at hd
    subst hd
    obtain ⟨hlt, hprocess⟩ := hw.converted t ht e ho
    exact ⟨hlt, .inl hprocess⟩
  | framedrop k =>
    simp only [toNet, ho, Origin.toPrivate] at hd
    obtain ⟨hlt, hprocess⟩ := hw.input k (hw.filtered t ht k ho) d hd
    exact ⟨hlt, .inr ⟨k, rfl, hprocess⟩⟩

/-- The frames of a stream come from one that was made before it. -/
theorem toNet_upward (hw : net.WellFormed) (hup : net.Upward) (ht : t < net.nStreams)
    (hd : net.toNet.input t = some d) : (net.dests d).stream < t := by
  obtain ⟨hlt, hc | ⟨k, ho, hk⟩⟩ := input_eq hw ht hd
  · exact (hw.converts d hlt t hc).2.1
  · exact hup.upward t ht k ho d hlt hk

/-- With one output to a filter no two streams have the same upper layer. -/
theorem toNet_unshared (hw : net.WellFormed) (hs : net.Single) : net.toNet.Unshared := by
  intro t t' d _ _ ht ht' hd hd'
  obtain ⟨hlt, hc | ⟨k, ho, hk⟩⟩ := input_eq hw ht hd <;>
    obtain ⟨-, hc' | ⟨k', ho', hk'⟩⟩ := input_eq hw ht' hd'
  · exact Processor.convert.inj (hc.symm.trans hc')
  · cases hc.symm.trans hk'
  · cases hk.symm.trans hc'
  · obtain rfl := Processor.framedrop.inj (hk.symm.trans hk')
    exact hs t ht t' ht' k ho ho'

end StreamNet

open StreamNet

variable {net : StreamNet} {ls : List Line}

/-- Any calls of `set_waiting`, from the start of a configuration on. -/
def demandOf (net : StreamNet) : Machine Demand (ℕ × Bool) Empty Fault :=
  { demandMachine with Init := fun σ => σ = .started net.toNet }

/-- **Demand in a configuration.** When each filter has one `input` line and one `output` line, then
whatever calls of `set_waiting` the modules make, none of them faults, and a stream was last told to
run exactly when a module behind it waits, through filters and converters. -/
theorem demand_configured (hin : (ls.filterMap Line.inputOf).Nodup)
    (hout : (ls.filterMap Line.outputOf).Nodup) (hls : StreamNet.empty.configured ls = some net)
    {as : List (ℕ × Bool)} {os : List Empty} {σ : Demand}
    (hrun : Machine.Run (demandOf net) (fun _ a => net.toNet.IsSink a.1) as os σ) :
    (∀ s < net.nStreams,
      (σ.running s = true ↔ ∃ d, net.toNet.Reaches s d ∧ σ.waiting d = true)) ∧
    ∀ d w, net.toNet.IsSink d → ∃ σ', (demandOf net).step σ (d, w) = .ok (σ', []) := by
  have hw := wellFormed_configured hls
  have hup := upward_configured hin hls
  have hunshared := toNet_unshared hw (single_configured hout hls)
  obtain ⟨ds, hds⟩ := toNet_configured wellFormed_empty hls
  have hinv : σ.net = net.toNet ∧ σ.Kept ∧ σ.Forwards fun t => ¬ σ.net.Live t := by
    refine hrun.invariant (fun σ => σ.net = net.toNet ∧ σ.Kept ∧ σ.Forwards fun t => ¬ σ.net.Live t)
      (fun σ h0 => ?_) ?_
    · obtain rfl : σ = .started net.toNet := h0
      exact ⟨rfl, Demand.kept_init
        (demandMachine_started hds fun t ht d hd => toNet_upward hw hup ht hd)⟩
    · rintro σ ⟨d, w⟩ σ' o ⟨hnet, hk, hfor⟩ hd hs
      obtain ⟨σ₁, hstep, hk₁, hpass, -⟩ := hk.call (hnet.symm ▸ hd) w
      obtain ⟨rfl, -⟩ := Prod.mk.inj (Except.ok.inj (hstep.symm.trans hs))
      exact ⟨hpass.net.trans hnet, hk₁, hpass.unshared (hnet.symm ▸ hd) (hnet.symm ▸ hunshared) hfor⟩
  obtain ⟨hnet, hkept, hforwards⟩ := hinv
  refine ⟨fun s hs => ?_, fun d w hd => ?_⟩
  · rw [← hnet]
    exact hkept.running_iff hforwards (by rw [hnet]; exact hs)
  · obtain ⟨σ', hstep, -⟩ := hkept.call (hnet.symm ▸ hd) w
    exact ⟨σ', hstep⟩

/-- The modules behind both filters and behind the converter wait, and the first one stops. -/
theorem demand_configured_slowed : ∃ (net : StreamNet) (σ : Demand),
    StreamNet.empty.configured slowed = some net ∧ σ.running 0 = true ∧ σ.running 2 = false ∧
      (σ.running 0 = true ↔ ∃ d, net.toNet.Reaches 0 d ∧ σ.waiting d = true) ∧
      (σ.running 2 = true ↔ ∃ d, net.toNet.Reaches 2 d ∧ σ.waiting d = true) := by
  obtain ⟨net, hnet⟩ := Option.isSome_iff_exists.1
    (show (StreamNet.empty.configured slowed).isSome = true by decide +kernel)
  have hrun : ∃ σ, Machine.Run (demandOf net) (fun _ a => net.toNet.IsSink a.1)
      [(2, true), (4, true), (2, false)] [] σ ∧
        (σ.running 0, σ.running 2, net.nStreams) = (true, false, 4) := by
    obtain rfl := Option.some.inj (hnet.symm.trans rfl)
    exact Machine.Run.of_exec (fun σ : Demand => (σ.running 0, σ.running 2, _)) rfl
      (by decide +kernel)
  obtain ⟨σ, hrun, hσ⟩ := hrun
  obtain ⟨h₀, hσ⟩ := Prod.mk.inj hσ
  obtain ⟨h₂, hn⟩ := Prod.mk.inj hσ
  have hdemand := (demand_configured (by decide) (by decide) hnet hrun).1
  exact ⟨net, σ, hnet, h₀, h₂, hdemand 0 (by omega), hdemand 2 (by omega)⟩

end Spook
