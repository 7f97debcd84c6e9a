import Spook.Fault
import Spook.Lib.Acyclic
import Spook.Lib.Machine
import Spook.Lib.Wp

set_option relaxedAutoImplicit false
set_option autoImplicit false

/-!
# Who waits for a stream

`set_waiting` of `stream.c`, with the streams that forward to it. A stream has a list of
destinations; it runs as long as one of them waits. The stream of a converter or of a framedrop
filter passes this on to the destination through which it gets its own frames.

The graph of streams and destinations is made by the configuration. The names and formats that
`connect_to_stream` looks for are left out: it finds a stream, and may put a converter behind it. The
memory that `start_block` of a framedrop filter allocates is taken to be zero, for it stores nothing
in `drop->input`; an `output` line in front of the `input` line is an error then, as it is meant to
be.

## Main definitions

* `Spook.Net` — the streams and the destinations; `Spook.Net.configure` builds them.
* `Spook.Demand.setWaiting` — `set_waiting`.
* `Spook.demandMachine` — any sequence of its calls.
* `Spook.Net.Reaches` — the sinks behind a stream.

## Main results

* `Spook.settled_run` — a stream runs when one of its destinations waits.
* `Spook.demand_run` — when no two streams share an input, it runs when a sink behind it waits.

## Notes on the design

A call of `set_waiting` may climb from stream to stream. The induction is on the depth of a stream
below its capture, and what is known in the middle of the climb is the settled state with one stream
that is out of step.
-/

namespace Spook

/-! ## The graph -/

/-- The `private` pointer of a stream, as its `set_running` uses it. -/
inductive Private
  /-- An input module. -/
  | capture
  /-- A converter: the destination that `new_convert_stream` made. -/
  | convert (input : ℕ)
  /-- A `struct framedropper`. -/
  | framedrop (drop : ℕ)
  deriving DecidableEq

/-- The streams and the destinations, less what `set_waiting` changes. -/
structure Net where
  nStreams : ℕ
  nDests : ℕ
  nDrops : ℕ
  priv : ℕ → Private
  destList : ℕ → List ℕ
  /-- The stream of a destination. -/
  stream : ℕ → ℕ
  /-- `drop->input`. -/
  dropInput : ℕ → Option ℕ

namespace Net

/-- No streams. -/
def empty : Net :=
  { nStreams := 0, nDests := 0, nDrops := 0, priv := fun _ => .capture, destList := fun _ => [],
    stream := fun _ => 0, dropInput := fun _ => none }

/-- `new_dest`. -/
def newDest (net : Net) (s : ℕ) : Net × ℕ :=
  ({ net with nDests := net.nDests + 1,
              destList := Function.update net.destList s (net.nDests :: net.destList s),
              stream := Function.update net.stream net.nDests s }, net.nDests)

/-- `new_stream`, with what its caller makes its `set_running`. -/
def newStream (net : Net) (priv : Private) : Net × ℕ :=
  ({ net with nStreams := net.nStreams + 1,
              priv := Function.update net.priv net.nStreams priv,
              destList := Function.update net.destList net.nStreams [] }, net.nStreams)

/-- `new_convert_stream`. -/
def newConvertStream (net : Net) (base : ℕ) : Net × ℕ :=
  let (net, input) := net.newDest base
  net.newStream (.convert input)

/-- `connect_to_stream`, when it finds the stream `s`; a new destination of this stream, or of a
converter behind it. -/
def connect (net : Net) (s : ℕ) (convert : Bool) : Net × ℕ :=
  if convert then
    let (net, s) := net.newConvertStream s
    net.newDest s
  else net.newDest s

/-- A line of the configuration that makes streams and destinations. -/
inductive Directive
  /-- The output of an input module. -/
  | source
  /-- A module that takes the frames of a stream. -/
  | sink (s : ℕ) (convert : Bool)
  /-- `start_block` of a framedrop filter, which leaves `input` uninitialised; here it was zero. -/
  | filter
  /-- `set_input` of a framedrop filter. -/
  | setInput (drop s : ℕ) (convert : Bool)
  /-- `set_output` of a framedrop filter. -/
  | setOutput (drop : ℕ)

/-- A directive; an error ends the configuration. -/
def configure (net : Net) : Directive → Option Net
  | .source => some (net.newStream .capture).1
  | .sink s convert => if s < net.nStreams then some (net.connect s convert).1 else none
  | .filter => some { net with nDrops := net.nDrops + 1,
                               dropInput := Function.update net.dropInput net.nDrops none }
  | .setInput drop s convert =>
    if drop < net.nDrops ∧ s < net.nStreams then
      let (net, input) := net.connect s convert
      some { net with dropInput := Function.update net.dropInput drop (some input) }
    else none
  | .setOutput drop =>
    if drop < net.nDrops ∧ (net.dropInput drop).isSome then
      some (net.newStream (.framedrop drop)).1
    else none

/-- The directives of a configuration. -/
def configured : Net → List Directive → Option Net
  | net, [] => some net
  | net, d :: ds => (net.configure d).bind fun net => net.configured ds

/-- The destination that `set_running` of a stream forwards to. -/
def input (net : Net) (s : ℕ) : Option ℕ :=
  match net.priv s with
  | .capture => none
  | .convert input => some input
  | .framedrop drop => net.dropInput drop

/-- The destinations of a stream are in its list, a stream that forwards has an input, and the
filters and their inputs are there. -/
structure Linked (net : Net) : Prop where
  dest : ∀ s < net.nStreams, ∀ d, d ∈ net.destList s ↔ d < net.nDests ∧ net.stream d = s
  stream : ∀ d < net.nDests, net.stream d < net.nStreams
  input : ∀ t < net.nStreams, net.priv t ≠ .capture →
    ∃ d < net.nDests, net.input t = some d
  drop : ∀ t < net.nStreams, ∀ drop, net.priv t = .framedrop drop → drop < net.nDrops
  dropInput : ∀ drop < net.nDrops, ∀ d, net.dropInput drop = some d → d < net.nDests

/-- The stream `t` gets its frames from the stream `s`. -/
def Follows (net : Net) (t s : ℕ) : Prop :=
  t < net.nStreams ∧ ∃ d, net.input t = some d ∧ net.stream d = s

/-- A destination that is the input of no stream. -/
def IsSink (net : Net) (d : ℕ) : Prop :=
  d < net.nDests ∧ ∀ t < net.nStreams, net.input t ≠ some d

instance (net : Net) (d : ℕ) : Decidable (net.IsSink d) := inferInstanceAs (Decidable (_ ∧ _))

/-- The sinks behind a stream. -/
inductive Reaches (net : Net) : ℕ → ℕ → Prop
  | sink {s d : ℕ} : d ∈ net.destList s → net.IsSink d → Reaches net s d
  | through {s t e d : ℕ} : e ∈ net.destList s → t < net.nStreams → net.input t = some e →
      Reaches net t d → Reaches net s d

/-- There is a sink behind the stream. -/
def Live (net : Net) (t : ℕ) : Prop := ∃ d, net.Reaches t d

/-- No two streams with sinks behind them have the same input. -/
def Unshared (net : Net) : Prop :=
  ∀ t t' d, net.Live t → net.Live t' → t < net.nStreams → t' < net.nStreams →
    net.input t = some d → net.input t' = some d → t = t'

end Net

/-! ## The calls -/

/-- The graph, who waits, and the calls of `set_running`, the last one first. -/
structure Demand where
  net : Net
  waiting : ℕ → Bool
  calls : List (ℕ × Bool)

namespace Demand

/-- Set the flag of a destination. -/
def setDest (σ : Demand) (dest : ℕ) (waiting : Bool) : Demand :=
  { σ with waiting := Function.update σ.waiting dest waiting }

/-- `set_running` of a stream is called. -/
def called (σ : Demand) (s : ℕ) (running : Bool) : Demand :=
  { σ with calls := (s, running) :: σ.calls }

/-- The last value passed to `set_running` of a stream. -/
def running (σ : Demand) (s : ℕ) : Bool :=
  match σ.calls.find? fun call => call.1 = s with
  | some call => call.2
  | none => false

end Demand

/-- A function on the streams. -/
abbrev DemandM := StateT Demand (Except Fault)

namespace Demand

/-- `set_running` of a stream; a stream with an input passes it on. -/
def setRunning (setWaiting : ℕ → Bool → DemandM Unit) (s : ℕ) (running : Bool) :
    DemandM Unit := do
  modify fun σ => σ.called s running
  let σ ← get
  match σ.net.priv s with
  | .capture => pure ()
  | .convert input => setWaiting input running
  | .framedrop drop =>
    let input ← found (σ.net.dropInput drop) .nullDeref
    setWaiting input running

/-- `set_waiting`. The depth of the calls is bounded by `fuel`. -/
def setWaiting : ℕ → ℕ → Bool → DemandM Unit
  | 0, _, _ => throw .loop
  | fuel + 1, dest, waiting => do
    let σ ← get
    let s := σ.net.stream dest
    if σ.waiting dest = true then
      -- no change in status
      if waiting = true then pure ()
      else
        set (σ.setDest dest false)
        -- see if anybody else is listening
        if (σ.net.destList s).any (σ.setDest dest false).waiting = true then pure ()
        else setRunning (setWaiting fuel) s false
    else if waiting = true then
      set (σ.setDest dest true)
      setRunning (setWaiting fuel) s true
    else pure ()

end Demand

/-- A graph in which nobody waits, and any calls of `set_waiting`. -/
def demandMachine : Machine Demand (ℕ × Bool) Empty Fault where
  Init σ := σ.net.Linked ∧ Acyclic σ.net.Follows ∧ (∀ d, σ.waiting d = false) ∧ σ.calls = []
  step σ a := match (Demand.setWaiting σ.net.nStreams a.1 a.2).run σ with
    | .ok (_, σ') => .ok (σ', [])
    | .error e => .error e

/-! ## The graph that the configuration makes -/

namespace Net

variable {net net' : Net}

/-- A new destination of a stream. -/
theorem Linked.newDest (h : net.Linked) {s : ℕ} (hs : s < net.nStreams) :
    (net.newDest s).1.Linked := by
  refine ⟨fun s' hs' d => ?_, fun d hd => ?_, fun t ht hpriv => ?_, h.drop,
    fun drop hdrop d hd => Nat.lt_succ_of_lt (h.dropInput drop hdrop d hd)⟩
  · have hdest := h.dest s' hs' d
    simp only [Net.newDest, Function.update_apply]
    by_cases hss : s' = s
    · subst hss
      by_cases hd : d = net.nDests
      · simp [hd]
      · simp only [if_true, List.mem_cons, hd, false_or, if_false, hdest]
        constructor <;> rintro ⟨hlt, hst⟩ <;> exact ⟨by omega, hst⟩
    · by_cases hd : d = net.nDests
      · subst hd
        simp only [hss, if_false, if_true, hdest]
        constructor
        · rintro ⟨hlt, -⟩
          exact absurd hlt (lt_irrefl _)
        · rintro ⟨-, hst⟩
          exact absurd hst.symm hss
      · simp only [hss, hd, if_false, hdest]
        constructor <;> rintro ⟨hlt, hst⟩ <;> exact ⟨by omega, hst⟩
  · simp only [Net.newDest, Function.update_apply] at hd ⊢
    split_ifs with hnew
    · exact hs
    · exact h.stream d (by omega)
  · obtain ⟨d, hd, hin⟩ := h.input t ht hpriv
    exact ⟨d, Nat.lt_succ_of_lt hd, hin⟩

/-- A new stream, with an input if it forwards. -/
theorem Linked.newStream (h : net.Linked) {priv : Private}
    (hpriv : priv ≠ .capture → ∃ d < net.nDests, (net.newStream priv).1.input net.nStreams = some d)
    (hdrop : ∀ drop, priv = .framedrop drop → drop < net.nDrops) :
    (net.newStream priv).1.Linked := by
  have hold : ∀ t < (net.newStream priv).1.nStreams, t ≠ net.nStreams →
      t < net.nStreams ∧ (net.newStream priv).1.priv t = net.priv t := by
    intro t ht hnew
    refine ⟨?_, Function.update_of_ne hnew ..⟩
    simp only [Net.newStream] at ht
    omega
  have hself : (net.newStream priv).1.priv net.nStreams = priv := Function.update_self ..
  refine ⟨fun s hs d => ?_, fun d hd => ?_, fun t ht hcap => ?_, fun t ht drop hd => ?_,
    h.dropInput⟩
  · simp only [Net.newStream, Function.update_apply] at hs ⊢
    by_cases hnew : s = net.nStreams
    · simp only [hnew, if_true, List.not_mem_nil, false_iff]
      rintro ⟨hd, hst⟩
      exact absurd (h.stream d hd) (by omega)
    · rw [if_neg hnew]
      exact h.dest s (by omega) d
  · exact Nat.lt_succ_of_lt (h.stream d hd)
  · by_cases hnew : t = net.nStreams
    · subst hnew
      rw [hself] at hcap
      exact hpriv hcap
    · obtain ⟨ht', hsame⟩ := hold t ht hnew
      rw [hsame] at hcap
      obtain ⟨d, hd, hin⟩ := h.input t ht' hcap
      refine ⟨d, hd, ?_⟩
      unfold Net.input at hin ⊢
      rwa [hsame]
  · by_cases hnew : t = net.nStreams
    · subst hnew
      rw [hself] at hd
      exact hdrop drop hd
    · obtain ⟨ht', hsame⟩ := hold t ht hnew
      rw [hsame] at hd
      exact h.drop t ht' drop hd

/-- `connect_to_stream` makes a destination. -/
theorem Linked.connect (h : net.Linked) {s : ℕ} (hs : s < net.nStreams) (convert : Bool) :
    (net.connect s convert).1.Linked ∧
      (net.connect s convert).2 < (net.connect s convert).1.nDests ∧
      (net.connect s convert).1.nDrops = net.nDrops := by
  cases convert with
  | false => exact ⟨h.newDest hs, Nat.lt_succ_self _, rfl⟩
  | true =>
    refine ⟨Linked.newDest (Linked.newStream (h.newDest hs) (fun _ => ?_) ?_)
      (Nat.lt_succ_self _), Nat.lt_succ_self _, rfl⟩
    · refine ⟨net.nDests, Nat.lt_succ_self _, ?_⟩
      simp [Net.input, Net.newStream, Net.newDest]
    · intro drop hd
      cases hd

/-- The input of a filter is set. -/
theorem Linked.setDrop (h : net.Linked) {drop : ℕ} {input : Option ℕ}
    (hinput : ∀ t < net.nStreams, net.priv t = .framedrop drop →
      ∃ d < net.nDests, input = some d) {nDrops : ℕ} (hle : net.nDrops ≤ nDrops)
    (hlt : ∀ k < nDrops, k ≠ drop → k < net.nDrops) (hin : ∀ d, input = some d → d < net.nDests) :
    Linked { net with nDrops, dropInput := Function.update net.dropInput drop input } := by
  refine ⟨h.dest, h.stream, fun t ht hcap => ?_,
    fun t ht k hk => (h.drop t ht k hk).trans_le hle, fun k hk d hd => ?_⟩
  swap
  · simp only [Function.update_apply] at hd
    split_ifs at hd with hkd
    · exact hin d hd
    · exact h.dropInput k (hlt k hk hkd) d hd
  obtain ⟨d, hd, hin⟩ := h.input t ht hcap
  change ∃ d < net.nDests, (match net.priv t with
    | .capture => none
    | .convert input => some input
    | .framedrop k => Function.update net.dropInput drop input k) = some d
  unfold Net.input at hin
  rcases hpriv : net.priv t with _ | e | k <;> rw [hpriv] at hin
  · exact ⟨d, hd, hin⟩
  · exact ⟨d, hd, hin⟩
  · by_cases hk : k = drop
    · subst hk
      obtain ⟨d', hd', hin'⟩ := hinput t ht hpriv
      refine ⟨d', hd', ?_⟩
      simpa using hin'
    · refine ⟨d, hd, ?_⟩
      simpa [hk] using hin

/-- A directive keeps the links. -/
theorem Linked.configure (h : net.Linked) {d : Directive} (hd : net.configure d = some net') :
    net'.Linked := by
  cases d with
  | source =>
    obtain rfl := Option.some.inj hd
    exact h.newStream (fun hne => absurd rfl hne) fun drop hdrop => by cases hdrop
  | sink s convert =>
    simp only [Net.configure] at hd
    split_ifs at hd with hs
    obtain rfl := Option.some.inj hd
    exact (h.connect hs convert).1
  | filter =>
    obtain rfl := Option.some.inj hd
    refine h.setDrop (fun t ht hpriv => ?_) (Nat.le_succ _) (fun k hk hne => ?_) fun d hd => ?_
    · exact absurd (h.drop t ht _ hpriv) (lt_irrefl _)
    · omega
    · cases hd
  | setInput drop s convert =>
    simp only [Net.configure] at hd
    split_ifs at hd with hs
    obtain rfl := Option.some.inj hd
    obtain ⟨hlinked, hlt, -⟩ := h.connect hs.2 convert
    refine hlinked.setDrop (fun _ _ _ => ⟨_, hlt, rfl⟩) le_rfl (fun k hk _ => hk) fun d hd => ?_
    exact Option.some.inj hd ▸ hlt
  | setOutput drop =>
    simp only [Net.configure] at hd
    split_ifs at hd with hs
    obtain rfl := Option.some.inj hd
    refine h.newStream (fun _ => ?_) fun k hk => ?_
    · obtain ⟨d, hd⟩ := Option.isSome_iff_exists.1 hs.2
      refine ⟨d, h.dropInput drop hs.1 d hd, ?_⟩
      simpa [Net.input, Net.newStream] using hd
    · cases hk
      exact hs.1

/-- **What the configuration makes is linked.** -/
theorem linked_configured (h : net.Linked) {ds : List Directive}
    (hd : net.configured ds = some net') : net'.Linked := by
  induction ds generalizing net with
  | nil =>
    obtain rfl := Option.some.inj hd
    exact h
  | cons d ds ih =>
    obtain ⟨net₁, hd₁, hds⟩ := Option.bind_eq_some_iff.1 hd
    exact ih (h.configure hd₁) hds

/-- No streams. -/
theorem linked_empty : empty.Linked :=
  ⟨fun s hs => absurd hs (Nat.not_lt_zero s), fun d hd => absurd hd (Nat.not_lt_zero d),
    fun t ht => absurd ht (Nat.not_lt_zero t), fun t ht => absurd ht (Nat.not_lt_zero t),
    fun k hk => absurd hk (Nat.not_lt_zero k)⟩

end Net

/-! ## One call -/

namespace Demand

variable {σ σ' : Demand} {s d t : ℕ} {w : Bool}

/-- A flag of a destination does not change the net. -/
@[simp] theorem setDest_net (σ : Demand) (d : ℕ) (w : Bool) : (σ.setDest d w).net = σ.net := rfl

/-- The flag that was set. -/
@[simp] theorem setDest_waiting (σ : Demand) (d : ℕ) (w : Bool) :
    (σ.setDest d w).waiting d = w := Function.update_self ..

/-- Other destinations stay. -/
@[simp] theorem setDest_of_ne (σ : Demand) {d e : ℕ} (h : e ≠ d) (w : Bool) :
    (σ.setDest d w).waiting e = σ.waiting e := Function.update_of_ne h ..

/-- A flag of a destination starts no stream. -/
@[simp] theorem setDest_running (σ : Demand) (d : ℕ) (w : Bool) (s : ℕ) :
    (σ.setDest d w).running s = σ.running s := rfl

/-- A call does not change the net. -/
@[simp] theorem called_net (σ : Demand) (s : ℕ) (w : Bool) : (σ.called s w).net = σ.net := rfl

/-- A call changes no destination. -/
@[simp] theorem called_waiting (σ : Demand) (s : ℕ) (w : Bool) :
    (σ.called s w).waiting = σ.waiting := rfl

/-- The stream runs as it was told. -/
@[simp] theorem called_running (σ : Demand) (s : ℕ) (w : Bool) :
    (σ.called s w).running s = w := by
  simp [running, called]

/-- Other streams stay. -/
@[simp] theorem called_running_of_ne (σ : Demand) {s t : ℕ} (h : t ≠ s) (w : Bool) :
    (σ.called s w).running t = σ.running t := by
  simp [running, called, Ne.symm h]

/-- `set_running` of a stream without an input, and of one with an input. -/
theorem wp_setRunning {f : ℕ → Bool → DemandM Unit} {Q : Unit → Demand → Prop} {E : Fault → Prop}
    (hcap : σ.net.priv s ≠ .capture → ∃ d, σ.net.input s = some d)
    (hnone : σ.net.input s = none → Q () (σ.called s w))
    (hsome : ∀ e, σ.net.input s = some e → wp (f e w) Q E (σ.called s w)) :
    wp (setRunning f s w) Q E σ := by
  unfold setRunning
  rw [wp_bind, wp_modify, wp_bind, wp_get]
  simp only [called_net]
  unfold Net.input at hcap hnone hsome
  rcases hpriv : σ.net.priv s with _ | e | drop <;> rw [hpriv] at hcap hnone hsome
  · exact hnone rfl
  · exact hsome e rfl
  · simp only
    rw [wp_bind, wp_found]
    refine ⟨fun e he => hsome e he, fun hnull => ?_⟩
    obtain ⟨d, hd⟩ := hcap (by simp)
    exact absurd (hnull.symm.trans hd) (by simp)

/-- Every stream was told whether one of its destinations waits. -/
def Settled (σ : Demand) : Prop :=
  ∀ s < σ.net.nStreams, σ.running s = (σ.net.destList s).any σ.waiting

/-- The inputs of the streams wait when the streams run, but for the streams `X`. -/
def Forwards (σ : Demand) (X : ℕ → Prop) : Prop :=
  ∀ t < σ.net.nStreams, ¬ X t → ∀ e, σ.net.input t = some e → σ.waiting e = σ.running t

/-- How far a stream is from the sources. -/
noncomputable def depth (net : Net) (s : ℕ) : ℕ :=
  chainHeight (Finset.range net.nStreams) net.Follows s

/-- What `set_waiting` of a destination leaves. It goes up from the stream of the destination, and
changes the inputs of the streams on its way only. -/
structure Passed (σ σ' : Demand) (d : ℕ) (w : Bool) : Prop where
  net : σ'.net = σ.net
  settled : σ'.Settled
  waiting : σ'.waiting d = w
  dests : ∀ e, e ≠ d → (depth σ.net (σ.net.stream d) ≤ depth σ.net (σ.net.stream e) ∨
    ∀ t < σ.net.nStreams, σ.net.Live t → σ.net.input t ≠ some e) → σ'.waiting e = σ.waiting e
  streams : ∀ t, depth σ.net (σ.net.stream d) < depth σ.net t → σ'.running t = σ.running t
  forwards : ∀ X : ℕ → Prop, (∀ t < σ.net.nStreams, σ.net.input t = some d → X t) →
    (∀ t t' e, σ.net.Live t → t < σ.net.nStreams → t' < σ.net.nStreams →
      σ.net.input t = some e → σ.net.input t' = some e → t' = t ∨ X t') →
    σ.Forwards X → σ'.Forwards X

/-- The destination of a stream changes, and the stream is told if that matters. -/
theorem Settled.setDest (hσ : σ.Settled) (hl : σ.net.Linked) (hd : d < σ.net.nDests)
    (hs : ((σ.setDest d w).net.destList (σ.net.stream d)).any (σ.setDest d w).waiting =
      σ'.running (σ.net.stream d))
    (hnet : σ'.net = σ.net) (hwait : σ'.waiting = (σ.setDest d w).waiting)
    (hrun : ∀ t, t ≠ σ.net.stream d → σ'.running t = σ.running t) : σ'.Settled := by
  intro t ht
  rw [hnet] at ht ⊢
  rw [hwait]
  by_cases hts : t = σ.net.stream d
  · subst hts
    exact hs.symm
  · rw [hrun t hts, hσ t ht]
    -- the destination is in the list of its own stream only
    apply Bool.eq_iff_iff.2
    simp only [List.any_eq_true]
    refine exists_congr fun e => and_congr_right fun he => ?_
    have hed : e ≠ d := by
      rintro rfl
      exact hts ((hl.dest t ht e).1 he).2.symm
    rw [setDest_of_ne _ hed]

/-- The way up from a destination whose stream was told.

**Proof sketch.** The stream calls its upper layer, if it has one. A capture has none, and is told.
Otherwise the stream forwards to a destination `e` of a stream that is nearer to the sources, for
which the induction hypothesis `hf` holds; the streams above keep what they had, and only this one
may be out of step (`X`) while that call lasts. -/
theorem wp_setRunning_passed {f : ℕ → Bool → DemandM Unit} (hl : σ.net.Linked)
    (hacyc : Acyclic σ.net.Follows) (hσ : σ.Settled) (hd : d < σ.net.nDests)
    (hlive : σ.net.Live (σ.net.stream d))
    (hany : (σ.net.destList (σ.net.stream d)).any (σ.setDest d w).waiting = w)
    (hf : ∀ e σ₁, σ₁.net = σ.net → σ₁.Settled → e < σ.net.nDests →
      σ.net.Live (σ.net.stream e) →
      depth σ.net (σ.net.stream e) < depth σ.net (σ.net.stream d) →
      wp (f e w) (fun _ σ' => Passed σ₁ σ' e w) (fun _ => False) σ₁) :
    wp (setRunning f (σ.net.stream d) w) (fun _ σ' => Passed σ σ' d w) (fun _ => False)
      (σ.setDest d w) := by
  have hsn := hl.stream d hd
  have hset : ((σ.setDest d w).called (σ.net.stream d) w).Settled := by
    refine hσ.setDest hl hd ?_ rfl rfl fun t ht => called_running_of_ne _ ht _
    rw [called_running]
    exact hany
  refine wp_setRunning (fun hcap => ?_) (fun hnone => ?_) fun e he => ?_
  · obtain ⟨e, -, he⟩ := hl.input _ hsn hcap
    exact ⟨e, he⟩
  · refine ⟨rfl, hset, setDest_waiting σ d w, fun e he _ => setDest_of_ne σ he w,
      fun t ht => ?_, fun X hX hU hfor t ht hXt e hin => ?_⟩
    · have hts : t ≠ σ.net.stream d := fun heq => absurd ht (heq ▸ lt_irrefl _)
      rw [called_running_of_ne _ hts, setDest_running]
    · have hts : t ≠ σ.net.stream d := by
        rintro rfl
        exact absurd (hnone.symm.trans hin) (by simp)
      have hed : e ≠ d := by
        rintro rfl
        exact hXt (hX t ht hin)
      rw [called_running_of_ne _ hts, called_waiting, setDest_of_ne _ hed]
      exact hfor t ht hXt e hin
  · -- the stream forwards to `e`, which is closer to the sources
    obtain ⟨e', he', hin⟩ := hl.input _ hsn fun hcap => by
      simp [Net.input, hcap] at he
    obtain rfl := Option.some.inj (hin.symm.trans he)
    have hup : depth σ.net (σ.net.stream e') < depth σ.net (σ.net.stream d) :=
      hacyc.height_lt (Finset.mem_range.2 (hl.stream e' he')) ⟨hsn, e', hin, rfl⟩
    have hlive' : σ.net.Live (σ.net.stream e') := by
      obtain ⟨sink, hsink⟩ := hlive
      exact ⟨sink, .through ((hl.dest _ (hl.stream e' he') e').2 ⟨he', rfl⟩) hsn hin hsink⟩
    have hde : d ≠ e' := by
      rintro rfl
      exact lt_irrefl _ hup
    refine (hf e' ((σ.setDest d w).called (σ.net.stream d) w) rfl hset he' hlive' hup).imp
      fun _ σ' h => ?_
    have hrun : ∀ t, depth σ.net (σ.net.stream d) ≤ depth σ.net t →
        σ'.running t = ((σ.setDest d w).called (σ.net.stream d) w).running t := fun t ht =>
      h.streams t (hup.trans_le ht)
    have hnet : σ'.net = σ.net := h.net
    refine ⟨hnet, h.settled, ?_, fun e hed hcase => ?_, fun t ht => ?_,
      fun X hX hU hfor t ht hXt e hte => ?_⟩
    · rw [h.dests d hde (.inl hup.le)]
      exact setDest_waiting σ d w
    · have hee : e ≠ e' := by
        rintro rfl
        rcases hcase with hle | hnot
        · exact absurd hup (not_lt.2 hle)
        · exact hnot _ hsn hlive hin
      rw [h.dests e hee (hcase.imp (fun hle => (hup.trans_le hle).le) id)]
      exact setDest_of_ne σ hed w
    · have hts : t ≠ σ.net.stream d := fun heq => absurd ht (heq ▸ lt_irrefl _)
      rw [hrun t ht.le, called_running_of_ne _ hts, setDest_running]
    · rw [hnet] at ht hte
      by_cases hts : t = σ.net.stream d
      · subst hts
        obtain rfl := Option.some.inj (hin.symm.trans hte)
        rw [h.waiting, hrun _ le_rfl, called_running]
      · -- the streams above keep what they had, and this one may be out of step
        refine h.forwards (fun t => X t ∨ t = σ.net.stream d) (fun t' ht' hin' => ?_)
          (fun t₁ t₂ e₁ h₁ h₂ h₃ h₄ h₅ => ?_) (fun t₁ ht₁ hX₁ e₁ hin₁ => ?_) t (hnet ▸ ht)
          (fun hor => hor.elim hXt hts) e (hnet ▸ hte)
        · rcases hU _ t' e' hlive hsn ht' hin hin' with heq | hXt'
          · exact .inr heq
          · exact .inl hXt'
        · exact (hU t₁ t₂ e₁ h₁ h₂ h₃ h₄ h₅).imp id .inl
        · obtain ⟨hXt₁, hne⟩ := not_or.1 hX₁
          have hed : e₁ ≠ d := by
            rintro rfl
            exact hXt₁ (hX t₁ ht₁ hin₁)
          rw [called_running_of_ne _ hne, called_waiting, setDest_of_ne _ hed]
          exact hfor t₁ ht₁ hXt₁ e₁ hin₁

/-- **A call of `set_waiting`.** -/
theorem wp_setWaiting {fuel : ℕ} (hl : σ.net.Linked) (hacyc : Acyclic σ.net.Follows)
    (hσ : σ.Settled) (hd : d < σ.net.nDests) (hlive : σ.net.Live (σ.net.stream d))
    (hfuel : depth σ.net (σ.net.stream d) < fuel) :
    wp (setWaiting fuel d w) (fun _ σ' => Passed σ σ' d w) (fun _ => False) σ := by
  induction fuel generalizing σ d w with
  | zero => exact absurd hfuel (Nat.not_lt_zero _)
  | succ fuel ih =>
    have hmem : d ∈ σ.net.destList (σ.net.stream d) :=
      (hl.dest _ (hl.stream d hd) d).2 ⟨hd, rfl⟩
    have hup : ∀ e σ₁, σ₁.net = σ.net → σ₁.Settled → e < σ.net.nDests →
        σ.net.Live (σ.net.stream e) →
        depth σ.net (σ.net.stream e) < depth σ.net (σ.net.stream d) →
        wp (setWaiting fuel e w) (fun _ σ' => Passed σ₁ σ' e w) (fun _ => False) σ₁ := by
      intro e σ₁ hnet h₁ he hlive' hlt
      rw [← hnet] at hl hacyc he hlive' hlt hfuel
      exact ih hl hacyc h₁ he hlive' (by omega)
    have hsame : σ.waiting d = w → Passed σ σ d w := fun hw =>
      ⟨rfl, hσ, hw, fun _ _ _ => rfl, fun _ _ => rfl, fun _ _ _ hfor => hfor⟩
    unfold setWaiting
    rw [wp_bind, wp_get, wp_ite]
    refine ⟨fun hwait => ?_, fun hwait => ?_⟩ <;> rw [wp_ite]
    · refine ⟨fun hw => hsame (hwait.trans hw.symm), fun hw => ?_⟩
      obtain rfl : w = false := by simpa using hw
      rw [wp_bind, wp_set, wp_ite]
      refine ⟨fun hany => ?_, fun hany => ?_⟩
      · -- others are still listening
        have hrun : σ.running (σ.net.stream d) = true := by
          rw [hσ _ (hl.stream d hd)]
          exact List.any_eq_true.2 ⟨d, hmem, hwait⟩
        refine ⟨rfl, hσ.setDest hl hd (hany.trans hrun.symm) rfl rfl fun _ _ => rfl,
          setDest_waiting σ d false, fun e he _ => setDest_of_ne σ he false, fun _ _ => rfl,
          fun X hX _ hfor t ht hXt e hin => ?_⟩
        have hed : e ≠ d := by
          rintro rfl
          exact hXt (hX t ht hin)
        rw [setDest_of_ne _ hed]
        exact hfor t ht hXt e hin
      · exact wp_setRunning_passed hl hacyc hσ hd hlive (by simpa using hany) hup
    · refine ⟨fun hw => ?_, fun hw => ?_⟩
      · subst hw
        rw [wp_bind, wp_set]
        refine wp_setRunning_passed hl hacyc hσ hd hlive ?_ hup
        exact List.any_eq_true.2 ⟨d, hmem, setDest_waiting σ d true⟩
      · refine hsame ?_
        rw [Bool.not_eq_true] at hwait hw
        rw [hwait, hw]

/-- A call that changes nothing. -/
theorem setWaiting_same {fuel : ℕ} (h : σ.waiting d = w) :
    (setWaiting (fuel + 1) d w).run σ = .ok ((), σ) := by
  unfold setWaiting
  cases w <;> simp [h] <;> rfl

/-! ## Any calls -/

/-- What every call keeps: a destination waits only if it is a sink or the input of a stream with
sinks behind it. -/
structure Kept (σ : Demand) : Prop where
  linked : σ.net.Linked
  acyclic : Acyclic σ.net.Follows
  settled : σ.Settled
  quiet : ∀ e, ¬ σ.net.IsSink e → (∀ t < σ.net.nStreams, σ.net.Live t → σ.net.input t ≠ some e) →
    σ.waiting e = false

/-- The depth of a stream is below the number of the streams. -/
theorem Kept.depth_lt (h : σ.Kept) (hs : s < σ.net.nStreams) :
    depth σ.net s < σ.net.nStreams := by
  have hlt := h.acyclic.height_lt_card (Finset.mem_range.2 hs)
  rwa [Finset.card_range] at hlt

/-- **A call for a sink.** -/
theorem Kept.call (h : σ.Kept) (hd : σ.net.IsSink d) (w : Bool) :
    ∃ σ', demandMachine.step σ (d, w) = .ok (σ', []) ∧ σ'.Kept ∧ Passed σ σ' d w ∧
      (σ.waiting d = w → σ' = σ) := by
  have hs := h.linked.stream d hd.1
  have hlive : σ.net.Live (σ.net.stream d) :=
    ⟨d, .sink ((h.linked.dest _ hs d).2 ⟨hd.1, rfl⟩) hd⟩
  have hpos : ∃ fuel, σ.net.nStreams = fuel + 1 :=
    Nat.exists_eq_succ_of_ne_zero (Nat.ne_zero_of_lt hs)
  have hcall := wp_setWaiting (w := w) h.linked h.acyclic h.settled hd.1 hlive (h.depth_lt hs)
  unfold wp at hcall
  rcases hrun : (setWaiting σ.net.nStreams d w).run σ with e | ⟨u, σ'⟩ <;> rw [hrun] at hcall
  · exact hcall.elim
  refine ⟨σ', ?_, ⟨?_, ?_, hcall.settled, fun e he hin => ?_⟩, hcall, fun hw => ?_⟩
  · change (match (setWaiting σ.net.nStreams d w).run σ with
      | .ok (_, σ') => Except.ok (σ', [])
      | .error e => .error e) = _
    rw [hrun]
  · rw [hcall.net]
    exact h.linked
  · rw [hcall.net]
    exact h.acyclic
  · rw [hcall.net] at he hin
    have hed : e ≠ d := by
      rintro rfl
      exact he hd
    rw [hcall.dests e hed (.inr hin)]
    exact h.quiet e he hin
  · obtain ⟨fuel, hfuel⟩ := hpos
    rw [hfuel, setWaiting_same hw] at hrun
    cases hrun
    rfl

/-- The inputs of streams that share none wait when the streams run. -/
theorem Passed.unshared (h : Passed σ σ' d w) (hd : σ.net.IsSink d) (hU : σ.net.Unshared)
    (hfor : σ.Forwards fun t => ¬ σ.net.Live t) : σ'.Forwards fun t => ¬ σ'.net.Live t := by
  rw [h.net]
  refine h.forwards _ (fun t ht hin => absurd hin (hd.2 t ht))
    (fun t t' e hlive ht ht' hin hin' => ?_) hfor
  by_cases hlive' : σ.net.Live t'
  · exact .inl (hU t' t e hlive' hlive ht' ht hin' hin)
  · exact .inr hlive'

/-- A stream runs when a sink behind it waits. -/
theorem Kept.running_iff (h : σ.Kept) (hfor : σ.Forwards fun t => ¬ σ.net.Live t)
    (hs : s < σ.net.nStreams) :
    σ.running s = true ↔ ∃ d, σ.net.Reaches s d ∧ σ.waiting d = true := by
  constructor
  · -- by induction on the streams that are further from the sources
    intro hrun
    induction hk : σ.net.nStreams - depth σ.net s using Nat.strong_induction_on
      generalizing s with
    | _ k ih =>
      rw [h.settled s hs, List.any_eq_true] at hrun
      obtain ⟨e, he, hwait⟩ := hrun
      by_cases hsink : σ.net.IsSink e
      · exact ⟨e, .sink he hsink, hwait⟩
      · have hin : ∃ t < σ.net.nStreams, σ.net.Live t ∧ σ.net.input t = some e := by
          by_contra hnot
          rw [h.quiet e hsink fun t ht hlive hin => hnot ⟨t, ht, hlive, hin⟩] at hwait
          cases hwait
        obtain ⟨t, ht, hlive, hin⟩ := hin
        have hrun := hfor t ht (fun hnot => hnot hlive) e hin
        have hdeep : depth σ.net s < depth σ.net t :=
          h.acyclic.height_lt (Finset.mem_range.2 hs) ⟨ht, e, hin, ((h.linked.dest s hs e).1 he).2⟩
        have hbound := h.depth_lt ht
        obtain ⟨d, hreach, hd⟩ := ih _ (by omega) ht (hrun ▸ hwait) rfl
        exact ⟨d, .through he ht hin hreach, hd⟩
  · rintro ⟨d, hreach, hd⟩
    induction hreach with
    | sink hmem _ =>
      rw [h.settled _ hs]
      exact List.any_eq_true.2 ⟨_, hmem, hd⟩
    | through hmem ht hin hreach ih =>
      rw [h.settled _ hs]
      refine List.any_eq_true.2 ⟨_, hmem, ?_⟩
      rw [hfor _ ht (fun hnot => hnot ⟨_, hreach⟩) _ hin]
      exact ih ht hd

end Demand

variable {σ : Demand} {as : List (ℕ × Bool)} {os : List Empty}

/-- At the start. -/
theorem Demand.kept_init (h : demandMachine.Init σ) :
    σ.Kept ∧ σ.Forwards fun t => ¬ σ.net.Live t := by
  obtain ⟨hlinked, hacyc, hwait, hcalls⟩ := h
  have hrun : ∀ s, σ.running s = false := by
    intro s
    simp [running, hcalls]
  refine ⟨⟨hlinked, hacyc, fun s _ => ?_, fun e _ _ => hwait e⟩, fun t _ _ e _ => ?_⟩
  · rw [hrun]
    simp [hwait]
  · rw [hrun, hwait]

/-- What any calls for sinks keep, whatever the graph. -/
theorem settled_run (h : Machine.Run demandMachine (fun σ a => σ.net.IsSink a.1) as os σ) :
    σ.Kept := by
  refine h.invariant Demand.Kept (fun σ h0 => (Demand.kept_init h0).1) ?_
  rintro σ ⟨d, w⟩ σ' o hk hd hs
  obtain ⟨σ₁, hstep, hk₁, -⟩ := hk.call hd w
  obtain ⟨rfl, -⟩ := Prod.mk.inj (Except.ok.inj (hstep.symm.trans hs))
  exact hk₁

/-- **Demand.** After any calls for sinks, where no two streams with sinks behind them share an
input: a stream was last told to run exactly when one of its destinations waits, and exactly when a
sink behind it waits; the next call changes the flag of no other sink, and nothing at all if the
sink has the flag already. -/
theorem demand_run
    (h : Machine.Run demandMachine (fun σ a => σ.net.IsSink a.1 ∧ σ.net.Unshared) as os σ) :
    (∀ s < σ.net.nStreams,
      (σ.running s = true ↔ ∃ d ∈ σ.net.destList s, σ.waiting d = true) ∧
      (σ.running s = true ↔ ∃ d, σ.net.Reaches s d ∧ σ.waiting d = true)) ∧
    ∀ d w, σ.net.IsSink d → ∃ σ', demandMachine.step σ (d, w) = .ok (σ', []) ∧
      σ'.waiting d = w ∧ (∀ e, e ≠ d → σ.net.IsSink e → σ'.waiting e = σ.waiting e) ∧
      (σ.waiting d = w → σ' = σ) := by
  have hinv : σ.Kept ∧ σ.Forwards fun t => ¬ σ.net.Live t := by
    refine h.invariant (fun σ => σ.Kept ∧ σ.Forwards fun t => ¬ σ.net.Live t)
      (fun σ h0 => Demand.kept_init h0) ?_
    rintro σ ⟨d, w⟩ σ' o ⟨hk, hfor⟩ ⟨hd, hU⟩ hs
    obtain ⟨σ₁, hstep, hk₁, hpass, -⟩ := hk.call hd w
    obtain ⟨rfl, -⟩ := Prod.mk.inj (Except.ok.inj (hstep.symm.trans hs))
    exact ⟨hk₁, hpass.unshared hd hU hfor⟩
  obtain ⟨hk, hfor⟩ := hinv
  refine ⟨fun s hs => ⟨?_, hk.running_iff hfor hs⟩, fun d w hd => ?_⟩
  · rw [hk.settled s hs, List.any_eq_true]
  · obtain ⟨σ', hstep, -, hpass, hsame⟩ := hk.call hd w
    exact ⟨σ', hstep, hpass.waiting, fun e hed he => hpass.dests e hed (.inr fun t ht _ => he.2 t ht),
      hsame⟩

/-- A graph at the start. -/
def Demand.started (net : Net) : Demand := { net, waiting := fun _ => false, calls := [] }

/-- A graph that the configuration makes can be started, if the filters are configured in the order
of their streams. -/
theorem demandMachine_started {net : Net} {ds : List Net.Directive}
    (h : Net.empty.configured ds = some net)
    (hup : ∀ t < net.nStreams, ∀ d ∈ net.input t, net.stream d < t) :
    demandMachine.Init (.started net) := by
  refine ⟨Net.linked_configured Net.linked_empty h, Acyclic.of_rank id ?_, fun _ => rfl, rfl⟩
  rintro t s ⟨ht, d, hin, rfl⟩
  exact hup t ht d hin

/-- A source with a framedrop filter, a converter behind the filter, and a sink behind each of
them. -/
def filtered : List Net.Directive :=
  [.source, .filter, .setInput 0 0 false, .setOutput 0, .sink 1 true, .sink 0 false]

/-- The sink behind the converter waits, the other sink waits and stops: the source runs. -/
theorem demand_run_filtered : ∃ σ : Demand, σ.running 0 = true ∧
    (σ.running 0 = true ↔ ∃ d, σ.net.Reaches 0 d ∧ σ.waiting d = true) := by
  obtain ⟨net, hnet⟩ := Option.isSome_iff_exists.1
    (show (Net.empty.configured filtered).isSome = true by decide +kernel)
  have hrun : ∃ σ, Machine.Run demandMachine (fun σ a => σ.net.IsSink a.1 ∧
      ∀ t < σ.net.nStreams, ∀ t' < σ.net.nStreams, ∀ d ∈ σ.net.input t,
        σ.net.input t' = some d → t = t') [(2, true), (3, true), (3, false)] [] σ ∧
        (σ.running 0, σ.net.nStreams) = (true, 3) := by
    obtain rfl := Option.some.inj (hnet.symm.trans rfl)
    exact Machine.Run.of_exec (fun σ : Demand => (σ.running 0, σ.net.nStreams))
      (demandMachine_started hnet (by decide +kernel)) (by decide +kernel)
  obtain ⟨σ, hrun, hσ⟩ := hrun
  obtain ⟨hrunning, hn⟩ := Prod.mk.inj hσ
  have hrun' : Machine.Run demandMachine (fun σ a => σ.net.IsSink a.1 ∧ σ.net.Unshared) _ _ σ :=
    hrun.mono fun σ a hg =>
      ⟨hg.1, fun t t' d _ _ ht ht' hin hin' => hg.2 t ht t' ht' d hin hin'⟩
  exact ⟨σ, hrunning, ((demand_run hrun').1 0 (hn ▸ Nat.succ_pos 2)).2⟩

/-- A framedrop filter with two output directives, and a sink behind each of its streams. -/
def twoOutputs : List Net.Directive :=
  [.source, .filter, .setInput 0 0 false, .setOutput 0, .setOutput 0, .sink 1 false,
    .sink 2 false]

/-- Both sinks wait, and one of them stops: the source is told to stop while the other waits. -/
theorem twoOutputs_stop : ∃ (net : Net) (σ : Demand),
    Net.empty.configured twoOutputs = some net ∧ demandMachine.Init (.started net) ∧
      demandMachine.exec (fun σ a => σ.net.IsSink a.1) (.started net)
        [(1, true), (2, true), (2, false)] = some (σ, []) ∧
      σ.net.priv 0 = .capture ∧ σ.running 0 = false ∧ σ.net.Reaches 0 1 ∧ σ.waiting 1 = true := by
  obtain ⟨net, hnet⟩ := Option.isSome_iff_exists.1
    (show (Net.empty.configured twoOutputs).isSome = true by decide +kernel)
  have hexec : (demandMachine.exec (fun σ a => σ.net.IsSink a.1) (.started net)
      [(1, true), (2, true), (2, false)]).map (fun r => decide ((r.1.net.priv 0 = .capture ∧
        r.1.running 0 = false ∧ r.1.waiting 1 = true) ∧ 0 ∈ r.1.net.destList 0 ∧
        1 < r.1.net.nStreams ∧ r.1.net.input 1 = some 0 ∧ 1 ∈ r.1.net.destList 1 ∧
        r.1.net.IsSink 1)) = some true := by
    obtain rfl := Option.some.inj (hnet.symm.trans rfl)
    decide +kernel
  obtain ⟨⟨σ, o⟩, hσ, hall⟩ := Option.map_eq_some_iff.1 hexec
  obtain ⟨⟨hpriv, hrun, hwait⟩, hmem, hlt, hin, hmem', hsink⟩ := of_decide_eq_true hall
  obtain rfl : o = [] := List.eq_nil_iff_forall_not_mem.2 fun e => e.elim
  refine ⟨net, σ, hnet, demandMachine_started hnet ?_, hσ, hpriv, hrun,
    .through hmem hlt hin (.sink hmem' hsink), hwait⟩
  obtain rfl := Option.some.inj (hnet.symm.trans rfl)
  decide +kernel

end Spook
