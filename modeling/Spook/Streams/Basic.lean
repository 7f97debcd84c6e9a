import Mathlib.Data.List.Nodup
import Spook.Capture
import Spook.Lib.CString

set_option relaxedAutoImplicit false
set_option autoImplicit false

/-!
# Streams and their formats

`stream.c` and the directives of `filter-framedrop.c`: the lines of a configuration make streams and
connect modules to them by name. A module says which formats it takes; if no stream of that name has
one of them, a converter may be put behind one that has another.

## Main definitions

* `Spook.StreamNet` — the streams, their destinations and the framedrop filters.
* `Spook.StreamNet.connect` — `connect_to_stream`.
* `Spook.StreamNet.configured` — what the lines of a configuration make.
* `Spook.StreamNet.WellFormed` — what every configuration keeps.

## Main results

* `Spook.StreamNet.wellFormed_configured` — whatever the configuration, a destination has a stream of
  the name that it asked for, in a format that it takes.
-/

namespace Spook

/-! ## Streams -/

/-- `private`, `get_framerate` and `set_running` of a stream. -/
inductive Origin
  /-- An input module, with the frame rate that it tells. -/
  | input (fincr fbase : ℤ)
  /-- A converter, with its `struct stream_destination`. -/
  | convert (input : ℕ)
  /-- A `struct framedropper`. -/
  | framedrop (drop : ℕ)
  deriving DecidableEq

/-- `struct stream`. -/
structure StreamNode where
  name : Bytes
  format : Format
  destList : List ℕ
  origin : Origin

/-- `process_frame` and `d` of a destination. -/
inductive Processor
  /-- An output module. -/
  | output
  /-- `do_framedrop`. -/
  | framedrop (drop : ℕ)
  /-- `convert_uyvy_to_rgb24`, with the stream of the converter. -/
  | convert (s : ℕ)
  deriving DecidableEq

/-- `struct stream_destination`, less the flag. The arguments that `connect_to_stream` was called with
are kept along; no function reads them. -/
structure StreamDest where
  stream : ℕ
  process : Processor
  name : Bytes
  formats : List Format

/-- `struct framedropper`, less the counter. -/
structure Framedropper where
  output : Option ℕ
  input : Option ℕ
  scale : ℤ

/-- The streams in the order in which they were made and, in `streamList`, in that of
`stream_list`. -/
structure StreamNet where
  nStreams : ℕ
  nDests : ℕ
  nDrops : ℕ
  streams : ℕ → StreamNode
  streamList : List ℕ
  dests : ℕ → StreamDest
  drops : ℕ → Framedropper

/-- `format_match`. -/
def formatMatch (format : Format) (formats : List Format) : Bool :=
  formats.isEmpty || formats.contains format

namespace StreamNet

/-- No streams. -/
def empty : StreamNet where
  nStreams := 0
  nDests := 0
  nDrops := 0
  streams _ := ⟨[], .empty, [], .input 0 0⟩
  streamList := []
  dests _ := ⟨0, .output, [], []⟩
  drops _ := ⟨none, none, 0⟩

/-- `new_dest`. -/
def newDest (net : StreamNet) (s : ℕ) (process : Processor) (name : Bytes) (formats : List Format) :
    StreamNet × ℕ :=
  let node := net.streams s
  ({ net with
      nDests := net.nDests + 1
      streams := Function.update net.streams s { node with destList := net.nDests :: node.destList }
      dests := Function.update net.dests net.nDests ⟨s, process, name, formats⟩ }, net.nDests)

/-- A stream is made and put into the list. -/
def addStream (net : StreamNet) (node : StreamNode) (list : List ℕ) : StreamNet :=
  { net with
    nStreams := net.nStreams + 1
    streams := Function.update net.streams net.nStreams node
    streamList := list }

/-- `new_stream`, and what its caller stores in the stream. -/
def newStream (net : StreamNet) (name : Bytes) (format : Format) (origin : Origin) :
    StreamNet × ℕ :=
  (net.addStream ⟨name, format, [], origin⟩ (net.nStreams :: net.streamList), net.nStreams)

/-- `new_convert_stream` for `convert_uyvy_to_rgb24`. -/
def newConvertStream (net : StreamNet) (base : ℕ) (format : Format) : StreamNet × ℕ :=
  let s := net.nStreams
  let list := net.streamList.flatMap fun t => if t = base then [t, s] else [t]
  let net := net.addStream ⟨(net.streams base).name, format, [], .convert net.nDests⟩ list
  ((net.newDest base (.convert s) [] []).1, s)

/-- `connect_to_stream`. -/
def connect (net : StreamNet) (name : Bytes) (process : Processor) (formats : List Format) :
    Option (StreamNet × ℕ) :=
  match net.streamList.find? fun s =>
      (net.streams s).name = name ∧ formatMatch (net.streams s).format formats with
  | some s => some (net.newDest s process name formats)
  | none =>
    match net.streamList.find? fun s => (net.streams s).name = name ∧
        (net.streams s).format = .rawUyvy ∧ formatMatch .rawRgb24 formats with
    | some s =>
      let (net, s) := net.newConvertStream s .rawRgb24
      some (net.newDest s process name formats)
    | none => none

/-! ## Configurations -/

/-- A line of the configuration. -/
inductive Line
  /-- The output of an input module. -/
  | source (name : Bytes) (format : Format) (fincr fbase : ℤ)
  /-- The input of an output module. -/
  | sink (name : Bytes) (formats : List Format)
  /-- `start_block` of a framedrop filter, which leaves `input` uninitialised; here it was zero. -/
  | filter
  /-- `set_input`, `set_output`, `set_scale` and `end_block`. -/
  | setInput (drop : ℕ) (name : Bytes)
  | setOutput (drop : ℕ) (name : Bytes)
  | setScale (drop : ℕ) (scale : ℤ)
  | endBlock (drop : ℕ)

/-- A filter is changed. -/
def setDrop (net : StreamNet) (drop : ℕ) (f : Framedropper) : StreamNet :=
  { net with drops := Function.update net.drops drop f }

/-- A line; an error ends the configuration. -/
def configure (net : StreamNet) : Line → Option StreamNet
  | .source name format fincr fbase => some (net.newStream name format (.input fincr fbase)).1
  | .sink name formats => (net.connect name .output formats).map Prod.fst
  | .filter => some { net.setDrop net.nDrops ⟨none, none, 0⟩ with nDrops := net.nDrops + 1 }
  | .setInput drop name =>
    if drop < net.nDrops then
      (net.connect name (.framedrop drop) []).map fun (net, d) =>
        net.setDrop drop { net.drops drop with input := some d }
    else none
  | .setOutput drop name =>
    if drop < net.nDrops then
      (net.drops drop).input.map fun d =>
        let format := (net.streams (net.dests d).stream).format
        let (net, s) := net.newStream name format (.framedrop drop)
        net.setDrop drop { net.drops drop with output := some s }
    else none
  | .setScale drop scale =>
    if drop < net.nDrops ∧ 1 ≤ scale then some (net.setDrop drop { net.drops drop with scale })
    else none
  | .endBlock drop =>
    let f := net.drops drop
    if drop < net.nDrops ∧ f.input.isSome ∧ f.output.isSome ∧ 1 ≤ f.scale then some net else none

/-- The lines of a configuration. -/
def configured : StreamNet → List Line → Option StreamNet
  | net, [] => some net
  | net, l :: ls => (net.configure l).bind fun net => net.configured ls

/-! ## What a configuration keeps -/

/-- The lists hold what there is. -/
structure Listed (net : StreamNet) : Prop where
  list : ∀ s, s ∈ net.streamList ↔ s < net.nStreams
  destList : ∀ s < net.nStreams, ∀ d,
    d ∈ (net.streams s).destList ↔ d < net.nDests ∧ (net.dests d).stream = s
  nodup : ∀ s < net.nStreams, (net.streams s).destList.Nodup
  stream : ∀ d < net.nDests, (net.dests d).stream < net.nStreams

/-- A destination has a stream of the name that it asked for, in one of the formats that it takes; a
converter stands behind a stream of UYVY, under the same name. The streams of the converters and the
filters know where their frames come from. -/
structure WellFormed (net : StreamNet) : Prop extends Listed net where
  asked : ∀ d < net.nDests, (∀ t, (net.dests d).process ≠ .convert t) →
    (net.streams (net.dests d).stream).name = (net.dests d).name ∧
      formatMatch (net.streams (net.dests d).stream).format (net.dests d).formats = true
  converts : ∀ d < net.nDests, ∀ t, (net.dests d).process = .convert t →
    t < net.nStreams ∧ (net.dests d).stream < t ∧ (net.streams t).origin = .convert d ∧
      (net.streams (net.dests d).stream).format = .rawUyvy ∧ (net.streams t).format = .rawRgb24 ∧
      (net.streams t).name = (net.streams (net.dests d).stream).name
  converted : ∀ t < net.nStreams, ∀ d, (net.streams t).origin = .convert d →
    d < net.nDests ∧ (net.dests d).process = .convert t
  filters : ∀ d < net.nDests, ∀ k, (net.dests d).process = .framedrop k → k < net.nDrops
  filtered : ∀ t < net.nStreams, ∀ k, (net.streams t).origin = .framedrop k → k < net.nDrops
  input : ∀ k < net.nDrops, ∀ d, (net.drops k).input = some d →
    d < net.nDests ∧ (net.dests d).process = .framedrop k
  output : ∀ k < net.nDrops, ∀ t, (net.drops k).output = some t →
    t < net.nStreams ∧ (net.streams t).origin = .framedrop k

variable {net net' : StreamNet} {s t d k : ℕ} {process : Processor} {name : Bytes}
  {formats : List Format} {format : Format} {origin : Origin} {node : StreamNode} {list : List ℕ}

/-! ### Destinations -/

section NewDest

/-- A new destination does not rename streams. -/
@[simp] theorem newDest_name :
    ((net.newDest s process name formats).1.streams t).name = (net.streams t).name := by
  simp only [newDest, Function.update_apply]
  split_ifs with h
  · rw [h]
  · rfl

/-- A new destination does not change formats. -/
@[simp] theorem newDest_format :
    ((net.newDest s process name formats).1.streams t).format = (net.streams t).format := by
  simp only [newDest, Function.update_apply]
  split_ifs with h
  · rw [h]
  · rfl

/-- A new destination does not change where a stream comes from. -/
@[simp] theorem newDest_origin :
    ((net.newDest s process name formats).1.streams t).origin = (net.streams t).origin := by
  simp only [newDest, Function.update_apply]
  split_ifs with h
  · rw [h]
  · rfl

/-- A new destination is in front of the list of its stream. -/
theorem newDest_destList : ((net.newDest s process name formats).1.streams t).destList =
    if t = s then net.nDests :: (net.streams t).destList else (net.streams t).destList := by
  simp only [newDest, Function.update_apply]
  split_ifs with h
  · rw [h]
  · rfl

/-- What the new destination is. -/
theorem newDest_self : (net.newDest s process name formats).1.dests net.nDests =
    ⟨s, process, name, formats⟩ := Function.update_self ..

/-- The destinations that are there stay. -/
theorem newDest_of_lt (hd : d < net.nDests) :
    (net.newDest s process name formats).1.dests d = net.dests d :=
  Function.update_of_ne hd.ne ..

/-- A destination is one of those that were there, or the new one. -/
theorem newDest_cases (hd : d < (net.newDest s process name formats).1.nDests) :
    d < net.nDests ∨ d = net.nDests :=
  Nat.lt_or_eq_of_le (Nat.le_of_lt_succ hd)

end NewDest

/-- With a new destination the lists still are what they should be. -/
theorem Listed.newDest (h : net.Listed) (hs : s < net.nStreams) :
    (net.newDest s process name formats).1.Listed where
  list := h.list
  destList := by
    intro s' hs' d
    have hold := h.destList s' hs' d
    rw [newDest_destList]
    by_cases hd : d = net.nDests
    · subst hd
      rw [newDest_self]
      have hnot : net.nDests ∉ (net.streams s').destList := fun hmem =>
        lt_irrefl _ (hold.1 hmem).1
      by_cases hss : s' = s
      · subst hss
        simp [StreamNet.newDest]
      · simp [hss, hnot, Ne.symm hss]
    · have hiff : d < (net.newDest s process name formats).1.nDests ↔ d < net.nDests := by
        simp only [StreamNet.newDest]
        omega
      have hdest : (net.newDest s process name formats).1.dests d = net.dests d :=
        Function.update_of_ne hd ..
      rw [hdest, hiff, ← hold]
      split_ifs with hss
      · rw [List.mem_cons, or_iff_right hd]
      · rfl
  nodup := by
    intro s' hs'
    rw [newDest_destList]
    split_ifs with hss
    · exact List.nodup_cons.2
        ⟨fun hmem => lt_irrefl _ ((h.destList s' hs' _).1 hmem).1, h.nodup s' hs'⟩
    · exact h.nodup s' hs'
  stream := by
    intro d hd
    rcases newDest_cases hd with hd | rfl
    · rw [newDest_of_lt hd]
      exact h.stream d hd
    · rw [newDest_self]
      exact hs

/-- A module connects to a stream of the name and in a format that it asked for. -/
theorem WellFormed.newDest (h : net.WellFormed) (hs : s < net.nStreams)
    (hname : (net.streams s).name = name)
    (hformat : formatMatch (net.streams s).format formats = true)
    (hconvert : ∀ t, process ≠ .convert t) (hdrop : ∀ k, process = .framedrop k → k < net.nDrops) :
    (net.newDest s process name formats).1.WellFormed where
  toListed := h.toListed.newDest hs
  asked := by
    intro d hd hnot
    rw [newDest_name, newDest_format]
    rcases newDest_cases hd with hd | rfl
    · rw [newDest_of_lt hd] at hnot ⊢
      exact h.asked d hd hnot
    · rw [newDest_self]
      exact ⟨hname, hformat⟩
  converts := by
    intro d hd t ht
    simp only [newDest_name, newDest_format, newDest_origin]
    rcases newDest_cases hd with hd | rfl
    · rw [newDest_of_lt hd] at ht ⊢
      exact h.converts d hd t ht
    · rw [newDest_self] at ht
      exact absurd ht (hconvert t)
  converted := by
    intro t ht d horigin
    rw [newDest_origin] at horigin
    obtain ⟨hd, hprocess⟩ := h.converted t ht d horigin
    rw [newDest_of_lt hd]
    exact ⟨Nat.lt_succ_of_lt hd, hprocess⟩
  filters := by
    intro d hd k hk
    rcases newDest_cases hd with hd | rfl
    · rw [newDest_of_lt hd] at hk
      exact h.filters d hd k hk
    · rw [newDest_self] at hk
      exact hdrop k hk
  filtered := by
    intro t ht k hk
    rw [newDest_origin] at hk
    exact h.filtered t ht k hk
  input := by
    intro k hk d hd
    obtain ⟨hlt, hprocess⟩ := h.input k hk d hd
    rw [newDest_of_lt hlt]
    exact ⟨Nat.lt_succ_of_lt hlt, hprocess⟩
  output := by
    intro k hk t ht
    rw [newDest_origin]
    exact h.output k hk t ht

/-! ### Streams -/

/-- A new stream has no destinations. -/
@[simp] theorem addStream_dests : (net.addStream node list).dests = net.dests := rfl

/-- What the new stream is. -/
theorem addStream_self : (net.addStream node list).streams net.nStreams = node :=
  Function.update_self ..

/-- The streams that are there stay. -/
theorem addStream_of_lt (ht : t < net.nStreams) :
    (net.addStream node list).streams t = net.streams t :=
  Function.update_of_ne ht.ne ..

/-- A stream is one of those that were there, or the new one. -/
theorem addStream_cases (ht : t < (net.addStream node list).nStreams) :
    t < net.nStreams ∨ t = net.nStreams :=
  Nat.lt_or_eq_of_le (Nat.le_of_lt_succ ht)

/-- With a new stream the lists still are what they should be. -/
theorem Listed.addStream (h : net.Listed) (hnode : node.destList = [])
    (hlist : ∀ s, s ∈ list ↔ s ∈ net.streamList ∨ s = net.nStreams) :
    (net.addStream node list).Listed where
  list := by
    intro s
    refine (hlist s).trans ?_
    rw [h.list]
    exact Nat.lt_succ_iff_lt_or_eq.symm
  destList := by
    intro s hs d
    rcases addStream_cases hs with hs | rfl
    · rw [addStream_of_lt hs]
      exact h.destList s hs d
    · rw [addStream_self, hnode]
      refine ⟨fun hd => absurd hd List.not_mem_nil, fun hd => ?_⟩
      exact absurd hd.2 (h.stream d hd.1).ne
  nodup := by
    intro s hs
    rcases addStream_cases hs with hs | rfl
    · rw [addStream_of_lt hs]
      exact h.nodup s hs
    · rw [addStream_self, hnode]
      exact List.nodup_nil
  stream := fun d hd => Nat.lt_succ_of_lt (h.stream d hd)

/-- A stream of an input module or of a filter. -/
theorem WellFormed.addStream (h : net.WellFormed) (hnode : node.destList = [])
    (hlist : ∀ s, s ∈ list ↔ s ∈ net.streamList ∨ s = net.nStreams)
    (hconvert : ∀ d, node.origin ≠ .convert d)
    (hdrop : ∀ k, node.origin = .framedrop k → k < net.nDrops) :
    (net.addStream node list).WellFormed where
  toListed := h.toListed.addStream hnode hlist
  asked := by
    intro d hd hnot
    simp only [addStream_dests, addStream_of_lt (h.stream d hd)] at hnot ⊢
    exact h.asked d hd hnot
  converts := by
    intro d hd t ht
    obtain ⟨hlt, hrest⟩ := h.converts d hd t ht
    simp only [addStream_dests, addStream_of_lt (h.stream d hd), addStream_of_lt hlt]
    exact ⟨Nat.lt_succ_of_lt hlt, hrest⟩
  converted := by
    intro t ht d horigin
    rcases addStream_cases ht with ht | rfl
    · rw [addStream_of_lt ht] at horigin
      exact h.converted t ht d horigin
    · rw [addStream_self] at horigin
      exact absurd horigin (hconvert d)
  filters := h.filters
  filtered := by
    intro t ht k hk
    rcases addStream_cases ht with ht | rfl
    · rw [addStream_of_lt ht] at hk
      exact h.filtered t ht k hk
    · rw [addStream_self] at hk
      exact hdrop k hk
  input := h.input
  output := by
    intro k hk t ht
    obtain ⟨hlt, horigin⟩ := h.output k hk t ht
    rw [addStream_of_lt hlt]
    exact ⟨Nat.lt_succ_of_lt hlt, horigin⟩

/-- A converter behind a stream of UYVY.

**Proof sketch.** The converter is one new stream, listed behind `s`, and one new destination of
`s`. Each field of the invariant is checked for what was there, which is as it was, and for what is
new, where it is read off. -/
theorem WellFormed.newConvertStream (h : net.WellFormed) (hs : s < net.nStreams)
    (hformat : (net.streams s).format = .rawUyvy) :
    (net.newConvertStream s .rawRgb24).1.WellFormed ∧
      ((net.newConvertStream s .rawRgb24).1.streams net.nStreams).name = (net.streams s).name ∧
      ((net.newConvertStream s .rawRgb24).1.streams net.nStreams).format = .rawRgb24 ∧
      ((net.newConvertStream s .rawRgb24).1.streams net.nStreams).origin = .convert net.nDests ∧
      ((net.newConvertStream s .rawRgb24).1.dests net.nDests).process = .convert net.nStreams := by
  set node : StreamNode := ⟨(net.streams s).name, .rawRgb24, [], .convert net.nDests⟩ with hnode
  set list := net.streamList.flatMap fun t => if t = s then [t, net.nStreams] else [t] with hlist
  set net₁ := net.addStream node list with hnet₁
  have hnet : (net.newConvertStream s .rawRgb24).1 =
      (net₁.newDest s (.convert net.nStreams) [] []).1 := rfl
  have hself : net₁.streams net.nStreams = node := addStream_self
  have hold : ∀ t < net.nStreams, net₁.streams t = net.streams t := fun t ht => addStream_of_lt ht
  have hmem : ∀ t, t ∈ list ↔ t ∈ net.streamList ∨ t = net.nStreams := by
    intro t
    rw [hlist, List.mem_flatMap]
    constructor
    · rintro ⟨u, hu, ht⟩
      split_ifs at ht with hus
      · rcases List.mem_cons.1 ht with rfl | ht
        · exact .inl hu
        · exact .inr (List.mem_singleton.1 ht)
      · exact .inl (List.mem_singleton.1 ht ▸ hu)
    · rintro (ht | rfl)
      · exact ⟨t, ht, by split_ifs <;> simp⟩
      · exact ⟨s, (h.list s).2 hs, by simp⟩
  have hlisted : net₁.Listed := h.toListed.addStream rfl hmem
  have hkept : ∀ d < net.nDests,
      (net₁.newDest s (.convert net.nStreams) [] []).1.dests d = net.dests d :=
    fun d hd => newDest_of_lt (show d < net₁.nDests from hd)
  have hmade : (net₁.newDest s (.convert net.nStreams) [] []).1.dests net.nDests =
      ⟨s, .convert net.nStreams, [], []⟩ := newDest_self
  have hcases : ∀ d < (net₁.newDest s (.convert net.nStreams) [] []).1.nDests,
      d < net.nDests ∨ d = net.nDests :=
    fun d hd => Nat.lt_or_eq_of_le (Nat.le_of_lt_succ hd)
  have hstreams : ∀ t < (net₁.newDest s (.convert net.nStreams) [] []).1.nStreams,
      t < net.nStreams ∨ t = net.nStreams :=
    fun t ht => Nat.lt_or_eq_of_le (Nat.le_of_lt_succ ht)
  rw [hnet]
  refine ⟨⟨hlisted.newDest (Nat.lt_succ_of_lt hs), fun d hd hnot => ?_, fun d hd t ht => ?_,
    fun t ht d horigin => ?_, fun d hd k hk => ?_, fun t ht k hk => ?_, fun k hk d hd => ?_,
    fun k hk t ht => ?_⟩, ?_, ?_, ?_, ?_⟩
  · rcases hcases d hd with hd | rfl
    · rw [hkept d hd] at hnot ⊢
      rw [newDest_name, newDest_format, hold _ (h.stream d hd)]
      exact h.asked d hd hnot
    · rw [hmade] at hnot
      exact absurd rfl (hnot net.nStreams)
  · simp only [newDest_name, newDest_format, newDest_origin]
    rcases hcases d hd with hd | rfl
    · rw [hkept d hd] at ht ⊢
      obtain ⟨hlt, hrest⟩ := h.converts d hd t ht
      rw [hold _ (h.stream d hd), hold t hlt]
      exact ⟨Nat.lt_succ_of_lt hlt, hrest⟩
    · rw [hmade] at ht ⊢
      cases ht
      dsimp only
      rw [hself, hold s hs]
      exact ⟨Nat.lt_succ_self _, hs, rfl, hformat, rfl, rfl⟩
  · rw [newDest_origin] at horigin
    rcases hstreams t ht with ht | rfl
    · rw [hold t ht] at horigin
      obtain ⟨hd, hprocess⟩ := h.converted t ht d horigin
      rw [hkept d hd]
      exact ⟨Nat.lt_succ_of_lt hd, hprocess⟩
    · rw [hself] at horigin
      cases horigin
      exact ⟨Nat.lt_succ_self _, by rw [hmade]⟩
  · rcases hcases d hd with hd | rfl
    · rw [hkept d hd] at hk
      exact h.filters d hd k hk
    · rw [hmade] at hk
      cases hk
  · rw [newDest_origin] at hk
    rcases hstreams t ht with ht | rfl
    · rw [hold t ht] at hk
      exact h.filtered t ht k hk
    · rw [hself] at hk
      cases hk
  · obtain ⟨hlt, hprocess⟩ := h.input k hk d hd
    rw [hkept d hlt]
    exact ⟨Nat.lt_succ_of_lt hlt, hprocess⟩
  · obtain ⟨hlt, horigin⟩ := h.output k hk t ht
    rw [newDest_origin, hold t hlt]
    exact ⟨Nat.lt_succ_of_lt hlt, horigin⟩
  · rw [newDest_name, hself]
  · rw [newDest_format, hself]
  · rw [newDest_origin, hself]
  · rw [hmade]

/-! ### Connections -/

/-- What was made earlier stays as it was. -/
structure Extends (net net' : StreamNet) : Prop where
  nStreams : net.nStreams ≤ net'.nStreams
  nDests : net.nDests ≤ net'.nDests
  name : ∀ t < net.nStreams, (net'.streams t).name = (net.streams t).name
  format : ∀ t < net.nStreams, (net'.streams t).format = (net.streams t).format
  origin : ∀ t < net.nStreams, (net'.streams t).origin = (net.streams t).origin
  dests : ∀ d < net.nDests, net'.dests d = net.dests d

/-- A new destination extends the net. -/
theorem extends_newDest : net.Extends (net.newDest s process name formats).1 where
  nStreams := le_rfl
  nDests := Nat.le_succ _
  name _ _ := newDest_name
  format _ _ := newDest_format
  origin _ _ := newDest_origin
  dests _ hd := newDest_of_lt hd

/-- A new stream extends the net. -/
theorem extends_addStream : net.Extends (net.addStream node list) where
  nStreams := Nat.le_succ _
  nDests := le_rfl
  name _ ht := by rw [addStream_of_lt ht]
  format _ ht := by rw [addStream_of_lt ht]
  origin _ ht := by rw [addStream_of_lt ht]
  dests _ _ := rfl

/-- An extension of an extension. -/
theorem Extends.trans {net₁ : StreamNet} (h : net.Extends net₁) (h' : net₁.Extends net') :
    net.Extends net' where
  nStreams := h.nStreams.trans h'.nStreams
  nDests := h.nDests.trans h'.nDests
  name t ht := (h'.name t (ht.trans_le h.nStreams)).trans (h.name t ht)
  format t ht := (h'.format t (ht.trans_le h.nStreams)).trans (h.format t ht)
  origin t ht := (h'.origin t (ht.trans_le h.nStreams)).trans (h.origin t ht)
  dests d hd := (h'.dests d (hd.trans_le h.nDests)).trans (h.dests d hd)

/-- What `connect_to_stream` makes: the destination comes last, behind a converter or none. -/
structure Connected (net : StreamNet) (process : Processor) (net' : StreamNet) (d : ℕ) : Prop
    extends Extends net net' where
  drops : net'.drops = net.drops
  nDrops : net'.nDrops = net.nDrops
  last : net'.nDests = d + 1
  process : (net'.dests d).process = process
  others : ∀ e < net'.nDests, net.nDests ≤ e → e ≠ d → ∃ t, (net'.dests e).process = .convert t
  made : ∀ t < net'.nStreams, net.nStreams ≤ t → ∃ e, (net'.streams t).origin = .convert e

/-- The stream that a module is connected to, or that its converter is put behind. -/
theorem connect_cases (hc : net.connect name process formats = some (net', d)) :
    (∃ s ∈ net.streamList, (net.streams s).name = name ∧
      formatMatch (net.streams s).format formats = true ∧
      (net', d) = net.newDest s process name formats) ∨
    (∃ s ∈ net.streamList, (net.streams s).name = name ∧ (net.streams s).format = .rawUyvy ∧
      formatMatch .rawRgb24 formats = true ∧
      (net', d) =
        (net.newConvertStream s .rawRgb24).1.newDest net.nStreams process name formats) := by
  unfold StreamNet.connect at hc
  split at hc
  next s hfind =>
    have hmatch : (net.streams s).name = name ∧
        formatMatch (net.streams s).format formats = true := by
      simpa using List.find?_some hfind
    exact .inl ⟨s, List.mem_of_find?_eq_some hfind, hmatch.1, hmatch.2, (Option.some.inj hc).symm⟩
  next =>
    split at hc
    next s hfind =>
      have hmatch : (net.streams s).name = name ∧ (net.streams s).format = .rawUyvy ∧
          formatMatch .rawRgb24 formats = true := by
        simpa using List.find?_some hfind
      exact .inr ⟨s, List.mem_of_find?_eq_some hfind, hmatch.1, hmatch.2.1, hmatch.2.2,
        (Option.some.inj hc).symm⟩
    next => cases hc

/-- `connect_to_stream` keeps the net well formed, converters included, and tells which destination
is new. -/
theorem WellFormed.connect (h : net.WellFormed) (hconvert : ∀ t, process ≠ .convert t)
    (hdrop : ∀ k, process = .framedrop k → k < net.nDrops)
    (hc : net.connect name process formats = some (net', d)) :
    net'.WellFormed ∧ net.Connected process net' d := by
  rcases connect_cases hc with ⟨s, hmem, hname, hformat, heq⟩ | ⟨s, hmem, hname, huyvy, hformat, heq⟩
  · obtain ⟨rfl, rfl⟩ := Prod.mk.inj heq
    refine ⟨h.newDest ((h.list s).1 hmem) hname hformat hconvert hdrop,
      { extends_newDest with
        drops := rfl, nDrops := rfl, last := rfl, process := ?_, others := ?_, made := ?_ }⟩
    · exact congrArg StreamDest.process newDest_self
    · intro e he hle hne
      exact absurd (Nat.le_antisymm (Nat.le_of_lt_succ he) hle) hne
    · exact fun t ht hle => absurd ht hle.not_gt
  · obtain ⟨hwell, hname', hformat', horigin, hprocess⟩ :=
      h.newConvertStream ((h.list s).1 hmem) huyvy
    have hextends : net.Extends (net.newConvertStream s .rawRgb24).1 :=
      extends_addStream.trans extends_newDest
    have hdests : (net.newConvertStream s .rawRgb24).1.nDests = net.nDests + 1 := rfl
    have hstreams : (net.newConvertStream s .rawRgb24).1.nStreams = net.nStreams + 1 := rfl
    have hdrops : (net.newConvertStream s .rawRgb24).1.drops = net.drops := rfl
    have hnDrops : (net.newConvertStream s .rawRgb24).1.nDrops = net.nDrops := rfl
    generalize (net.newConvertStream s .rawRgb24).1 = net₁ at *
    obtain ⟨rfl, rfl⟩ := Prod.mk.inj heq
    refine ⟨hwell.newDest (by omega) (hname'.trans hname) (hformat' ▸ hformat) hconvert
        (hnDrops ▸ hdrop),
      { hextends.trans extends_newDest with
        drops := hdrops, nDrops := hnDrops, last := rfl, process := ?_, others := ?_, made := ?_ }⟩
    · exact congrArg StreamDest.process newDest_self
    · intro e he hle hne
      rcases newDest_cases he with he | he
      · obtain rfl : e = net.nDests := by omega
        exact ⟨net.nStreams, (congrArg StreamDest.process (newDest_of_lt he)).trans hprocess⟩
      · exact absurd he hne
    · intro t ht hle
      have ht : t < net₁.nStreams := ht
      obtain rfl : t = net.nStreams := by omega
      exact ⟨net.nDests, newDest_origin.trans horigin⟩

/-! ### Filters -/

/-- A filter is changed. -/
theorem WellFormed.setDrop (h : net.WellFormed) {f : Framedropper}
    (hinput : ∀ d, f.input = some d → d < net.nDests ∧ (net.dests d).process = .framedrop k)
    (houtput : ∀ t, f.output = some t →
      t < net.nStreams ∧ (net.streams t).origin = .framedrop k) :
    (net.setDrop k f).WellFormed :=
  { h with
    input := by
      intro k' hk d hd
      simp only [StreamNet.setDrop, Function.update_apply] at hd
      split_ifs at hd with hkk
      · exact hkk ▸ hinput d hd
      · exact h.input k' hk d hd
    output := by
      intro k' hk t ht
      simp only [StreamNet.setDrop, Function.update_apply] at ht
      split_ifs at ht with hkk
      · exact hkk ▸ houtput t ht
      · exact h.output k' hk t ht }

/-- A new frame dropper has neither input nor output. -/
theorem WellFormed.filter (h : net.WellFormed) :
    ({ net.setDrop net.nDrops ⟨none, none, 0⟩ with nDrops := net.nDrops + 1 } :
      StreamNet).WellFormed where
  toListed := ⟨h.list, h.destList, h.nodup, h.stream⟩
  asked := h.asked
  converts := h.converts
  converted := h.converted
  filters d hd k hk := Nat.lt_succ_of_lt (h.filters d hd k hk)
  filtered t ht k hk := Nat.lt_succ_of_lt (h.filtered t ht k hk)
  input := by
    intro k hk d hd
    simp only [StreamNet.setDrop, Function.update_apply] at hd
    split_ifs at hd with hnew
    exact h.input k (by simp only at hk; omega) d hd
  output := by
    intro k hk t ht
    simp only [StreamNet.setDrop, Function.update_apply] at ht
    split_ifs at ht with hnew
    exact h.output k (by simp only at hk; omega) t ht

/-- A stream is put before the others. -/
theorem WellFormed.newStream (h : net.WellFormed) (hconvert : ∀ d, origin ≠ .convert d)
    (hdrop : ∀ k, origin = .framedrop k → k < net.nDrops) :
    (net.newStream name format origin).1.WellFormed :=
  h.addStream rfl (fun s => by rw [List.mem_cons, or_comm]) hconvert hdrop

/-! ### Lines -/

/-- A line of the configuration keeps the net well formed. -/
theorem WellFormed.configure (h : net.WellFormed) {l : Line} (hl : net.configure l = some net') :
    net'.WellFormed := by
  cases l with
  | source name format fincr fbase =>
    cases hl
    exact h.newStream (fun d => by simp) (fun k hk => by cases hk)
  | sink name formats =>
    obtain ⟨⟨net₁, d⟩, hc, rfl⟩ := Option.map_eq_some_iff.1 hl
    exact (h.connect (fun t => by simp) (fun k hk => by cases hk) hc).1
  | filter =>
    cases hl
    exact h.filter
  | setInput drop name =>
    simp only [StreamNet.configure, Option.ite_none_right_eq_some, Option.map_eq_some_iff] at hl
    obtain ⟨hdrop, ⟨net₁, d⟩, hc, rfl⟩ := hl
    obtain ⟨hwell, hmade⟩ := h.connect (fun t => by simp) (fun k hk => by cases hk; exact hdrop) hc
    refine hwell.setDrop (fun d' hd => ?_) (fun t ht => hwell.output drop (hmade.nDrops ▸ hdrop) t ht)
    cases hd
    exact ⟨hmade.last ▸ Nat.lt_succ_self _, hmade.process⟩
  | setOutput drop name =>
    simp only [StreamNet.configure, Option.ite_none_right_eq_some, Option.map_eq_some_iff] at hl
    obtain ⟨hdrop, d, hd, rfl⟩ := hl
    have hwell : (net.newStream name (net.streams (net.dests d).stream).format
        (.framedrop drop)).1.WellFormed :=
      h.newStream (fun d => by simp) (fun k hk => by cases hk; exact hdrop)
    refine hwell.setDrop (fun d' hd' => hwell.input drop hdrop d' hd') (fun t ht => ?_)
    cases ht
    exact ⟨Nat.lt_succ_self _, congrArg StreamNode.origin addStream_self⟩
  | setScale drop scale =>
    simp only [StreamNet.configure, Option.ite_none_right_eq_some, Option.some.injEq] at hl
    obtain ⟨⟨hdrop, -⟩, rfl⟩ := hl
    exact h.setDrop (fun d hd => h.input drop hdrop d hd) fun t ht => h.output drop hdrop t ht
  | endBlock drop =>
    simp only [StreamNet.configure, Option.ite_none_right_eq_some, Option.some.injEq] at hl
    exact hl.2 ▸ h

/-- The net without streams. -/
theorem wellFormed_empty : empty.WellFormed where
  list s := by simp [empty]
  destList s hs := absurd hs (Nat.not_lt_zero s)
  nodup s hs := absurd hs (Nat.not_lt_zero s)
  stream d hd := absurd hd (Nat.not_lt_zero d)
  asked d hd := absurd hd (Nat.not_lt_zero d)
  converts d hd := absurd hd (Nat.not_lt_zero d)
  converted t ht := absurd ht (Nat.not_lt_zero t)
  filters d hd := absurd hd (Nat.not_lt_zero d)
  filtered t ht := absurd ht (Nat.not_lt_zero t)
  input k hk := absurd hk (Nat.not_lt_zero k)
  output k hk := absurd hk (Nat.not_lt_zero k)

/-- By induction on the lines. -/
theorem WellFormed.configured (h : net.WellFormed) {ls : List Line}
    (hls : net.configured ls = some net') : net'.WellFormed := by
  induction ls generalizing net with
  | nil => exact Option.some.inj hls ▸ h
  | cons l ls ih =>
    obtain ⟨net₁, hl, hls⟩ := Option.bind_eq_some_iff.1 hls
    exact ih (h.configure hl) hls

/-- **What a configuration makes is well formed.** -/
theorem wellFormed_configured {ls : List Line} (hls : empty.configured ls = some net) :
    net.WellFormed := wellFormed_empty.configured hls

end StreamNet

end Spook
