import Spook.Frames.Heap

set_option relaxedAutoImplicit false
set_option autoImplicit false

/-!
# Runs of the frame heap

Any sequence of calls in which each reference is used by its holder and released once keeps the
ring of free frames right.

## Main definitions

* `Spook.Referenced` — the frames that somebody has a reference to.
* `Spook.FreeFrames` — the slots hold the free frames.

## Main results

* `Spook.heaped_run` — the invariant in every run.
* `Spook.frame_heap` — the ring is right in every run, `new_frame` fails only when all frames are
  out, and no call leaves the mutex of the heap locked.
-/

namespace Spook

variable {n : ℕ} {s s' : FrameState} {o : List FrameEvent}

/-- Somebody has a reference to the frame: the program, or a clone of it. -/
inductive Referenced (s : FrameState) : ℕ → Prop
  | held {f : ℕ} : f ∈ s.refs → Referenced s f
  | clone {g o : ℕ} : Referenced s g → (s.store.frames g).destructor = some o → Referenced s o

/-- The slots from `frame_heap_take` up to `frame_heap_put` hold the frames `L`, which are the ones
that nobody has a reference to, and the other slots are empty. -/
structure FreeFrames (n : ℕ) (s : FrameState) (L : List ℕ) : Prop where
  nSlots : s.store.nSlots = n
  take : s.store.take < n
  put : s.store.put = (s.store.take + L.length) % n
  slot : ∀ i < n, s.store.slots ((s.store.take + i) % n) = L[i]?
  nodup : L.Nodup
  mem : ∀ f, f ∈ L ↔ f < n ∧ ¬ Referenced s f

/-- The invariant of a state between two calls. -/
def HeapKept (n : ℕ) (s : FrameState) : Prop :=
  ∃ L O rank, Heaped n ∅ s.refs s.store L O rank

namespace Heaped

variable {L : List ℕ} {O : Finset ℕ} {rank : ℕ → ℕ}

/-- The frames that are out are the referenced ones. -/
theorem mem_iff_referenced (h : Heaped n ∅ s.refs s.store L O rank) (f : ℕ) :
    f ∈ O ↔ Referenced s f := by
  constructor
  · -- by induction on the frames of higher rank, as a clone has a higher rank than its original
    intro hf
    induction hk : (O.filter fun g => rank f < rank g).card using Nat.strong_induction_on
      generalizing f with
    | _ k ih =>
      by_cases hheld : f ∈ s.refs
      · exact .held hheld
      have hcount := h.accounts.count f hf
      have hpos := h.accounts.pos f hf
      rw [List.count_eq_zero.2 hheld] at hcount
      have hclones : (O.filter fun g => (s.store.frames g).destructor = some f).card ≠ 0 := by
        intro h0
        rw [FrameStore.clones, h0] at hcount
        omega
      obtain ⟨g, hg⟩ := Finset.card_pos.1 (Nat.pos_of_ne_zero hclones)
      obtain ⟨hgO, hd⟩ := Finset.mem_filter.1 hg
      have hrank := (h.accounts.orig g hgO f hd).2
      refine .clone (ih _ ?_ g hgO rfl) hd
      rw [← hk]
      refine Finset.card_lt_card (Finset.ssubset_iff_of_subset ?_ |>.2 ⟨g, ?_, ?_⟩)
      · intro g' hg'
        obtain ⟨hgO', hrank'⟩ := Finset.mem_filter.1 hg'
        exact Finset.mem_filter.2 ⟨hgO', hrank.trans hrank'⟩
      · exact Finset.mem_filter.2 ⟨hgO, hrank⟩
      · intro hmem
        exact lt_irrefl _ (Finset.mem_filter.1 hmem).2
  · intro hf
    induction hf with
    | held hmem => exact h.accounts.refs _ hmem
    | clone _ hd ih => exact (h.accounts.orig _ ih _ hd).1

/-- The free frames. -/
theorem freeFrames (h : Heaped n ∅ s.refs s.store L O rank) (hn : 0 < n) : FreeFrames n s L := by
  obtain ⟨a, htake, hput, hslot⟩ := h.free.ring
  refine ⟨h.free.nSlots, ?_, ?_, fun i hi => ?_, h.nodup, fun f => ?_⟩
  · rw [htake]
    exact Nat.mod_lt a hn
  · rw [hput, htake, Nat.mod_add_mod]
  · rw [htake, Nat.mod_add_mod]
    exact hslot i hi
  · rw [h.mem, h.mem_iff_referenced]
    simp

end Heaped

/-- The heap after `init_frame_heap`. -/
theorem heaped_init (n : ℕ) (frames : ℕ → DataFrame) :
    Heaped n ∅ [] (.initFrameHeap n frames) (List.range n) ∅ fun _ => 0 := by
  refine ⟨⟨rfl, 0, ?_, ?_, fun i hi => ?_⟩, List.nodup_range, fun f => ?_, ?_, ?_, ?_⟩
  · simp [FrameStore.initFrameHeap]
  · simp [FrameStore.initFrameHeap]
  · simp [FrameStore.initFrameHeap, SlotRing.slot, Nat.mod_eq_of_lt hi, hi]
  · simp
  · simp
  · simp
  · exact ⟨by simp, by simp, by simp, by simp⟩

/-- What a call does is what its function does. -/
theorem call_rule {α : Type} {x : FrameM α} {k : α → FrameState → FrameState}
    {Q : α → FrameStore → Prop} {E : Fault → Prop}
    {P : Except Fault (FrameState × List FrameEvent) → Prop}
    (h : wp x Q E { s.store with log := [] })
    (hQ : ∀ a store, Q a store → P (.ok (k a { s with store }, store.log)))
    (hE : ∀ e, E e → P (.error e)) : P (s.call x k) := by
  unfold wp at h
  unfold FrameState.call
  rcases hx : x.run { s.store with log := [] } with e | ⟨a, store⟩ <;> rw [hx] at h
  · exact hE e h
  · exact hQ a store h

/-- What the loop of a ring needs to keep the heap. -/
theorem ringRule_heaped (hn : 0 < n) (queueOk : Bool) :
    RingRule (fun R s => ∃ L O rank, Heaped n ∅ R s L O rank) (fun _ => True)
      (fun e => e = .badFree ∨ e = .overrun ∨ e = .nullDeref) queueOk where
  adjust := fun _ _ => trivial
  store := by
    intro ring s _
    unfold AudioRing.store
    rw [wp_ite]
    exact ⟨fun _ => .inr (.inl rfl), fun _ => ⟨trivial, rfl⟩⟩
  queue := by
    rintro ring R s - ⟨L, O, rank, h⟩
    exact (wp_queueFrame h hn ring queueOk).mono (fun _ _ h => h) fun _ h => .inl h
  next := fun _ _ => trivial

/-- The functions of `frame.c`. -/
def FrameAct.IsHeapCall : FrameAct → Prop
  | .new | .clone _ | .ref _ | .unref _ => True
  | _ => False

/-- What is to be shown of a call: it keeps the invariant, or it ends in no fault of the heap. -/
def HeapCall (n : ℕ) (s : FrameState) (a : FrameAct) :
    Except Fault (FrameState × List FrameEvent) → Prop
  | .ok (s', _) => HeapKept n s'
  | .error e => e ≠ .heapLocked ∧ e ≠ .loop ∧
      (a.IsHeapCall → (∀ f, Referenced s f → (s.store.frames f).d = none) → e = .overflow)

/-- **One call.**

**Proof sketch.** By the call: each has its rule, which says what it leaves of the heap and which
faults it may end in. A release faults only on data that cannot be freed, and a conversion or a ring
only where they store. -/
theorem heaped_call (hn : 0 < n) (h : HeapKept n s) {a : FrameAct} (ha : Disciplined s a) :
    HeapCall n s a (frameStep s a) := by
  obtain ⟨L, O, rank, h⟩ := h
  have hlog := h.memory s.store.blocks s.store.rings []
  have hheld : ∀ {f}, s.Holds f → f ∈ s.refs := fun hf =>
    List.count_pos_iff.1 (Nat.zero_lt_of_lt hf)
  cases a with
  | new =>
    rw [frameStep]
    refine call_rule (wp_newFrame_heaped hlog hn) (fun r store hr => ?_) fun _ he => he.elim
    rcases hr with ⟨rfl, rfl, rfl⟩ | ⟨f, L', rfl, rfl, rfl, hnew⟩
    · exact ⟨_, _, _, hlog⟩
    · exact ⟨_, _, _, hnew⟩
  | clone orig =>
    rw [frameStep]
    refine call_rule (wp_cloneFrame hlog hn (h.accounts.refs orig (hheld ha)))
      (fun r store hr => ?_) fun e he => ?_
    · rcases hr with ⟨rfl, rfl, rfl⟩ | ⟨f, L', rank', rfl, rfl, rfl, hnew⟩
      · exact ⟨_, _, _, hlog⟩
      · exact ⟨_, _, _, hnew⟩
    · subst he
      exact ⟨by decide, by decide, fun _ _ => rfl⟩
  | ref f =>
    rw [frameStep]
    refine call_rule wp_refFrame (fun _ store hr => ?_) fun e he => ?_
    · subst hr
      exact ⟨_, _, _, hlog.reference (h.accounts.refs f (hheld ha))⟩
    · subst he
      exact ⟨by decide, by decide, fun _ _ => rfl⟩
  | unref f =>
    rw [frameStep]
    refine call_rule (wp_unrefFrame_any hlog (hheld ha) (hlog.fuel _)) (fun _ store hr => ?_)
      fun e he => ?_
    · obtain ⟨L', O', hheap⟩ := hr
      exact ⟨_, _, _, hheap⟩
    · obtain ⟨rfl, g, hg, hdata⟩ := he
      refine ⟨by decide, by decide, fun _ hnone => ?_⟩
      exact absurd (hnone g ((h.mem_iff_referenced g).1 hg)) hdata
  | exchange =>
    rw [frameStep]
    refine call_rule (wp_newFrame_heaped hlog hn) (fun r store hr => ?_) fun _ he => he.elim
    rcases hr with ⟨rfl, rfl, rfl⟩ | ⟨f, L', rfl, rfl, rfl, hnew⟩
    · exact ⟨_, _, _, hlog⟩
    · exact ⟨_, _, _, hnew⟩
  | capture f i c mallocOk =>
    rw [frameStep]
    exact call_rule (wp_captureFrame_heaped hlog f i c mallocOk)
      (fun _ _ hr => ⟨_, _, _, hr⟩) fun _ he => he.elim
  | convert uyvy =>
    rw [frameStep]
    refine call_rule (wp_convertUyvyToRgb24 hlog hn (hheld ha)) (fun _ _ hr => hr)
      fun e he => ?_
    rcases he with rfl | rfl <;> exact ⟨by decide, by decide, fun hcall => hcall.elim⟩
  | newRing sampleSize sampleRate framelen =>
    rw [frameStep]
    refine call_rule (wp_newAudioRing sampleSize sampleRate framelen) (fun _ _ hr => ?_)
      fun e he => ?_
    · rcases hr with ⟨-, rfl | ⟨buflen, -, rfl⟩⟩
      · exact ⟨_, _, _, hlog⟩
      · exact ⟨_, _, _, hlog.memory _ _ _⟩
    · rw [he.1]
      exact ⟨by decide, by decide, fun hcall => hcall.elim⟩
  | ringInput k rate samples =>
    rw [frameStep]
    refine call_rule (wp_audioRingInput (fun q _ => ringRule_heaped hn q)
      (fun _ => .inr (.inr rfl)) (fun _ _ => trivial) (fun _ _ _ => trivial)
      ⟨L, O, rank, hlog⟩ ?_) (fun _ _ hr => hr) fun e he => ?_
    · rintro R s ring ⟨L, O, rank, h⟩ -
      exact ⟨L, O, rank, h.memory _ _ _⟩
    · rcases he with rfl | rfl | rfl <;>
        exact ⟨by decide, by decide, fun hcall => hcall.elim⟩

/-- The invariant in every run. -/
theorem heaped_run (hn : 0 < n) {as : List FrameAct} {os : List FrameEvent}
    (h : Machine.Run (frameMachine n) Disciplined as os s) : HeapKept n s := by
  refine h.invariant (HeapKept n) ?_ ?_
  · rintro s ⟨⟨frames, hstore⟩, hrefs, -, -⟩
    refine ⟨List.range n, ∅, fun _ => 0, ?_⟩
    rw [hstore, hrefs]
    exact heaped_init n frames
  · intro s a s' o hk ha hs
    have hcall := heaped_call hn hk ha
    change frameStep s a = .ok (s', o) at hs
    rwa [hs] at hcall

/-- **The frame heap.** In every run in which each reference is released once: the slots from
`frame_heap_take` up to `frame_heap_put` hold the frames that nobody has a reference to and the
others are empty; `new_frame` fails exactly when all frames are referenced, and returns a frame
that is not; no call finds a frame at `frame_heap_put`, and the functions of `frame.c` do not fault
but for a count that leaves `int` or for the data of a frame. -/
theorem frame_heap (hn : 1 ≤ n) {as : List FrameAct} {os : List FrameEvent}
    (h : Machine.Run (frameMachine n) Disciplined as os s) :
    (∃ L, FreeFrames n s L) ∧
      ((∃ store, newFrame.run s.store = .ok (none, store)) ↔ ∀ f < n, Referenced s f) ∧
      (∀ f store, newFrame.run s.store = .ok (some f, store) → f < n ∧ ¬ Referenced s f) ∧
      ∀ a e, Disciplined s a → frameStep s a = .error e → e ≠ .heapLocked ∧ e ≠ .loop ∧
        (a.IsHeapCall → (∀ f, Referenced s f → (s.store.frames f).d = none) →
          e = .overflow) := by
  have hkept := heaped_run hn h
  obtain ⟨L, O, rank, hheap⟩ := id hkept
  have hfree := hheap.freeFrames hn
  have hnew := wp_newFrame_heaped hheap hn
  refine ⟨⟨L, hfree⟩, ⟨?_, fun hall => ?_⟩, fun f store hrun => ?_, fun a e ha he => ?_⟩
  · rintro ⟨store, hrun⟩ f hf
    rcases hnew.ok hrun with ⟨-, -, rfl⟩ | ⟨g, L', hg, -⟩
    · by_contra hnot
      exact absurd ((hfree.mem f).2 ⟨hf, hnot⟩) List.not_mem_nil
    · cases hg
  · rcases hrun : newFrame.run s.store with e | ⟨r, store⟩
    · exact (hnew.error hrun).elim
    · rcases hnew.ok hrun with ⟨rfl, -, -⟩ | ⟨f, L', -, rfl, -⟩
      · exact ⟨store, rfl⟩
      · have hf := (hfree.mem f).1 List.mem_cons_self
        exact absurd (hall f hf.1) hf.2
  · rcases hnew.ok hrun with ⟨hr, -⟩ | ⟨g, L', hg, rfl, -⟩
    · cases hr
    · obtain rfl := Option.some.inj hg
      exact (hfree.mem f).1 List.mem_cons_self
  · have hcall := heaped_call hn hkept ha
    rwa [he] at hcall

/-- The state that a heap of `n` frames starts in. -/
def FrameState.started (n : ℕ) (frames : ℕ → DataFrame) : FrameState :=
  { store := .initFrameHeap n frames, refs := [], pool := [], lost := [] }

/-- It is an initial state. -/
theorem frameMachine_started (n : ℕ) (frames : ℕ → DataFrame) :
    (frameMachine n).Init (.started n frames) := ⟨⟨frames, rfl⟩, rfl, rfl, rfl⟩

/-- A frame as `malloc` left it. -/
def DataFrame.raw : DataFrame :=
  { toFrame := .fresh, destructor := none, step := 0, d := none }

/-- A frame and its clone are taken and released, the frame first; then the frame is taken again. -/
theorem frame_heap_clone : ∃ s : FrameState, (∃ L, FreeFrames 2 s L) ∧ s.store.take = 1 := by
  have hrun : ∃ s, Machine.Run (frameMachine 2) Disciplined
      [.new, .clone 0, .unref 0, .unref 1, .new] [.taken 0, .taken 1, .taken 0] s ∧
        s.store.take = 1 :=
    Machine.Run.of_exec (fun s : FrameState => s.store.take)
      (frameMachine_started 2 fun _ => .raw) (by decide +kernel)
  obtain ⟨s, hrun, htake⟩ := hrun
  exact ⟨s, (frame_heap (by decide) hrun).1, htake⟩

end Spook
