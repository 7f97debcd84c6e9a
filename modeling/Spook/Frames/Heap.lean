import Mathlib.Data.Finset.Card
import Spook.Frames.Basic
import Spook.Lib.Ring

set_option relaxedAutoImplicit false
set_option autoImplicit false

/-!
# The frame heap

What the functions of `frame.c` keep of the ring of free frames. A frame is out of the ring as
long as somebody has a reference to it: the program, or a clone of it that is out itself. The
reference counts are the numbers of these references, and the free frames are the slots from
`frame_heap_take` on.

When a clone is released its reference to the original passes to the program, which releases it;
in between the clone is neither referenced nor free.

## Main definitions

* `Spook.HoldsFree` — the slots from `frame_heap_take` on hold the free frames.
* `Spook.Accounts` — the counts are the numbers of the references.
* `Spook.Heaped` — the invariant, with the frames that are on their way back.
* `Spook.RingRule` — what the loop of an audio ring needs to keep a property.

## Main results

* `Spook.wp_newFrame_heaped`, `Spook.wp_unrefFrame`, `Spook.wp_cloneFrame` — what the functions do
  to the invariant.
* `Spook.wp_captureFrame`, `Spook.wp_convertUyvyToRgb24`, `Spook.wp_queueFrame` — what the producers
  do.
* `Spook.wp_audioRingInput` — the rule for the loop of an audio ring.

## Notes on the design

A clone refers to its original by its destructor, and releases it when it is released itself. These
chains have no cycles, since a clone is made later than its original; a rank for each frame says so,
and bounds the fuel of the recursion.
-/

namespace Spook

/-- How many of the frames `O` are clones of a frame. -/
def FrameStore.clones (s : FrameStore) (O : Finset ℕ) (f : ℕ) : ℕ :=
  (O.filter fun g => (s.frames g).destructor = some f).card

/-- The slots from `take` on hold the frames `L`, and the others hold none. -/
structure HoldsFree (n : ℕ) (s : FrameStore) (L : List ℕ) : Prop where
  nSlots : s.nSlots = n
  ring : ∃ a, s.take = a % n ∧ s.put = (a + L.length) % n ∧
    ∀ i < n, SlotRing.slot n s.slots (a + i) = L[i]?

/-- The counts of the frames `O` are the numbers of the references `R` and of the clones among
`O`. The `rank` of a frame is above that of its original. -/
structure Accounts (s : FrameStore) (O : Finset ℕ) (R : List ℕ) (rank : ℕ → ℕ) : Prop where
  count : ∀ f ∈ O, (s.frames f).refCount = R.count f + s.clones O f
  pos : ∀ f ∈ O, 0 < (s.frames f).refCount
  refs : ∀ f ∈ R, f ∈ O
  orig : ∀ g ∈ O, ∀ o, (s.frames g).destructor = some o → o ∈ O ∧ rank o < rank g

/-- The frames below `n` are free (`L`), referenced (`O`) or on their way back (`D`). -/
structure Heaped (n : ℕ) (D : Finset ℕ) (R : List ℕ) (s : FrameStore) (L : List ℕ)
    (O : Finset ℕ) (rank : ℕ → ℕ) : Prop where
  free : HoldsFree n s L
  nodup : L.Nodup
  mem : ∀ f, f ∈ L ↔ f < n ∧ f ∉ O ∧ f ∉ D
  below : ∀ f ∈ O, f < n ∧ f ∉ D
  dying : ∀ f ∈ D, f < n
  accounts : Accounts s O R rank

namespace HoldsFree

variable {n : ℕ} {s : FrameStore} {L : List ℕ} {f : ℕ}

/-- The slot at `take`. -/
theorem slot_take (h : HoldsFree n s L) (hn : 0 < n) : s.slots s.take = L[0]? := by
  obtain ⟨a, htake, -, hslot⟩ := h.ring
  rw [htake]
  exact hslot 0 hn

/-- The slot at `put`, when there is a slot free. -/
theorem slot_put (h : HoldsFree n s L) (hlt : L.length < n) : s.slots s.put = none := by
  obtain ⟨a, -, hput, hslot⟩ := h.ring
  rw [hput]
  exact (hslot _ hlt).trans (List.getElem?_eq_none le_rfl)

/-- The first free frame is taken. -/
theorem pop (h : HoldsFree n s (f :: L)) (hlt : L.length < n) (frames : ℕ → DataFrame)
    (log : List FrameEvent) :
    HoldsFree n { s with slots := Function.update s.slots s.take none,
                         take := (s.take + 1) % s.nSlots, frames, log } L := by
  obtain ⟨a, htake, hput, hslot⟩ := h.ring
  have hnum := h.nSlots
  refine ⟨hnum, a + 1, ?_, ?_, fun i hi => ?_⟩
  · simp only [htake, hnum, SlotRing.succ_mod]
  · simp only [hput, List.length_cons]
    congr 1
    omega
  · simp only [htake]
    rcases Nat.lt_or_ge (i + 1) n with hin | hin
    · rw [SlotRing.slot_update (w := a) ⟨le_rfl, by omega⟩ ⟨by omega, by omega⟩,
        if_neg (by omega), show a + 1 + i = a + (i + 1) by omega, hslot _ hin,
        List.getElem?_cons_succ]
    · have hturn : a + 1 + i = a + n := by omega
      rw [hturn, SlotRing.slot_add, SlotRing.slot_update (w := a) ⟨le_rfl, by omega⟩
        ⟨le_rfl, by omega⟩, if_pos rfl, List.getElem?_eq_none (by omega)]

/-- A frame is put behind the free ones. -/
theorem push (h : HoldsFree n s L) (hlt : L.length < n) (f : ℕ) :
    HoldsFree n { s with slots := Function.update s.slots s.put (some f),
                         put := (s.put + 1) % s.nSlots } (L ++ [f]) := by
  obtain ⟨a, htake, hput, hslot⟩ := h.ring
  have hnum := h.nSlots
  refine ⟨hnum, a, htake, ?_, fun i hi => ?_⟩
  · simp only [hput, hnum, SlotRing.succ_mod, List.length_append, List.length_singleton,
      Nat.add_assoc]
  · simp only [hput]
    rw [SlotRing.slot_update (w := a) ⟨by omega, by omega⟩ ⟨by omega, by omega⟩]
    split_ifs with hi'
    · obtain rfl : i = L.length := by omega
      simp
    · rw [hslot i hi]
      rcases Nat.lt_or_ge i L.length with hil | hil
      · rw [List.getElem?_append_left hil]
      · rw [List.getElem?_eq_none hil, List.getElem?_eq_none (by simp; omega)]

/-- A change of frames, blocks, rings and log leaves the ring as it is. -/
theorem setFrames (h : HoldsFree n s L) (frames : ℕ → DataFrame) (blocks : List Block)
    (rings : List AudioRing) (log : List FrameEvent) :
    HoldsFree n { s with frames, blocks, rings, log } L := ⟨h.nSlots, h.ring⟩

end HoldsFree

/-! ## The counts -/

/-- The count that was set. -/
@[simp] theorem DataFrame.setCount_refCount (f : DataFrame) (r : ℤ) :
    (f.setCount r).refCount = r := rfl

/-- The destructor stays. -/
@[simp] theorem DataFrame.setCount_destructor (f : DataFrame) (r : ℤ) :
    (f.setCount r).destructor = f.destructor := rfl

/-- The data stays. -/
@[simp] theorem DataFrame.setCount_d (f : DataFrame) (r : ℤ) : (f.setCount r).d = f.d := rfl

/-- The second of two counts stays. -/
@[simp] theorem DataFrame.setCount_setCount (f : DataFrame) (r r' : ℤ) :
    (f.setCount r).setCount r' = f.setCount r' := rfl

/-- The count that is there. -/
@[simp] theorem DataFrame.setCount_self (f : DataFrame) : f.setCount f.refCount = f := rfl

namespace FrameStore

variable {s s' : FrameStore} {O : Finset ℕ} {f g : ℕ}

/-- The frame that was stored. -/
@[simp] theorem withFrame_self (s : FrameStore) (f : ℕ) (frame : DataFrame) :
    (s.withFrame f frame).frames f = frame := Function.update_self ..

/-- Other frames stay. -/
@[simp] theorem withFrame_of_ne (s : FrameStore) {f g : ℕ} (h : g ≠ f) (frame : DataFrame) :
    (s.withFrame f frame).frames g = s.frames g := Function.update_of_ne h ..

/-- The clones are read off the destructors. -/
theorem clones_congr (h : ∀ g ∈ O, (s'.frames g).destructor = (s.frames g).destructor) (f : ℕ) :
    s'.clones O f = s.clones O f := by
  unfold clones
  congr 1
  refine Finset.filter_congr fun g hg => ?_
  rw [h g hg]

/-- The clones when one more frame is out. -/
theorem clones_insert (hf : f ∉ O) (g : ℕ) :
    s.clones (insert f O) g =
      s.clones O g + if (s.frames f).destructor = some g then 1 else 0 := by
  unfold clones
  rw [Finset.filter_insert]
  split_ifs with hd
  · rw [Finset.card_insert_of_notMem]
    intro hmem
    exact hf (Finset.mem_filter.1 hmem).1
  · rfl

/-- The clones when one frame is no longer out. -/
theorem clones_erase (hf : f ∈ O) (g : ℕ) :
    s.clones O g =
      s.clones (O.erase f) g + if (s.frames f).destructor = some g then 1 else 0 := by
  rw [← clones_insert (Finset.notMem_erase f O), Finset.insert_erase hf]

/-- A frame without clones is the original of none. -/
theorem ne_of_clones (h : s.clones O f = 0) (hg : g ∈ O) :
    (s.frames g).destructor ≠ some f := by
  intro hd
  have hempty := Finset.card_eq_zero.1 h
  have hmem : g ∈ O.filter fun g => (s.frames g).destructor = some f :=
    Finset.mem_filter.2 ⟨hg, hd⟩
  rw [hempty] at hmem
  exact absurd hmem (Finset.notMem_empty g)

end FrameStore

namespace Accounts

variable {s s' : FrameStore} {O : Finset ℕ} {R R' : List ℕ} {rank : ℕ → ℕ} {f : ℕ}

/-- A frame is taken out, as a clone of `d` or as no clone. Its original gets a reference. -/
theorem take (h : Accounts s O R rank) (hf : f ∉ O) {d : Option ℕ}
    (hd : ∀ o, d = some o → o ∈ O) (hone : (s'.frames f).refCount = 1)
    (hdf : (s'.frames f).destructor = d)
    (hdest : ∀ g ∈ O, (s'.frames g).destructor = (s.frames g).destructor)
    (hcount : ∀ g ∈ O, (s'.frames g).refCount =
      (s.frames g).refCount + if d = some g then 1 else 0) :
    Accounts s' (insert f O) (f :: R) (Function.update rank f (d.elim 0 (rank · + 1))) := by
  have hfR : R.count f = 0 := List.count_eq_zero.2 fun hmem => hf (h.refs f hmem)
  have hclones : ∀ g, s'.clones (insert f O) g = s.clones O g + if d = some g then 1 else 0 := by
    intro g
    rw [FrameStore.clones_insert hf, FrameStore.clones_congr hdest, hdf]
  have hnoclone : s.clones O f = 0 := by
    refine Finset.card_eq_zero.2 (Finset.filter_eq_empty_iff.2 fun g hg hdg => ?_)
    exact hf (h.orig g hg f hdg).1
  have hdf' : d ≠ some f := fun hd' => hf (hd f hd')
  refine ⟨fun g hg => ?_, fun g hg => ?_, fun g hg => ?_, fun g hg o ho => ?_⟩
  · rw [hclones]
    rcases Finset.mem_insert.1 hg with rfl | hg
    · rw [hone, hnoclone, if_neg hdf', List.count_cons_self, hfR]
      rfl
    · have hgf : f ≠ g := fun heq => hf (heq ▸ hg)
      rw [hcount g hg, h.count g hg, List.count_cons_of_ne hgf]
      push_cast
      split_ifs <;> omega
  · rcases Finset.mem_insert.1 hg with rfl | hg
    · rw [hone]
      decide
    · have hpos := h.pos g hg
      rw [hcount g hg]
      split_ifs <;> omega
  · rcases List.mem_cons.1 hg with rfl | hg
    · exact Finset.mem_insert_self g O
    · exact Finset.mem_insert_of_mem (h.refs g hg)
  · rcases Finset.mem_insert.1 hg with rfl | hg
    · rw [hdf] at ho
      have hoO := hd o ho
      have hog : o ≠ g := fun heq => hf (heq ▸ hoO)
      refine ⟨Finset.mem_insert_of_mem hoO, ?_⟩
      rw [Function.update_self, Function.update_of_ne hog, ho]
      exact Nat.lt_succ_self _
    · rw [hdest g hg] at ho
      obtain ⟨hoO, hrank⟩ := h.orig g hg o ho
      have hof : o ≠ f := fun heq => hf (heq ▸ hoO)
      have hgf : g ≠ f := fun heq => hf (heq ▸ hg)
      refine ⟨Finset.mem_insert_of_mem hoO, ?_⟩
      rw [Function.update_of_ne hof, Function.update_of_ne hgf]
      exact hrank

/-- The references of the program change, and the counts with them. -/
theorem recount (h : Accounts s O R rank)
    (hdest : ∀ g ∈ O, (s'.frames g).destructor = (s.frames g).destructor)
    (hcount : ∀ g ∈ O, (s'.frames g).refCount + R.count g =
      (s.frames g).refCount + R'.count g)
    (hpos : ∀ g ∈ O, 0 < (s'.frames g).refCount) (hrefs : ∀ g ∈ R', g ∈ O) :
    Accounts s' O R' rank := by
  refine ⟨fun g hg => ?_, hpos, hrefs, fun g hg o ho => ?_⟩
  · have hold := h.count g hg
    have hnew := hcount g hg
    rw [FrameStore.clones_congr hdest]
    omega
  · rw [hdest g hg] at ho
    exact h.orig g hg o ho

/-- The last reference to a frame is released: its reference to its original passes to the
program. -/
theorem leave (h : Accounts s O R rank) (hfR : f ∈ R) (hone : (s.frames f).refCount = 1)
    (hother : ∀ g, g ≠ f → s'.frames g = s.frames g) :
    Accounts s' (O.erase f) ((s.frames f).destructor.toList ++ R.erase f) rank := by
  have hfO := h.refs f hfR
  have hpos : 0 < R.count f := List.count_pos_iff.2 hfR
  have hsum := h.count f hfO
  rw [hone] at hsum
  have hfcount : R.count f = 1 := by omega
  have hnoclone : s.clones O f = 0 := by omega
  have hclones : ∀ g, s'.clones (O.erase f) g = s.clones (O.erase f) g := by
    intro g
    refine FrameStore.clones_congr (fun g hg => ?_) g
    rw [hother g (Finset.ne_of_mem_erase hg)]
  refine ⟨fun g hg => ?_, fun g hg => ?_, fun g hg => ?_, fun g hg o ho => ?_⟩
  · have hgf := Finset.ne_of_mem_erase hg
    have hold := h.count g (Finset.mem_of_mem_erase hg)
    have hfirst : (s.frames f).destructor.toList.count g =
        if (s.frames f).destructor = some g then 1 else 0 := by
      cases (s.frames f).destructor <;> simp [List.count_cons]
    rw [FrameStore.clones_erase hfO] at hold
    rw [hother g hgf, hclones, List.count_append, List.count_erase_of_ne hgf, hfirst, hold]
    push_cast
    omega
  · rw [hother g (Finset.ne_of_mem_erase hg)]
    exact h.pos g (Finset.mem_of_mem_erase hg)
  · rcases List.mem_append.1 hg with hg | hg
    · have ho : (s.frames f).destructor = some g := by simpa using hg
      obtain ⟨hgO, hrank⟩ := h.orig f hfO g ho
      refine Finset.mem_erase.2 ⟨?_, hgO⟩
      rintro rfl
      exact lt_irrefl _ hrank
    · refine Finset.mem_erase.2 ⟨?_, h.refs g (List.mem_of_mem_erase hg)⟩
      rintro rfl
      have hcount : 0 < (R.erase g).count g := List.count_pos_iff.2 hg
      rw [List.count_erase_self, hfcount] at hcount
      exact lt_irrefl _ hcount
  · have hgO := Finset.mem_of_mem_erase hg
    rw [hother g (Finset.ne_of_mem_erase hg)] at ho
    obtain ⟨hoO, hrank⟩ := h.orig g hgO o ho
    refine ⟨Finset.mem_erase.2 ⟨?_, hoO⟩, hrank⟩
    rintro rfl
    exact FrameStore.ne_of_clones hnoclone hgO ho

/-- A frame that is out of account may change. -/
theorem frame (h : Accounts s O R rank) (hother : ∀ g ∈ O, s'.frames g = s.frames g) :
    Accounts s' O R rank := by
  refine h.recount (fun g hg => by rw [hother g hg]) (fun g hg => by rw [hother g hg])
    (fun g hg => ?_) h.refs
  rw [hother g hg]
  exact h.pos g hg

end Accounts

/-! ## What the functions do -/

section Wp

variable {n : ℕ} {D : Finset ℕ} {R : List ℕ} {s : FrameStore} {L : List ℕ} {O : Finset ℕ}
  {rank : ℕ → ℕ} {f : ℕ} {E : Fault → Prop}

/-- A look at a frame. -/
@[simp] theorem wp_getFrame {Q : DataFrame → FrameStore → Prop} :
    wp (getFrame f) Q E s ↔ Q (s.frames f) s := Iff.rfl

/-- A frame is stored. -/
@[simp] theorem wp_setFrame {frame : DataFrame} {Q : Unit → FrameStore → Prop} :
    wp (setFrame f frame) Q E s ↔ Q () (s.withFrame f frame) := Iff.rfl

/-- One more event in the log. -/
@[simp] theorem wp_emit {e : FrameEvent} {Q : Unit → FrameStore → Prop} :
    wp (emit e) Q E s ↔ Q () { s with log := s.log ++ [e] } := Iff.rfl

/-- The heap after a frame was taken. -/
def FrameStore.popped (s : FrameStore) (f : ℕ) : FrameStore :=
  { s with slots := Function.update s.slots s.take none, take := (s.take + 1) % s.nSlots,
           frames := Function.update s.frames f (s.frames f).fresh, log := s.log ++ [.taken f] }

/-- `new_frame`: it takes the frame at `take`, if there is one. -/
theorem wp_newFrame :
    wp newFrame (fun r s' => r = s.slots s.take ∧ s' = (r.elim s s.popped)) (fun _ => False) s := by
  unfold newFrame
  rw [wp_bind, wp_get]
  rcases hslot : s.slots s.take with _ | f
  · exact ⟨rfl, rfl⟩
  · exact ⟨rfl, rfl⟩

/-- `ref_frame`. -/
theorem wp_refFrame {f : ℕ} :
    wp (refFrame f)
      (fun _ s' => s' = s.withFrame f ((s.frames f).setCount ((s.frames f).refCount + 1)))
      (fun e => e = .overflow) s := by
  unfold refFrame
  rw [wp_bind, wp_getFrame, wp_ite]
  exact ⟨fun _ => rfl, fun _ => rfl⟩

/-- `free`. -/
theorem wp_free {p : Ptr} :
    wp (free p) (fun _ s' => ∃ b, s.blocks[p.block]? = some b ∧ b.live = true ∧ p.offset = 0 ∧
        s' = { s with blocks := s.blocks.set p.block { b with live := false } })
      (fun e => e = .badFree) s := by
  unfold free
  rw [wp_bind, wp_get, wp_bind, wp_found]
  refine ⟨fun b hb => ?_, fun _ => rfl⟩
  rw [wp_ite]
  exact ⟨fun hlive => ⟨b, hb, hlive.1, hlive.2, rfl⟩, fun _ => rfl⟩

/-- The data of a frame is freed, if there is some. -/
theorem wp_freeData :
    wp (freeData f)
      (fun _ s' => (s.frames f).d = none ∧ s' = s ∨
        ∃ p b, (s.frames f).d = some p ∧ s.blocks[p.block]? = some b ∧ b.live = true ∧
          p.offset = 0 ∧
          s' = { s with blocks := s.blocks.set p.block { b with live := false },
                        log := s.log ++ [FrameEvent.freed f p] }.withFrame f
                          { s.frames f with d := none, length := 0 })
      (fun e => e = .badFree ∧ (s.frames f).d ≠ none) s := by
  unfold freeData
  rw [wp_bind, wp_getFrame]
  rcases hd : (s.frames f).d with _ | p
  · exact .inl ⟨rfl, rfl⟩
  · simp only
    refine wp.seq (wp_free.mono (fun _ s' h => h) fun e he => ⟨he, by simp⟩) fun _ s' h => ?_
    obtain ⟨b, hb, hlive, hoff, rfl⟩ := h
    exact .inr ⟨p, b, rfl, hb, hlive, hoff, rfl⟩

/-- A frame is given back: it is put into the slot at `put`, which must be empty. -/
theorem wp_giveBack (hput : s.slots s.put = none) :
    wp (giveBack f)
      (fun _ s' => s' = { s with slots := Function.update s.slots s.put (some f),
                                 put := (s.put + 1) % s.nSlots }.withFrame f
                                   { s.frames f with timestamp := 0 })
      (fun _ => False) s := by
  unfold giveBack
  rw [wp_bind, wp_getFrame, wp_bind, wp_setFrame, wp_bind, wp_get, wp_ite]
  refine ⟨fun hsome => ?_, fun _ => rfl⟩
  change (s.slots s.put).isSome = true at hsome
  rw [hput] at hsome
  cases hsome

namespace Heaped

/-- There is room for a frame that is on its way back. -/
theorem room (h : Heaped n D R s L O rank) (hf : f < n) (hfL : f ∉ L) : L.length < n := by
  have hsub : insert f L.toFinset ⊆ Finset.range n := by
    intro g hg
    rcases Finset.mem_insert.1 hg with rfl | hg
    · exact Finset.mem_range.2 hf
    · exact Finset.mem_range.2 ((h.mem g).1 (List.mem_toFinset.1 hg)).1
  have hcard := Finset.card_le_card hsub
  rw [Finset.card_insert_of_notMem (by simpa using hfL), List.toFinset_card_of_nodup h.nodup,
    Finset.card_range] at hcard
  exact hcard

/-- A frame is taken out, as a clone or as no clone. -/
theorem popped (h : Heaped n D R s (f :: L) O rank) {s' : FrameStore} {d : Option ℕ}
    (hd : ∀ o, d = some o → o ∈ O) (hfree : HoldsFree n s' L)
    (hone : (s'.frames f).refCount = 1) (hdf : (s'.frames f).destructor = d)
    (hdest : ∀ g ∈ O, (s'.frames g).destructor = (s.frames g).destructor)
    (hcount : ∀ g ∈ O, (s'.frames g).refCount =
      (s.frames g).refCount + if d = some g then 1 else 0) :
    Heaped n D (f :: R) s' L (insert f O)
      (Function.update rank f (d.elim 0 (rank · + 1))) := by
  have hfL := (List.nodup_cons.1 h.nodup).1
  obtain ⟨hfn, hfO, hfD⟩ := (h.mem f).1 List.mem_cons_self
  refine ⟨hfree, (List.nodup_cons.1 h.nodup).2, fun g => ?_, fun g hg => ?_, h.dying,
    h.accounts.take hfO hd hone hdf hdest hcount⟩
  · have hmem := h.mem g
    rw [List.mem_cons] at hmem
    by_cases hgf : g = f
    · subst hgf
      simp [hfL]
    · simpa [hgf] using hmem
  · rcases Finset.mem_insert.1 hg with rfl | hg
    · exact ⟨hfn, hfD⟩
    · exact h.below g hg

/-- The last reference to a frame is released: the frame is on its way back. -/
theorem leave (h : Heaped n D R s L O rank) (hfR : f ∈ R) (hone : (s.frames f).refCount = 1)
    (t : FrameStore) (hfree : HoldsFree n t L) (hother : ∀ g, g ≠ f → t.frames g = s.frames g) :
    Heaped n (insert f D) ((s.frames f).destructor.toList ++ R.erase f) t L (O.erase f) rank := by
  have hfO := h.accounts.refs f hfR
  obtain ⟨hfn, hfD⟩ := h.below f hfO
  refine ⟨hfree, h.nodup, fun g => ?_, fun g hg => ?_, fun g hg => ?_,
    h.accounts.leave hfR hone hother⟩
  · rw [h.mem, Finset.mem_erase, Finset.mem_insert]
    by_cases hgf : g = f
    · subst hgf
      simp [hfO]
    · simp [hgf]
  · obtain ⟨hgf, hgO⟩ := Finset.mem_erase.1 hg
    obtain ⟨hgn, hgD⟩ := h.below g hgO
    exact ⟨hgn, by simp [hgf, hgD]⟩
  · rcases Finset.mem_insert.1 hg with rfl | hg
    · exact hfn
    · exact h.dying g hg

/-- One of several references of the program to a frame is released. -/
theorem decr (h : Heaped n D R s L O rank) (hf : f ∈ R) (hr : 0 < (s.frames f).refCount - 1) :
    Heaped n D (R.erase f)
      (s.withFrame f ((s.frames f).setCount ((s.frames f).refCount - 1))) L O rank := by
  refine ⟨h.free.setFrames _ _ _ _, h.nodup, h.mem, h.below, h.dying,
    h.accounts.recount (fun g hg => ?_) (fun g hg => ?_) (fun g hg => ?_)
      fun g hg => h.accounts.refs g (List.mem_of_mem_erase hg)⟩
  · by_cases hgf : g = f <;> simp [hgf]
  · by_cases hgf : g = f
    · subst hgf
      have hcount : 0 < R.count g := List.count_pos_iff.2 hf
      simp only [FrameStore.withFrame_self, DataFrame.setCount_refCount, List.count_erase_self]
      omega
    · simp [hgf, List.count_erase_of_ne hgf]
  · by_cases hgf : g = f
    · subst hgf
      simpa using hr
    · simpa [hgf] using h.accounts.pos g hg

/-- The fields of the frames change, but for their counts and destructors. -/
theorem fields (h : Heaped n D R s L O rank) {s' : FrameStore} (hfree : HoldsFree n s' L)
    (hdest : ∀ g ∈ O, (s'.frames g).destructor = (s.frames g).destructor)
    (hcount : ∀ g ∈ O, (s'.frames g).refCount = (s.frames g).refCount) :
    Heaped n D R s' L O rank := by
  refine ⟨hfree, h.nodup, h.mem, h.below, h.dying, h.accounts.recount hdest (fun g hg => ?_)
    (fun g hg => ?_) h.accounts.refs⟩
  · rw [hcount g hg]
  · rw [hcount g hg]
    exact h.accounts.pos g hg

/-- A frame is written, but for its count and its destructor. -/
theorem withFrame (h : Heaped n D R s L O rank) (f : ℕ) (frame : DataFrame)
    (hdest : frame.destructor = (s.frames f).destructor)
    (hcount : frame.refCount = (s.frames f).refCount) :
    Heaped n D R (s.withFrame f frame) L O rank := by
  refine h.fields (h.free.setFrames _ _ _ _) (fun g _ => ?_) fun g _ => ?_
  all_goals
    by_cases hgf : g = f
    · subst hgf
      simpa using by assumption
    · simp [hgf]

/-- The blocks, the rings and the log may change. -/
theorem memory (h : Heaped n D R s L O rank) (blocks : List Block)
    (rings : List AudioRing) (log : List FrameEvent) :
    Heaped n D R { s with blocks, rings, log } L O rank :=
  h.fields (h.free.setFrames _ _ _ _) (fun _ _ => rfl) fun _ _ => rfl

/-- A frame on its way back is put into the ring. -/
theorem back (h : Heaped n (insert f D) R s L O rank) (hfD : f ∉ D) :
    wp (giveBack f)
      (fun _ s' => Heaped n D R s' (L ++ [f]) O rank ∧ (∀ g, g ≠ f → s'.frames g = s.frames g) ∧
        s'.rings = s.rings ∧ s'.blocks = s.blocks ∧ s'.log = s.log) (fun _ => False) s := by
  have hfn := h.dying f (Finset.mem_insert_self f D)
  have hfO : f ∉ O := fun hf => (h.below f hf).2 (Finset.mem_insert_self f D)
  have hfL : f ∉ L := fun hf => ((h.mem f).1 hf).2.2 (Finset.mem_insert_self f D)
  have hlt := h.room hfn hfL
  refine (wp_giveBack (h.free.slot_put hlt)).imp fun _ s' hs' => ?_
  subst hs'
  have hframes : ∀ g, g ≠ f →
      (s.withFrame f { s.frames f with timestamp := 0 }).frames g = s.frames g := fun g hg =>
    FrameStore.withFrame_of_ne _ hg _
  refine ⟨⟨(h.free.push hlt f).setFrames _ _ _ _, ?_, fun g => ?_, fun g hg => ?_,
    fun g hg => h.dying g (Finset.mem_insert_of_mem hg), ?_⟩, hframes, rfl, rfl, rfl⟩
  · exact List.nodup_append'.2 ⟨h.nodup, List.nodup_singleton f, by simpa using hfL⟩
  · rw [List.mem_append, h.mem, Finset.mem_insert, List.mem_singleton]
    by_cases hgf : g = f
    · subst hgf
      simp [hfn, hfO, hfD]
    · simp [hgf]
  · obtain ⟨hgn, hgD⟩ := h.below g hg
    exact ⟨hgn, fun hg' => hgD (Finset.mem_insert_of_mem hg')⟩
  · refine h.accounts.frame fun g hg => hframes g ?_
    rintro rfl
    exact hfO hg

/-- A frame on its way back is given back, and its data freed. -/
theorem settle (h : Heaped n (insert f D) R s L O rank) (hfD : f ∉ D) :
    wp (do freeData f; giveBack f)
      (fun _ s' => Heaped n D R s' (L ++ [f]) O rank ∧ (∀ g, g ≠ f → s'.frames g = s.frames g) ∧
        s'.rings = s.rings ∧
        ((s.frames f).d = none → s'.blocks = s.blocks ∧ s'.log = s.log))
      (fun e => e = .badFree ∧ (s.frames f).d ≠ none) s := by
  refine wp.seq wp_freeData fun _ s₁ hs₁ => ?_
  rcases hs₁ with ⟨-, rfl⟩ | ⟨p, b, hd, -, -, -, rfl⟩
  · refine (h.back hfD).mono (fun _ s' hs' => ?_) fun _ he => he.elim
    exact ⟨hs'.1, hs'.2.1, hs'.2.2.1, fun _ => hs'.2.2.2⟩
  · have hfreed := (h.memory (s.blocks.set p.block { b with live := false }) s.rings
      (s.log ++ [.freed f p])).withFrame f { s.frames f with d := none, length := 0 } rfl rfl
    refine (hfreed.back hfD).mono (fun _ s' hs' => ?_) fun _ he => he.elim
    refine ⟨hs'.1, fun g hg => ?_, hs'.2.2.1, fun hnone => ?_⟩
    · rw [hs'.2.1 g hg]
      exact Function.update_of_ne hg ..
    · rw [hd] at hnone
      cases hnone

end Heaped

/-- The number of frames is fuel enough. -/
theorem Heaped.fuel (h : Heaped n D R s L O rank) (P : ℕ → Prop) [DecidablePred P] :
    (O.filter P).card ≤ s.nSlots := by
  have hsub : O.filter P ⊆ Finset.range n := fun g hg =>
    Finset.mem_range.2 (h.below g (Finset.mem_filter.1 hg).1).1
  have hcard := Finset.card_le_card hsub
  rw [Finset.card_range] at hcard
  rw [h.free.nSlots]
  exact hcard

/-- What a release leaves: frames that are still referenced change in their count only, and no data
is freed if none of the frames of the chain `C` has any. -/
structure Released (C : ℕ → Prop) (s s' : FrameStore) (O O' : Finset ℕ) : Prop where
  sub : O' ⊆ O
  same : ∀ g ∈ O', s'.frames g = (s.frames g).setCount (s'.frames g).refCount
  other : ∀ g ∉ O, s'.frames g = s.frames g
  rings : s'.rings = s.rings
  quiet : (∀ g ∈ O, C g → (s.frames g).d = none) → s'.blocks = s.blocks ∧ s'.log = s.log

/-- The last reference to a frame is released, and its originals have been released: the frame is
given back. -/
theorem wp_settle {C : ℕ → Prop} {s₁ : FrameStore} {L₁ : List ℕ} {O₁ : Finset ℕ} (hfO : f ∈ O)
    (hfD : f ∉ D) (hC : C f) (h : Heaped n (insert f D) R s₁ L₁ O₁ rank)
    (hrel : Released C s s₁ O O₁) (hsub : O₁ ⊆ O.erase f)
    (hdata : (s₁.frames f).d = (s.frames f).d) :
    wp (do freeData f; giveBack f)
      (fun _ s' => ∃ L' O', Heaped n D R s' L' O' rank ∧ Released C s s' O O')
      (fun e => e = .badFree ∧ ∃ g ∈ O, C g ∧ (s.frames g).d ≠ none) s₁ := by
  refine (h.settle hfD).mono (fun _ s' hs' => ?_) fun e he => ?_
  · obtain ⟨hheap, hother, hrings, hquiet⟩ := hs'
    refine ⟨_, _, hheap, hrel.sub, fun g hg => ?_, fun g hg => ?_, hrings.trans hrel.rings,
      fun hnone => ?_⟩
    · rw [hother g (Finset.ne_of_mem_erase (hsub hg))]
      exact hrel.same g hg
    · have hgf : g ≠ f := fun heq => hg (heq ▸ hfO)
      rw [hother g hgf]
      exact hrel.other g hg
    · obtain ⟨hblocks, hlog⟩ := hrel.quiet hnone
      obtain ⟨hblocks', hlog'⟩ := hquiet (hdata.trans (hnone f hfO hC))
      exact ⟨hblocks'.trans hblocks, hlog'.trans hlog⟩
  · exact ⟨he.1, f, hfO, hC, hdata ▸ he.2⟩

/-- `unref_frame`, with enough fuel for the originals that it releases. The chain `C` has the frame
and the originals of its frames.

**Proof sketch.** By induction on the fuel. With other references left only the count changes. With
the last one the frame leaves the heap: without an original its data is freed (`wp_settle`), and
with one the original is released, whose rank is lower, so that the fuel is enough for the frames
that it may still reach. -/
theorem wp_unrefFrame {C : ℕ → Prop} {fuel : ℕ} (h : Heaped n D R s L O rank) (hf : f ∈ R)
    (hfuel : (O.filter fun g => rank g ≤ rank f).card ≤ fuel) (hC : C f)
    (hchain : ∀ g ∈ O, C g → ∀ o, (s.frames g).destructor = some o → C o) :
    wp (unrefFrame fuel f)
      (fun _ s' => ∃ L' O', Heaped n D (R.erase f) s' L' O' rank ∧ Released C s s' O O')
      (fun e => e = .badFree ∧ ∃ g ∈ O, C g ∧ (s.frames g).d ≠ none) s := by
  induction fuel generalizing D R s L O f with
  | zero =>
    have hmem : f ∈ O.filter fun g => rank g ≤ rank f :=
      Finset.mem_filter.2 ⟨h.accounts.refs f hf, le_rfl⟩
    rw [Finset.card_eq_zero.1 (Nat.le_zero.1 hfuel)] at hmem
    exact absurd hmem (Finset.notMem_empty f)
  | succ fuel ih =>
    have hfO := h.accounts.refs f hf
    have hfD := (h.below f hfO).2
    have hpos := h.accounts.pos f hfO
    have hne : ∀ g ∉ O, g ≠ f := fun g hg heq => hg (heq ▸ hfO)
    unfold unrefFrame
    rw [wp_bind, wp_getFrame, wp_bind, wp_setFrame, wp_ite]
    refine ⟨fun hr => ?_, fun hr => ?_⟩
    · -- other references are left
      refine ⟨L, O, h.decr hf hr, Finset.Subset.refl O, fun g hg => ?_, fun g hg => ?_, rfl,
        fun _ => ⟨rfl, rfl⟩⟩
      · by_cases hgf : g = f <;> simp [hgf]
      · simp [hne g hg]
    · -- the last one
      have hone : (s.frames f).refCount = 1 := by omega
      rcases hd : (s.frames f).destructor with _ | orig
      · have hleave := h.leave hf hone _ (h.free.setFrames _ _ _ _)
          fun g hg => s.withFrame_of_ne hg ((s.frames f).setCount ((s.frames f).refCount - 1))
        rw [hd] at hleave
        refine wp_settle hfO hfD hC hleave ⟨Finset.erase_subset f O, fun g hg => ?_,
          fun g hg => ?_, rfl, fun _ => ⟨rfl, rfl⟩⟩ (Finset.Subset.refl _) (by simp)
        · simp [Finset.ne_of_mem_erase hg]
        · simp [hne g hg]
      · obtain ⟨horig, hrank⟩ := h.accounts.orig f hfO orig hd
        simp only
        rw [wp_bind, wp_setFrame]
        have hleave := h.leave hf hone ((s.withFrame f ((s.frames f).setCount
            ((s.frames f).refCount - 1))).withFrame f ((s.frames f).setCount 1))
          ((h.free.setFrames _ _ _ _).setFrames _ _ _ _) fun g hg => by simp [hg]
        rw [hd] at hleave
        have hless : ((O.erase f).filter fun g => rank g ≤ rank orig).card ≤ fuel := by
          have hsub : ((O.erase f).filter fun g => rank g ≤ rank orig) ⊆
              (O.filter fun g => rank g ≤ rank f).erase f := by
            intro g hg
            obtain ⟨hg, hgr⟩ := Finset.mem_filter.1 hg
            obtain ⟨hgf, hgO⟩ := Finset.mem_erase.1 hg
            exact Finset.mem_erase.2 ⟨hgf, Finset.mem_filter.2 ⟨hgO, by omega⟩⟩
          have hmem : f ∈ O.filter fun g => rank g ≤ rank f :=
            Finset.mem_filter.2 ⟨hfO, le_rfl⟩
          have hcard := Finset.card_le_card hsub
          rw [Finset.card_erase_of_mem hmem] at hcard
          omega
        have hrec := ih hleave List.mem_cons_self hless (hchain f hfO hC orig hd)
          fun g hg hCg o ho => by
            have hgf := Finset.ne_of_mem_erase hg
            refine hchain g (Finset.mem_of_mem_erase hg) hCg o ?_
            simpa [hgf] using ho
        refine wp.seq (hrec.mono (fun _ _ h => h) fun e he => ?_) fun _ s₃ h₃ => ?_
        · obtain ⟨rfl, g, hg, hCg, hdata⟩ := he
          refine ⟨rfl, g, Finset.mem_of_mem_erase hg, hCg, ?_⟩
          simpa [Finset.ne_of_mem_erase hg] using hdata
        · obtain ⟨L₃, O₃, hheap, hrel⟩ := h₃
          simp only [Option.toList_some, List.singleton_append, List.erase_cons_head] at hheap
          refine wp_settle hfO hfD hC hheap ⟨hrel.sub.trans (Finset.erase_subset f O),
            fun g hg => ?_, fun g hg => ?_, hrel.rings, fun hnone => ?_⟩ hrel.sub ?_
          · have hgf := Finset.ne_of_mem_erase (hrel.sub hg)
            have hsame := hrel.same g hg
            simpa [hgf] using hsame
          · rw [hrel.other g fun hmem => hg (Finset.mem_of_mem_erase hmem)]
            simp [hne g hg]
          · refine hrel.quiet fun g hg hCg => ?_
            have hgf := Finset.ne_of_mem_erase hg
            simpa [hgf] using hnone g (Finset.mem_of_mem_erase hg) hCg
          · rw [hrel.other f (Finset.notMem_erase f O)]
            simp

/-- `unref_frame`, when nothing is known of the data. -/
theorem wp_unrefFrame_any {fuel : ℕ} (h : Heaped n D R s L O rank) (hf : f ∈ R)
    (hfuel : (O.filter fun g => rank g ≤ rank f).card ≤ fuel) :
    wp (unrefFrame fuel f) (fun _ s' => ∃ L' O', Heaped n D (R.erase f) s' L' O' rank)
      (fun e => e = .badFree ∧ ∃ g ∈ O, (s.frames g).d ≠ none) s := by
  refine (wp_unrefFrame (C := fun _ => True) h hf hfuel trivial
    fun _ _ _ _ _ => trivial).mono (fun _ s' hs' => ?_) fun e he => ?_
  · obtain ⟨L', O', hheap, -⟩ := hs'
    exact ⟨L', O', hheap⟩
  · obtain ⟨rfl, g, hg, -, hdata⟩ := he
    exact ⟨rfl, g, hg, hdata⟩

/-- `new_frame` fails when no frame is free, and takes the first free one otherwise. -/
theorem wp_newFrame_heaped (h : Heaped n D R s L O rank) (hn : 0 < n) :
    wp newFrame
      (fun r s' => r = none ∧ s' = s ∧ L = [] ∨ ∃ f L', r = some f ∧ L = f :: L' ∧
        s' = s.popped f ∧ Heaped n D (f :: R) s' L' (insert f O) (Function.update rank f 0))
      (fun _ => False) s := by
  refine wp_newFrame.imp fun r s' hr => ?_
  obtain ⟨rfl, rfl⟩ := hr
  rw [h.free.slot_take hn]
  rcases L with _ | ⟨f, L⟩
  · exact .inl ⟨rfl, rfl, rfl⟩
  · have hf := (h.mem f).1 List.mem_cons_self
    have hfL := (List.nodup_cons.1 h.nodup).1
    have hlt : L.length < n := by
      have hsub : (f :: L).toFinset ⊆ Finset.range n := fun g hg =>
        Finset.mem_range.2 ((h.mem g).1 (List.mem_toFinset.1 hg)).1
      have hcard := Finset.card_le_card hsub
      rw [List.toFinset_card_of_nodup h.nodup, Finset.card_range, List.length_cons] at hcard
      exact hcard
    refine .inr ⟨f, L, rfl, rfl, rfl, h.popped (d := none) (by simp) (h.free.pop hlt _ _) ?_ ?_
      (fun g hg => ?_) fun g hg => ?_⟩
    · simp [FrameStore.popped, DataFrame.fresh, Frame.fresh]
    · simp [FrameStore.popped, DataFrame.fresh]
    all_goals
      have hgf : g ≠ f := fun heq => hf.2.1 (heq ▸ hg)
      simp [FrameStore.popped, hgf]

/-- The heap after a frame was taken as a clone. -/
def FrameStore.cloned (s : FrameStore) (f orig : ℕ) : FrameStore :=
  let o := s.frames orig
  let t := (s.popped f).withFrame f
    { (s.frames f).fresh with destructor := some orig, format := o.format, width := o.width,
                              height := o.height, length := o.length, key := o.key,
                              step := o.step, d := o.d }
  t.withFrame orig (o.setCount (o.refCount + 1))

/-- `clone_frame` of a frame that is referenced. -/
theorem wp_cloneFrame (h : Heaped n D R s L O rank) (hn : 0 < n) {orig : ℕ} (ho : orig ∈ O) :
    wp (cloneFrame orig)
      (fun r s' => r = none ∧ s' = s ∧ L = [] ∨ ∃ f L' rank', r = some f ∧ L = f :: L' ∧
        s' = s.cloned f orig ∧ Heaped n D (f :: R) s' L' (insert f O) rank')
      (fun e => e = .overflow) s := by
  unfold cloneFrame
  refine wp.seq ((wp_newFrame_heaped h hn).mono (fun _ _ h => h) fun _ h => h.elim) fun r s₁ hr => ?_
  rcases hr with ⟨rfl, rfl, rfl⟩ | ⟨f, L', rfl, rfl, rfl, hnew⟩
  · exact .inl ⟨rfl, rfl, rfl⟩
  · have hf := (h.mem f).1 List.mem_cons_self
    have hof : orig ≠ f := fun heq => hf.2.1 (heq ▸ ho)
    simp only
    rw [wp_bind, wp_getFrame, wp_bind, wp_getFrame, wp_bind, wp_setFrame, wp_bind]
    have hpf : (s.popped f).frames f = (s.frames f).fresh := Function.update_self ..
    have hpo : ∀ g, g ≠ f → (s.popped f).frames g = s.frames g := fun g hg =>
      Function.update_of_ne hg ..
    refine wp_refFrame.imp fun _ s' hs' =>
      .inr ⟨f, L', Function.update rank f (rank orig + 1), rfl, rfl, ?_, ?_⟩
    · rw [hs', FrameStore.withFrame_of_ne _ hof, hpf, hpo orig hof]
      rfl
    · refine h.popped (d := some orig) (fun o hd => ?_) ?_ ?_ ?_ (fun g hg => ?_) fun g hg => ?_
      · rw [← Option.some.inj hd]
        exact ho
      · rw [hs']
        exact (hnew.free.setFrames _ _ _ _).setFrames _ _ _ _
      · simp [hs', hof.symm, hpf, DataFrame.fresh, Frame.fresh]
      · simp [hs', hof.symm]
      all_goals
        have hgf : g ≠ f := fun heq => hf.2.1 (heq ▸ hg)
        by_cases hgo : g = orig
        · subst hgo
          simp [hs', hgf, hpo g hgf]
        · simp [hs', hgo, Ne.symm hgo, hgf, hpo g hgf]

/-! ## What the producers do -/

/-- The callback of an input leaves the count of its frame. -/
theorem Input.callback_refCount (i : Input) (c : i.Chunk) (mallocOk : Bool) (frame : Frame) :
    (i.callback c mallocOk frame).1.refCount = frame.refCount := by
  cases i with
  | video conf => rfl
  | audio conf =>
    simp only [Input.callback, getAudioChunk]
    repeat' split
    all_goals rfl

/-- The program gets one more reference to a frame that is referenced. -/
theorem Heaped.reference (h : Heaped n D R s L O rank) (hf : f ∈ O) :
    Heaped n D (f :: R)
      (s.withFrame f ((s.frames f).setCount ((s.frames f).refCount + 1))) L O rank := by
  refine ⟨h.free.setFrames _ _ _ _, h.nodup, h.mem, h.below, h.dying,
    h.accounts.recount (fun g _ => ?_) (fun g _ => ?_) (fun g hg => ?_) fun g hg => ?_⟩
  · by_cases hgf : g = f <;> simp [hgf]
  · by_cases hgf : g = f
    · simp [hgf]
      omega
    · simp [hgf, List.count_cons_of_ne (Ne.symm hgf)]
  · have hpos := h.accounts.pos g hg
    by_cases hgf : g = f
    · simp [hgf]
      rw [hgf] at hpos
      omega
    · simpa [hgf] using hpos
  · rcases List.mem_cons.1 hg with rfl | hg
    · exact hf
    · exact h.accounts.refs g hg

/-- A capture callback: the frame gets a new buffer, or none. -/
theorem wp_captureFrame (f : ℕ) (i : Input) (c : i.Chunk) (mallocOk : Bool) :
    wp (captureFrame f i c mallocOk)
      (fun r s' => r = (i.callback c mallocOk (s.frames f).toFrame).2 ∧
        (i.buffer c mallocOk = none ∧
          s' = s.withFrame f { s.frames f with
            toFrame := (i.callback c mallocOk (s.frames f).toFrame).1, d := none } ∨
        ∃ size, i.buffer c mallocOk = some size ∧
          s' = { s with blocks := s.blocks ++ [Block.mk size true (some f)],
                        log := if r then s.log ++ [FrameEvent.delivered f]
                               else s.log }.withFrame f
            { s.frames f with toFrame := (i.callback c mallocOk (s.frames f).toFrame).1,
                              d := some ⟨s.blocks.length, 0⟩ })) (fun _ => False) s := by
  unfold captureFrame
  rw [wp_bind, wp_getFrame]
  rcases hbuf : i.buffer c mallocOk with _ | size
  · exact ⟨rfl, .inl ⟨rfl, rfl⟩⟩
  · simp only
    unfold malloc
    rw [wp_bind, wp_bind, wp_get, wp_bind, wp_set, wp_pure, wp_bind, wp_setFrame, wp_ite]
    refine ⟨fun hd => ⟨hd.symm, .inr ⟨size, rfl, rfl⟩⟩, fun hd => ⟨?_, .inr ⟨size, rfl, rfl⟩⟩⟩
    exact (Bool.not_eq_true _ ▸ hd).symm

/-- A capture callback keeps the heap. -/
theorem wp_captureFrame_heaped (h : Heaped n D R s L O rank) (f : ℕ) (i : Input) (c : i.Chunk)
    (mallocOk : Bool) :
    wp (captureFrame f i c mallocOk) (fun _ s' => Heaped n D R s' L O rank) (fun _ => False)
      s := by
  refine (wp_captureFrame f i c mallocOk).imp fun r s' hr => ?_
  rcases hr.2 with ⟨-, rfl⟩ | ⟨size, -, rfl⟩
  · exact h.withFrame f _ rfl (i.callback_refCount c mallocOk _)
  · exact (h.memory _ _ _).withFrame f _ rfl (i.callback_refCount c mallocOk _)

/-- `convert_uyvy_to_rgb24` exchanges the frame it gets for a new one. -/
theorem wp_convertUyvyToRgb24 (h : Heaped n ∅ R s L O rank) (hn : 0 < n) {uyvy : ℕ}
    (hu : uyvy ∈ R) :
    wp (convertUyvyToRgb24 uyvy)
      (fun rgb s' => ∃ L' O' rank', Heaped n ∅ (rgb :: R.erase uyvy) s' L' O' rank')
      (fun e => e = .nullDeref ∨ e = .badFree) s := by
  unfold convertUyvyToRgb24
  refine wp.seq ((wp_newFrame_heaped h hn).mono (fun _ _ h => h) fun _ h => h.elim)
    fun r s₁ hr => ?_
  rcases hr with ⟨rfl, rfl, rfl⟩ | ⟨f, L', rfl, rfl, rfl, hnew⟩
  · exact .inl rfl
  change wp (pure f >>= _) _ _ _
  rw [wp_bind, wp_pure]
  have hf := (h.mem f).1 List.mem_cons_self
  have huO := h.accounts.refs uyvy hu
  have hfu : f ≠ uyvy := fun heq => hf.2.1 (heq ▸ huO)
  rw [wp_bind, wp_getFrame, wp_bind, wp_getFrame, wp_bind, wp_setFrame, wp_ite]
  refine ⟨fun _ => .inl rfl, fun _ => ?_⟩
  rw [wp_bind, wp_get]
  have hset := hnew.withFrame f { (s.popped f).frames f with
    format := .rawRgb24, width := ((s.popped f).frames uyvy).width,
    height := ((s.popped f).frames uyvy).height,
    length := .ofInt (((s.popped f).frames uyvy).height * ((s.popped f).frames uyvy).width * 3),
    key := ((s.popped f).frames uyvy).key } rfl rfl
  refine wp.seq ((wp_unrefFrame_any hset (List.mem_cons_of_mem f hu) (hnew.fuel _)).mono (fun _ _ h => h)
    fun e he => .inr he.1) fun _ s₂ h₂ => ?_
  obtain ⟨L₂, O₂, hheap⟩ := h₂
  rw [List.erase_cons_tail (by simpa using hfu)] at hheap
  exact ⟨L₂, O₂, _, hheap.memory _ _ _⟩

/-- The store with another audio ring, and its buffer. -/
def FrameStore.withRing (s : FrameStore) (sampleSize sampleRate framelen buflen : ℕ) : FrameStore :=
  { s with blocks := s.blocks ++ [Block.mk buflen true none]
           rings := s.rings ++ [{ framelen, sampleSize, sampleRate, adjustRate := 0,
                                  adjustCount := 0, ir := 0, iw := 0, buflen,
                                  buf := s.blocks.length }] }

/-- `new_audio_ring` makes a ring, unless its bytes are below zero. -/
theorem wp_newAudioRing (sampleSize sampleRate framelen : ℕ) :
    wp (newAudioRing sampleSize sampleRate framelen)
      (fun _ s' => 0 < framelen ∧ (s' = s ∨ ∃ buflen : ℕ,
        (buflen : ℤ) = ringBytes sampleSize sampleRate -
          (ringBytes sampleSize sampleRate).tmod framelen ∧
        s' = s.withRing sampleSize sampleRate framelen buflen))
      (fun e => e = .divZero ∧ framelen = 0) s := by
  unfold newAudioRing
  rw [wp_ite]
  refine ⟨fun hzero => ⟨rfl, hzero⟩, fun hpos => ?_⟩
  dsimp only
  rw [wp_ite]
  refine ⟨fun _ => ⟨Nat.pos_of_ne_zero hpos, .inl rfl⟩, fun hnonneg => ?_⟩
  exact ⟨Nat.pos_of_ne_zero hpos, .inr ⟨_, Int.toNat_of_nonneg (not_lt.1 hnonneg), rfl⟩⟩

/-- A frame of a ring is queued. -/
theorem wp_queueFrame (h : Heaped n ∅ R s L O rank) (hn : 0 < n) (ring : AudioRing)
    (queueOk : Bool) :
    wp (queueFrame ring queueOk)
      (fun r s' => ∃ L' O' rank', Heaped n ∅ (r.toList ++ R) s' L' O' rank')
      (fun e => e = .badFree) s := by
  unfold queueFrame
  refine wp.seq ((wp_newFrame_heaped h hn).mono (fun _ _ h => h) fun _ h => h.elim)
    fun r s₁ hr => ?_
  rcases hr with ⟨rfl, rfl, rfl⟩ | ⟨f, L', rfl, rfl, rfl, hnew⟩
  · exact ⟨[], O, rank, h⟩
  simp only
  rw [wp_bind, wp_getFrame, wp_bind, wp_setFrame, wp_ite]
  have hset := hnew.withFrame f { (s.popped f).frames f with
    format := .pcm, width := 0, height := 0, key := true, step := ring.sampleSize,
    length := .ofNat ring.framelen, d := some ⟨ring.buf, ring.ir⟩ } rfl rfl
  refine ⟨fun _ => ⟨L', _, _, hset.memory _ _ _⟩, fun _ => ?_⟩
  rw [wp_bind, wp_get]
  refine wp.seq ((wp_unrefFrame_any hset List.mem_cons_self (hset.fuel _)).mono (fun _ _ h => h)
    fun e he => he.1) fun _ s₂ h₂ => ?_
  obtain ⟨L₂, O₂, hheap⟩ := h₂
  rw [List.erase_cons_head] at hheap
  exact ⟨L₂, O₂, _, hheap⟩

end Wp

/-! ## The loop of the audio ring -/

section Loop

variable {I : List ℕ → FrameStore → Prop} {J : AudioRing → Prop} {E : Fault → Prop}
  {R : List ℕ} {s : FrameStore}

/-- What `audio_ring_input` needs to keep a property `I` of the references and the store, and one
`J` of the ring. -/
structure RingRule (I : List ℕ → FrameStore → Prop) (J : AudioRing → Prop) (E : Fault → Prop)
    (queueOk : Bool) : Prop where
  adjust : ∀ ring, J ring → J ring.adjust.1
  store : ∀ ring (s : FrameStore), J ring → wp ring.store (fun ring' s' => J ring' ∧ s' = s) E s
  queue : ∀ ring R s, J ring → I R s →
    wp (queueFrame ring queueOk) (fun r s' => I (r.toList ++ R) s') E s
  next : ∀ ring, J ring →
    J { ring with ir := if ring.ir + ring.framelen = ring.buflen then 0
                        else ring.ir + ring.framelen }

/-- The copies of a sample. -/
theorem wp_storeCopies {queueOk : Bool} (hrule : RingRule I J E queueOk) (copies : ℕ)
    {ring : AudioRing} (hJ : J ring) :
    wp (ring.storeCopies copies) (fun ring' s' => J ring' ∧ s' = s) E s := by
  induction copies generalizing ring with
  | zero => exact ⟨hJ, rfl⟩
  | succ copies ih =>
    unfold AudioRing.storeCopies
    refine wp.seq (hrule.store ring s hJ) fun ring' s' h => ?_
    obtain ⟨hJ', rfl⟩ := h
    exact ih hJ'

/-- One turn of the loop. -/
theorem wp_ringSample {queueOk : Bool} (hrule : RingRule I J E queueOk) {ring : AudioRing}
    (hJ : J ring) (hI : I R s) (avail : ℕ) :
    wp (ringSample ring avail queueOk) (fun r s' => J r.1 ∧ I (r.2.2.toList ++ R) s') E s := by
  unfold ringSample
  have hadj := hrule.adjust ring hJ
  rcases hring : ring.adjust with ⟨ring₁, copies⟩
  rw [hring] at hadj
  rcases copies with _ | copies
  · exact ⟨hadj, hI⟩
  simp only
  refine wp.seq (wp_storeCopies hrule _ hadj) fun ring₂ s₂ h₂ => ?_
  obtain ⟨hJ₂, rfl⟩ := h₂
  rw [wp_ite]
  refine ⟨fun _ => ?_, fun _ => ⟨hJ₂, hI⟩⟩
  refine wp.seq (hrule.queue ring₂ R s₂ hJ₂ hI) fun f s₃ h₃ => ?_
  exact ⟨hrule.next ring₂ hJ₂, h₃⟩

/-- The loop. -/
theorem wp_ringLoop {samples : List Bool} (hrule : ∀ q ∈ samples, RingRule I J E q)
    {ring : AudioRing} (hJ : J ring) (hI : I R s) (avail : ℕ) :
    wp (ringLoop samples ring avail) (fun r s' => J r.1 ∧ I (r.2 ++ R) s') E s := by
  induction samples generalizing ring avail R s with
  | nil => exact ⟨hJ, hI⟩
  | cons q samples ih =>
    unfold ringLoop
    refine wp.seq (wp_ringSample (hrule q List.mem_cons_self) hJ hI avail) fun r s₁ h₁ => ?_
    obtain ⟨ring₁, avail₁, f⟩ := r
    refine wp.seq (ih (fun q hq => hrule q (List.mem_cons_of_mem _ hq)) h₁.1 h₁.2 avail₁)
      fun r s₂ h₂ => ?_
    obtain ⟨ring₂, fs⟩ := r
    refine ⟨h₂.1, ?_⟩
    simpa [List.append_assoc] using h₂.2

/-- `audio_ring_input`. -/
theorem wp_audioRingInput {k : ℕ} {rate : Option ℤ} {samples : List Bool}
    (hrule : ∀ q ∈ samples, RingRule I J E q) (hnull : s.rings[k]? = none → E .nullDeref)
    (hJ : ∀ ring, s.rings[k]? = some ring → J ring)
    (hrate : ∀ ring r, J ring → J { ring with adjustRate := r, adjustCount := 1 })
    (hI : I R s) (hset : ∀ R s ring, I R s → J ring → I R { s with rings := s.rings.set k ring }) :
    wp (audioRingInput k rate samples) (fun fs s' => I (fs ++ R) s') E s := by
  unfold audioRingInput
  rw [wp_bind, wp_get, wp_bind, wp_found]
  refine ⟨fun ring hring => ?_, hnull⟩
  refine wp.seq (wp_ringLoop hrule ?_ hI _) fun r s₁ h₁ => ?_
  · cases rate with
    | none => exact hJ ring hring
    | some r => exact hrate ring r (hJ ring hring)
  obtain ⟨ring₁, fs⟩ := r
  exact hset _ _ _ h₁.2 h₁.1

end Loop

end Spook
