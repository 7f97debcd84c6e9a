import Mathlib.Data.Int.Notation
import Mathlib.Order.Nat
import Spook.Fault
import Spook.Lib.Machine
import Spook.Lib.Ring

set_option relaxedAutoImplicit false
set_option autoImplicit false

/-!
# The frame exchanger

`struct frame_exchanger` of `frame.c`: a ring of slots through which a master thread hands empty
frames to a slave thread and gets filled ones back. Every function holds the mutex of the
exchanger, so that its body is one step; `exchanger_read` reads a byte of the pipe before it
takes the mutex, and is two steps. A `get_next_frame` that waits is several attempts, each of
which is a step.

## Main definitions

* `Spook.Exchanger` and `exchangeFrame`, `getNextFrame`, `deliverFrame`, `takeSlot` — the
  structure and its operations.
* `Spook.exchangerMachine` — any interleaving of the calls of the two threads.
* `Spook.Tracks` — the slots hold what the history of the calls says.
* `Spook.LossFree` — no frame is lost, doubled or reordered.

## Main results

* `Spook.Tracks.exchange`, `get`, `deliver`, `take` — one lemma for each operation.
* `Spook.exchanger_lossless` — the history of every run in which no frame is put into the slot
  whose frame the slave holds.
* `Spook.Tracks.overwrites` — what happens to a frame that is put there.

## Notes on the design

The history of the calls says which frames each side had, and in which order. `Tracks` ties the
slots and the indices to it, so that a statement about the order of frames is one about lists.
-/

namespace Spook

variable {F : Type}

/-- `struct frame_slot`, less its links. -/
structure FrameSlot (F : Type) where
  pending : Bool
  f : Option F
  deriving DecidableEq

/-- The frame of a slot that waits for the slave. -/
def FrameSlot.forSlave (s : FrameSlot F) : Option F := if s.pending then s.f else none

/-- The frame of a slot that waits for the master. -/
def FrameSlot.forMaster (s : FrameSlot F) : Option F := if s.pending then none else s.f

/-- `struct frame_exchanger`: a ring of `nSlots` slots with its cursors, and the number of bytes
in the pipe. -/
structure Exchanger (F : Type) where
  nSlots : ℕ
  slots : ℕ → FrameSlot F
  slaveCur : ℕ
  masterRead : ℕ
  masterWrite : ℕ
  pipe : ℕ

namespace Exchanger

/-- `new_exchanger`. -/
def newExchanger (n : ℕ) : Exchanger F :=
  { nSlots := n, slots := fun _ => ⟨false, none⟩, slaveCur := 0, masterRead := 0,
    masterWrite := 0, pipe := 0 }

/-- `slot->next`. -/
def next (ex : Exchanger F) (i : ℕ) : ℕ := (i + 1) % ex.nSlots

/-- `exchange_frame`: provide a new frame for `get_next_frame`. -/
def exchangeFrame (ex : Exchanger F) (frame : F) : Exchanger F × ℤ :=
  if (ex.slots ex.masterWrite).f.isSome then (ex, -1)
  else ({ ex with slots := Function.update ex.slots ex.masterWrite ⟨true, some frame⟩,
                  masterWrite := ex.next ex.masterWrite }, 0)

/-- `get_next_frame`: get a frame that was exchanged. -/
def getNextFrame (ex : Exchanger F) : Exchanger F × Option F :=
  let s := ex.slots ex.slaveCur
  if s.pending && s.f.isSome then
    ({ ex with slots := Function.update ex.slots ex.slaveCur ⟨s.pending, none⟩ }, s.f)
  else (ex, none)

/-- `deliver_frame`: put a frame back and notify the master. -/
def deliverFrame (ex : Exchanger F) (f : F) : Exchanger F :=
  { ex with slots := Function.update ex.slots ex.slaveCur ⟨false, some f⟩,
            slaveCur := ex.next ex.slaveCur, pipe := ex.pipe + 1 }

/-- The part of `exchanger_read` under the mutex: the frame that the callback is called with. -/
def takeSlot (ex : Exchanger F) : Exchanger F × Option F :=
  let s := ex.slots ex.masterRead
  ({ ex with slots := Function.update ex.slots ex.masterRead ⟨s.pending, none⟩,
             masterRead := ex.next ex.masterRead }, s.f)

/-- The frames that wait for the slave, in the order of the ring. -/
def waiting (ex : Exchanger F) : List F :=
  (List.range ex.nSlots).filterMap fun i =>
    (SlotRing.slot ex.nSlots ex.slots (ex.slaveCur + i)).forSlave

/-- The frames that wait for the master, in the order of the ring. -/
def queued (ex : Exchanger F) : List F :=
  (List.range ex.nSlots).filterMap fun i =>
    (SlotRing.slot ex.nSlots ex.slots (ex.masterRead + i)).forMaster

section Frame

variable (ex : Exchanger F) (f : F)

/-- `exchange_frame` leaves the number of slots. -/
@[simp] theorem exchangeFrame_nSlots : (ex.exchangeFrame f).1.nSlots = ex.nSlots := by
  unfold exchangeFrame
  split_ifs <;> rfl

/-- `exchange_frame` writes nothing to the pipe. -/
@[simp] theorem exchangeFrame_pipe : (ex.exchangeFrame f).1.pipe = ex.pipe := by
  unfold exchangeFrame
  split_ifs <;> rfl

/-- `get_next_frame` leaves the number of slots. -/
@[simp] theorem getNextFrame_nSlots : ex.getNextFrame.1.nSlots = ex.nSlots := by
  simp only [getNextFrame]
  split_ifs <;> rfl

/-- `get_next_frame` reads nothing from the pipe. -/
@[simp] theorem getNextFrame_pipe : ex.getNextFrame.1.pipe = ex.pipe := by
  simp only [getNextFrame]
  split_ifs <;> rfl

/-- `deliver_frame` leaves the number of slots. -/
@[simp] theorem deliverFrame_nSlots : (ex.deliverFrame f).nSlots = ex.nSlots := rfl

/-- `deliver_frame` writes a byte to the pipe. -/
@[simp] theorem deliverFrame_pipe : (ex.deliverFrame f).pipe = ex.pipe + 1 := rfl

/-- The master leaves the number of slots. -/
@[simp] theorem takeSlot_nSlots : ex.takeSlot.1.nSlots = ex.nSlots := rfl

/-- The byte was read before the slot is taken. -/
@[simp] theorem takeSlot_pipe : ex.takeSlot.1.pipe = ex.pipe := rfl

end Frame

end Exchanger

/-! ## Interleaved calls -/

/-- A step of one of the two threads. -/
inductive ExAct (F : Type)
  /-- The master calls `exchange_frame`. -/
  | exchange (f : F)
  /-- The master reads a byte of the pipe in `exchanger_read`. -/
  | readByte
  /-- The master takes a slot in `exchanger_read` and calls the callback. -/
  | takeSlot
  /-- The slave calls `get_next_frame`. -/
  | get
  /-- The slave calls `deliver_frame`. -/
  | deliver (f : F)

/-- What can be seen of a step. -/
inductive ExEvent (F : Type)
  | accepted (f : F)
  | refused (f : F)
  | gotten (f : F)
  | nothing
  | delivered (f : F)
  | called (f : Option F)
  deriving DecidableEq

/-- An exchanger between two threads: whether the slave holds a frame it was given, and whether
the master has read a byte and not taken the slot yet. -/
structure ExState (F : Type) where
  ex : Exchanger F
  holding : Bool
  reading : Bool

/-- One step. A read of the empty pipe changes nothing. -/
def exStep (s : ExState F) : ExAct F → Except Fault (ExState F × List (ExEvent F))
  | .exchange f =>
    let (ex, ret) := s.ex.exchangeFrame f
    .ok ({ s with ex }, [if ret = 0 then .accepted f else .refused f])
  | .readByte =>
    if s.ex.pipe = 0 then .ok (s, [])
    else .ok ({ s with ex := { s.ex with pipe := s.ex.pipe - 1 }, reading := true }, [])
  | .takeSlot =>
    let (ex, f) := s.ex.takeSlot
    .ok ({ s with ex, reading := false }, [.called f])
  | .get =>
    match s.ex.getNextFrame with
    | (ex, some f) => .ok ({ s with ex, holding := true }, [.gotten f])
    | (_, none) => .ok (s, [.nothing])
  | .deliver f => .ok ({ s with ex := s.ex.deliverFrame f, holding := false }, [.delivered f])

/-- An exchanger of `n` slots, as `new_exchanger` makes it. -/
def exchangerMachine (F : Type) (n : ℕ) : Machine (ExState F) (ExAct F) (ExEvent F) Fault where
  Init s := s = ⟨.newExchanger n, false, false⟩
  step := exStep

/-- How the two threads use the exchanger: the slave delivers a frame for every frame it is
given before it is given the next one, and the master takes a slot for every byte it reads. -/
def Protocol (s : ExState F) : ExAct F → Prop
  | .exchange _ => True
  | .readByte => s.reading = false
  | .takeSlot => s.reading = true
  | .get => s.holding = true → s.ex.getNextFrame.2 = none
  | .deliver _ => s.holding = true

/-- No frame is put into the slot whose frame the slave holds. -/
def NotHeldSlot (s : ExState F) : ExAct F → Prop
  | .exchange _ => ¬ (s.holding = true ∧ s.ex.masterWrite = s.ex.slaveCur)
  | _ => True

instance [DecidableEq F] (s : ExState F) : ∀ a, Decidable (Protocol s a)
  | .exchange _ => inferInstanceAs (Decidable True)
  | .readByte => inferInstanceAs (Decidable (s.reading = false))
  | .takeSlot => inferInstanceAs (Decidable (s.reading = true))
  | .get => inferInstanceAs (Decidable (s.holding = true → s.ex.getNextFrame.2 = none))
  | .deliver _ => inferInstanceAs (Decidable (s.holding = true))

instance (s : ExState F) : ∀ a, Decidable (NotHeldSlot s a)
  | .exchange _ =>
    inferInstanceAs (Decidable (¬ (s.holding = true ∧ s.ex.masterWrite = s.ex.slaveCur)))
  | .readByte | .takeSlot | .get | .deliver _ => inferInstanceAs (Decidable True)

section History

/-- The frames that `exchange_frame` accepted. -/
def accepted (os : List (ExEvent F)) : List F :=
  os.filterMap fun | .accepted f => some f | _ => none

/-- The frames that `get_next_frame` returned. -/
def gotten (os : List (ExEvent F)) : List F :=
  os.filterMap fun | .gotten f => some f | _ => none

/-- The frames that were given to `deliver_frame`. -/
def delivered (os : List (ExEvent F)) : List F :=
  os.filterMap fun | .delivered f => some f | _ => none

/-- What the callback was called with. -/
def called (os : List (ExEvent F)) : List (Option F) :=
  os.filterMap fun | .called f => some f | _ => none

variable (os os' : List (ExEvent F))

/-- What was accepted, one after the other. -/
@[simp] theorem accepted_append : accepted (os ++ os') = accepted os ++ accepted os' :=
  List.filterMap_append

/-- What the slave got, one after the other. -/
@[simp] theorem gotten_append : gotten (os ++ os') = gotten os ++ gotten os' :=
  List.filterMap_append

/-- What was delivered, one after the other. -/
@[simp] theorem delivered_append : delivered (os ++ os') = delivered os ++ delivered os' :=
  List.filterMap_append

/-- What the master was called with, one after the other. -/
@[simp] theorem called_append : called (os ++ os') = called os ++ called os' :=
  List.filterMap_append

end History

/-! ## What the slots hold -/

/-- The frames `A` were accepted and the frames `D` delivered, in this order; the callback was
called `r` times, and the slave holds a frame or not. -/
structure Tracks (ex : Exchanger F) (A D : List F) (r : ℕ) (held : Bool) : Prop where
  slaveCur : ex.slaveCur = D.length % ex.nSlots
  masterRead : ex.masterRead = r % ex.nSlots
  masterWrite : ex.masterWrite = A.length % ex.nSlots
  order : r ≤ D.length ∧ D.length + held.toNat ≤ A.length ∧ A.length ≤ r + ex.nSlots
  behind : ∀ i, r ≤ i → i < D.length → SlotRing.slot ex.nSlots ex.slots i = ⟨false, D[i]?⟩
  current : held = true → SlotRing.slot ex.nSlots ex.slots D.length = ⟨true, none⟩
  ahead : ∀ i, D.length + held.toNat ≤ i → i < A.length →
    SlotRing.slot ex.nSlots ex.slots i = ⟨true, A[i]?⟩
  empty : ∀ i, A.length ≤ i → i < r + ex.nSlots →
    SlotRing.slot ex.nSlots ex.slots i = ⟨false, none⟩

namespace Tracks

variable {ex : Exchanger F} {A D : List F} {r : ℕ} {held : Bool}

/-- A new exchanger. -/
theorem newExchanger (n : ℕ) : Tracks (.newExchanger n : Exchanger F) [] [] 0 false :=
  ⟨by simp [Exchanger.newExchanger], by simp [Exchanger.newExchanger],
    by simp [Exchanger.newExchanger], by simp, by simp, by simp, by simp, fun _ _ _ => rfl⟩

/-- What a slot of the ring holds after an update of the slot of the counter `j`. -/
theorem slot_update {n j : ℕ} (slots : ℕ → FrameSlot F) (a : FrameSlot F)
    (hj : r ≤ j ∧ j < r + n) (i : ℕ) (h1 : r ≤ i) (h2 : i < r + n) :
    SlotRing.slot n (Function.update slots (j % n) a) i =
      if i = j then a else SlotRing.slot n slots i :=
  SlotRing.slot_update hj ⟨h1, h2⟩ a

/-- `exchange_frame` stores the frame when there is an empty slot, and refuses it otherwise. -/
theorem exchange (h : Tracks ex A D r held) (hn : 0 < ex.nSlots)
    (hc : ¬ (held = true ∧ ex.masterWrite = ex.slaveCur)) (f : F) :
    (A.length < r + ex.nSlots ∧ (ex.exchangeFrame f).2 = 0 ∧
        (ex.slots ex.masterWrite).f = none ∧ Tracks (ex.exchangeFrame f).1 (A ++ [f]) D r held) ∨
      A.length = r + ex.nSlots ∧ (ex.exchangeFrame f).2 = -1 ∧ (ex.exchangeFrame f).1 = ex := by
  obtain ⟨h1, h2, h3⟩ := h.order
  have hslot : SlotRing.slot ex.nSlots ex.slots A.length = ex.slots ex.masterWrite := by
    rw [h.masterWrite]
    rfl
  unfold Exchanger.exchangeFrame
  rcases h3.lt_or_eq with hlt | heq
  · left
    have he := h.empty A.length le_rfl hlt
    rw [hslot] at he
    have hup := slot_update ex.slots ⟨true, some f⟩
      (⟨by omega, hlt⟩ : r ≤ A.length ∧ A.length < r + ex.nSlots)
    rw [if_neg (by simp [he])]
    rw [← h.masterWrite] at hup
    refine ⟨hlt, rfl, by rw [he], ⟨h.slaveCur, h.masterRead, ?_, ?_, ?_, ?_, ?_, ?_⟩⟩
    · simp only [Exchanger.next, h.masterWrite, SlotRing.succ_mod, List.length_append,
        List.length_singleton]
    · simp only [List.length_append, List.length_singleton]
      omega
    · intro i hi1 hi2
      rw [hup i (by omega) (by omega), if_neg (by omega), h.behind i hi1 hi2]
    · intro hheld
      rw [hheld, Bool.toNat_true] at h2
      rw [hup D.length h1 (by omega), if_neg (by omega), h.current hheld]
    · intro i hi1 hi2
      rw [List.length_append, List.length_singleton] at hi2
      rw [hup i (by omega) (by omega)]
      split_ifs with hi
      · simp [hi]
      · rw [h.ahead i hi1 (by omega), List.getElem?_append_left (by omega)]
    · intro i hi1 hi2
      rw [List.length_append, List.length_singleton] at hi1
      rw [hup i (by omega) hi2, if_neg (by omega), h.empty i (by omega) hi2]
  · right
    have hfull : (ex.slots ex.masterWrite).f.isSome := by
      rw [← hslot, heq, SlotRing.slot_add]
      rcases h1.lt_or_eq with hrD | hrD
      · rw [h.behind r le_rfl hrD]
        simp [hrD]
      · have hfree : held = false := by
          by_contra hheld
          refine hc ⟨by simpa using hheld, ?_⟩
          rw [h.masterWrite, h.slaveCur, heq, hrD, Nat.add_mod_right]
        rw [hfree, Bool.toNat_false] at h2
        rw [h.ahead r (by rw [hfree, Bool.toNat_false]; omega) (by omega)]
        simp
        omega
    rw [if_pos hfull]
    exact ⟨heq, rfl, rfl⟩

/-- `get_next_frame` returns the next frame, unless there is none or the slave holds one. -/
theorem get (h : Tracks ex A D r held) (hn : 0 < ex.nSlots) :
    (held = false ∧ ∃ f, ex.getNextFrame.2 = some f ∧ A[D.length]? = some f ∧
        Tracks ex.getNextFrame.1 A D r true) ∨
      (held = true ∨ A.length = D.length) ∧ ex.getNextFrame = (ex, none) := by
  obtain ⟨h1, h2, h3⟩ := h.order
  have hslot : ex.slots ex.slaveCur = SlotRing.slot ex.nSlots ex.slots D.length := by
    rw [h.slaveCur]
    rfl
  unfold Exchanger.getNextFrame
  dsimp only
  cases held with
  | true =>
    right
    rw [hslot, h.current rfl]
    exact ⟨.inl rfl, by simp⟩
  | false =>
    rw [Bool.toNat_false, Nat.add_zero] at h2
    rcases h2.lt_or_eq with hlt | heq
    · left
      have ha := h.ahead D.length le_rfl hlt
      have hup := slot_update ex.slots ⟨true, none⟩
        (⟨h1, by omega⟩ : r ≤ D.length ∧ D.length < r + ex.nSlots)
      rw [hslot, ha, if_pos (by simp [hlt])]
      rw [← h.slaveCur] at hup
      refine ⟨rfl, A[D.length], by simp [hlt], by simp [hlt],
        ⟨h.slaveCur, h.masterRead, h.masterWrite, ⟨h1, hlt, h3⟩, ?_, ?_, ?_, ?_⟩⟩
      · intro i hi1 hi2
        rw [hup i hi1 (by omega), if_neg (by omega), h.behind i hi1 hi2]
      · intro _
        rw [hup D.length h1 (by omega), if_pos rfl]
      · intro i hi1 hi2
        rw [Bool.toNat_true] at hi1
        rw [hup i (by omega) (by omega), if_neg (by omega), h.ahead i (by simpa using by omega) hi2]
      · intro i hi1 hi2
        rw [hup i (by omega) hi2, if_neg (by omega), h.empty i hi1 hi2]
    · right
      have hnone : (SlotRing.slot ex.nSlots ex.slots D.length).pending = false := by
        rcases Nat.lt_or_ge D.length (r + ex.nSlots) with hlt | hge
        · rw [h.empty D.length heq.ge hlt]
        · rw [show D.length = r + ex.nSlots by omega, SlotRing.slot_add,
            h.behind r le_rfl (by omega)]
      rw [hslot, hnone]
      exact ⟨.inr heq.symm, rfl⟩

/-- The slot whose frame the slave holds is empty. -/
theorem heldSlot (h : Tracks ex A D r true) : ex.slots ex.slaveCur = ⟨true, none⟩ := by
  rw [h.slaveCur]
  exact h.current rfl

/-- A frame put into the slot whose frame the slave holds is accepted, and the next
`deliver_frame` overwrites it. -/
theorem overwrites (h : Tracks ex A D r true) (hc : ex.masterWrite = ex.slaveCur) (f g : F) :
    (ex.exchangeFrame f).2 = 0 ∧
      (ex.exchangeFrame f).1.slots = Function.update ex.slots ex.slaveCur ⟨true, some f⟩ ∧
      ((ex.exchangeFrame f).1.deliverFrame g).slots =
        Function.update ex.slots ex.slaveCur ⟨false, some g⟩ := by
  have hempty : ¬ (ex.slots ex.masterWrite).f.isSome := by
    rw [hc, h.heldSlot]
    simp
  unfold Exchanger.exchangeFrame
  rw [if_neg hempty, hc]
  refine ⟨rfl, rfl, ?_⟩
  simp [Exchanger.deliverFrame]

/-- `deliver_frame` fills the slot of the frame that the slave holds. -/
theorem deliver (h : Tracks ex A D r true) (f : F) :
    Tracks (ex.deliverFrame f) A (D ++ [f]) r false := by
  obtain ⟨h1, h2, h3⟩ := h.order
  rw [Bool.toNat_true] at h2
  have hup := slot_update ex.slots ⟨false, some f⟩
    (⟨h1, by omega⟩ : r ≤ D.length ∧ D.length < r + ex.nSlots)
  rw [← h.slaveCur] at hup
  have hlen : (D ++ [f]).length = D.length + 1 := by simp
  refine ⟨?_, h.masterRead, h.masterWrite, ?_, ?_, by simp, ?_, ?_⟩
  · simp only [Exchanger.deliverFrame, Exchanger.next, h.slaveCur, SlotRing.succ_mod, hlen]
  · rw [hlen, Bool.toNat_false]
    exact ⟨by omega, by omega, h3⟩
  · intro i hi1 hi2
    rw [hlen] at hi2
    change SlotRing.slot ex.nSlots (Function.update ex.slots ex.slaveCur ⟨false, some f⟩) i = _
    rw [hup i hi1 (by omega)]
    split_ifs with hi
    · simp [hi]
    · rw [h.behind i hi1 (by omega), List.getElem?_append_left (by omega)]
  · intro i hi1 hi2
    rw [hlen, Bool.toNat_false] at hi1
    change SlotRing.slot ex.nSlots (Function.update ex.slots ex.slaveCur ⟨false, some f⟩) i = _
    rw [hup i (by omega) (by omega), if_neg (by omega), h.ahead i (by simpa using by omega) hi2]
  · intro i hi1 hi2
    change SlotRing.slot ex.nSlots (Function.update ex.slots ex.slaveCur ⟨false, some f⟩) i = _
    rw [hup i (by omega) hi2, if_neg (by omega), h.empty i hi1 hi2]

/-- `exchanger_read` takes the first delivered frame. -/
theorem take (h : Tracks ex A D r held) (hr : r < D.length) :
    ex.takeSlot.2 = D[r]? ∧ Tracks ex.takeSlot.1 A D (r + 1) held := by
  obtain ⟨h1, h2, h3⟩ := h.order
  have hslot : ex.slots ex.masterRead = SlotRing.slot ex.nSlots ex.slots r := by
    rw [h.masterRead]
    rfl
  have hb := h.behind r le_rfl hr
  have hup := slot_update ex.slots ⟨false, none⟩ (⟨le_rfl, by omega⟩ : r ≤ r ∧ r < r + ex.nSlots)
  rw [← h.masterRead] at hup
  unfold Exchanger.takeSlot
  dsimp only
  rw [hslot, hb]
  refine ⟨rfl, ⟨h.slaveCur, ?_, h.masterWrite, ⟨hr, h2, ?_⟩, ?_, ?_, ?_, ?_⟩⟩
  · simp only [Exchanger.next, h.masterRead, SlotRing.succ_mod]
  · change A.length ≤ r + 1 + ex.nSlots
    omega
  · intro i hi1 hi2
    rw [hup i (by omega) (by omega), if_neg (by omega), h.behind i (by omega) hi2]
  · intro hheld
    rw [hheld, Bool.toNat_true] at h2
    rw [hup D.length h1 (by omega), if_neg (by omega), h.current hheld]
  · intro i hi1 hi2
    rw [hup i (by omega) (by omega), if_neg (by omega), h.ahead i hi1 hi2]
  · intro i hi1 hi2
    change i < r + 1 + ex.nSlots at hi2
    rcases Nat.lt_or_ge i (r + ex.nSlots) with hlt | hge
    · rw [hup i (by omega) hlt, if_neg (by omega), h.empty i hi1 hlt]
    · rw [show i = r + ex.nSlots by omega, SlotRing.slot_add,
        hup r le_rfl (by omega), if_pos rfl]

/-- The frames that wait for the slave are the accepted ones it was not given. -/
theorem waiting (h : Tracks ex A D r held) : ex.waiting = A.drop (D.length + held.toNat) := by
  obtain ⟨h1, h2, h3⟩ := h.order
  have hsame : ∀ i, SlotRing.slot ex.nSlots ex.slots (ex.slaveCur + i) =
      SlotRing.slot ex.nSlots ex.slots (D.length + i) := by
    intro i
    rw [h.slaveCur]
    simp [SlotRing.slot]
  have hslot : ∀ i, D.length + held.toNat ≤ i → i < D.length + ex.nSlots →
      (SlotRing.slot ex.nSlots ex.slots i).forSlave = A[i]? := by
    intro i hi1 hi2
    rcases Nat.lt_or_ge i A.length with hA | hA
    · rw [h.ahead i hi1 hA]
      rfl
    · rw [List.getElem?_eq_none hA]
      rcases Nat.lt_or_ge i (r + ex.nSlots) with hlt | hge
      · rw [h.empty i hA hlt]
        rfl
      · obtain ⟨j, rfl⟩ : ∃ j, i = j + ex.nSlots := ⟨i - ex.nSlots, by omega⟩
        rw [SlotRing.slot_add, h.behind j (by omega) (by omega)]
        rfl
  unfold Exchanger.waiting
  simp only [hsame]
  cases held with
  | false => exact SlotRing.filterMap_window (fun i hi => hslot _ (by simp) (by omega)) (by omega)
  | true =>
    rw [Bool.toNat_true] at h2 hslot ⊢
    obtain ⟨m, hm⟩ : ∃ m, ex.nSlots = m + 1 := ⟨ex.nSlots - 1, by omega⟩
    have hcur : (SlotRing.slot ex.nSlots ex.slots (D.length + 0)).forSlave = none := by
      rw [Nat.add_zero, h.current rfl]
      rfl
    rw [hm, List.range_succ_eq_map, List.filterMap_cons, ← hm, hcur, List.filterMap_map]
    dsimp only
    have hrest : (List.range m).filterMap (fun i =>
        (SlotRing.slot ex.nSlots ex.slots (D.length + 1 + i)).forSlave) = A.drop (D.length + 1) :=
      SlotRing.filterMap_window (fun i hi => hslot _ (by omega) (by omega)) (by omega)
    rw [← hrest]
    refine List.filterMap_congr fun i _ => ?_
    simp only [Function.comp, Nat.succ_eq_add_one]
    congr 2
    omega

/-- The frames that wait for the master are the delivered ones it was not called with. -/
theorem queued (h : Tracks ex A D r held) : ex.queued = D.drop r := by
  obtain ⟨h1, h2, h3⟩ := h.order
  have hsame : ∀ i, SlotRing.slot ex.nSlots ex.slots (ex.masterRead + i) =
      SlotRing.slot ex.nSlots ex.slots (r + i) := by
    intro i
    rw [h.masterRead]
    simp [SlotRing.slot]
  have hslot : ∀ i, r ≤ i → i < r + ex.nSlots →
      (SlotRing.slot ex.nSlots ex.slots i).forMaster = D[i]? := by
    intro i hi1 hi2
    rcases Nat.lt_or_ge i D.length with hD | hD
    · rw [h.behind i hi1 hD]
      rfl
    rw [List.getElem?_eq_none hD]
    rcases Nat.lt_or_ge i A.length with hA | hA
    · rcases Nat.lt_or_ge i (D.length + held.toNat) with hcur | hahead
      · obtain ⟨hheld, hi⟩ : held = true ∧ i = D.length := by
          cases held <;> simp at hcur ⊢ <;> omega
        rw [hi, h.current hheld]
        rfl
      · rw [h.ahead i hahead hA]
        rfl
    · rw [h.empty i hA hi2]
      rfl
  unfold Exchanger.queued
  simp only [hsame]
  exact SlotRing.filterMap_window (fun i hi => hslot _ (by omega) (by omega)) (by omega)

end Tracks

/-! ## Runs -/

/-- What the history of the calls says about the state. -/
structure History (n : ℕ) (os : List (ExEvent F)) (s : ExState F) : Prop where
  nSlots : s.ex.nSlots = n
  got : gotten os = (accepted os).take ((delivered os).length + s.holding.toNat)
  calls : called os = ((delivered os).take (called os).length).map some
  tracks : Tracks s.ex (accepted os) (delivered os) (called os).length s.holding
  bytes : s.ex.pipe + s.reading.toNat + (called os).length = (delivered os).length

/-- The number of bytes in the pipe is no part of what the slots hold. -/
theorem Tracks.setPipe {ex : Exchanger F} {A D : List F} {r : ℕ} {held : Bool}
    (h : Tracks ex A D r held) (k : ℕ) : Tracks { ex with pipe := k } A D r held :=
  ⟨h.slaveCur, h.masterRead, h.masterWrite, h.order, h.behind, h.current, h.ahead, h.empty⟩

/-- A call of `exchange_frame` keeps what the history says. -/
theorem History.exchange {n : ℕ} {os : List (ExEvent F)} {s : ExState F} (h : History n os s)
    (hn : 0 < n) (f : F) (hh : NotHeldSlot s (.exchange f)) :
    ∃ s' o, exStep s (.exchange f) = .ok (s', o) ∧ History n (os ++ o) s' := by
  rcases h.tracks.exchange (h.nSlots ▸ hn) hh f with ⟨-, hret, -, ht⟩ | ⟨-, hret, hex⟩
  · refine ⟨{ s with ex := (s.ex.exchangeFrame f).1 }, [.accepted f], by simp [exStep, hret],
      ⟨by simpa using h.nSlots, ?_, ?_, ?_, ?_⟩⟩
    · have hle := h.tracks.order.2.1
      simp only [gotten_append, accepted_append, delivered_append]
      rw [List.take_append_of_le_length (by simpa [delivered] using hle)]
      simpa [gotten, accepted, delivered] using h.got
    · simpa [called, delivered] using h.calls
    · simpa [called, delivered, accepted] using ht
    · simpa [called, delivered] using h.bytes
  · refine ⟨s, [.refused f], by simp [exStep, hret, hex], ⟨h.nSlots, ?_, ?_, ?_, ?_⟩⟩
    · simpa [gotten, accepted, delivered] using h.got
    · simpa [called, delivered] using h.calls
    · simpa [called, delivered, accepted] using h.tracks
    · simpa [called, delivered] using h.bytes

/-- A call of `get_next_frame` keeps what the history says. -/
theorem History.get {n : ℕ} {os : List (ExEvent F)} {s : ExState F} (h : History n os s)
    (hn : 0 < n) : ∃ s' o, exStep s .get = .ok (s', o) ∧ History n (os ++ o) s' := by
  rcases h.tracks.get (h.nSlots ▸ hn) with ⟨hheld, f, hf, hA, ht⟩ | ⟨-, hnone⟩
  · refine ⟨{ s with ex := s.ex.getNextFrame.1, holding := true }, [.gotten f], ?_,
      ⟨by simpa using h.nSlots, ?_, ?_, ?_, ?_⟩⟩
    · rcases hg : s.ex.getNextFrame with ⟨ex, g⟩
      rw [hg] at hf
      cases hf
      simp [exStep, hg]
    · have hgot := h.got
      rw [hheld, Bool.toNat_false, Nat.add_zero] at hgot
      have hacc : accepted (os ++ [.gotten f]) = accepted os := by simp [accepted]
      have hdel : delivered (os ++ [.gotten f]) = delivered os := by simp [delivered]
      rw [hacc, hdel, Bool.toNat_true, List.take_add_one, hA, gotten_append, hgot]
      rfl
    · simpa [called, delivered] using h.calls
    · simpa [called, delivered, accepted] using ht
    · simpa [called, delivered] using h.bytes
  · refine ⟨s, [.nothing], by simp [exStep, hnone], ⟨h.nSlots, ?_, ?_, ?_, ?_⟩⟩
    · simpa [gotten, accepted, delivered] using h.got
    · simpa [called, delivered] using h.calls
    · simpa [called, delivered, accepted] using h.tracks
    · simpa [called, delivered] using h.bytes

/-- A call of `deliver_frame` by a slave that holds a frame keeps what the history says. -/
theorem History.deliver {n : ℕ} {os : List (ExEvent F)} {s : ExState F} (h : History n os s)
    (f : F) (hp : s.holding = true) :
    ∃ s' o, exStep s (.deliver f) = .ok (s', o) ∧ History n (os ++ o) s' := by
  have ht := h.tracks
  rw [hp] at ht
  have hle := ht.order.1
  refine ⟨_, _, rfl, ⟨h.nSlots, ?_, ?_, ?_, ?_⟩⟩
  · have hgot := h.got
    rw [hp, Bool.toNat_true] at hgot
    simpa [gotten, accepted, delivered] using hgot
  · have hcalls := h.calls
    have hlen : (called (os ++ [.delivered f])).length = (called os).length := by
      simp [called]
    rw [hlen, delivered_append, List.take_append_of_le_length hle, ← hcalls]
    simp [called]
  · simpa [called, delivered, accepted] using ht.deliver f
  · have hb := h.bytes
    simp only [called_append, delivered_append, List.length_append]
    simp [called, delivered, Exchanger.deliverFrame] at hb ⊢
    omega

/-- The read of a byte of the pipe keeps what the history says. -/
theorem History.readByte {n : ℕ} {os : List (ExEvent F)} {s : ExState F} (h : History n os s)
    (hp : s.reading = false) :
    ∃ s' o, exStep s .readByte = .ok (s', o) ∧ History n (os ++ o) s' := by
  simp only [exStep]
  split_ifs with h0
  · exact ⟨s, [], rfl, by simpa using h⟩
  · refine ⟨_, _, rfl, ⟨h.nSlots, by simpa using h.got, by simpa using h.calls,
      by simpa using h.tracks.setPipe _, ?_⟩⟩
    have hb := h.bytes
    rw [hp, Bool.toNat_false] at hb
    simp only [List.append_nil, Bool.toNat_true]
    omega

/-- Taking a slot for a byte that was read keeps what the history says. -/
theorem History.takeSlot {n : ℕ} {os : List (ExEvent F)} {s : ExState F} (h : History n os s)
    (hp : s.reading = true) :
    ∃ s' o, exStep s .takeSlot = .ok (s', o) ∧ History n (os ++ o) s' := by
  have hb := h.bytes
  rw [hp, Bool.toNat_true] at hb
  have hr : (called os).length < (delivered os).length := by omega
  obtain ⟨hf, ht⟩ := h.tracks.take hr
  have hlen : (called (os ++ [.called s.ex.takeSlot.2])).length = (called os).length + 1 := by
    simp [called]
  refine ⟨{ s with ex := s.ex.takeSlot.1, reading := false }, [.called s.ex.takeSlot.2], rfl,
    ⟨h.nSlots, ?_, ?_, ?_, ?_⟩⟩
  · simpa [gotten, accepted, delivered] using h.got
  · have hcalls := h.calls
    have hd : delivered (os ++ [.called s.ex.takeSlot.2]) = delivered os := by simp [delivered]
    rw [hlen, hd, List.take_add_one, List.map_append, ← hcalls, called_append]
    congr 1
    rw [hf, List.getElem?_eq_getElem hr]
    rfl
  · rw [hlen]
    simpa [delivered, accepted] using ht
  · rw [hlen]
    simp only [delivered_append, List.length_append, Bool.toNat_false]
    simp [delivered, Exchanger.takeSlot] at hb ⊢
    omega

/-- **One step.** Every step that the protocol allows happens, and keeps what the history says,
unless it puts a frame into the slot whose frame the slave holds. -/
theorem History.step {n : ℕ} (hn : 0 < n) {os : List (ExEvent F)} {s : ExState F}
    {a : ExAct F} (h : History n os s) (hp : Protocol s a) (hh : NotHeldSlot s a) :
    ∃ s' o, exStep s a = .ok (s', o) ∧ History n (os ++ o) s' := by
  cases a with
  | exchange f => exact h.exchange hn f hh
  | readByte => exact h.readByte hp
  | takeSlot => exact h.takeSlot hp
  | get => exact h.get hn
  | deliver f => exact h.deliver f hp

/-- No frame is lost, doubled or reordered: what was accepted and not yet returned waits in the
ring and is returned next, and what was delivered and not yet passed to the callback is queued in
the ring, with one byte for each, and is passed next. -/
structure LossFree (os : List (ExEvent F)) (s : ExState F) : Prop where
  exchanged : accepted os = gotten os ++ s.ex.waiting
  delivered : (delivered os).map some = called os ++ s.ex.queued.map some
  nextGet : s.holding = false → s.ex.getNextFrame.2 = s.ex.waiting.head?
  bytes : s.ex.pipe + s.reading.toNat = s.ex.queued.length
  nextTake : s.reading = true → ∃ f, s.ex.takeSlot.2 = some f ∧ s.ex.queued.head? = some f
  notOverwritten : s.holding = true → (s.ex.slots s.ex.slaveCur).f = none

/-- What the history says means that nothing is lost. -/
theorem History.lossFree {n : ℕ} (hn : 0 < n) {os : List (ExEvent F)} {s : ExState F}
    (h : History n os s) : LossFree os s := by
  have ht := h.tracks
  obtain ⟨h1, h2, h3⟩ := ht.order
  have hb := h.bytes
  refine ⟨?_, ?_, fun hheld => ?_, ?_, fun hread => ?_, fun hheld => ?_⟩
  · rw [h.got, ht.waiting, List.take_append_drop]
  · calc (Spook.delivered os).map some
        = ((Spook.delivered os).take (called os).length ++
            (Spook.delivered os).drop (called os).length).map some := by
          rw [List.take_append_drop]
      _ = called os ++ s.ex.queued.map some := by rw [List.map_append, ← h.calls, ht.queued]
  · rw [ht.waiting, hheld, Bool.toNat_false, Nat.add_zero, List.head?_drop]
    rcases ht.get (h.nSlots ▸ hn) with ⟨-, f, hf, hA, -⟩ | ⟨hor, hnone⟩
    · rw [hf, hA]
    · have hlen := hor.resolve_left (by simp [hheld])
      rw [hnone, List.getElem?_eq_none hlen.le]
  · rw [ht.queued, List.length_drop]
    omega
  · rw [hread, Bool.toNat_true] at hb
    have hr : (called os).length < (Spook.delivered os).length := by omega
    refine ⟨(Spook.delivered os)[(called os).length], ?_, ?_⟩
    · rw [(ht.take hr).1, List.getElem?_eq_getElem hr]
    · rw [ht.queued, List.head?_drop, List.getElem?_eq_getElem hr]
  · rw [hheld] at ht
    rw [ht.heldSlot]

/-- **The exchanger loses nothing.** In every run of the two threads in which no frame is put
into the slot whose frame the slave holds, no frame is lost, doubled or reordered. -/
theorem exchanger_lossless {n : ℕ} (hn : 1 ≤ n) {as : List (ExAct F)} {os : List (ExEvent F)}
    {s : ExState F}
    (h : Machine.Run (exchangerMachine F n) (fun s a => Protocol s a ∧ NotHeldSlot s a) as os s) :
    LossFree os s := by
  have hist : History n os s := by
    refine h.history (fun _ os s => History n os s) ?_ ?_
    · rintro s rfl
      exact ⟨rfl, rfl, rfl, .newExchanger n, rfl⟩
    · rintro as os s a s' o hs ⟨hp, hh⟩ hstep
      obtain ⟨s'', o', hstep', hist⟩ := hs.step hn hp hh
      cases hstep.symm.trans hstep'
      exact hist
  exact hist.lossFree hn

/-- A run of an exchanger of two slots. -/
theorem exchanger_lossless_run : ∃ s : ExState ℕ,
    LossFree [.accepted 1, .accepted 2, .gotten 1, .delivered 7, .called (some 7), .gotten 2] s ∧
      s.holding = true := by
  have hrun : ∃ s, Machine.Run (exchangerMachine ℕ 2) (fun s a => Protocol s a ∧ NotHeldSlot s a)
      [.exchange 1, .exchange 2, .get, .deliver 7, .readByte, .takeSlot, .get]
      [.accepted 1, .accepted 2, .gotten 1, .delivered 7, .called (some 7), .gotten 2] s ∧
      s.holding = true :=
    Machine.Run.of_exec ExState.holding
      (show (exchangerMachine ℕ 2).Init ⟨.newExchanger 2, false, false⟩ from rfl)
      (by decide +kernel)
  obtain ⟨s, hrun, hheld⟩ := hrun
  exact ⟨s, exchanger_lossless (by decide) hrun, hheld⟩

/-- The frame that the slave holds leaves its slot looking empty: with one slot, frame `2` is
accepted while the slave holds frame `1`, and is gone when the slave delivers. -/
theorem exchanger_loses_frame : ¬ ∀ (n : ℕ), 1 ≤ n → ∀ (as : List (ExAct ℕ))
    (os : List (ExEvent ℕ)) (s : ExState ℕ),
    Machine.Run (exchangerMachine ℕ n) Protocol as os s → LossFree os s := by
  intro h
  have hrun : ∃ s : ExState ℕ, Machine.Run (exchangerMachine ℕ 1) Protocol
      [.exchange 1, .get, .exchange 2, .deliver 1]
      [.accepted 1, .gotten 1, .accepted 2, .delivered 1] s ∧ s.ex.waiting = [] :=
    Machine.Run.of_exec (fun s => s.ex.waiting)
      (show (exchangerMachine ℕ 1).Init ⟨.newExchanger 1, false, false⟩ from rfl)
      (by decide +kernel)
  obtain ⟨s, hrun, hwait⟩ := hrun
  have hlost := (h 1 le_rfl _ _ s hrun).exchanged
  rw [hwait] at hlost
  exact absurd hlost (by decide)

end Spook
