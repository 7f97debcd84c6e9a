import Spook.EventLoop.SoftList
import Spook.Lib.Machine
import Mathlib.Data.List.Nodup
import Mathlib.Data.List.Perm.Basic
import Mathlib.Data.List.Range

set_option relaxedAutoImplicit false
set_option autoImplicit false

/-!
# Soft queues

A soft queue passes pointers from any threads to one that waits for them with `get_next_event`. Its
`n` nodes are in two circular lists, those that are free and those that are used. Every function
holds the mutex from its first access to its last one, but for `pthread_cond_wait` in
`get_next_event`, which may come back at any time. The pipe of queues that have an `fd_event` is
left out: `get_next_event` is for the others.

After `pthread_cond_wait` the list is not looked at again. When it came back though nothing was
added, `get_next_event` returns a null pointer that nobody added.

## Main definitions

* `Spook.EventLoop.SoftQueue` — a queue, with the functions on it.
* `Spook.EventLoop.queueMachine` — any interleaving of producers with one consumer.
* `Spook.EventLoop.SoftQueue.Parted` — the nodes are in the two lists.
* `Spook.EventLoop.Fifo` — what holds of a queue and its record.

## Main results

* `Spook.EventLoop.move_ring` — a node goes from one list to the other.
* `Spook.EventLoop.fifo_run` — a bounded queue, in every run without a spurious wake-up.
-/

namespace Spook.EventLoop

open Dll

/-! ## The functions -/

/-- `struct soft_queue` with its nodes: their links, and `event_data`. -/
structure SoftQueue where
  links : ℕ → Links ℕ
  data : ℕ → Option ℕ
  emptySeList : Option ℕ
  seList : Option ℕ

/-- `new_soft_queue`. The `i`-th node is `i`; its fields are what the memory held. -/
def newSoftQueue (links : ℕ → Links ℕ) (data : ℕ → Option ℕ) : ℕ → Except Fault SoftQueue
  | 0 => .ok ⟨links, data, none, none⟩
  | i + 1 => do
    let sq ← newSoftQueue links data i
    let (links, emptySeList) ← addToList sq.links i sq.emptySeList
    .ok { sq with links := links, emptySeList := emptySeList }

namespace SoftQueue

variable (sq : SoftQueue)

/-- `locked_get_next_event`. -/
def lockedGetNextEvent : Except Fault (SoftQueue × Option ℕ) :=
  match sq.seList with
  | none => .ok (sq, none)
  | some se => do
    let (links, seList) ← removeFromList sq.links sq.seList
    let d := sq.data se
    let (links, emptySeList) ← addToList links se sq.emptySeList
    .ok ({ sq with links := links, seList := seList, emptySeList := emptySeList }, d)

/-- `soft_queue_add`. -/
def softQueueAdd (d : Option ℕ) : Except Fault (SoftQueue × ℤ) :=
  match sq.emptySeList with
  | none => .ok (sq, -1)
  | some se => do
    let (links, emptySeList) ← removeFromList sq.links sq.emptySeList
    let (links, seList) ← addToList links se sq.seList
    let data := Function.update sq.data se d
    .ok (⟨links, data, emptySeList, seList⟩, 0)

end SoftQueue

/-- What the threads do: a producer adds a pointer, the consumer calls `get_next_event`, or its
`pthread_cond_wait` comes back. -/
inductive QueueAct
  | add (d : Option ℕ)
  | get
  | wake

/-- What is recorded: what a producer added, or could not add, and what the consumer got. -/
inductive QueueOut
  | accepted (d : Option ℕ)
  | refused (d : Option ℕ)
  | returned (d : Option ℕ)
  deriving DecidableEq

/-- A queue, and whether the consumer is in `pthread_cond_wait`. -/
structure QueueState where
  sq : SoftQueue
  waiting : Bool

/-- The end of `get_next_event`. -/
def QueueState.finish (s : QueueState) : Except Fault (QueueState × List QueueOut) := do
  let (sq, d) ← s.sq.lockedGetNextEvent
  .ok (⟨sq, false⟩, [.returned d])

/-- Producers and one consumer. The consumer does nothing else while it waits, and comes back from
no wait when it does not. -/
def queueMachine (n : ℕ) : Machine QueueState QueueAct QueueOut Fault where
  Init s := ∃ links data, newSoftQueue links data n = .ok s.sq ∧ s.waiting = false
  step s
    | .add d => do
      let (sq, ret) ← s.sq.softQueueAdd d
      .ok ({ s with sq := sq }, [if ret = 0 then .accepted d else .refused d])
    | .get =>
      if s.waiting then .ok (s, [])
      else if s.sq.seList.isNone then .ok ({ s with waiting := true }, [])
      else s.finish
    | .wake => if s.waiting then s.finish else .ok (s, [])

/-! ## The nodes -/

/-- The nodes are in the two lists: `free` of them are free, and `used` of them hold pointers. -/
structure SoftQueue.Parted (n : ℕ) (sq : SoftQueue) (free used : List ℕ) : Prop where
  freeRing : IsRing sq.links sq.emptySeList free
  usedRing : IsRing sq.links sq.seList used
  perm : (free ++ used).Perm (List.range n)

section Nodes

variable {n : ℕ} {sq : SoftQueue} {m : ℕ → Links ℕ} {head head' : Option ℕ} {e : ℕ}
  {a b free used : List ℕ} {d : Option ℕ}

/-- **A node goes from one list to the other**, from the head to the end. -/
theorem move_ring (ha : IsRing m head (e :: a)) (hb : IsRing m head' b)
    (hnodup : (e :: a ++ b).Nodup) :
    ∃ m₁ m₂ head₂, removeFromList m head = .ok (m₁, a.head?) ∧
      addToList m₁ e head' = .ok (m₂, head₂) ∧ IsRing m₂ a.head? a ∧ IsRing m₂ head₂ (b ++ [e]) := by
  rw [List.cons_append, List.nodup_cons, List.mem_append, not_or] at hnodup
  obtain ⟨⟨hea, heb⟩, hnodup⟩ := hnodup
  have hdisj := List.disjoint_of_nodup_append hnodup
  obtain ⟨m₁, hremove, ha₁, hm₁⟩ := removeFromList_ring ha
  have hb₁ : IsRing m₁ head' b := hb.frame fun x hx => hm₁ x fun hxa => hdisj hxa hx
  obtain ⟨m₂, head₂, hadd, hb₂, hm₂⟩ := addToList_ring hb₁ heb
  refine ⟨m₁, m₂, head₂, hremove, hadd, ha₁.frame fun x hx => hm₂ x (hdisj hx) ?_, hb₂⟩
  rintro rfl
  exact hea hx

/-- At first every node is free. -/
theorem newSoftQueue_parted (links : ℕ → Links ℕ) (data : ℕ → Option ℕ) (n : ℕ) :
    ∃ sq, newSoftQueue links data n = .ok sq ∧ sq.Parted n (List.range n) [] ∧ sq.seList = none := by
  induction n with
  | zero => exact ⟨_, rfl, ⟨isRing_nil _, isRing_nil _, List.Perm.refl _⟩, rfl⟩
  | succ i ih =>
    obtain ⟨sq, hsq, hparted, hnone⟩ := ih
    have hfresh : i ∉ List.range i := by simp
    obtain ⟨m, head, hadd, hring, -⟩ := addToList_ring hparted.freeRing hfresh
    refine ⟨⟨m, sq.data, head, sq.seList⟩, ?_, ⟨?_, ?_, ?_⟩, hnone⟩
    · rw [newSoftQueue, hsq, ok_bind, hadd]
      rfl
    · rw [List.range_succ]
      exact hring
    · rw [hnone]
      exact isRing_nil _
    · simp

/-- No node is in both lists, or twice in one. -/
theorem SoftQueue.Parted.nodup (h : sq.Parted n free used) : (free ++ used).Nodup :=
  h.perm.nodup_iff.2 List.nodup_range

/-- Nothing is added to a full queue. -/
theorem softQueueAdd_full (h : sq.Parted n [] used) : sq.softQueueAdd d = .ok (sq, -1) := by
  have hnone : sq.emptySeList = none := h.freeRing.start
  rw [SoftQueue.softQueueAdd, hnone]

/-- A pointer is added in the first free node, which comes to the end of the used ones. -/
theorem softQueueAdd_parted (h : sq.Parted n (e :: free) used) :
    ∃ sq', sq.softQueueAdd d = .ok (sq', 0) ∧ sq'.Parted n free (used ++ [e]) ∧
      sq'.data = Function.update sq.data e d := by
  obtain ⟨m₁, m₂, head₂, hremove, hadd, hfree, hused⟩ := move_ring h.freeRing h.usedRing h.nodup
  have hsome : sq.emptySeList = some e := h.freeRing.start
  refine ⟨⟨m₂, Function.update sq.data e d, free.head?, head₂⟩, ?_, ⟨hfree, hused, ?_⟩, rfl⟩
  · rw [hsome] at hremove
    rw [SoftQueue.softQueueAdd, hsome]
    dsimp only
    rw [hremove, ok_bind]
    dsimp only
    rw [hadd]
    rfl
  · refine List.Perm.trans ?_ h.perm
    rw [← List.append_assoc]
    exact List.perm_append_singleton e (free ++ used)

/-- The pointer in the first used node comes out, and the node goes to the end of the free ones. -/
theorem lockedGetNextEvent_parted (h : sq.Parted n free (e :: used)) :
    ∃ sq', sq.lockedGetNextEvent = .ok (sq', sq.data e) ∧ sq'.Parted n (free ++ [e]) used ∧
      sq'.data = sq.data := by
  obtain ⟨m₁, m₂, head₂, hremove, hadd, hused, hfree⟩ :=
    move_ring h.usedRing h.freeRing (List.perm_append_comm.nodup_iff.1 h.nodup)
  have hsome : sq.seList = some e := h.usedRing.start
  refine ⟨⟨m₂, sq.data, head₂, used.head?⟩, ?_, ⟨hfree, hused, ?_⟩, rfl⟩
  · rw [hsome] at hremove
    rw [SoftQueue.lockedGetNextEvent, hsome]
    dsimp only
    rw [hremove, ok_bind]
    dsimp only
    rw [hadd]
    rfl
  · refine List.Perm.trans ?_ h.perm
    rw [List.append_assoc]
    rfl

end Nodes

/-! ## Runs -/

def QueueOut.accepted? : QueueOut → Option (Option ℕ)
  | .accepted d => some d
  | .refused _ | .returned _ => none

def QueueOut.returned? : QueueOut → Option (Option ℕ)
  | .returned d => some d
  | .accepted _ | .refused _ => none

/-- The pointers that were added, in their order. -/
def accepted (os : List QueueOut) : List (Option ℕ) := os.filterMap QueueOut.accepted?

/-- The pointers that came out, in their order. -/
def returned (os : List QueueOut) : List (Option ℕ) := os.filterMap QueueOut.returned?

/-- **A bounded queue.** The nodes are in the two lists; what came out and what the used nodes hold
is what was added, in its order; and `soft_queue_add` works, and refuses exactly when `n` pointers
wait. -/
def Fifo (n : ℕ) (os : List QueueOut) (s : QueueState) : Prop :=
  ∃ free used, s.sq.Parted n free used ∧ accepted os = returned os ++ used.map s.sq.data ∧
    ∀ d, ∃ sq' ret, s.sq.softQueueAdd d = .ok (sq', ret) ∧ (ret = -1 ↔ used.length = n)

/-- The consumer is woken only when a pointer waits. -/
def NotSpurious (s : QueueState) : QueueAct → Prop
  | .wake => s.sq.seList ≠ none
  | .add _ | .get => True

section Runs

variable {n : ℕ} {s s' : QueueState} {os o : List QueueOut} {as : List QueueAct} {a : QueueAct}

/-- What was accepted, one after the other. -/
@[simp] theorem accepted_append : accepted (os ++ o) = accepted os ++ accepted o :=
  List.filterMap_append

/-- What was returned, one after the other. -/
@[simp] theorem returned_append : returned (os ++ o) = returned os ++ returned o :=
  List.filterMap_append

/-- An accepted event is accepted. -/
@[simp] theorem accepted_accepted {d : Option ℕ} : accepted [.accepted d] = [d] := rfl

/-- A refused event is not. -/
@[simp] theorem accepted_refused {d : Option ℕ} : accepted [.refused d] = [] := rfl

/-- A return accepts nothing. -/
@[simp] theorem accepted_returned {d : Option ℕ} : accepted [.returned d] = [] := rfl

/-- An accepted event is not returned yet. -/
@[simp] theorem returned_accepted {d : Option ℕ} : returned [.accepted d] = [] := rfl

/-- A refused event is not returned. -/
@[simp] theorem returned_refused {d : Option ℕ} : returned [.refused d] = [] := rfl

/-- A returned event is returned. -/
@[simp] theorem returned_returned {d : Option ℕ} : returned [.returned d] = [d] := rfl

/-- What is kept: `Fifo` without what follows from the rest. -/
def Kept (n : ℕ) (os : List QueueOut) (s : QueueState) : Prop :=
  ∃ free used, s.sq.Parted n free used ∧ accepted os = returned os ++ used.map s.sq.data

/-- What is kept says that the queue is first in, first out. -/
theorem Kept.fifo (h : Kept n os s) : Fifo n os s := by
  obtain ⟨free, used, hparted, hos⟩ := h
  refine ⟨free, used, hparted, hos, fun d => ?_⟩
  have hlength := hparted.perm.length_eq
  rw [List.length_append, List.length_range] at hlength
  cases free with
  | nil => exact ⟨_, _, softQueueAdd_full hparted, iff_of_true rfl (by simpa using hlength)⟩
  | cons e free =>
    obtain ⟨sq', hadd, -, -⟩ := softQueueAdd_parted (d := d) hparted
    refine ⟨sq', 0, hadd, iff_of_false (by decide) ?_⟩
    rw [List.length_cons] at hlength
    omega

/-- A producer. -/
theorem Kept.add (h : Kept n os s) (d : Option ℕ) :
    ∃ s' o, (queueMachine n).step s (.add d) = .ok (s', o) ∧ Kept n (os ++ o) s' := by
  obtain ⟨free, used, hparted, hos⟩ := h
  cases free with
  | nil =>
    refine ⟨s, [.refused d], ?_, [], used, hparted, ?_⟩
    · change (do let (sq, ret) ← s.sq.softQueueAdd d; _) = _
      rw [softQueueAdd_full hparted]
      rfl
    · simp [hos]
  | cons e free =>
    obtain ⟨sq', hadd, hparted', hdata⟩ := softQueueAdd_parted (d := d) hparted
    refine ⟨⟨sq', s.waiting⟩, [.accepted d], ?_, free, used ++ [e], hparted', ?_⟩
    · change (do let (sq, ret) ← s.sq.softQueueAdd d; _) = _
      rw [hadd]
      rfl
    · have heused : ∀ x ∈ used, x ≠ e := by
        have hnodup := (List.nodup_cons.1 hparted.nodup).1
        rintro x hx rfl
        exact hnodup (List.mem_append_right free hx)
      have hmap : used.map (Function.update s.sq.data e d) = used.map s.sq.data :=
        List.map_congr_left fun x hx => Function.update_of_ne (heused x hx) _ _
      simp [hos, hdata, hmap]

/-- The consumer, when a pointer waits. -/
theorem Kept.finish (h : Kept n os s) (hsome : s.sq.seList ≠ none) :
    ∃ s' o, s.finish = .ok (s', o) ∧ Kept n (os ++ o) s' := by
  obtain ⟨free, used, hparted, hos⟩ := h
  cases used with
  | nil => exact absurd hparted.usedRing.start hsome
  | cons e used =>
    obtain ⟨sq', hget, hparted', hdata⟩ := lockedGetNextEvent_parted hparted
    refine ⟨⟨sq', false⟩, [.returned (s.sq.data e)], ?_, free ++ [e], used, hparted', ?_⟩
    · rw [QueueState.finish, hget]
      rfl
    · simp [hos, hdata]

/-- **A step** without a spurious wake-up. -/
theorem Kept.step (h : Kept n os s) (hg : NotSpurious s a) :
    ∃ s' o, (queueMachine n).step s a = .ok (s', o) ∧ Kept n (os ++ o) s' := by
  have hsame : Kept n (os ++ []) s := by
    rw [List.append_nil]
    exact h
  cases a with
  | add d => exact h.add d
  | get =>
    by_cases hwaiting : s.waiting = true
    · exact ⟨s, [], if_pos hwaiting, hsame⟩
    · by_cases hnone : s.sq.seList.isNone = true
      · exact ⟨{ s with waiting := true }, [], (if_neg hwaiting).trans (if_pos hnone), hsame⟩
      · have hsome : s.sq.seList ≠ none := fun heq => hnone (by rw [heq]; rfl)
        obtain ⟨s', o, hfinish, hkept⟩ := h.finish hsome
        exact ⟨s', o, (if_neg hwaiting).trans ((if_neg hnone).trans hfinish), hkept⟩
  | wake =>
    by_cases hwaiting : s.waiting = true
    · obtain ⟨s', o, hfinish, hkept⟩ := h.finish hg
      exact ⟨s', o, (if_pos hwaiting).trans hfinish, hkept⟩
    · exact ⟨s, [], if_neg hwaiting, hsame⟩

/-- By induction on a run without spurious wake-ups. -/
theorem kept_run (h : (queueMachine n).Run NotSpurious as os s) : Kept n os s := by
  refine h.history (fun _ os s => Kept n os s) ?_ ?_
  · rintro s ⟨links, data, hsq, -⟩
    obtain ⟨sq, hsq', hparted, -⟩ := newSoftQueue_parted links data n
    obtain rfl := Except.ok.inj (hsq'.symm.trans hsq)
    exact ⟨_, _, hparted, rfl⟩
  · intro as os s a s' o hs hg hstep
    obtain ⟨s₁, o₁, hstep₁, hkept⟩ := hs.step hg
    obtain ⟨rfl, rfl⟩ := Prod.mk.inj (Except.ok.inj (hstep₁.symm.trans hstep))
    exact hkept

end Runs

/-- **A soft queue is a bounded queue** in every run without a spurious wake-up, and none of its
steps faults. -/
theorem fifo_run {n : ℕ} {as : List QueueAct} {os : List QueueOut} {s : QueueState}
    (h : (queueMachine n).Run NotSpurious as os s) :
    Fifo n os s ∧ ∀ a, NotSpurious s a → ∃ s' o, (queueMachine n).step s a = .ok (s', o) := by
  refine ⟨(kept_run h).fifo, fun a ha => ?_⟩
  obtain ⟨s', o, hstep, -⟩ := (kept_run h).step ha
  exact ⟨s', o, hstep⟩

instance (s : QueueState) (a : QueueAct) : Decidable (NotSpurious s a) := by
  cases a <;> unfold NotSpurious <;> infer_instance

/-- A queue of one node. -/
def oneNode : QueueState :=
  ⟨⟨fun _ => ⟨some 0, some 0⟩, fun _ => none, some 0, none⟩, false⟩

/-- A queue of one node. -/
theorem oneNode_init : (queueMachine 1).Init oneNode := by
  refine ⟨fun _ => ⟨some 0, some 0⟩, fun _ => none, ?_, rfl⟩
  have hlinks : Dll.setPrev (Dll.setNext (fun _ => ⟨some 0, some 0⟩) 0 (some 0)) 0 (some 0) =
      fun _ : ℕ => (⟨some 0, some 0⟩ : Links ℕ) := by
    funext x
    by_cases hx : x = 0
    · subst hx
      simp
    · rw [setPrev_of_ne hx, setNext_of_ne hx]
  change Except.ok (SoftQueue.mk _ _ _ _) = _
  rw [hlinks]
  rfl

/-- The consumer waits, two pointers are added, of which one is refused, and one comes out. -/
theorem fifo_run_one : ∃ s os, os = [.accepted (some 7), .refused (some 8), .returned (some 7)] ∧
    (queueMachine 1).Run NotSpurious [.get, .add (some 7), .add (some 8), .wake] os s ∧
    Fifo 1 os s := by
  have hrun : ∃ s, (queueMachine 1).Run NotSpurious [.get, .add (some 7), .add (some 8), .wake]
      [.accepted (some 7), .refused (some 8), .returned (some 7)] s ∧ s.waiting = false :=
    Machine.Run.of_exec (fun s => s.waiting) oneNode_init (by decide +kernel)
  obtain ⟨s, hrun, -⟩ := hrun
  exact ⟨s, _, rfl, hrun, (fifo_run hrun).1⟩

/-- The consumer waits, and is woken though nothing was added. It returns a null pointer. -/
theorem spurious_null : ∃ s, (queueMachine 1).Run Machine.anyStep [.get, .wake] [.returned none] s ∧
    ¬ Fifo 1 [.returned none] s := by
  have hrun : ∃ s, (queueMachine 1).Run Machine.anyStep [.get, .wake] [.returned none] s ∧
      s.waiting = false :=
    Machine.Run.of_exec (fun s => s.waiting) oneNode_init (by decide +kernel)
  obtain ⟨s, hrun, -⟩ := hrun
  refine ⟨s, hrun, ?_⟩
  rintro ⟨free, used, -, hos, -⟩
  cases hos

end Spook.EventLoop
