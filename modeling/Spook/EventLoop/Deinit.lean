import Spook.EventLoop.Dispatch
import Spook.EventLoop.SoftList

set_option relaxedAutoImplicit false
set_option autoImplicit false

/-!
# Releasing the events

`event_deinit` goes along the three lists of events and takes every event out with
`remove_from_list`. That function is made for soft events: where these have `next`, an event has
`prev`, and the other way round; and where the lists of soft events are circular, those of events
end in null pointers. The first event has no event before it, so that the first call follows a null
pointer.

## Main definitions

* `Spook.EventLoop.asSoft` — the links of an event, read as those of a soft event.
* `Spook.EventLoop.eventDeinit` — `event_deinit`.

## Main results

* `Spook.EventLoop.removeFromList_first` — the call for the first event of a list.
* `Spook.EventLoop.deinit_released_iff` — everything is released if and only if there is nothing.
-/

namespace Spook.EventLoop

open Dll

/-! ## The function -/

/-- The links of an event in the places where a soft event has them. -/
def asSoft (links : Links ℕ) : Links ℕ := ⟨links.next, links.prev⟩

/-- What is left while the events are released: the links, the events that were freed, and the
descriptors that were closed. -/
structure Remains where
  links : ℕ → Links ℕ
  freed : List ℕ
  closed : List ℤ

namespace Remains

variable (s : Remains)

/-- The events that `remove_from_list` reads and writes at `e`. -/
def touched (e : ℕ) : List ℕ :=
  if (asSoft (s.links e)).next = some e then [e]
  else e :: ((s.links e).prev.toList ++ (s.links e).next.toList)

/-- `remove_from_list( &e )` for a `struct event *e`. -/
def removeFromList (e : ℕ) : Except Fault (Remains × Option ℕ) :=
  if (s.touched e).any s.freed.contains then .error .freedEvent
  else do
    let (links, se) ← EventLoop.removeFromList (fun x => asSoft (s.links x)) (some e)
    .ok ({ s with links := fun x => asSoft (links x) }, se)

/-- `free`. -/
def free : Option ℕ → Except Fault Remains
  | none => .ok s
  | some e =>
    if s.freed.contains e then .error .badFree else .ok { s with freed := s.freed ++ [e] }

end Remains

/-- A loop of `event_deinit`, at most `n` times; `fd` is what is closed for an event. -/
def deinitLoop (fd : ℕ → Option ℤ) : ℕ → Option ℕ → Remains → Except Fault Remains
  | _, none, s => .ok s
  | 0, some _, _ => .error .loop
  | n + 1, some e, s =>
    if s.freed.contains e then .error .freedEvent
    else do
      let tmp := (s.links e).next
      let s := { s with closed := s.closed ++ (fd e).toList }
      let (s, e) ← s.removeFromList e
      let s ← s.free e
      deinitLoop fd n tmp s

/-- `event_deinit`. -/
def eventDeinit (s : Loop) : Except Fault Remains := do
  let d ← deinitLoop (fun _ => none) s.fresh (s.list .time) ⟨s.links, [], []⟩
  let d ← deinitLoop (fun _ => none) s.fresh (s.list .always) d
  deinitLoop (fun e => some (s.events e).ev.fd) s.fresh (s.list .fd) d

/-! ## What it does -/

section Deinit

variable {s : Loop} {L : EventType → List ℕ} {d : Remains} {e : ℕ} {l : List ℕ} {fd : ℕ → Option ℤ}

/-- **The first event.** There is no event before it, and `remove_from_list` goes there: to write
the link behind it, or before that, if there is no event behind it either. -/
theorem removeFromList_first (hfreed : d.freed = []) (hprev : (d.links e).prev = none) :
    d.removeFromList e = .error .nullDeref := by
  have hlive : ¬ (d.touched e).any d.freed.contains = true := by simp [hfreed]
  unfold Remains.removeFromList
  rw [if_neg hlive, removeFromList_null hprev]
  rfl

/-- A list with an event is not released. -/
theorem deinitLoop_cons {head : Option ℕ} (hfreed : d.freed = [])
    (h : IsList d.links head (e :: l)) {n : ℕ} (hn : (e :: l).length ≤ n) :
    deinitLoop fd n head d = .error .nullDeref := by
  obtain ⟨n, rfl⟩ := Nat.exists_eq_succ_of_ne_zero (by simp at hn; omega : n ≠ 0)
  have hstart : head = some e := h.head
  have hprev : (d.links e).prev = none := IsList.prev (a := []) h
  subst hstart
  have hlive : ¬ d.freed.contains e = true := by simp [hfreed]
  have hfirst := @removeFromList_first { d with closed := d.closed ++ (fd e).toList } e hfreed hprev
  rw [deinitLoop, if_neg hlive]
  dsimp only
  rw [hfirst]
  rfl

/-- The loop along a list, which is released if and only if it is empty. -/
theorem deinitLoop_ok_iff {d' : Remains} (h : s.Lists L) (t : EventType) (hlinks : d.links = s.links)
    (hfreed : d.freed = []) :
    deinitLoop fd s.fresh (s.list t) d = .ok d' ↔ L t = [] ∧ d' = d := by
  have hlist := h.isList t
  have hlength := h.length_le t
  rw [← hlinks] at hlist
  cases hL : L t with
  | nil =>
    rw [hL] at hlist
    have hhead : s.list t = none := hlist.head
    rw [hhead]
    have hrun : deinitLoop fd s.fresh none d = .ok d := by cases s.fresh <;> rfl
    rw [hrun]
    constructor
    · intro heq
      exact ⟨rfl, (Except.ok.inj heq).symm⟩
    · rintro ⟨-, rfl⟩
      rfl
  | cons e l =>
    rw [hL] at hlist hlength
    rw [deinitLoop_cons hfreed hlist hlength]
    constructor
    · nofun
    · rintro ⟨hnil, -⟩
      cases hnil

/-- **What is released.** Every event is freed once and every descriptor closed once if and only if
there are no events. -/
theorem deinit_released_iff (h : s.Lists L) :
    (∃ d, eventDeinit s = .ok d ∧ d.freed.Perm (allEvents L) ∧
        d.closed.Perm ((L .fd).map fun e => (s.events e).ev.fd)) ↔ ∀ t, L t = [] := by
  constructor
  · rintro ⟨d, hd, -, -⟩
    obtain ⟨d₁, hd₁, hd⟩ := bind_eq_ok.1 hd
    obtain ⟨d₂, hd₂, hd₃⟩ := bind_eq_ok.1 hd
    obtain ⟨htime, rfl⟩ := (deinitLoop_ok_iff h .time rfl rfl).1 hd₁
    obtain ⟨halways, rfl⟩ := (deinitLoop_ok_iff h .always rfl rfl).1 hd₂
    obtain ⟨hfd, -⟩ := (deinitLoop_ok_iff h .fd rfl rfl).1 hd₃
    intro t
    cases t with
    | time => exact htime
    | always => exact halways
    | fd => exact hfd
  · intro hnil
    have hrun : eventDeinit s = .ok ⟨s.links, [], []⟩ := by
      unfold eventDeinit
      rw [(deinitLoop_ok_iff h .time rfl rfl).2 ⟨hnil .time, rfl⟩, ok_bind,
        (deinitLoop_ok_iff h .always rfl rfl).2 ⟨hnil .always, rfl⟩, ok_bind,
        (deinitLoop_ok_iff h .fd rfl rfl).2 ⟨hnil .fd, rfl⟩]
    refine ⟨_, hrun, ?_, ?_⟩
    · simp [allEvents, hnil]
    · simp [hnil]

/-- Two descriptors are not released. -/
theorem deinit_two_descriptors : eventDeinit twoDescriptors = .error .nullDeref :=
  of_faultOf (by decide +kernel)

/-- Where both descriptors were removed and an iteration has taken them out, nothing is left. -/
theorem deinit_released_iff_removed : ∃ s d,
    iterate removingWorld ((twoDescriptors.removeEvent 0).removeEvent 1) = some s ∧
      eventDeinit s = .ok d ∧ d.freed.Perm (allEvents fun _ => []) ∧
      d.closed.Perm (([] : List ℕ).map fun e => (s.events e).ev.fd) := by
  have hlists : (iterate removingWorld ((twoDescriptors.removeEvent 0).removeEvent 1)).map
      (fun s => (s.list .time, s.list .always, s.list .fd)) = some (none, none, none) := by
    decide +kernel
  obtain ⟨s, hs, hnone⟩ := Option.map_eq_some_iff.1 hlists
  obtain ⟨htime, halways, hfd⟩ := by simpa only [Prod.mk.injEq] using hnone
  have hempty : s.Lists fun _ => [] := by
    refine lists_empty fun t => ?_
    cases t with
    | time => exact htime
    | always => exact halways
    | fd => exact hfd
  obtain ⟨d, hd⟩ := (deinit_released_iff hempty).2 fun _ => rfl
  exact ⟨s, d, hs, hd⟩

end Deinit

end Spook.EventLoop
