import Spook.EventLoop.Basic
import Spook.Fault
import Spook.Lib.Machine
import Mathlib.Data.List.Nodup
import Mathlib.Data.List.Perm.Subperm

set_option relaxedAutoImplicit false
set_option autoImplicit false

/-!
# The event loop under re-entrancy

Callbacks change the lists while the loop walks along them. They only put events in front, so that
the walk goes on through the events that were there; and what is called is what was marked
`EVENT_F_RUNNING` before, which neither a new event nor a removed one is.

## Main definitions

* `Spook.EventLoop.Loop.Lists` — the lists are linked.
* `Spook.EventLoop.Effect` — what the calls of a callback do.
* `Spook.EventLoop.Dispatched` — what holds while the events are called.
* `Spook.EventLoop.IterationSafe` — what one iteration does.

## Main results

* `Spook.EventLoop.effect_perform` — what one call does.
* `Spook.EventLoop.forEvents_dispatched` — a loop that calls events.
* `Spook.EventLoop.iterate_safe` — one iteration, for all contents of the lists.
* `Spook.EventLoop.lists_reachable` — the lists are linked in every run.

## Notes on the design

A loop keeps a pointer to the event that is next while callbacks run. The proof follows the list as
it is at the moment: what is behind the pointer are events that were there before, or new ones in
front of them, and an event that is removed leaves the list before the pointer gets there. Which
events may be called is a fact about flags, which `Effect` keeps apart from the lists.
-/

namespace Spook.EventLoop

/-! ## Records -/

def Entry.call? : Entry → Option ℕ
  | .called e => some e
  | .removed _ | .added _ _ => none

def Entry.addedTo (type : EventType) : Entry → Option ℕ
  | .added type' e => if type' = type then some e else none
  | .called _ | .removed _ => none

/-- The events that were called. -/
def calls (es : List Entry) : List ℕ := es.filterMap Entry.call?

/-- The events that were added to the list of a type. -/
def added (type : EventType) (es : List Entry) : List ℕ := es.filterMap (Entry.addedTo type)

/-- The lists with the events that were added, the last one in front. -/
def grow (L : EventType → List ℕ) (es : List Entry) (type : EventType) : List ℕ :=
  (added type es).reverse ++ L type

section Records

variable {L : EventType → List ℕ} {es es' : List Entry} {e : ℕ} {t t' : EventType}

/-- The calls of two records, one behind the other. -/
@[simp] theorem calls_append : calls (es ++ es') = calls es ++ calls es' := List.filterMap_append

/-- The additions of two records, one behind the other. -/
@[simp] theorem added_append : added t (es ++ es') = added t es ++ added t es' :=
  List.filterMap_append

/-- A call is a call. -/
@[simp] theorem calls_called : calls [.called e] = [e] := rfl

/-- A call adds nothing. -/
@[simp] theorem added_called : added t [.called e] = [] := rfl

/-- The calls are what is recorded as called. -/
theorem mem_calls : e ∈ calls es ↔ .called e ∈ es := by
  constructor
  · intro h
    obtain ⟨entry, hentry, he⟩ := List.mem_filterMap.1 h
    cases entry with
    | called e' =>
      obtain rfl := Option.some.inj he
      exact hentry
    | removed e' | added t e' => cases he
  · intro h
    exact List.mem_filterMap.2 ⟨_, h, rfl⟩

/-- The additions are what is recorded as added. -/
theorem mem_added : e ∈ added t es ↔ .added t e ∈ es := by
  constructor
  · intro h
    obtain ⟨entry, hentry, he⟩ := List.mem_filterMap.1 h
    cases entry with
    | called e' | removed e' => cases he
    | added t' e' =>
      simp only [Entry.addedTo, Option.ite_none_right_eq_some, Option.some.injEq] at he
      obtain ⟨rfl, rfl⟩ := he
      exact hentry
  · intro h
    exact List.mem_filterMap.2 ⟨_, h, if_pos rfl⟩

/-- Without additions the lists stay as they are. -/
@[simp] theorem grow_nil : grow L [] = L := by
  funext t
  simp [grow, added]

/-- The additions of two records, one after the other. -/
theorem grow_append : grow L (es ++ es') = grow (grow L es) es' := by
  funext t
  simp [grow]

/-- A call does not add to the lists. -/
@[simp] theorem grow_called : grow L (es ++ [.called e]) = grow L es := by
  funext t
  simp [grow]

end Records

/-! ## The lists -/

/-- The lists of the loop are linked, and hold the events `L` of their types. -/
structure Loop.Lists (s : Loop) (L : EventType → List ℕ) : Prop where
  isList : ∀ t, Dll.IsList s.links (s.list t) (L t)
  lt : ∀ t, ∀ e ∈ L t, e < s.fresh
  type : ∀ t, ∀ e ∈ L t, (s.events e).type = t

/-- `EVENT_F_RUNNING` is set. -/
def Loop.Running (s : Loop) (e : ℕ) : Prop := (s.events e).flags.running = true

/-- The lists, the types of the events and what is recorded are the same. -/
structure Loop.SameLists (s s' : Loop) : Prop where
  links : s'.links = s.links
  list : s'.list = s.list
  fresh : s'.fresh = s.fresh
  type : ∀ e, (s'.events e).type = (s.events e).type
  log : s'.log = s.log

section Lists

variable {s s' s'' : Loop} {L : EventType → List ℕ} {e x : ℕ} {t t' : EventType}

/-- The lists are read from the links, the heads, the names and the types alone. -/
theorem Loop.Lists.same (h : s.Lists L) (hlinks : s'.links = s.links) (hlist : s'.list = s.list)
    (hfresh : s'.fresh = s.fresh) (htype : ∀ e, (s'.events e).type = (s.events e).type) :
    s'.Lists L := by
  refine ⟨fun t => ?_, fun t e he => ?_, fun t e he => ?_⟩
  · rw [hlinks, hlist]
    exact h.isList t
  · rw [hfresh]
    exact h.lt t e he
  · rw [htype, h.type t e he]

/-- A loop has the lists of itself. -/
theorem Loop.SameLists.refl (s : Loop) : s.SameLists s := ⟨rfl, rfl, rfl, fun _ => rfl, rfl⟩

/-- What has the same lists as a loop with the same lists. -/
theorem Loop.SameLists.trans (h : s.SameLists s') (h' : s'.SameLists s'') : s.SameLists s'' :=
  ⟨h'.links.trans h.links, h'.list.trans h.list, h'.fresh.trans h.fresh,
    fun e => (h'.type e).trans (h.type e), h'.log.trans h.log⟩

/-- The lists have no event in common. -/
theorem Loop.Lists.disjoint (h : s.Lists L) (he : e ∈ L t) (he' : e ∈ L t') : t = t' := by
  rw [← h.type t e he, h.type t' e he']

/-- A list has no more events than have been made, as no event is in it twice. -/
theorem Loop.Lists.length_le (h : s.Lists L) (t : EventType) : (L t).length ≤ s.fresh := by
  have hsubset : L t ⊆ List.range s.fresh := fun e he => List.mem_range.2 (h.lt t e he)
  simpa using (List.subperm_of_subset (h.isList t).nodup hsubset).length_le

/-- All events of the lists, in the order of the dispatch. -/
def allEvents (L : EventType → List ℕ) : List ℕ := L .time ++ (L .always ++ L .fd)

/-- An event is in one of the four lists. -/
theorem mem_allEvents : e ∈ allEvents L ↔ ∃ t, e ∈ L t := by
  simp only [allEvents, List.mem_append]
  constructor
  · rintro (h | h | h)
    · exact ⟨_, h⟩
    · exact ⟨_, h⟩
    · exact ⟨_, h⟩
  · rintro ⟨t, h⟩
    cases t with
    | time => exact .inl h
    | always => exact .inr (.inl h)
    | fd => exact .inr (.inr h)

/-- No event is in two lists, or twice in one: its type tells its list. -/
theorem Loop.Lists.nodup (h : s.Lists L) : (allEvents L).Nodup := by
  have hdisj : ∀ {t t' : EventType}, t ≠ t' → List.Disjoint (L t) (L t') :=
    fun hne e he he' => hne (h.disjoint he he')
  refine List.Nodup.append (h.isList .time).nodup ?_ ?_
  · exact List.Nodup.append (h.isList .always).nodup (h.isList .fd).nodup (hdisj (by decide))
  · refine List.disjoint_append_right.2 ⟨hdisj (by decide), hdisj (by decide)⟩

/-- A new event. -/
theorem Loop.Lists.newEvent (h : s.Lists L) (t : EventType) (flags : Flags) (ev : Ev → Ev) :
    (s.newEvent t flags ev).Lists (Function.update L t (s.fresh :: L t)) := by
  have hne : ∀ t', ∀ e ∈ L t', e ≠ s.fresh := fun t' e he heq => (heq ▸ h.lt t' e he).false
  have hlists : ∀ t', Dll.IsList (Function.update s.links s.fresh ⟨none, none⟩) (s.list t') (L t') :=
    fun t' => (h.isList t').frame fun e he => Function.update_of_ne (hne t' e he) _ _
  have hmem : ∀ {t' : EventType} {e : ℕ}, e ∈ Function.update L t (s.fresh :: L t) t' →
      (t' = t ∧ e = s.fresh) ∨ e ∈ L t' := by
    intro t' e he
    by_cases htt : t' = t
    · subst htt
      rw [Function.update_self, List.mem_cons] at he
      exact he.imp_left fun h => ⟨rfl, h⟩
    · rw [Function.update_of_ne htt] at he
      exact .inr he
  refine ⟨fun t' => ?_, fun t' e he => ?_, fun t' e he => ?_⟩
  · by_cases htt : t' = t
    · subst htt
      simp only [Loop.newEvent, Function.update_self]
      exact (hlists t').insertFront (fun he => hne t' _ he rfl) (by simp)
    · simp only [Loop.newEvent, Function.update_of_ne htt]
      refine (hlists t').frame fun e he => Dll.insertFront_of_ne (hne t' e he) fun hhead => htt ?_
      have he' : e ∈ L t := by
        rw [(h.isList t).head] at hhead
        exact List.mem_of_mem_head? hhead
      exact h.disjoint he he'
  · rcases hmem he with ⟨-, rfl⟩ | he
    · exact Nat.lt_succ_self _
    · exact (h.lt t' e he).trans (Nat.lt_succ_self _)
  · simp only [Loop.newEvent]
    rcases hmem he with ⟨rfl, rfl⟩ | he
    · rw [Function.update_self]
    · rw [Function.update_of_ne (hne t' e he), h.type t' e he]

/-- An event is taken out of its list. -/
theorem Loop.Lists.unlink {a b : List ℕ} (h : s.Lists (Function.update L t (a ++ e :: b)))
    (hs' : s' = { s with
      links := (Dll.unlink s.links (s.list t) e).1
      list := Function.update s.list t (Dll.unlink s.links (s.list t) e).2 }) :
    s'.Lists (Function.update L t (a ++ b)) := by
  subst hs'
  have hself := h.isList t
  rw [Function.update_self] at hself
  obtain ⟨hlist, hframe⟩ := hself.unlink
  have hsub : ∀ t', ∀ x ∈ Function.update L t (a ++ b) t',
      x ∈ Function.update L t (a ++ e :: b) t' := by
    intro t' x hx
    by_cases htt : t' = t
    · subst htt
      rw [Function.update_self, List.mem_append] at hx ⊢
      exact hx.imp_right (List.mem_cons_of_mem e)
    · rw [Function.update_of_ne htt] at hx ⊢
      exact hx
  refine ⟨fun t' => ?_, fun t' x hx => h.lt t' x (hsub t' x hx),
    fun t' x hx => h.type t' x (hsub t' x hx)⟩
  by_cases htt : t' = t
  · subst htt
    simpa using hlist
  · have hother := h.isList t'
    simp only [Function.update_of_ne htt] at hother ⊢
    refine hother.frame fun x hx => hframe x fun hx' => htt ?_
    have hxt : x ∈ Function.update L t (a ++ e :: b) t := hsub t x (by simpa using hx')
    have hxt' : x ∈ Function.update L t (a ++ e :: b) t' := by
      rwa [Function.update_of_ne htt]
    exact h.disjoint hxt' hxt

end Lists

/-! ## What a callback does -/

/-- Between `s` and `s'` the events `es` were recorded. No event is called in between, new events are
in front of their lists, and only old events that have not been removed can still be running. -/
structure Effect (s s' : Loop) (es : List Entry) : Prop where
  log : s'.log = s.log ++ es
  calls : ∀ e, .called e ∉ es
  lists : ∀ L, s.Lists L → s'.Lists (grow L es)
  running : ∀ x < s'.fresh, s'.Running x → x < s.fresh ∧ s.Running x ∧ .removed x ∉ es
  fresh : s.fresh ≤ s'.fresh
  added : ∀ t e, .added t e ∈ es → s.fresh ≤ e

section Effect

variable {w : World} {s s' s'' : Loop} {es es' : List Entry} {e : ℕ}

/-- What two steps did, one after the other. -/
theorem Effect.trans (h : Effect s s' es) (h' : Effect s' s'' es') :
    Effect s s'' (es ++ es') := by
  refine ⟨?_, fun e he => ?_, fun L hL => ?_, fun x hx hrun => ?_, h.fresh.trans h'.fresh,
    fun t e he => ?_⟩
  · rw [h'.log, h.log, List.append_assoc]
  · rcases List.mem_append.1 he with he | he
    · exact h.calls e he
    · exact h'.calls e he
  · rw [grow_append]
    exact h'.lists _ (h.lists L hL)
  · obtain ⟨hx', hrun', hnot'⟩ := h'.running x hx hrun
    obtain ⟨hx, hrun, hnot⟩ := h.running x hx' hrun'
    exact ⟨hx, hrun, fun hmem => (List.mem_append.1 hmem).elim hnot hnot'⟩
  · rcases List.mem_append.1 he with he | he
    · exact h.added t e he
    · exact h.fresh.trans (h'.added t e he)

/-- Nothing is recorded. -/
theorem Effect.of_same (h : s.SameLists s') (hrun : ∀ x, s'.Running x → s.Running x) :
    Effect s s' [] := by
  refine ⟨?_, fun e he => ?_, fun L hL => ?_, fun x hx hx' => ?_, h.fresh.ge, fun t e he => ?_⟩
  · rw [h.log, List.append_nil]
  · cases he
  · rw [grow_nil]
    exact hL.same h.links h.list h.fresh h.type
  · exact ⟨h.fresh ▸ hx, hrun x hx', List.not_mem_nil⟩
  · cases he

/-- Nothing happened. -/
theorem Effect.refl (s : Loop) : Effect s s [] := .of_same (.refl s) fun _ h => h

/-- The fields of an event change, but not its type. -/
theorem sameLists_setEvent {f : Event → Event} (hf : ∀ event, (f event).type = event.type) :
    s.SameLists (s.setEvent e f) := by
  refine ⟨rfl, rfl, rfl, fun x => ?_, rfl⟩
  unfold Loop.setEvent
  by_cases hx : x = e
  · subst hx
    simp [hf]
  · simp [Function.update_of_ne hx]

/-- A change of an event that keeps its flag `running`. -/
theorem running_setEvent {f : Event → Event}
    (hf : ∀ event, (f event).flags.running = event.flags.running) (x : ℕ) :
    (s.setEvent e f).Running x ↔ s.Running x := by
  unfold Loop.Running Loop.setEvent
  by_cases hx : x = e
  · subst hx
    simp [hf]
  · simp [Function.update_of_ne hx]

/-- The state differs only in fields of events that the dispatch does not look at, and the same
events are running. -/
def Loop.Quiet (s s' : Loop) : Prop := s.SameLists s' ∧ ∀ x, s'.Running x ↔ s.Running x

/-- Two quiet steps, one after the other. -/
theorem Loop.Quiet.trans (h : s.Quiet s') (h' : s'.Quiet s'') : s.Quiet s'' :=
  ⟨h.1.trans h'.1, fun x => (h'.2 x).trans (h.2 x)⟩

/-- A quiet step records nothing. -/
theorem Loop.Quiet.effect (h : s.Quiet s') : Effect s s' [] := .of_same h.1 fun x => (h.2 x).1

/-- A look at the clock is quiet. -/
theorem quiet_readClock : s.Quiet s.readClock := ⟨⟨rfl, rfl, rfl, fun _ => rfl, rfl⟩, fun _ => Iff.rfl⟩

/-- A change of what is special to the type of an event is quiet. -/
theorem quiet_setEv (f : Ev → Ev) : s.Quiet (s.setEv e f) :=
  ⟨sameLists_setEvent fun _ => rfl, running_setEvent fun _ => rfl⟩

/-- A change of other flags than `running` is quiet. -/
theorem quiet_setFlags {f : Flags → Flags} (hf : ∀ flags, (f flags).running = flags.running) :
    s.Quiet (s.setFlags e f) :=
  ⟨sameLists_setEvent fun _ => rfl, running_setEvent fun event => hf event.flags⟩

/-- `resched_event` is quiet. -/
theorem quiet_reschedEvent (tr : Option TimeRef) : s.Quiet (s.reschedEvent w e tr) := by
  unfold Loop.reschedEvent
  refine .trans ?_ (quiet_setFlags fun _ => rfl)
  cases tr with
  | some tr => exact quiet_setEv _
  | none =>
    dsimp only
    split_ifs
    · exact quiet_setEv _
    · exact quiet_readClock.trans (quiet_setEv _)

/-- `set_event_interval` is quiet. -/
theorem quiet_setEventInterval (msec : ℤ) : s.Quiet (s.setEventInterval w e msec) := by
  unfold Loop.setEventInterval
  dsimp only
  split_ifs
  · exact (quiet_setEv _).trans (quiet_reschedEvent none)
  · exact quiet_setEv _

/-- An event is added which is not running. -/
theorem effect_newEvent {t : EventType} {flags : Flags} {ev : Ev → Ev}
    (hflags : flags.running = false) :
    Effect s (s.newEvent t flags ev) [.added t s.fresh] := by
  refine ⟨rfl, by simp, fun L hL => ?_, fun x hx hrun => ?_, Nat.le_succ _, fun t e he => ?_⟩
  · have hgrow : grow L [.added t s.fresh] = Function.update L t (s.fresh :: L t) := by
      funext t'
      by_cases htt : t' = t
      · subst htt
        simp [grow, EventLoop.added, Entry.addedTo]
      · simp [grow, EventLoop.added, Entry.addedTo, Ne.symm htt, htt]
    rw [hgrow]
    exact hL.newEvent t flags ev
  · unfold Loop.Running Loop.newEvent at hrun
    dsimp only at hrun
    have hne : x ≠ s.fresh := by
      rintro rfl
      rw [Function.update_self, hflags] at hrun
      cases hrun
    rw [Function.update_of_ne hne] at hrun
    exact ⟨lt_of_le_of_ne (Nat.le_of_lt_succ hx) hne, hrun, by simp⟩
  · simp only [List.mem_singleton, Entry.added.injEq] at he
    exact he.2.ge

/-- An event is removed. -/
theorem effect_removeEvent : Effect s (s.removeEvent e) [.removed e] := by
  have hsame : s.SameLists (s.setFlags e fun f =>
      { f with remove := true, running := false, enabled := false }) :=
    sameLists_setEvent fun _ => rfl
  refine ⟨rfl, by simp, fun L hL => ?_, fun x hx hrun => ?_, le_rfl, by simp⟩
  · have hgrow : grow L [.removed e] = L := by
      funext t
      simp [grow, EventLoop.added, Entry.addedTo]
    rw [hgrow]
    exact hL.same rfl rfl rfl hsame.type
  · have hne : x ≠ e := by
      rintro rfl
      simp [Loop.Running, Loop.removeEvent, Loop.setFlags, Loop.setEvent] at hrun
    refine ⟨hx, ?_, by simpa using hne⟩
    simpa [Loop.Running, Loop.removeEvent, Loop.setFlags, Loop.setEvent,
      Function.update_of_ne hne] using hrun

/-- No event is added with `EVENT_F_RUNNING`. -/
def Op.Public : Op → Prop
  | .addTimerEvent _ flags | .addAlarmEvent _ flags | .addFdEvent _ _ flags
  | .addAlwaysEvent flags => flags.running = false
  | .removeEvent _ | .reschedEvent _ _ | .setEventInterval _ _ | .setEventEnabled _ _
  | .exitEventLoop => True

/-- **One call.** -/
theorem effect_perform {op : Op} (hop : op.Public) : ∃ es, Effect s (s.perform w op) es := by
  cases op with
  | addTimerEvent msec flags =>
    have hflags : flags.running = false := hop
    exact ⟨_, (effect_newEvent hflags).trans
      (quiet_readClock.trans (quiet_reschedEvent none)).effect⟩
  | addAlarmEvent t flags =>
    have hflags : ({ flags with oneshot := true } : Flags).running = false := hop
    exact ⟨_, (effect_newEvent hflags).trans (quiet_reschedEvent (w := w) (some t)).effect⟩
  | addFdEvent fd write flags =>
    have hflags : ({ flags with enabled := true } : Flags).running = false := hop
    have heffect : Effect s (s.addFdEvent fd write flags) [.added .fd s.fresh] :=
      effect_newEvent hflags
    exact ⟨_, heffect⟩
  | addAlwaysEvent flags =>
    have hflags : ({ flags with enabled := true } : Flags).running = false := hop
    have heffect : Effect s (s.addAlwaysEvent flags) [.added .always s.fresh] :=
      effect_newEvent hflags
    exact ⟨_, heffect⟩
  | removeEvent e => exact ⟨_, effect_removeEvent⟩
  | reschedEvent e tr => exact ⟨_, (quiet_reschedEvent tr).effect⟩
  | setEventInterval e msec => exact ⟨_, (quiet_setEventInterval msec).effect⟩
  | setEventEnabled e enabled =>
    have hquiet : s.Quiet (s.setEventEnabled e enabled) := quiet_setFlags fun _ => rfl
    exact ⟨_, hquiet.effect⟩
  | exitEventLoop => exact ⟨_, Effect.of_same ⟨rfl, rfl, rfl, fun _ => rfl, rfl⟩ fun _ h => h⟩

/-- All calls of a callback. -/
theorem effect_performs {ops : List Op} (hops : ∀ op ∈ ops, op.Public) :
    ∃ es, Effect s (ops.foldl (fun s op => s.perform w op) s) es := by
  induction ops generalizing s with
  | nil => exact ⟨[], .refl s⟩
  | cons op ops ih =>
    obtain ⟨es, hop⟩ := effect_perform (w := w) (s := s) (hops op List.mem_cons_self)
    obtain ⟨es', hrest⟩ := ih (s := s.perform w op) fun op' h => hops op' (List.mem_cons_of_mem op h)
    exact ⟨es ++ es', hop.trans hrest⟩

end Effect

/-! ## Calling the events -/

/-- The callbacks add no event with `EVENT_F_RUNNING`. -/
def World.Public (w : World) : Prop := ∀ s e, ∀ op ∈ w.func s e, op.Public

/-- Since `s₀`, when the lists held `L`, the entries `new` were recorded. -/
structure Dispatched (s₀ : Loop) (L : EventType → List ℕ) (s : Loop) (new : List Entry) : Prop where
  log : s.log = s₀.log ++ new
  lists : s.Lists (grow L new)
  running : ∀ x < s.fresh, s.Running x → x < s₀.fresh ∧ s₀.Running x ∧ .removed x ∉ new
  added : ∀ t e, .added t e ∈ new → s₀.fresh ≤ e
  called : ∀ e, .called e ∈ new → s₀.Running e
  order : new.Pairwise fun a b => ∀ e, a = .removed e → b ≠ .called e

/-- What a visit of a loop does with a state: it does not call the event, or calls it when it is
running. -/
inductive Visited (w : World) (s : Loop) (e : ℕ) : Loop → Prop
  | skipped {s' : Loop} : s.Quiet s' → Visited w s e s'
  | called {s' : Loop} : s.Running e → s.Quiet s' → Visited w s e (s'.callFunc w e)

section Dispatch

variable {w : World} {s₀ s s' : Loop} {L : EventType → List ℕ} {new es : List Entry} {e : ℕ}
  {t : EventType}

/-- Nothing happened, quietly. -/
theorem quiet_refl (s : Loop) : s.Quiet s := ⟨.refl s, fun _ => Iff.rfl⟩

/-- The test of the loops, as a proposition. -/
theorem running_of_not (h : ¬ (!(s.events e).flags.running) = true) : s.Running e := by
  unfold Loop.Running
  simpa using h

/-- The loop over the timers visits an event as `Visited` says. -/
theorem visited_time (e : ℕ) (s : Loop) : Visited w s e (visitTime w e s).1 := by
  unfold visitTime
  dsimp only
  split_ifs with hrun hend hdiff hshot
  · exact .skipped (quiet_refl s)
  · exact .skipped (quiet_refl s)
  · exact .called (running_of_not hrun) (quiet_readClock.trans (quiet_setFlags fun _ => rfl))
  · exact .called (running_of_not hrun) (quiet_readClock.trans (quiet_reschedEvent none))
  · exact .skipped quiet_readClock

/-- The loops behind `select` visit an event as `Visited` says. -/
theorem visited_ready {ready : Ev → Bool} (e : ℕ) (s : Loop) :
    Visited w s e (visitReady w ready e s).1 := by
  unfold visitReady
  dsimp only
  split_ifs with hrun hend hready hshot
  · exact .skipped (quiet_refl s)
  · exact .skipped (quiet_refl s)
  · exact .called (running_of_not hrun) (quiet_setFlags fun _ => rfl)
  · exact .called (running_of_not hrun) (quiet_refl s)
  · exact .skipped (quiet_refl s)

/-- A step of a callback goes behind what was recorded. -/
theorem Dispatched.effect (h : Dispatched s₀ L s new) (hs' : Effect s s' es)
    (hfresh : s₀.fresh ≤ s.fresh) : Dispatched s₀ L s' (new ++ es) := by
  refine ⟨?_, ?_, fun x hx hrun => ?_, fun t e he => ?_, fun e he => ?_, ?_⟩
  · rw [hs'.log, h.log, List.append_assoc]
  · rw [grow_append]
    exact hs'.lists _ h.lists
  · obtain ⟨hx, hrun, hnot'⟩ := hs'.running x hx hrun
    obtain ⟨hx, hrun, hnot⟩ := h.running x hx hrun
    exact ⟨hx, hrun, fun hmem => (List.mem_append.1 hmem).elim hnot hnot'⟩
  · rcases List.mem_append.1 he with he | he
    · exact h.added t e he
    · exact hfresh.trans (hs'.added t e he)
  · rcases List.mem_append.1 he with he | he
    · exact h.called e he
    · exact absurd he (hs'.calls e)
  · refine List.pairwise_append.2 ⟨h.order, ?_, fun a _ b hb e _ hbe => hs'.calls e (hbe ▸ hb)⟩
    exact List.pairwise_of_forall_mem_list fun a _ b hb e _ hbe => hs'.calls e (hbe ▸ hb)

/-- An event is called. It has not been removed, since it is running. -/
theorem Dispatched.call (h : Dispatched s₀ L s new) (hlt : e < s.fresh) (hrun : s.Running e) :
    Dispatched s₀ L { s with log := s.log ++ [.called e] } (new ++ [.called e]) := by
  obtain ⟨-, hrun₀, hnot⟩ := h.running e hlt hrun
  refine ⟨?_, ?_, fun x hx hx' => ?_, fun t e' he' => h.added t e' (by simpa using he'),
    fun e' he' => ?_, ?_⟩
  · rw [h.log, List.append_assoc]
  · rw [grow_called]
    exact h.lists.same rfl rfl rfl fun _ => rfl
  · obtain ⟨hx, hx', hnot⟩ := h.running x hx hx'
    exact ⟨hx, hx', by simpa using hnot⟩
  · rcases List.mem_append.1 he' with he' | he'
    · exact h.called e' he'
    · simp only [List.mem_singleton, Entry.called.injEq] at he'
      rwa [he']
  · refine List.pairwise_append.2 ⟨h.order, List.pairwise_singleton _ _, ?_⟩
    rintro a ha b hb e' rfl hbe
    obtain rfl := List.mem_singleton.1 hb
    obtain rfl := Entry.called.inj hbe
    exact hnot ha

/-- **One visit.** -/
theorem Dispatched.visit (hw : w.Public) (h : Dispatched s₀ L s new) (hfresh : s₀.fresh ≤ s.fresh)
    (hlt : e < s.fresh) (hvisit : Visited w s e s') :
    ∃ es, Dispatched s₀ L s' (new ++ es) ∧ s₀.fresh ≤ s'.fresh ∧
      (calls es = [] ∨ calls es = [e] ∧ s.Running e) := by
  have hcalls : ∀ {s s' : Loop} {es : List Entry}, Effect s s' es → calls es = [] := by
    intro s s' es heffect
    refine List.eq_nil_iff_forall_not_mem.2 fun x hx => heffect.calls x (mem_calls.1 hx)
  cases hvisit with
  | skipped hquiet => exact ⟨[], h.effect hquiet.effect hfresh,
      hfresh.trans hquiet.effect.fresh, .inl rfl⟩
  | @called s₁ hrun hquiet =>
    have h₁ : Dispatched s₀ L s₁ new := by
      have h₁ := h.effect hquiet.effect hfresh
      rwa [List.append_nil] at h₁
    have hfresh₁ := hfresh.trans hquiet.effect.fresh
    have hlt₁ := hlt.trans_le hquiet.effect.fresh
    have hcalled := h₁.call hlt₁ ((hquiet.2 e).2 hrun)
    obtain ⟨es, hes⟩ := effect_performs (w := w) (s := { s₁ with log := s₁.log ++ [.called e] })
      (hw s₁ e)
    refine ⟨.called e :: es, ?_, hfresh₁.trans hes.fresh, .inr ⟨?_, hrun⟩⟩
    · have hdispatched := hcalled.effect hes hfresh₁
      rwa [List.append_assoc, List.singleton_append] at hdispatched
    · rw [← List.singleton_append, calls_append, hcalls hes, calls_called]
      rfl

/-- **A loop that calls events**, with the events `todo` left for the loops behind it.

**Proof sketch.** The loop goes along the list as it is when it gets there (`Dll.walk_rule`). The
invariant `I` is that the old events in the rest `l` of the list and the events `todo` are still to
be called: a callback may put new events in front, which the loop has passed, and may remove the
next one, which the loop then does not follow. -/
theorem forEvents_dispatched (hw : w.Public) {visit : ℕ → Loop → Loop × Bool}
    (hvisit : ∀ e s, Visited w s e (visit e s).1) (h₀ : s₀.Lists L) {all todo : List ℕ}
    (h : Dispatched s₀ L s new) (hfresh : s₀.fresh ≤ s.fresh)
    (hall : (calls new ++ (L t ++ todo)).Sublist all) :
    ∃ s' new', forEvents t visit s = some s' ∧ Dispatched s₀ L s' new' ∧ s₀.fresh ≤ s'.fresh ∧
      (calls new' ++ todo).Sublist all := by
  let old : ℕ → Bool := fun x => x < s₀.fresh
  have hfilter : (grow L new t).filter old = L t := by
    have hnew : ((EventLoop.added t new).reverse).filter old = [] := by
      refine List.filter_eq_nil_iff.2 fun x hx => ?_
      have hx := h.added t x (mem_added.1 (List.mem_reverse.1 hx))
      simpa [old] using hx
    have hold : (L t).filter old = L t :=
      List.filter_eq_self.2 fun x hx => by simpa [old] using h₀.lt t x hx
    rw [grow, List.filter_append, hnew, hold, List.nil_append]
  -- `l` is the end of the list as it is now; the new events in it are passed over
  let I : List ℕ → Loop → Prop := fun l s => ∃ new, Dispatched s₀ L s new ∧ s₀.fresh ≤ s.fresh ∧
    (∃ pre, grow L new t = pre ++ l) ∧ (calls new ++ (l.filter old ++ todo)).Sublist all
  let J : Loop → Prop := fun s => ∃ new, Dispatched s₀ L s new ∧ s₀.fresh ≤ s.fresh ∧
    (calls new ++ todo).Sublist all
  have hvisited : ∀ e l s, I (e :: l) s → ∃ new', Dispatched s₀ L (visit e s).1 new' ∧
      s₀.fresh ≤ (visit e s).1.fresh ∧ (∃ pre, grow L new' t = pre ++ e :: l) ∧
      (calls new' ++ (l.filter old ++ todo)).Sublist all := by
    rintro e l s ⟨new, h, hfresh, ⟨pre, hpre⟩, hall⟩
    have hlt : e < s.fresh := h.lists.lt t e (by simp [hpre])
    obtain ⟨es, h', hfresh', hcalls⟩ := h.visit hw hfresh hlt (hvisit e s)
    refine ⟨new ++ es, h', hfresh', ⟨(EventLoop.added t es).reverse ++ pre, ?_⟩, ?_⟩
    · rw [grow_append, grow, hpre, List.append_assoc]
    · refine List.Sublist.trans ?_ hall
      rcases hcalls with hnil | ⟨hone, hrun⟩
      · rw [calls_append, hnil, List.append_nil]
        exact .append_left (.append_right ((List.sublist_cons_self e l).filter old) todo) _
      · have hold : old e = true := by simpa [old] using (h.running e hlt hrun).1
        rw [calls_append, hone, List.filter_cons_of_pos hold]
        simp
  have hstep : ∀ e l s, I (e :: l) s → (visit e s).2 = true →
      ((visit e s).1.links e).next = l.head? ∧ I l (visit e s).1 := by
    intro e l s hI _
    obtain ⟨new', h', hfresh', ⟨pre, hpre⟩, hall'⟩ := hvisited e l s hI
    have hlist := h'.lists.isList t
    rw [hpre] at hlist
    exact ⟨hlist.next, new', h', hfresh', ⟨pre ++ [e], by rw [hpre]; simp⟩, hall'⟩
  have hstop : ∀ e l s, I (e :: l) s → (visit e s).2 = false → J (visit e s).1 := by
    intro e l s hI _
    obtain ⟨new', h', hfresh', -, hall'⟩ := hvisited e l s hI
    refine ⟨new', h', hfresh', List.Sublist.trans ?_ hall'⟩
    exact .append_left (List.sublist_append_right _ _) _
  have hend : ∀ s, I [] s → J s := by
    rintro s ⟨new, h, hfresh, -, hall⟩
    exact ⟨new, h, hfresh, hall⟩
  have hI : I (grow L new t) s := ⟨new, h, hfresh, ⟨[], rfl⟩, by rwa [hfilter]⟩
  obtain ⟨s', hs', new', h', hfresh', hall'⟩ := Dll.walk_rule (fun s e => (s.links e).next) visit I J
    hstep hstop hend hI (h.lists.length_le t)
  refine ⟨s', new', ?_, h', hfresh', hall'⟩
  unfold forEvents
  rw [(h.lists.isList t).head]
  exact hs'

/-- The loops that call the events. -/
theorem callEvents_dispatched (hw : w.Public) (hs : s.Lists L) (ret : ℤ) (rfds wfds : List ℤ) :
    ∃ s' new, callEvents w ret rfds wfds s = some s' ∧ Dispatched s L s' new ∧
      (calls new).Sublist (allEvents L) := by
  have h : Dispatched s L s [] := by
    refine ⟨by simp, by rwa [grow_nil], fun x hx hrun => ⟨hx, hrun, List.not_mem_nil⟩,
      fun t e he => ?_, fun e he => ?_, .nil⟩
    · cases he
    · cases he
  obtain ⟨s₁, new₁, h₁, hd₁, hfresh₁, hall₁⟩ := forEvents_dispatched (t := .time) hw
    (visited_time (w := w)) hs h le_rfl (List.Sublist.refl (allEvents L))
  have hvisit : ∀ e s, Visited w s e (visitAlways w e s).1 := visited_ready
  obtain ⟨s₂, new₂, h₂, hd₂, hfresh₂, hall₂⟩ := forEvents_dispatched (t := .always) hw hvisit hs hd₁
    hfresh₁ hall₁
  unfold callEvents
  simp only [h₁, h₂, Option.bind_eq_bind, Option.bind_some]
  split_ifs
  · have hvisit : ∀ e s, Visited w s e (visitFd w rfds wfds e s).1 := visited_ready
    have hall : (calls new₂ ++ (L .fd ++ [])).Sublist (allEvents L) := by rwa [List.append_nil]
    obtain ⟨s₃, new₃, h₃, hd₃, -, hall₃⟩ := forEvents_dispatched (t := .fd) hw hvisit hs hd₂ hfresh₂
      hall
    exact ⟨s₃, new₃, h₃, hd₃, by rwa [List.append_nil] at hall₃⟩
  · exact ⟨s₂, new₂, rfl, hd₂, (List.sublist_append_left _ _).trans hall₂⟩

end Dispatch

/-! ## The loops before and after -/

/-- The loops before `select` have been through the events `done`: of these the enabled ones are
running. -/
structure Marked (s s' : Loop) (done : List ℕ) : Prop where
  lists : s.SameLists s'
  enabled : ∀ e, (s'.events e).flags.enabled = (s.events e).flags.enabled
  running : ∀ e ∈ done, (s'.events e).flags.running = (s.events e).flags.enabled

/-- A visit of one of these loops. -/
def Marks {β : Type} (visit : ℕ → Loop × β → (Loop × β) × Bool) : Prop :=
  ∀ e p, (visit e p).2 = true ∧
    ∀ s done, Marked s p.1 done → Marked s (visit e p).1.1 (e :: done)

section Marks

variable {w : World} {s s' : Loop} {L : EventType → List ℕ} {done done' : List ℕ} {t : EventType}

/-- Fewer events. -/
theorem Marked.mono (h : Marked s s' done) (hsub : ∀ e ∈ done', e ∈ done) : Marked s s' done' :=
  ⟨h.lists, h.enabled, fun e he => h.running e (hsub e he)⟩

/-- One more event gets its flag `running`. -/
theorem Marked.setRunning (h : Marked s s' done) {e : ℕ} {running : Bool}
    (hrun : running = (s'.events e).flags.enabled) :
    Marked s (s'.setRunning e running) (e :: done) := by
  have hevent : ∀ x, ((s'.setRunning e running).events x).flags.enabled =
      (s'.events x).flags.enabled := by
    intro x
    unfold Loop.setRunning Loop.setFlags Loop.setEvent
    by_cases hx : x = e
    · subst hx
      simp
    · simp [Function.update_of_ne hx]
  have hsame : s'.SameLists (s'.setRunning e running) := by
    unfold Loop.setRunning Loop.setFlags
    exact sameLists_setEvent fun _ => rfl
  refine ⟨h.lists.trans hsame, fun x => ?_, fun x hx => ?_⟩
  · rw [hevent, h.enabled]
  · by_cases hxe : x = e
    · subst hxe
      rw [← h.enabled, ← hrun]
      simp [Loop.setRunning, Loop.setFlags, Loop.setEvent]
    · have hmem : x ∈ done := (List.mem_cons.1 hx).resolve_left hxe
      rw [← h.running x hmem]
      simp [Loop.setRunning, Loop.setFlags, Loop.setEvent, Function.update_of_ne hxe]

/-- The loop that looks for the next timer marks what it visits. -/
theorem marks_time : Marks (markTime w) := by
  rintro e ⟨s, st⟩
  unfold markTime
  dsimp only
  by_cases henabled : (s.events e).flags.enabled = true
  · rw [if_pos henabled]
    refine ⟨rfl, fun s₀ done h => ?_⟩
    have hread : Marked s₀ s.readClock done :=
      ⟨h.lists.trans quiet_readClock.1, h.enabled, h.running⟩
    exact hread.setRunning henabled.symm
  · rw [if_neg henabled]
    exact ⟨rfl, fun s₀ done h => h.setRunning (by simpa using henabled)⟩

/-- The loop over the events that are always called marks what it visits. -/
theorem marks_always : Marks markAlways := by
  rintro e ⟨s, st⟩
  unfold markAlways
  dsimp only
  split_ifs with henabled
  · exact ⟨rfl, fun s₀ done h => h.setRunning henabled.symm⟩
  · exact ⟨rfl, fun s₀ done h => h.setRunning (by simpa using henabled)⟩

/-- The loop that fills the sets of `select` marks what it visits. -/
theorem marks_fd : Marks markFd := by
  rintro e ⟨s, sets⟩
  unfold markFd
  dsimp only
  by_cases henabled : (s.events e).flags.enabled = true
  · rw [if_pos henabled]
    exact ⟨rfl, fun s₀ done h => h.setRunning henabled.symm⟩
  · rw [if_neg henabled]
    exact ⟨rfl, fun s₀ done h => h.setRunning (by simpa using henabled)⟩

/-- A loop before `select`. -/
theorem forEventsWith_marked {β : Type} {visit : ℕ → Loop × β → (Loop × β) × Bool}
    (hvisit : Marks visit) (hs : s.Lists L) (h : Marked s s' done) (b : β) :
    ∃ p, forEventsWith t visit s' b = some p ∧ Marked s p.1 (L t ++ done) := by
  let I : List ℕ → Loop × β → Prop := fun l p => ∃ pre, L t = pre ++ l ∧ Marked s p.1 (pre ++ done)
  have hstep : ∀ e l p, I (e :: l) p → (visit e p).2 = true →
      ((visit e p).1.1.links e).next = l.head? ∧ I l (visit e p).1 := by
    rintro e l p ⟨pre, hpre, hp⟩ -
    have hmarked := (hvisit e p).2 s _ hp
    refine ⟨?_, pre ++ [e], by rw [hpre]; simp, hmarked.mono fun x hx => ?_⟩
    · have hlist := hs.isList t
      rw [hpre] at hlist
      rw [hmarked.lists.links]
      exact hlist.next
    · simp only [List.mem_append, List.mem_cons] at hx ⊢
      tauto
  have hstop : ∀ e l p, I (e :: l) p → (visit e p).2 = false → Marked s (visit e p).1.1 (L t ++ done) := by
    intro e l p _ hstop
    rw [(hvisit e p).1] at hstop
    cases hstop
  have hend : ∀ p, I [] p → Marked s p.1 (L t ++ done) := by
    rintro p ⟨pre, hpre, hp⟩
    rwa [hpre, List.append_nil]
  have hlength : (L t).length ≤ s'.fresh := by
    rw [h.lists.fresh]
    exact hs.length_le t
  have hI : I (L t) (s', b) := ⟨[], rfl, h⟩
  unfold forEventsWith
  rw [h.lists.list, (hs.isList t).head]
  exact Dll.walk_rule _ _ I (fun p => Marked s p.1 (L t ++ done)) hstep hstop hend hI hlength

end Marks

/-- The event is not marked for removal. -/
def Loop.keeps (s : Loop) (e : ℕ) : Bool := !(s.events e).flags.remove

section Strip

variable {s : Loop} {L : EventType → List ℕ} {t : EventType}

/-- The events `kept` have been passed. -/
theorem stripLoop_spec {kept rest : List ℕ} (h : s.Lists (Function.update L t (kept ++ rest)))
    (hkept : ∀ e ∈ kept, s.keeps e = true) {n : ℕ} (hn : rest.length ≤ n) :
    ∃ s', stripLoop t n rest.head? s = some s' ∧
      s'.Lists (Function.update L t ((kept ++ rest).filter s.keeps)) ∧
      s'.events = s.events ∧ s'.log = s.log ∧ s'.fresh = s.fresh := by
  induction rest generalizing s kept n with
  | nil =>
    refine ⟨s, by cases n <;> rfl, ?_, rfl, rfl, rfl⟩
    rw [List.append_nil] at h ⊢
    rwa [List.filter_eq_self.2 hkept]
  | cons e rest ih =>
    obtain ⟨n, rfl⟩ := Nat.exists_eq_succ_of_ne_zero (by simp at hn; omega : n ≠ 0)
    have hn : rest.length ≤ n := Nat.le_of_succ_le_succ hn
    have hnext : (s.links e).next = rest.head? := by
      have hlist := h.isList t
      rw [Function.update_self] at hlist
      exact hlist.next
    simp only [List.head?_cons, stripLoop, hnext]
    by_cases hremove : (s.events e).flags.remove = true
    · rw [if_pos hremove]
      obtain ⟨s', hs', hlists, hevents, hlog, hfresh⟩ := ih (h.unlink rfl) hkept hn
      refine ⟨s', hs', ?_, hevents, hlog, hfresh⟩
      have hfilter : (kept ++ e :: rest).filter s.keeps = (kept ++ rest).filter s.keeps := by
        rw [List.filter_append, List.filter_append,
          List.filter_cons_of_neg (by simp [Loop.keeps, hremove])]
      rw [hfilter]
      exact hlists
    · rw [if_neg hremove]
      have hcons : kept ++ e :: rest = kept ++ [e] ++ rest := by simp
      rw [hcons] at h ⊢
      refine ih h (fun x hx => ?_) hn
      rcases List.mem_append.1 hx with hx | hx
      · exact hkept x hx
      · rw [List.mem_singleton.1 hx]
        simpa [Loop.keeps] using hremove

/-- `strip_events`. -/
theorem stripEvents_spec (h : s.Lists L) (t : EventType) :
    ∃ s', stripEvents t s = some s' ∧
      s'.Lists (Function.update L t ((L t).filter s.keeps)) ∧
      s'.events = s.events ∧ s'.log = s.log ∧ s'.fresh = s.fresh := by
  unfold stripEvents
  rw [(h.isList t).head]
  have hlists : s.Lists (Function.update L t ([] ++ L t)) := by
    rwa [List.nil_append, Function.update_eq_self]
  exact stripLoop_spec hlists (by simp) (h.length_le t)

end Strip

/-! ## One iteration -/

/-- From `s`, when the lists held `L`, to `s'` the entries `new` were recorded, as an iteration
should: an event was called at most once, it was enabled in a list before, no event was called
after it was removed, and none that was added; and the lists hold the events that are not marked
for removal, in their order, with the new ones in front. -/
structure IterationSafe (s : Loop) (L : EventType → List ℕ) (s' : Loop) (new : List Entry) : Prop
    where
  log : s'.log = s.log ++ new
  once : (calls new).Nodup
  listed : ∀ e, .called e ∈ new → ∃ t, e ∈ L t ∧ (s.events e).flags.enabled = true
  notRemoved : new.Pairwise fun a b => ∀ e, a = .removed e → b ≠ .called e
  notAdded : ∀ t e, .added t e ∈ new → .called e ∉ new
  lists : s'.Lists fun t => ((added t new).reverse ++ L t).filter s'.keeps

/-- One iteration of `event_loop`. -/
theorem iterate_spec (w : World) (hw : w.Public) {s : Loop} {L : EventType → List ℕ}
    (hs : s.Lists L) : ∃ s' new, iterate w s = some s' ∧ IterationSafe s L s' new := by
  unfold iterate
  -- marking
  have hnone : Marked s s [] := ⟨.refl s, fun _ => rfl, fun e he => by cases he⟩
  obtain ⟨⟨s₁, st₁⟩, h₁, hm₁⟩ := forEventsWith_marked (t := .time) (marks_time (w := w)) hs hnone none
  obtain ⟨⟨s₂, st₂⟩, h₂, hm₂⟩ := forEventsWith_marked (t := .always) marks_always hs hm₁ st₁
  obtain ⟨⟨s₃, sets⟩, h₃, hm⟩ := forEventsWith_marked (t := .fd) marks_fd hs hm₂ ⟨[], [], -1⟩
  simp only [h₁, h₂, h₃, Option.bind_eq_bind, Option.bind_some]
  have hs₃ : s₃.Lists L := hs.same hm.lists.links hm.lists.list hm.lists.fresh hm.lists.type
  -- calling
  obtain ⟨s₆, new, h₆, hd, hall⟩ := callEvents_dispatched hw hs₃ (w.select s₃ sets (timeout st₂)).1
    (w.select s₃ sets (timeout st₂)).2.1 (w.select s₃ sets (timeout st₂)).2.2
  simp only [h₆, Option.bind_some]
  -- stripping
  obtain ⟨s₇, h₇, hl₇, he₇, hlog₇, -⟩ := stripEvents_spec hd.lists .time
  obtain ⟨s₈, h₈, hl₈, he₈, hlog₈, -⟩ := stripEvents_spec hl₇ .fd
  obtain ⟨s', h', hl', he', hlog', -⟩ := stripEvents_spec hl₈ .always
  have hevents : s'.events = s₆.events := he'.trans (he₈.trans he₇)
  have hkeeps : ∀ {r : Loop}, r.events = s₆.events → r.keeps = s₆.keeps := by
    intro r hr
    funext e
    rw [Loop.keeps, Loop.keeps, hr]
  simp only [h₇, h₈, Option.bind_some]
  refine ⟨s', new, h', ⟨?_, ?_, fun e he => ?_, hd.order, fun t e he hcalled => ?_, ?_⟩⟩
  · rw [hlog', hlog₈, hlog₇, hd.log, hm.lists.log]
  · exact hs.nodup.sublist hall
  · obtain ⟨t, ht⟩ := mem_allEvents.1 (hall.subset (mem_calls.2 he))
    refine ⟨t, ht, ?_⟩
    rw [← hm.running e (by cases t <;> simp [ht])]
    exact hd.called e he
  · obtain ⟨t', ht'⟩ := mem_allEvents.1 (hall.subset (mem_calls.2 hcalled))
    exact absurd (hs₃.lt t' e ht') (Nat.not_lt.2 (hd.added t e he))
  · have hfinal : ∀ t, Function.update (Function.update (Function.update (grow L new) .time
        ((grow L new .time).filter s₆.keeps)) .fd ((grow L new .fd).filter s₆.keeps)) .always
        ((grow L new .always).filter s₆.keeps) t =
        ((added t new).reverse ++ L t).filter s'.keeps := by
      intro t
      rw [hkeeps hevents]
      cases t <;> rfl
    rw [hkeeps he₇, hkeeps (he₈.trans he₇)] at hl'
    rw [← funext hfinal]
    exact hl'

/-! ## Runs -/

/-- What happens to the loop: a call from outside of it, or an iteration. -/
inductive LoopAct
  | call (op : Op)
  | iterate

/-- The loop, from empty lists on. -/
def loopMachine (w : World) : Machine Loop LoopAct Entry Fault where
  Init s := ∀ t, s.list t = none
  step s
    | .call op => .ok (s.perform w op, [])
    | .iterate =>
      match iterate w s with
      | some s' => .ok (s', s'.log.drop s.log.length)
      | none => .error .loop

/-- Calls from outside add no event with `EVENT_F_RUNNING`. -/
def PublicCalls (_ : Loop) : LoopAct → Prop
  | .call op => op.Public
  | .iterate => True

/-- At first the lists are empty. -/
theorem lists_empty {s : Loop} (h : ∀ t, s.list t = none) : s.Lists fun _ => [] := by
  refine ⟨fun t => ⟨none, rfl, h t⟩, fun t e he => ?_, fun t e he => ?_⟩
  · cases he
  · cases he

/-- **The lists are linked in every run**, and hold what an iteration is proved for. -/
theorem lists_reachable {w : World} (hw : w.Public) {s : Loop}
    (h : (loopMachine w).Reachable PublicCalls s) : ∃ L, s.Lists L := by
  refine h.invariant (fun s => ∃ L, s.Lists L) (fun s hs => ⟨_, lists_empty hs⟩)
    fun s a s' o hs ha hstep => ?_
  obtain ⟨L, hL⟩ := hs
  cases a with
  | call op =>
    obtain ⟨rfl, -⟩ := Prod.mk.inj (Except.ok.inj hstep)
    obtain ⟨es, hes⟩ := effect_perform (w := w) (s := s) ha
    exact ⟨_, hes.lists L hL⟩
  | iterate =>
    obtain ⟨s₁, new, h₁, hsafe⟩ := iterate_spec w hw hL
    simp only [loopMachine, h₁] at hstep
    obtain ⟨rfl, -⟩ := Prod.mk.inj (Except.ok.inj hstep)
    exact ⟨_, hsafe.lists⟩

/-- **`event_loop`** leaves the lists in order, however many iterations it takes to its end. -/
theorem eventLoop_lists {w : World} (hw : w.Public) {single : Bool} {n : ℕ} {s s' : Loop}
    {L : EventType → List ℕ} (hs : s.Lists L) (h : eventLoop w single n s = some s') :
    ∃ L', s'.Lists L' := by
  have hloop : ∀ {n : ℕ} {s : Loop} {L : EventType → List ℕ}, s.Lists L →
      repeatLoop w single n s = some s' → ∃ L', s'.Lists L' := by
    intro n
    induction n with
    | zero => nofun
    | succ n ih =>
      intro s L hs h
      obtain ⟨s₁, hiterate, h⟩ := Option.bind_eq_some_iff.1 h
      obtain ⟨s₂, new, hspec, hsafe⟩ := iterate_spec w hw hs
      obtain rfl := Option.some.inj (hiterate.symm.trans hspec)
      split_ifs at h
      · exact ih hsafe.lists h
      · exact ⟨_, Option.some.inj h ▸ hsafe.lists⟩
  have hlists : Loop.Lists { s with endLoop := false } L := hs.same rfl rfl rfl fun _ => rfl
  exact hloop hlists h

/-- **Event dispatch is safe under re-entrancy**: one iteration, for all contents of the lists, all
descriptors that are ready and all callbacks; and the lists have such contents in every run. -/
theorem iterate_safe (w : World) (hw : w.Public) :
    (∀ s L, s.Lists L → ∃ s' new, iterate w s = some s' ∧ IterationSafe s L s' new) ∧
      ∀ s, (loopMachine w).Reachable PublicCalls s → ∃ L, s.Lists L :=
  ⟨fun _ _ hs => iterate_spec w hw hs, fun _ hs => lists_reachable hw hs⟩

/-- The loop before any event is added. -/
def emptyLoop : Loop where
  links _ := ⟨none, none⟩
  events _ := ⟨.time, ⟨false, false, false, false⟩, ⟨0, 0, 0⟩⟩
  fresh := 0
  list _ := none
  endLoop := false
  readings := 0
  log := []

/-- Two descriptors are watched. -/
def twoDescriptors : Loop :=
  let flags : Flags := ⟨false, false, false, false⟩
  (emptyLoop.addFdEvent 3 false flags).addFdEvent 4 false flags

/-- All descriptors are ready, and the callback of the event in front removes the other one, enables
it again and adds a third. -/
def removingWorld : World where
  now _ := ⟨0, 0⟩
  select _ sets _ := (2, sets.rfds, sets.wfds)
  func _ e :=
    if e = 1 then [.removeEvent 0, .setEventEnabled 0 true,
      .addFdEvent 5 false ⟨false, false, false, false⟩]
    else []

/-- The event that was removed is not called, though its descriptor is ready, and neither is the new
one. -/
theorem iterate_safe_removing :
    ∃ s', iterate removingWorld twoDescriptors = some s' ∧
      s'.log = twoDescriptors.log ++ [.called 1, .removed 0, .added .fd 2] ∧
      s'.Lists fun t => if t = .fd then [2, 1] else [] := by
  have hpublic : removingWorld.Public := by
    intro s e op hop
    by_cases he : e = 1
    · subst he
      simp only [removingWorld, if_pos, List.mem_cons, List.not_mem_nil, or_false] at hop
      rcases hop with rfl | rfl | rfl
      · trivial
      · trivial
      · rfl
    · simp [removingWorld, he] at hop
  have hlists : twoDescriptors.Lists fun t => if t = .fd then [1, 0] else [] := by
    have hempty : emptyLoop.Lists fun _ => [] := lists_empty fun _ => rfl
    have htwo := (hempty.newEvent .fd ⟨true, false, false, false⟩ (·.setFd 3 false)).newEvent .fd
      ⟨true, false, false, false⟩ (·.setFd 4 false)
    have hcontents : (fun t => if t = EventType.fd then [1, 0] else []) =
        Function.update (Function.update (fun _ => []) .fd [0]) .fd [1, 0] := by
      funext t
      cases t <;> rfl
    rw [hcontents]
    exact htwo
  obtain ⟨s', new, hs', hsafe⟩ := (iterate_safe removingWorld hpublic).1 _ _ hlists
  -- the iteration itself
  have hrun : (iterate removingWorld twoDescriptors).map
      (fun s => (s.log, s.keeps 0, s.keeps 1, s.keeps 2)) =
      some ([.added .fd 0, .added .fd 1, .called 1, .removed 0, .added .fd 2], false, true, true) := by
    decide +kernel
  rw [hs', Option.map_some, Option.some.injEq, Prod.mk.injEq, Prod.mk.injEq, Prod.mk.injEq] at hrun
  obtain ⟨hlog, h₀, h₁, h₂⟩ := hrun
  have hnew : new = [.called 1, .removed 0, .added .fd 2] := by
    have hnew := hsafe.log
    rw [hlog] at hnew
    exact (List.append_cancel_left (show twoDescriptors.log ++ _ = twoDescriptors.log ++ new from
      hnew)).symm
  refine ⟨s', hs', by rw [hsafe.log, hnew], ?_⟩
  have hfinal := hsafe.lists
  rw [hnew] at hfinal
  have hcontents : (fun t => if t = EventType.fd then [2, 1] else []) =
      fun t => ((added t [.called 1, .removed 0, .added .fd 2]).reverse ++
        if t = EventType.fd then [1, 0] else []).filter s'.keeps := by
    funext t
    cases t with
    | time | always => rfl
    | fd =>
      change [2, 1] = [2, 1, 0].filter s'.keeps
      simp [h₀, h₁, h₂]
  rw [hcontents]
  exact hfinal

end Spook.EventLoop
