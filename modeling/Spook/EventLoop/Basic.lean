import Spook.Lib.Dll
import Mathlib.Algebra.Order.Ring.Int

set_option relaxedAutoImplicit false
set_option autoImplicit false

/-!
# The event loop

The lists of events of `event.c` and one iteration of `event_loop`, with the functions by which a
callback adds, removes, enables and reschedules events. The lists are the linked ones of the code,
and the memory of an event is never given back. What a callback does is its calls of these
functions; they are listed by the surroundings, and so are the clock and `select`. Left out are the
texts about slow callbacks, and the lists of soft queues, which are not walked by the loop.

## Main definitions

* `Spook.EventLoop.Event`, `Loop` — an event, and the variables of the loop.
* `Spook.EventLoop.Op` — the functions that a callback may call.
* `Spook.EventLoop.iterate` — one iteration.
* `Spook.EventLoop.eventLoop` — `event_loop`.
-/

namespace Spook.EventLoop

/-! ## Events -/

/-- `EVENT_TIME`, `EVENT_ALWAYS` and `EVENT_FD`. -/
inductive EventType
  | time
  | always
  | fd
  deriving DecidableEq

/-- `EVENT_F_ENABLED`, `EVENT_F_REMOVE`, `EVENT_F_ONESHOT` and `EVENT_F_RUNNING`. -/
structure Flags where
  enabled : Bool
  remove : Bool
  oneshot : Bool
  running : Bool
  deriving DecidableEq

/-- `time_ref`. -/
structure TimeRef where
  sec : ℤ
  usec : ℤ

/-- The union `ev`, of three words: `fire` and `ival` of a timer, or `fd` and `write` in the first
two. -/
structure Ev where
  word₀ : ℤ
  word₁ : ℤ
  word₂ : ℤ

/-- `ev.time.fire`. -/
def Ev.fire (ev : Ev) : TimeRef := ⟨ev.word₀, ev.word₁⟩

/-- `ev.time.ival`. -/
def Ev.ival (ev : Ev) : ℤ := ev.word₂

/-- `ev.fd.fd`. -/
def Ev.fd (ev : Ev) : ℤ := ev.word₀

/-- Whether `ev.fd.write` is set. -/
def Ev.write (ev : Ev) : Bool := ev.word₁ ≠ 0

def Ev.setFire (ev : Ev) (tr : TimeRef) : Ev := { ev with word₀ := tr.sec, word₁ := tr.usec }

def Ev.setIval (ev : Ev) (msec : ℤ) : Ev := { ev with word₂ := msec }

def Ev.setFd (ev : Ev) (fd : ℤ) (write : Bool) : Ev :=
  { ev with word₀ := fd, word₁ := if write then 1 else 0 }

/-- `struct event` without its links. Which function is called with which data is left to
`World.func`. -/
structure Event where
  type : EventType
  flags : Flags
  ev : Ev

/-- `time_diff`. What is divided is a `long` of 32 bits, which wraps around. -/
def timeDiff (start stop : TimeRef) : ℤ :=
  (Int.bmod ((stop.sec - start.sec) * 1000000 + stop.usec - start.usec + 500) (2 ^ 32)).tdiv 1000

/-- `time_add`. -/
def timeAdd (tr : TimeRef) (msec : ℤ) : TimeRef :=
  let sec := tr.sec + msec.tdiv 1000
  let usec := tr.usec + msec.tmod 1000 * 1000
  if 1000000 ≤ usec then ⟨sec + 1, usec - 1000000⟩ else ⟨sec, usec⟩

/-! ## The lists -/

/-- What is recorded of the events: that one was called, removed by `remove_event`, or added to the
list of its type. -/
inductive Entry
  | called (e : ℕ)
  | removed (e : ℕ)
  | added (type : EventType) (e : ℕ)
  deriving DecidableEq

/-- The variables of `event.c`: the links and the other fields of the events, the address that
`malloc` gives next, the heads of the lists and `end_loop`; with the number of times that the clock
was read, and the record. -/
structure Loop where
  links : ℕ → Dll.Links ℕ
  events : ℕ → Event
  fresh : ℕ
  list : EventType → Option ℕ
  endLoop : Bool
  readings : ℕ
  log : List Entry

/-- The sets that are passed to `select`, and `highfd`. -/
structure FdSets where
  rfds : List ℤ
  wfds : List ℤ
  highfd : ℤ

/-- A call that a callback makes. -/
inductive Op
  | addTimerEvent (msec : ℤ) (flags : Flags)
  | addAlarmEvent (t : TimeRef) (flags : Flags)
  | addFdEvent (fd : ℤ) (write : Bool) (flags : Flags)
  | addAlwaysEvent (flags : Flags)
  | removeEvent (e : ℕ)
  | reschedEvent (e : ℕ) (tr : Option TimeRef)
  | setEventInterval (e : ℕ) (msec : ℤ)
  | setEventEnabled (e : ℕ) (enabled : Bool)
  | exitEventLoop

/-- What the event loop gets from elsewhere: the readings of the clock, what `select` returns for
its sets and its timeout, with the descriptors that are ready for reading and for writing, and the
calls of the callback of an event. -/
structure World where
  now : ℕ → TimeRef
  select : Loop → FdSets → TimeRef → ℤ × List ℤ × List ℤ
  func : Loop → ℕ → List Op

namespace Loop

variable (w : World) (s : Loop)

/-- The fields of the event `e` change. -/
def setEvent (e : ℕ) (f : Event → Event) : Loop :=
  { s with events := Function.update s.events e (f (s.events e)) }

def setFlags (e : ℕ) (f : Flags → Flags) : Loop :=
  s.setEvent e fun event => { event with flags := f event.flags }

def setEv (e : ℕ) (f : Ev → Ev) : Loop :=
  s.setEvent e fun event => { event with ev := f event.ev }

/-- The clock is read. -/
def readClock : Loop := { s with readings := s.readings + 1 }

/-- `new_event` and putting the event in front of its list. What is not set of `ev` is what the
memory held. -/
def newEvent (type : EventType) (flags : Flags) (ev : Ev → Ev) : Loop :=
  { s with
    links :=
      Dll.insertFront (Function.update s.links s.fresh ⟨none, none⟩) (s.list type) s.fresh
    events := Function.update s.events s.fresh ⟨type, flags, ev (s.events s.fresh).ev⟩
    fresh := s.fresh + 1
    list := Function.update s.list type (some s.fresh)
    log := s.log ++ [.added type s.fresh] }

/-- `resched_event`. -/
def reschedEvent (e : ℕ) (tr : Option TimeRef) : Loop :=
  let s := match tr with
    | some tr => s.setEv e (·.setFire tr)
    | none =>
      if (s.events e).flags.enabled then s.setEv e fun ev => ev.setFire (timeAdd ev.fire ev.ival)
      else s.readClock.setEv e fun ev => ev.setFire (timeAdd (w.now s.readings) ev.ival)
  s.setFlags e fun f => { f with remove := false, enabled := true }

/-- `add_timer_event`. -/
def addTimerEvent (msec : ℤ) (flags : Flags) : Loop :=
  ((s.newEvent .time flags fun ev => (ev.setIval msec).setFire (w.now s.readings)).readClock
    ).reschedEvent w s.fresh none

/-- `add_alarm_event`. -/
def addAlarmEvent (t : TimeRef) (flags : Flags) : Loop :=
  (s.newEvent .time { flags with oneshot := true } id).reschedEvent w s.fresh (some t)

/-- `add_fd_event`. -/
def addFdEvent (fd : ℤ) (write : Bool) (flags : Flags) : Loop :=
  s.newEvent .fd { flags with enabled := true } (·.setFd fd write)

/-- `add_always_event`. -/
def addAlwaysEvent (flags : Flags) : Loop := s.newEvent .always { flags with enabled := true } id

/-- `remove_event`. -/
def removeEvent (e : ℕ) : Loop :=
  { s.setFlags e fun f => { f with remove := true, running := false, enabled := false } with
    log := s.log ++ [.removed e] }

/-- `set_event_interval`. -/
def setEventInterval (e : ℕ) (msec : ℤ) : Loop :=
  let s := s.setEv e (·.setIval msec)
  if (s.events e).flags.enabled then s.reschedEvent w e none else s

/-- `set_event_enabled`. -/
def setEventEnabled (e : ℕ) (enabled : Bool) : Loop :=
  s.setFlags e fun f => { f with enabled := enabled }

/-- A call. -/
def perform : Op → Loop
  | .addTimerEvent msec flags => s.addTimerEvent w msec flags
  | .addAlarmEvent t flags => s.addAlarmEvent w t flags
  | .addFdEvent fd write flags => s.addFdEvent fd write flags
  | .addAlwaysEvent flags => s.addAlwaysEvent flags
  | .removeEvent e => s.removeEvent e
  | .reschedEvent e tr => s.reschedEvent w e tr
  | .setEventInterval e msec => s.setEventInterval w e msec
  | .setEventEnabled e enabled => s.setEventEnabled e enabled
  | .exitEventLoop => { s with endLoop := true }

/-- The callback of the event `e` is called. -/
def callFunc (e : ℕ) : Loop :=
  (w.func s e).foldl (fun s op => s.perform w op) { s with log := s.log ++ [.called e] }

end Loop

/-! ## One iteration -/

/-- `EVENT_F_RUNNING` is set or cleared. -/
def Loop.setRunning (s : Loop) (e : ℕ) (running : Bool) : Loop :=
  s.setFlags e fun f => { f with running := running }

/-- The first loop, with `nexttime` if `st` is not null. -/
def markTime (w : World) (e : ℕ) : Loop × Option ℤ → (Loop × Option ℤ) × Bool
  | (s, st) =>
    if (s.events e).flags.enabled then
      let diff := -timeDiff (s.events e).ev.fire (w.now s.readings)
      let diff := if diff < 5 then 0 else diff
      let nexttime := match st with
        | none => diff
        | some nexttime => if diff < nexttime then diff else nexttime
      ((s.readClock.setRunning e true, some nexttime), true)
    else ((s.setRunning e false, st), true)

/-- The second loop. -/
def markAlways (e : ℕ) : Loop × Option ℤ → (Loop × Option ℤ) × Bool
  | (s, st) =>
    if (s.events e).flags.enabled then ((s.setRunning e true, some 0), true)
    else ((s.setRunning e false, st), true)

/-- The third loop, with the sets. -/
def markFd (e : ℕ) : Loop × FdSets → (Loop × FdSets) × Bool
  | (s, sets) =>
    let ev := (s.events e).ev
    if (s.events e).flags.enabled then
      let sets := if ev.write then { sets with wfds := ev.fd :: sets.wfds }
        else { sets with rfds := ev.fd :: sets.rfds }
      let sets := if sets.highfd < ev.fd then { sets with highfd := ev.fd } else sets
      ((s.setRunning e true, sets), true)
    else ((s.setRunning e false, sets), true)

/-- The timeout of `select`. -/
def timeout : Option ℤ → TimeRef
  | some nexttime => ⟨nexttime.tdiv 1000, nexttime.tmod 1000 * 1000⟩
  | none => ⟨1, 0⟩

/-- `EVENT_F_REMOVE` is set. -/
def Loop.mark (s : Loop) (e : ℕ) : Loop := s.setFlags e fun f => { f with remove := true }

/-- A visit of the loop over the timers: the new state, and whether the loop goes on. -/
def visitTime (w : World) (e : ℕ) (s : Loop) : Loop × Bool :=
  let event := s.events e
  if !event.flags.running then (s, true)
  else if s.endLoop then (s, false)
  else
    let diff := -timeDiff event.ev.fire (w.now s.readings)
    let s := s.readClock
    if diff < 5 then
      let s := if event.flags.oneshot then s.mark e else s.reschedEvent w e none
      (s.callFunc w e, true)
    else (s, true)

/-- A visit of a loop over other events, which are called if they are `ready`. -/
def visitReady (w : World) (ready : Ev → Bool) (e : ℕ) (s : Loop) : Loop × Bool :=
  let event := s.events e
  if !event.flags.running then (s, true)
  else if s.endLoop then (s, false)
  else if ready event.ev then
    let s := if event.flags.oneshot then s.mark e else s
    (s.callFunc w e, true)
  else (s, true)

def visitAlways (w : World) : ℕ → Loop → Loop × Bool := visitReady w fun _ => true

def visitFd (w : World) (rfds wfds : List ℤ) : ℕ → Loop → Loop × Bool :=
  visitReady w fun ev => if ev.write then wfds.contains ev.fd else rfds.contains ev.fd

/-- The loop of `strip_events` from the event `e` on, at most `n` times. -/
def stripLoop (type : EventType) : ℕ → Option ℕ → Loop → Option Loop
  | _, none, s => some s
  | 0, some _, _ => none
  | n + 1, some e, s =>
    let next := (s.links e).next
    if (s.events e).flags.remove then
      let (links, head) := Dll.unlink s.links (s.list type) e
      stripLoop type n next { s with links := links, list := Function.update s.list type head }
    else stripLoop type n next s

/-- `strip_events`. A list is not longer than the number of events. -/
def stripEvents (type : EventType) (s : Loop) : Option Loop :=
  stripLoop type s.fresh (s.list type) s

/-- A loop along the list of a type. -/
def forEvents (type : EventType) (visit : ℕ → Loop → Loop × Bool) (s : Loop) : Option Loop :=
  Dll.walk (fun s e => (s.links e).next) visit s.fresh (s.list type) s

/-- A loop along the list of a type, with local variables. -/
def forEventsWith {β : Type} (type : EventType) (visit : ℕ → Loop × β → (Loop × β) × Bool)
    (s : Loop) (b : β) : Option (Loop × β) :=
  Dll.walk (fun p e => (p.1.links e).next) visit s.fresh (s.list type) (s, b)

/-- The loops behind `select`, which call the events. -/
def callEvents (w : World) (ret : ℤ) (rfds wfds : List ℤ) (s : Loop) : Option Loop := do
  let s ← forEvents .time (visitTime w) s
  let s ← forEvents .always (visitAlways w) s
  if 0 < ret then forEvents .fd (visitFd w rfds wfds) s else some s

/-- One iteration of `event_loop`. -/
def iterate (w : World) (s : Loop) : Option Loop := do
  let (s, st) ← forEventsWith .time (markTime w) s none
  let (s, st) ← forEventsWith .always markAlways s st
  let (s, sets) ← forEventsWith .fd markFd s ⟨[], [], -1⟩
  let ready := w.select s sets (timeout st)
  let s ← callEvents w ready.1 ready.2.1 ready.2.2 s
  let s ← stripEvents .time s
  let s ← stripEvents .fd s
  stripEvents .always s

/-- The loop of `event_loop`, at most `n` times. -/
def repeatLoop (w : World) (single : Bool) : ℕ → Loop → Option Loop
  | 0, _ => none
  | n + 1, s => do
    let s ← iterate w s
    if !s.endLoop && !single then repeatLoop w single n s else some s

/-- `event_loop`. -/
def eventLoop (w : World) (single : Bool) (n : ℕ) (s : Loop) : Option Loop :=
  repeatLoop w single n { s with endLoop := false }

end Spook.EventLoop
