import Spook.EventLoop.Dispatch

set_option relaxedAutoImplicit false
set_option autoImplicit false

/-!
# Time differences

`time_diff` multiplies the seconds by a million before it divides, in a `long` of 32 bits. Times
that are more than 35 minutes apart have a difference that wraps around, though the milliseconds
would fit for 24 days. A timer whose time passed that long ago may seem to lie ahead, and is not
called then.

## Main definitions

* `Spook.EventLoop.TimeRef.micros` — a time in microseconds.
* `Spook.EventLoop.Nearest` — a difference in milliseconds, rounded to the nearest.
* `Spook.EventLoop.Loop.Calls` — the callback of an event was called.
* `Spook.EventLoop.Measured` — which differences do not go wrong.

## Main results

* `Spook.EventLoop.timeDiff_nearest_iff` — when the difference is right.
* `Spook.EventLoop.visitTime_calls_iff` — a timer is called if and only if it is due.
* `Spook.EventLoop.timer_due_iff` — the condition under which a timer that has passed is called.
-/

namespace Spook.EventLoop

/-! ## Differences -/

/-- The microseconds of a time. -/
def TimeRef.micros (t : TimeRef) : ℤ := t.sec * 1000000 + t.usec

/-- `ms` milliseconds are `d` microseconds, rounded to the nearest. -/
def Nearest (ms d : ℤ) : Prop := d - 500 ≤ 1000 * ms ∧ 1000 * ms ≤ d + 500

/-- No time between is further from the first one than the second one is. -/
def GrowsTo (start stop : TimeRef) : Prop :=
  ∀ t : TimeRef, start.micros ≤ t.micros → t.micros ≤ stop.micros →
    timeDiff start t ≤ timeDiff start stop

section Diff

variable {start stop : TimeRef} {x d : ℤ}

/-- A `long` of 32 bits. -/
theorem bmod_long (x : ℤ) :
    Int.bmod x (2 ^ 32) = x % 4294967296 ∧ x % 4294967296 < 2147483648 ∨
      Int.bmod x (2 ^ 32) = x % 4294967296 - 4294967296 ∧ 2147483648 ≤ x % 4294967296 := by
  have hlong : ((2 ^ 32 : ℕ) : ℤ) = 4294967296 := rfl
  rw [Int.bmod_def, hlong]
  omega

/-- A division of `int` goes towards zero. -/
theorem tdiv_thousand (x : ℤ) :
    0 ≤ x ∧ x.tdiv 1000 = x / 1000 ∨ x < 0 ∧ x.tdiv 1000 = -(-x / 1000) := by
  rcases le_or_gt 0 x with hx | hx
  · exact .inl ⟨hx, Int.tdiv_eq_ediv_of_nonneg hx⟩
  · refine .inr ⟨hx, ?_⟩
    have hneg : (- -x).tdiv 1000 = -((-x).tdiv 1000) := Int.neg_tdiv ..
    rw [neg_neg] at hneg
    rw [hneg, Int.tdiv_eq_ediv_of_nonneg (by omega)]

/-- What is divided is the difference in microseconds. -/
theorem timeDiff_eq (start stop : TimeRef) :
    timeDiff start stop =
      (Int.bmod (stop.micros - start.micros + 500) (2 ^ 32)).tdiv 1000 := by
  have hsum : (stop.sec - start.sec) * 1000000 + stop.usec - start.usec + 500 =
      stop.micros - start.micros + 500 := by
    unfold TimeRef.micros
    omega
  rw [timeDiff, hsum]

/-- **When the difference is right.** A difference of milliseconds below `2 ^ 31` is right if and
only if the microseconds stay below `2 ^ 31` as well. -/
theorem timeDiff_nearest_iff (hle : start.micros ≤ stop.micros)
    (hlt : stop.micros - start.micros < 2 ^ 31 * 1000) :
    Nearest (timeDiff start stop) (stop.micros - start.micros) ↔
      stop.micros - start.micros + 500 < 2 ^ 31 := by
  have hpos := Int.sub_nonneg_of_le hle
  rw [timeDiff_eq, Nearest]
  generalize stop.micros - start.micros = d at *
  have hlong := bmod_long (d + 500)
  have hdiv := tdiv_thousand (Int.bmod (d + 500) (2 ^ 32))
  generalize Int.bmod (d + 500) (2 ^ 32) = x at *
  constructor
  · intro h
    omega
  · intro h
    omega

/-- Where nothing wraps around, the difference grows. -/
theorem growsTo_of_lt (hlt : stop.micros - start.micros + 500 < 2 ^ 31) : GrowsTo start stop := by
  intro t hstart hstop
  rw [timeDiff_eq, timeDiff_eq]
  have hlong := bmod_long (t.micros - start.micros + 500)
  have hlong' := bmod_long (stop.micros - start.micros + 500)
  have hdiv := tdiv_thousand (Int.bmod (t.micros - start.micros + 500) (2 ^ 32))
  have hdiv' := tdiv_thousand (Int.bmod (stop.micros - start.micros + 500) (2 ^ 32))
  generalize Int.bmod (t.micros - start.micros + 500) (2 ^ 32) = x at *
  generalize Int.bmod (stop.micros - start.micros + 500) (2 ^ 32) = x' at *
  omega

/-- **When a time is due.** Only the lower 32 bits of the microseconds count: they must not seem to
lie five milliseconds ahead. -/
theorem timeDiff_due_iff :
    -timeDiff start stop < 5 ↔ (stop.micros - start.micros + 500) % 2 ^ 32 < 2 ^ 31 ∨
      2 ^ 32 - 5000 < (stop.micros - start.micros + 500) % 2 ^ 32 := by
  rw [timeDiff_eq]
  generalize stop.micros - start.micros + 500 = d
  have hlong := bmod_long d
  have hdiv := tdiv_thousand (Int.bmod d (2 ^ 32))
  generalize Int.bmod d (2 ^ 32) = x at *
  omega

end Diff

/-! ## Timers -/

/-- The callback of the event `e` was called. -/
def Loop.Calls (s s' : Loop) (e : ℕ) : Prop := ∃ es, s'.log = s.log ++ .called e :: es

/-- The differences `d`, in microseconds, with which nothing goes wrong: those of at most 35
minutes, and of the ones of more than 24 days those whose lower 32 bits are not negative, or no
less than five milliseconds below zero. -/
def Measured (d : ℤ) : Prop :=
  (d < 2 ^ 31 * 1000 → d + 500 < 2 ^ 31) ∧
    ((d + 500) % 2 ^ 32 < 2 ^ 31 ∨ 2 ^ 32 - 5000 < (d + 500) % 2 ^ 32)

section Timers

variable {w : World} {s s' : Loop} {e : ℕ} {op : Op} {ops : List Op}

/-- A change of an event records nothing. -/
@[simp] theorem log_setEvent {f : Event → Event} : (s.setEvent e f).log = s.log := rfl

/-- `resched_event` records nothing. -/
theorem log_reschedEvent {tr : Option TimeRef} : (s.reschedEvent w e tr).log = s.log :=
  (quiet_reschedEvent tr).1.log

/-- A call only adds to the record. -/
theorem log_perform : ∃ es, (s.perform w op).log = s.log ++ es := by
  cases op with
  | addTimerEvent msec flags =>
    refine ⟨[.added .time s.fresh], ?_⟩
    exact log_reschedEvent
  | addAlarmEvent t flags =>
    refine ⟨[.added .time s.fresh], ?_⟩
    exact log_reschedEvent
  | addFdEvent fd write flags => exact ⟨_, rfl⟩
  | addAlwaysEvent flags => exact ⟨_, rfl⟩
  | removeEvent e => exact ⟨_, rfl⟩
  | reschedEvent e tr => exact ⟨[], by simpa [Loop.perform] using log_reschedEvent⟩
  | setEventInterval e msec =>
    exact ⟨[], by simpa [Loop.perform] using (quiet_setEventInterval msec).1.log⟩
  | setEventEnabled e enabled => exact ⟨[], (List.append_nil _).symm⟩
  | exitEventLoop => exact ⟨[], (List.append_nil _).symm⟩

/-- Operations only add to the log. -/
theorem log_performs :
    ∃ es, (ops.foldl (fun s op => s.perform w op) s).log = s.log ++ es := by
  induction ops generalizing s with
  | nil => exact ⟨[], (List.append_nil _).symm⟩
  | cons op ops ih =>
    obtain ⟨es, hes⟩ : ∃ es, (s.perform w op).log = s.log ++ es := log_perform
    obtain ⟨es', hes'⟩ := @ih (s.perform w op)
    refine ⟨es ++ es', ?_⟩
    rw [List.foldl_cons, hes', hes, List.append_assoc]

/-- A callback is recorded when it is called. -/
theorem calls_callFunc (hlog : s'.log = s.log) : s.Calls (s'.callFunc w e) e := by
  obtain ⟨es, hes⟩ := @log_performs w { s' with log := s'.log ++ [.called e] } (w.func s' e)
  refine ⟨es, ?_⟩
  rw [Loop.callFunc, hes, hlog, List.append_assoc]
  rfl

/-- **A timer that is visited** is called if and only if it is due. -/
theorem visitTime_calls_iff (hrun : s.Running e) (hend : s.endLoop = false) :
    s.Calls (visitTime w e s).1 e ↔
      -timeDiff (s.events e).ev.fire (w.now s.readings) < 5 := by
  unfold visitTime
  simp only [show (s.events e).flags.running = true from hrun, hend, Bool.not_true,
    Bool.false_eq_true, if_false]
  by_cases hdue : -timeDiff (s.events e).ev.fire (w.now s.readings) < 5
  · rw [if_pos hdue]
    refine iff_of_true (calls_callFunc ?_) hdue
    split_ifs
    · rfl
    · exact log_reschedEvent
  · rw [if_neg hdue]
    refine iff_of_false ?_ hdue
    rintro ⟨es, hes⟩
    have hlength := congrArg List.length hes
    simp [Loop.readClock] at hlength

/-- **Which timers are measured right.** The difference from the time of a timer to a later one is
right and grows up to it, where the milliseconds fit, and the timer is called, if and only if the
difference is `Measured`. -/
theorem timer_due_iff (hle : (s.events e).ev.fire.micros ≤ (w.now s.readings).micros)
    (hrun : s.Running e) (hend : s.endLoop = false) :
    (let fire := (s.events e).ev.fire
      let now := w.now s.readings
      let d := now.micros - fire.micros
      (d < 2 ^ 31 * 1000 → Nearest (timeDiff fire now) d ∧ GrowsTo fire now) ∧
        s.Calls (visitTime w e s).1 e) ↔
      Measured ((w.now s.readings).micros - (s.events e).ev.fire.micros) := by
  dsimp only
  rw [visitTime_calls_iff hrun hend, timeDiff_due_iff]
  constructor
  · rintro ⟨hdiff, hdue⟩
    exact ⟨fun hlt => (timeDiff_nearest_iff hle hlt).1 (hdiff hlt).1, hdue⟩
  · rintro ⟨hfits, hdue⟩
    refine ⟨fun hlt => ⟨?_, growsTo_of_lt (hfits hlt)⟩, hdue⟩
    exact (timeDiff_nearest_iff hle hlt).2 (hfits hlt)

end Timers

/-! ## A timer that was disabled -/

/-- The clock is read once when the timer is added and once when it is rescheduled; everything else
comes 2148 seconds later. -/
def laterWorld : World where
  now n := if n < 2 then ⟨1000, 0⟩ else ⟨3148, 0⟩
  select _ _ _ := (0, [], [])
  func _ _ := []

/-- A timer of 100 milliseconds is added, disabled, and enabled again. -/
def enabledTimer : Loop :=
  ((emptyLoop.addTimerEvent laterWorld 100 ⟨false, false, false, false⟩).setEventEnabled 0 false
    ).setEventEnabled 0 true

/-- The timer is not called: its time seems to lie 2147 seconds ahead. -/
theorem enabledTimer_not_called :
    timeDiff ⟨1000, 100000⟩ ⟨3148, 0⟩ = -2147066 ∧
      (enabledTimer.events 0).ev.fire.micros = 1000100000 ∧
      (enabledTimer.events 0).flags.enabled = true ∧
      (iterate laterWorld enabledTimer).map (·.log) = some [.added .time 0] := by
  decide +kernel

/-- The clock five seconds after the time of the timer. -/
def soonWorld : World := { laterWorld with now := fun _ => ⟨1005, 100000⟩ }

/-- Five seconds after its time the timer is called. -/
theorem timer_due_iff_soon :
    (enabledTimer.setRunning 0 true).Calls
      (visitTime soonWorld 0 (enabledTimer.setRunning 0 true)).1 0 := by
  have hmeasured : Measured (5000000 : ℤ) := by
    unfold Measured
    omega
  have hle : ((enabledTimer.setRunning 0 true).events 0).ev.fire.micros ≤
      (soonWorld.now (enabledTimer.setRunning 0 true).readings).micros := by
    decide +kernel
  exact ((timer_due_iff hle rfl rfl).2 hmeasured).2

end Spook.EventLoop
