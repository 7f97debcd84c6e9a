import Mathlib.Logic.Function.Basic

set_option relaxedAutoImplicit false
set_option autoImplicit false

/-!
# Faults

What a step of the server can run into that the C language leaves undefined. A model function
returns `Except.error` at the point where the source would make the access; nothing is claimed
about what the program does after it.

## Main definitions

* `Spook.Fault` — the undefined accesses that the model distinguishes.
* `Spook.faultOf` — the fault of a computation, which can be decided.
-/

namespace Spook

/-- An access that the source makes and that has no defined result. -/
inductive Fault
  /-- `fields[k]` with `k` not below `MAX_FIELDS`. -/
  | fieldIndex
  /-- A null pointer is followed. -/
  | nullDeref
  /-- A `struct rtp_endpoint` is used that was freed, or never allocated. -/
  | freedEndpoint
  /-- A `struct session` is used that was freed. -/
  | freedSession
  /-- A `struct conn` is used that was freed. -/
  | freedConn
  /-- A `struct http_stream_session` is used that was freed. -/
  | freedStream
  /-- A `struct event` is used that was freed. -/
  | freedEvent
  /-- An uninitialised pointer is followed. -/
  | wildPointer
  /-- `proto_state` is used as a structure of another type than the one it points to. -/
  | protoState
  /-- A union member is read that was not the one last stored. -/
  | unionMember
  /-- A string is read that has no end within its array. -/
  | unterminated
  /-- Bytes are written behind the end of an array. -/
  | overrun
  /-- Bytes are read behind the end of an array. -/
  | overread
  /-- A format has no text with the arguments that are there. -/
  | badFormat
  /-- A sum leaves the range of `int`. -/
  | overflow
  /-- A division by zero. -/
  | divZero
  /-- `free` gets a pointer that `malloc` did not return, or one that was freed. -/
  | badFree
  /-- `malloc` gets a length below zero. -/
  | negativeLength
  /-- A function returns with the mutex of the frame heap locked. -/
  | heapLocked
  /-- A bounded loop ran out of steps. -/
  | loop
  deriving DecidableEq, Repr

/-- A computation that does not fault goes on. -/
@[simp] theorem ok_bind {α β : Type} (a : α) (f : α → Except Fault β) :
    ((Except.ok a : Except Fault α) >>= f) = f a := rfl

/-- A computation that faults does not go on. -/
@[simp] theorem error_bind {α β : Type} (e : Fault) (f : α → Except Fault β) :
    ((Except.error e : Except Fault α) >>= f) = .error e := rfl

/-- The result of two computations, one after the other. -/
theorem bind_eq_ok {α β : Type} {x : Except Fault α} {f : α → Except Fault β} {b : β} :
    x >>= f = .ok b ↔ ∃ a, x = .ok a ∧ f a = .ok b := by
  cases x <;> simp

/-- A choice of two computations without a fault. -/
theorem exists_ok_ite {α : Type} {p : Prop} [Decidable p] {x y : Except Fault α}
    (hx : p → ∃ a, x = .ok a) (hy : ¬ p → ∃ a, y = .ok a) :
    ∃ a, (if p then x else y) = .ok a := by
  by_cases hp : p
  · rw [if_pos hp]
    exact hx hp
  · rw [if_neg hp]
    exact hy hp

/-- The fault that a computation ends in, if it does. -/
def faultOf {α : Type*} : Except Fault α → Option Fault
  | .ok _ => none
  | .error e => some e

/-- A computation whose fault is known. -/
theorem of_faultOf {α : Type*} {x : Except Fault α} {e : Fault} (h : faultOf x = some e) :
    x = .error e := by
  cases x with
  | ok a => simp [faultOf] at h
  | error e' => simpa [faultOf] using h

end Spook
