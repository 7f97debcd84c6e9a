import Spook.Lib.Ring
import Spook.Tcp.Server

set_option relaxedAutoImplicit false
set_option autoImplicit false

/-!
# The send buffer of a connection

`send_data`, `avail_send_buf` and `conn_write` of `tcp.c` with the bytes that they move. A
connection of the server has only the two indices; `Conn.Holds` says that they are those of a
buffer, and the functions of the server do with them what the functions here do.

## Main definitions

* `Spook.SendBuf` — the send buffer of a `struct conn`.
* `Spook.SendBuf.queued` — the bytes that wait in it.
* `Spook.sendMachine` — a connection that is sent on and written.

## Main results

* `Spook.SendBuf.sendData_spec`, `connWrite_spec` — what the functions do to the bytes that wait.
* `Spook.sendBuf_fifo` — whole runs.
* `Spook.Conn.Holds.sendData`, `wp_connWrite_leaves` — the server does the same.
-/

namespace Spook

/-- The send buffer of a `struct conn`, with `drop_after` and whether `write_event` is enabled. -/
structure SendBuf where
  sendBuf : ℕ → UInt8
  sendBufR : ℕ
  sendBufW : ℕ
  writeEvent : Bool
  dropAfter : Bool

namespace SendBuf

/-- The buffer of the connection that `do_accept` makes in the memory `mem`. -/
def accepted (mem : ℕ → UInt8) : SendBuf :=
  { sendBuf := mem, sendBufR := 0, sendBufW := 0, writeEvent := false, dropAfter := false }

/-- `avail_send_buf`. -/
def availSendBuf (c : SendBuf) : ℤ :=
  if c.sendBufR > c.sendBufW then (c.sendBufR : ℤ) - c.sendBufW - 1
  else (sendBufSize : ℤ) - c.sendBufW + c.sendBufR - 1

/-- The body of the loop of `send_data`. -/
def putByte (c : SendBuf) (b : UInt8) : SendBuf :=
  { c with
    sendBuf := Function.update c.sendBuf c.sendBufW b
    sendBufW := if c.sendBufW + 1 = sendBufSize then 0 else c.sendBufW + 1 }

/-- The bytes that a pointer and a length stand for. -/
def bytesOf (d : ℕ → UInt8) (len : ℤ) : Bytes := (List.range len.toNat).map d

/-- `send_data`. -/
def sendData (c : SendBuf) (d : ℕ → UInt8) (len : ℤ) : SendBuf × ℤ :=
  if c.availSendBuf < len then (c, 1)
  else ({ (bytesOf d len).foldl putByte c with writeEvent := true }, 0)

/-- How much `conn_write` passes to a `write`. -/
def writeLen (c : SendBuf) : ℕ :=
  if c.sendBufW < c.sendBufR then sendBufSize - c.sendBufR else c.sendBufW - c.sendBufR

/-- `send_buf_r` behind a `write` of so many bytes. -/
def advance (c : SendBuf) (sent : ℕ) : SendBuf :=
  { c with sendBufR := if c.sendBufR + sent = sendBufSize then 0 else c.sendBufR + sent }

/-- The end of `conn_write` behind its loop: the connection, or nothing when it is dropped. -/
def endWrite (c : SendBuf) : Option SendBuf :=
  if c.dropAfter then none else some { c with writeEvent := false }

/-- `conn_write`, whose calls of `write` end as given; the one behind the last would block. Besides
the connection it has the bytes written. -/
def connWrite (c : SendBuf) : List WriteResult → Option SendBuf × Bytes
  | [] => (if c.sendBufR = c.sendBufW then c.endWrite else some c, [])
  | res :: rs =>
    if c.sendBufR = c.sendBufW then (c.endWrite, [])
    else
      match res with
      | .failed => (none, [])
      | .sent n =>
        let sent := min n c.writeLen
        if sent = 0 then (none, [])
        else
          let d := (List.range sent).map fun i => c.sendBuf (c.sendBufR + i)
          let (c', out) := (c.advance sent).connWrite rs
          (c', d ++ out)

/-! ## The bytes that wait -/

/-- How many bytes wait. -/
def queuedLen (c : SendBuf) : ℕ := (c.sendBufW + sendBufSize - c.sendBufR) % sendBufSize

/-- The bytes that wait. -/
def queued (c : SendBuf) : Bytes := SlotRing.window sendBufSize c.sendBuf c.sendBufR c.queuedLen

/-- The indices are indices of the buffer. -/
structure InRange (c : SendBuf) : Prop where
  sendBufR : c.sendBufR < sendBufSize
  sendBufW : c.sendBufW < sendBufSize

section Queue

variable {c : SendBuf}

/-- How much is queued. -/
@[simp] theorem length_queued (c : SendBuf) : c.queued.length = c.queuedLen := by
  simp [queued]

/-- The flags do not matter to the bytes that wait. -/
theorem queued_flags (c : SendBuf) (event drop : Bool) :
    { c with writeEvent := event, dropAfter := drop }.queued = c.queued := by
  simp only [queued, queuedLen]

/-- One byte of the buffer stays free. -/
theorem queuedLen_lt (c : SendBuf) : c.queuedLen < sendBufSize :=
  Nat.mod_lt _ (by decide)

/-- How many bytes wait, by cases. -/
theorem InRange.queuedLen (h : c.InRange) : c.queuedLen =
    if c.sendBufR > c.sendBufW then c.sendBufW + sendBufSize - c.sendBufR
    else c.sendBufW - c.sendBufR := by
  have hr := h.sendBufR
  have hw := h.sendBufW
  unfold SendBuf.queuedLen
  split_ifs with hlt
  · exact Nat.mod_eq_of_lt (by omega)
  · rw [show c.sendBufW + sendBufSize - c.sendBufR = c.sendBufW - c.sendBufR + sendBufSize by omega,
      Nat.add_mod_right, Nat.mod_eq_of_lt (by omega)]

/-- What is free and what waits fill the buffer up to one byte. -/
theorem InRange.avail_add (h : c.InRange) : c.availSendBuf + c.queuedLen = 65535 := by
  have hr := h.sendBufR
  have hw := h.sendBufW
  have hsize : sendBufSize = 65536 := rfl
  rw [h.queuedLen]
  unfold availSendBuf
  split_ifs <;> omega

/-- Nothing waits when the indices meet. -/
theorem InRange.queuedLen_eq_zero (h : c.InRange) : c.queuedLen = 0 ↔ c.sendBufR = c.sendBufW := by
  have hr := h.sendBufR
  have hw := h.sendBufW
  rw [h.queuedLen]
  split_ifs <;> omega

/-- The writer stands behind the bytes that wait. -/
theorem InRange.sendBufW_eq (h : c.InRange) :
    (c.sendBufR + c.queuedLen) % sendBufSize = c.sendBufW := by
  have hr := h.sendBufR
  have hw := h.sendBufW
  rw [h.queuedLen]
  split_ifs with hlt
  · rw [show c.sendBufR + (c.sendBufW + sendBufSize - c.sendBufR) = c.sendBufW + sendBufSize by
      omega, Nat.add_mod_right, Nat.mod_eq_of_lt hw]
  · rw [show c.sendBufR + (c.sendBufW - c.sendBufR) = c.sendBufW by omega, Nat.mod_eq_of_lt hw]

/-- The write index stays in range. -/
theorem InRange.putByte (h : c.InRange) (b : UInt8) : (c.putByte b).InRange := by
  have hw := h.sendBufW
  refine ⟨h.sendBufR, ?_⟩
  simp only [SendBuf.putByte]
  split_ifs
  · decide
  · omega

/-- A byte is put behind those that wait. -/
theorem InRange.queued_putByte (h : c.InRange) (hroom : c.queuedLen + 1 < sendBufSize) (b : UInt8) :
    (c.putByte b).queued = c.queued ++ [b] := by
  have hr := h.sendBufR
  have hw := h.sendBufW
  have hlen : (c.putByte b).queuedLen = c.queuedLen + 1 := by
    have h' := (h.putByte b).queuedLen
    have h₀ := h.queuedLen
    rw [h', h₀]
    rw [h₀] at hroom
    simp only [SendBuf.putByte]
    split_ifs at hroom ⊢ <;> omega
  unfold SendBuf.queued
  rw [hlen]
  simp only [SendBuf.putByte]
  rw [← h.sendBufW_eq]
  exact SlotRing.window_update c.sendBuf (by omega) b

/-- The loop of `send_data`. -/
theorem InRange.putBytes (h : c.InRange) {d : Bytes} (hroom : c.queuedLen + d.length < sendBufSize) :
    (d.foldl SendBuf.putByte c).InRange ∧ (d.foldl SendBuf.putByte c).queued = c.queued ++ d := by
  induction d generalizing c with
  | nil => exact ⟨h, by simp⟩
  | cons b d ih =>
    rw [List.length_cons] at hroom
    have hq := h.queued_putByte (by omega) b
    have hlen : (c.putByte b).queuedLen = c.queuedLen + 1 := by
      rw [← length_queued, hq]
      simp
    obtain ⟨hin, hqueued⟩ := ih (h.putByte b) (by omega)
    refine ⟨hin, ?_⟩
    rw [List.foldl_cons, hqueued, hq, List.append_assoc]
    rfl

/-- The loop of `send_data` leaves the reader and the flags alone. -/
theorem putBytes_same (c : SendBuf) (d : Bytes) :
    (d.foldl SendBuf.putByte c).sendBufR = c.sendBufR ∧
      (d.foldl SendBuf.putByte c).dropAfter = c.dropAfter := by
  induction d generalizing c with
  | nil => exact ⟨rfl, rfl⟩
  | cons b d ih => exact ih (c.putByte b)

/-- As many bytes as the length says, none if it is negative. -/
@[simp] theorem length_bytesOf (d : ℕ → UInt8) (len : ℤ) : (bytesOf d len).length = len.toNat := by
  simp [bytesOf]

/-- A `send_data` that is refused changes nothing. -/
theorem sendData_refused {d : ℕ → UInt8} {len : ℤ} (h : (c.sendData d len).2 ≠ 0) :
    (c.sendData d len).1 = c := by
  unfold sendData at h ⊢
  split_ifs at h ⊢ with hfull
  · rfl
  · exact absurd rfl h

/-- **`send_data`.** It is refused when there is no room, or puts its bytes behind those that
wait. -/
theorem InRange.sendData_spec (h : c.InRange) (d : ℕ → UInt8) (len : ℤ) :
    c.sendData d len = (c, 1) ∧ c.availSendBuf < len ∨
    len ≤ c.availSendBuf ∧ (c.sendData d len).2 = 0 ∧ (c.sendData d len).1.InRange ∧
      (c.sendData d len).1.queued = c.queued ++ bytesOf d len ∧
      (c.sendData d len).1.writeEvent = true ∧
      (c.sendData d len).1.dropAfter = c.dropAfter ∧
      (c.sendData d len).1.sendBufR = c.sendBufR := by
  unfold sendData
  split_ifs with hfull
  · exact .inl ⟨rfl, hfull⟩
  · have havail := h.avail_add
    have hsize : sendBufSize = 65536 := rfl
    have hq := c.queuedLen_lt
    obtain ⟨hin, hqueued⟩ := h.putBytes (d := bytesOf d len) (by rw [length_bytesOf]; omega)
    have hsame := c.putBytes_same (bytesOf d len)
    exact .inr ⟨by omega, rfl, ⟨hin.sendBufR, hin.sendBufW⟩, hqueued, rfl, hsame.2, hsame.1⟩

/-- How much there is to write up to the end of the buffer. -/
theorem InRange.writeLen_le (h : c.InRange) :
    c.writeLen ≤ c.queuedLen ∧ c.sendBufR + c.writeLen ≤ sendBufSize ∧
      (c.sendBufR ≠ c.sendBufW → 0 < c.writeLen) := by
  have hr := h.sendBufR
  have hw := h.sendBufW
  rw [h.queuedLen]
  unfold writeLen
  split_ifs <;> omega

/-- The read index advances around the ring. -/
theorem InRange.advance_sendBufR (h : c.InRange) {sent : ℕ} (hsent : sent ≤ c.writeLen) :
    (c.advance sent).sendBufR = (c.sendBufR + sent) % sendBufSize := by
  have hend := h.writeLen_le.2.1
  unfold SendBuf.advance
  dsimp only
  split_ifs with hwrap
  · rw [hwrap, Nat.mod_self]
  · exact (Nat.mod_eq_of_lt (by omega)).symm

/-- A `write` takes the first bytes that wait. -/
theorem InRange.advance (h : c.InRange) {sent : ℕ} (hsent : sent ≤ c.writeLen) :
    (c.advance sent).InRange ∧
    c.queued = ((List.range sent).map fun i => c.sendBuf (c.sendBufR + i)) ++
      (c.advance sent).queued := by
  have hr := h.sendBufR
  have hw := h.sendBufW
  obtain ⟨hle, hend, hpos⟩ := h.writeLen_le
  have hmod := h.advance_sendBufR hsent
  have hin : (c.advance sent).InRange := ⟨by rw [hmod]; exact Nat.mod_lt _ (by decide), hw⟩
  have hlen : c.queuedLen = sent + (c.advance sent).queuedLen := by
    rw [hin.queuedLen, h.queuedLen]
    unfold writeLen at hsent
    unfold SendBuf.advance
    dsimp only
    split_ifs at hsent ⊢ <;> omega
  refine ⟨hin, ?_⟩
  unfold SendBuf.queued
  rw [hlen, SlotRing.window_add, SlotRing.window_flat _ (by omega), hmod, SlotRing.window_mod]
  rfl

/-- What `conn_write` does to the bytes that wait: some are written, and the others still wait, or
are lost with the connection. As long as bytes wait the event stays as it was. -/
structure WriteStep (c : SendBuf) (r : Option SendBuf) (out : Bytes) : Prop where
  kept : ∀ c', r = some c' → c'.InRange ∧ out ++ c'.queued = c.queued ∧
    (c'.sendBufR ≠ c'.sendBufW → c'.writeEvent = c.writeEvent)
  dropped : r = none → out <+: c.queued

/-- The connection is dropped. -/
theorem WriteStep.drop (c : SendBuf) : WriteStep c none [] :=
  ⟨fun _ h => (by cases h), fun _ => List.nil_prefix⟩

/-- The socket takes nothing now. -/
theorem InRange.block (h : c.InRange) : WriteStep c (some c) [] := by
  refine ⟨fun c' hc' => ?_, fun hn => by cases hn⟩
  cases hc'
  exact ⟨h, List.nil_append _, fun _ => rfl⟩

/-- Everything has been written. -/
theorem InRange.endWrite (h : c.InRange) (heq : c.sendBufR = c.sendBufW) :
    WriteStep c c.endWrite [] := by
  unfold SendBuf.endWrite
  split_ifs
  · exact .drop c
  · refine ⟨fun c' hc' => ?_, fun hn => by cases hn⟩
    cases hc'
    refine ⟨⟨h.sendBufR, h.sendBufW⟩, ?_, fun hne => absurd heq hne⟩
    rw [List.nil_append]
    exact c.queued_flags false c.dropAfter

/-- A `write` of some bytes, and what comes after it. -/
theorem InRange.writeStep_advance (h : c.InRange) {sent : ℕ} (hsent : sent ≤ c.writeLen)
    {r : Option SendBuf} {out : Bytes} (hrest : WriteStep (c.advance sent) r out) :
    WriteStep c r (((List.range sent).map fun i => c.sendBuf (c.sendBufR + i)) ++ out) := by
  obtain ⟨-, hqueued⟩ := h.advance hsent
  refine ⟨fun c' hc' => ?_, fun hn => ?_⟩
  · obtain ⟨hin, hq, hevent⟩ := hrest.kept c' hc'
    exact ⟨hin, by rw [hqueued, ← hq, List.append_assoc], hevent⟩
  · rw [hqueued]
    exact (List.prefix_append_right_inj _).2 (hrest.dropped hn)

/-- **`conn_write`.** -/
theorem InRange.connWrite_spec (h : c.InRange) (rs : List WriteResult) :
    WriteStep c (c.connWrite rs).1 (c.connWrite rs).2 := by
  induction rs generalizing c with
  | nil =>
    unfold connWrite
    by_cases heq : c.sendBufR = c.sendBufW
    · rw [if_pos heq]
      exact h.endWrite heq
    · rw [if_neg heq]
      exact h.block
  | cons res rs ih =>
    unfold connWrite
    by_cases heq : c.sendBufR = c.sendBufW
    · rw [if_pos heq]
      exact h.endWrite heq
    rw [if_neg heq]
    cases res with
    | failed => exact .drop c
    | sent n =>
      dsimp only
      by_cases hsent : min n c.writeLen = 0
      · rw [if_pos hsent]
        exact .drop c
      · rw [if_neg hsent]
        have hle := Nat.min_le_right n c.writeLen
        exact h.writeStep_advance hle (ih (h.advance hle).1)

end Queue

end SendBuf

/-! ## Runs -/

/-- A call on the send buffer of a connection. -/
inductive SendAct
  | sendData (d : ℕ → UInt8) (len : ℤ)
  | connWrite (rs : List WriteResult)
  /-- A handler sets `drop_after`. -/
  | dropAfter

/-- What a call does. -/
inductive SendEvent
  | accepted (d : Bytes)
  | refused
  | written (d : Bytes)
  deriving DecidableEq

/-- The data of the calls of `send_data` that were accepted. -/
def acceptedBytes (os : List SendEvent) : Bytes :=
  os.flatMap fun
    | .accepted d => d
    | .refused | .written _ => []

/-- The bytes written to the socket. -/
def writtenBytes (os : List SendEvent) : Bytes :=
  os.flatMap fun
    | .written d => d
    | .refused | .accepted _ => []

/-- One call. Nothing is called on a connection that was dropped. -/
def sendStep : Option SendBuf → SendAct → Except Fault (Option SendBuf × List SendEvent)
  | none, _ => .ok (none, [])
  | some c, .sendData d len =>
    let (c', ret) := c.sendData d len
    .ok (some c', [if ret = 0 then .accepted (SendBuf.bytesOf d len) else .refused])
  | some c, .connWrite rs =>
    let (c', out) := c.connWrite rs
    .ok (c', [.written out])
  | some c, .dropAfter => .ok (some { c with dropAfter := true }, [])

/-- A connection from its `do_accept` on. -/
def sendMachine : Machine (Option SendBuf) SendAct SendEvent Fault where
  Init s := ∃ mem, s = some (.accepted mem)
  step := sendStep

/-- What is known of a connection that was not dropped. -/
structure Fifo (os : List SendEvent) (c : SendBuf) : Prop where
  inRange : c.InRange
  fifo : writtenBytes os ++ c.queued = acceptedBytes os
  event : c.queued ≠ [] → c.writeEvent = true

/-- What was accepted, one after the other. -/
@[simp] theorem acceptedBytes_append (os os' : List SendEvent) :
    acceptedBytes (os ++ os') = acceptedBytes os ++ acceptedBytes os' := by
  simp [acceptedBytes]

/-- What was written, one after the other. -/
@[simp] theorem writtenBytes_append (os os' : List SendEvent) :
    writtenBytes (os ++ os') = writtenBytes os ++ writtenBytes os' := by
  simp [writtenBytes]

/-- Bytes wait when the indices differ. -/
theorem SendBuf.InRange.queued_eq_nil {c : SendBuf} (h : c.InRange) :
    c.queued = [] ↔ c.sendBufR = c.sendBufW := by
  rw [← h.queuedLen_eq_zero, ← SendBuf.length_queued, List.length_eq_zero_iff]

/-- One call keeps what is known. -/
theorem fifo_step {os o : List SendEvent} {c : SendBuf} {a : SendAct} {s' : Option SendBuf}
    (h : Fifo os c) (hs : sendStep (some c) a = .ok (s', o)) :
    (∀ c', s' = some c' → Fifo (os ++ o) c') ∧
      (s' = none → writtenBytes (os ++ o) <+: acceptedBytes (os ++ o)) := by
  cases a with
  | sendData d len =>
    rcases h.inRange.sendData_spec d len with ⟨href, -⟩ | ⟨-, hret, hin, hqueued, hevent, -⟩
    · simp only [sendStep, href] at hs
      cases hs
      refine ⟨fun c' hc' => ?_, fun hn => by cases hn⟩
      cases hc'
      exact ⟨h.inRange, by simpa [acceptedBytes, writtenBytes] using h.fifo, h.event⟩
    · rcases hd : c.sendData d len with ⟨c₁, ret⟩
      rw [hd] at hret hin hqueued hevent
      simp only [sendStep, hd] at hs
      cases hs
      dsimp only at hret
      rw [if_pos hret]
      refine ⟨fun c' hc' => ?_, fun hn => by cases hn⟩
      cases hc'
      refine ⟨hin, ?_, fun _ => hevent⟩
      have hw : writtenBytes [.accepted (SendBuf.bytesOf d len)] = [] := rfl
      have ha : acceptedBytes [.accepted (SendBuf.bytesOf d len)] = SendBuf.bytesOf d len := by
        simp [acceptedBytes]
      rw [writtenBytes_append, acceptedBytes_append, hw, ha, hqueued, List.append_nil,
        ← List.append_assoc, h.fifo]
  | connWrite rs =>
    have hspec := h.inRange.connWrite_spec rs
    rcases hd : c.connWrite rs with ⟨c₁, out⟩
    rw [hd] at hspec
    simp only [sendStep, hd] at hs
    cases hs
    have hw : writtenBytes [.written out] = out := by simp [writtenBytes]
    have ha : acceptedBytes [.written out] = [] := rfl
    rw [writtenBytes_append, acceptedBytes_append, hw, ha, List.append_nil, ← h.fifo]
    refine ⟨fun c' hc' => ?_, fun hn => (List.prefix_append_right_inj _).2 (hspec.dropped hn)⟩
    obtain ⟨hin, hqueued, hevent⟩ := hspec.kept c' hc'
    refine ⟨hin, ?_, fun hne => ?_⟩
    · rw [writtenBytes_append, acceptedBytes_append, hw, ha, List.append_nil, List.append_assoc,
        hqueued, h.fifo]
    · have hne' : c'.sendBufR ≠ c'.sendBufW := fun heq => hne (hin.queued_eq_nil.2 heq)
      rw [hevent hne']
      refine h.event fun hnil => ?_
      rw [hnil, List.append_eq_nil_iff] at hqueued
      exact hne hqueued.2
  | dropAfter =>
    cases hs
    refine ⟨fun c' hc' => ?_, fun hn => by cases hn⟩
    cases hc'
    rw [List.append_nil]
    exact ⟨⟨h.inRange.sendBufR, h.inRange.sendBufW⟩, h.fifo, h.event⟩

/-- **The send buffer is a queue.** Whatever is sent and however it is written: the indices stay in
the buffer, what was written and what waits is what was accepted, in order, what is free and what
waits is always the same, and the event is enabled while bytes wait. A refused call changes nothing,
and of a connection that was dropped what was written is the beginning of what was accepted. -/
theorem sendBuf_fifo {as : List SendAct} {os : List SendEvent} {s : Option SendBuf}
    (h : Machine.Run sendMachine Machine.anyStep as os s) :
    (∀ c, s = some c →
      (c.sendBufR < 65536 ∧ c.sendBufW < 65536) ∧
      writtenBytes os ++ c.queued = acceptedBytes os ∧
      c.availSendBuf + c.queued.length = 65535 ∧
      (∀ d len, (c.sendData d len).2 ≠ 0 → (c.sendData d len).1 = c) ∧
      (c.queued ≠ [] → c.writeEvent = true)) ∧
    (s = none → writtenBytes os <+: acceptedBytes os) := by
  have hfifo : (∀ c, s = some c → Fifo os c) ∧ (s = none → writtenBytes os <+: acceptedBytes os) := by
    refine h.history (fun _ os s => (∀ c, s = some c → Fifo os c) ∧
      (s = none → writtenBytes os <+: acceptedBytes os)) ?_ ?_
    · rintro s ⟨mem, rfl⟩
      refine ⟨fun c hc => ?_, fun hn => by cases hn⟩
      cases hc
      have hin : (SendBuf.accepted mem).InRange := ⟨Nat.zero_lt_succ _, Nat.zero_lt_succ _⟩
      have hnil : (SendBuf.accepted mem).queued = [] := hin.queued_eq_nil.2 rfl
      exact ⟨hin, by rw [hnil]; rfl, fun hne => absurd hnil hne⟩
    · intro as os s a s' o ih _ hs
      cases s with
      | none =>
        cases hs
        exact ⟨fun c hc => (by cases hc), fun _ => by simpa using ih.2 rfl⟩
      | some c => exact fifo_step (ih.1 c rfl) hs
  refine ⟨fun c hc => ?_, hfifo.2⟩
  obtain ⟨hin, hq, hevent⟩ := hfifo.1 c hc
  refine ⟨⟨hin.sendBufR, hin.sendBufW⟩, hq, ?_, fun d len => SendBuf.sendData_refused, hevent⟩
  rw [SendBuf.length_queued]
  exact hin.avail_add

/-- Three bytes are sent and two of them written; the third waits. -/
theorem sendBuf_fifo_partial :
    ∃ os c, Machine.Run sendMachine Machine.anyStep
        [.sendData (fun i => UInt8.ofNat (97 + i)) 3, .connWrite [.sent 2]] os (some c) ∧
      writtenBytes os ++ c.queued = acceptedBytes os ∧
      c.availSendBuf + c.queued.length = 65535 ∧ c.queued = str "c" := by
  obtain ⟨s, hrun, hs⟩ := Machine.Run.of_exec (M := sendMachine) (G := Machine.anyStep)
    (fun s => s.map SendBuf.queued) (s := some (.accepted fun _ => 0)) ⟨_, rfl⟩
    (show (sendMachine.exec _ _ [.sendData (fun i => UInt8.ofNat (97 + i)) 3,
      .connWrite [.sent 2]]).map _ = some ([.accepted (str "abc"), .written (str "ab")],
        some (str "c")) by decide +kernel)
  cases s with
  | none => cases hs
  | some c =>
    obtain ⟨-, hfifo, hroom, -, -⟩ := (sendBuf_fifo hrun).1 c rfl
    exact ⟨_, c, hrun, hfifo, hroom, Option.some.inj hs⟩

/-! ## The connections of the server -/

/-- The connection has the indices of the buffer. -/
structure Conn.Holds (C : Conn) (c : SendBuf) : Prop where
  sendBufR : C.sendBufR = c.sendBufR
  sendBufW : C.sendBufW = c.sendBufW
  dropAfter : C.dropAfter = c.dropAfter

section Holds

variable {C : Conn} {c : SendBuf}

/-- The room, as the connection knows it. -/
theorem Conn.Holds.availSendBuf (h : C.Holds c) (hin : c.InRange) :
    (C.availSendBuf : ℤ) = c.availSendBuf := by
  have hr := hin.sendBufR
  have hw := hin.sendBufW
  unfold Conn.availSendBuf SendBuf.availSendBuf
  rw [h.sendBufR, h.sendBufW]
  split_ifs <;> omega

/-- The writer behind the loop of `send_data`. -/
theorem SendBuf.InRange.putBytes_sendBufW (hin : c.InRange) (d : Bytes) :
    (d.foldl SendBuf.putByte c).sendBufW = (c.sendBufW + d.length) % sendBufSize := by
  have hw := hin.sendBufW
  induction d generalizing c with
  | nil => exact (Nat.mod_eq_of_lt hw).symm
  | cons b d ih =>
    have hnext : (c.putByte b).sendBufW = (c.sendBufW + 1) % sendBufSize := by
      simp only [SendBuf.putByte]
      split_ifs with hwrap
      · rw [hwrap, Nat.mod_self]
      · exact (Nat.mod_eq_of_lt (by omega)).symm
    rw [List.foldl_cons, ih (hin.putByte b) (hin.putByte b).sendBufW, hnext, Nat.mod_add_mod,
      List.length_cons, Nat.add_assoc, Nat.add_comm 1]

/-- `send_data` of the server does what `send_data` does. -/
theorem Conn.Holds.sendData (h : C.Holds c) (hin : c.InRange) (d : ℕ → UInt8) (len : ℕ) :
    (C.sendData len).1.Holds (c.sendData d len).1 ∧ (C.sendData len).2 = (c.sendData d len).2 := by
  have havail := h.availSendBuf hin
  have hsame := c.putBytes_same (SendBuf.bytesOf d len)
  unfold Conn.sendData SendBuf.sendData
  by_cases hfull : C.availSendBuf < len
  · rw [if_pos hfull, if_pos (by omega)]
    exact ⟨h, rfl⟩
  · rw [if_neg hfull, if_neg (by omega)]
    refine ⟨⟨h.sendBufR.trans hsame.1.symm, ?_, h.dropAfter.trans hsame.2.symm⟩, rfl⟩
    dsimp only
    rw [hin.putBytes_sendBufW, SendBuf.length_bytesOf, Int.toNat_natCast, h.sendBufW]

/-- A connection that is dropped is gone. -/
theorem wp_dropConn_gone (mc : Bool) (cid : ℕ) (s : Server) :
    wp (dropConn mc cid) (fun _ s' => s'.conns cid = none) (fun _ => True) s := by
  unfold dropConn
  rw [wp_bind, wp_getConn]
  refine ⟨fun C _ => ?_, fun _ => trivial⟩
  rw [wp_bind]
  exact (wp_trivial _ s).mono (fun _ s' _ => Function.update_self ..) fun _ h => h

/-- What `conn_write` leaves of the connection `cid`. -/
def Leaves (cid : ℕ) (r : Option SendBuf) (s : Server) : Prop :=
  match r with
  | some c => ∃ C, s.conns cid = some C ∧ C.Holds c
  | none => s.conns cid = none

/-- At the end of what is queued the connection is dropped if that was asked for. -/
theorem wp_endWrite_leaves (mc : Bool) {cid : ℕ} {s : Server} (hC : s.conns cid = some C)
    (h : C.Holds c) :
    wp (if C.dropAfter then dropConn mc cid else pure ()) (fun _ => Leaves cid c.endWrite)
      (fun _ => True) s := by
  rw [wp_ite, h.dropAfter]
  unfold SendBuf.endWrite
  refine ⟨fun hd => ?_, fun hd => ?_⟩
  · rw [if_pos hd]
    exact wp_dropConn_gone mc cid s
  · rw [if_neg hd, wp_pure]
    exact ⟨C, hC, h.sendBufR, h.sendBufW, h.dropAfter⟩

/-- `conn_write` of the server does what `conn_write` does. -/
theorem wp_connWrite_leaves (mc : Bool) {cid : ℕ} {s : Server} (hC : s.conns cid = some C)
    (h : C.Holds c) (hin : c.InRange) (rs : List WriteResult) :
    wp (connWrite mc cid rs) (fun _ => Leaves cid (c.connWrite rs).1) (fun _ => True) s := by
  induction rs generalizing s C c with
  | nil =>
    unfold connWrite SendBuf.connWrite
    simp only [wp_bind, wp_getConn, hC, Option.some.injEq, reduceCtorEq, false_imp_iff, and_true,
      forall_eq']
    rw [h.sendBufR, h.sendBufW]
    by_cases heq : c.sendBufR = c.sendBufW
    · rw [if_pos heq]
      simpa only [heq, true_and] using wp_endWrite_leaves mc hC h
    · rw [if_neg heq, if_neg (fun hand => heq hand.1), wp_pure]
      exact ⟨C, hC, h⟩
  | cons res rs ih =>
    unfold connWrite SendBuf.connWrite
    simp only [wp_bind, wp_getConn, hC, Option.some.injEq, reduceCtorEq, false_imp_iff, and_true,
      forall_eq']
    rw [h.sendBufR, h.sendBufW]
    by_cases heq : c.sendBufR = c.sendBufW
    · rw [if_pos heq, if_pos heq]
      exact wp_endWrite_leaves mc hC h
    rw [if_neg heq, if_neg heq]
    cases res with
    | failed => exact wp_dropConn_gone mc cid s
    | sent n =>
      dsimp only
      have hlen : C.writeLen = c.writeLen := by
        unfold Conn.writeLen SendBuf.writeLen
        rw [h.sendBufR, h.sendBufW]
      rw [hlen]
      by_cases hsent : min n c.writeLen = 0
      · rw [if_pos hsent, if_pos hsent]
        exact wp_dropConn_gone mc cid s
      rw [if_neg hsent, if_neg hsent, wp_bind, wp_modifyConn]
      have hle := Nat.min_le_right n c.writeLen
      refine ⟨fun C' hC' => ?_, fun hn => by rw [hC] at hn; cases hn⟩
      obtain rfl : C = C' := Option.some.inj (hC.symm.trans hC')
      refine ih (Function.update_self ..) ⟨?_, h.sendBufW, h.dropAfter⟩ (hin.advance hle).1
      rw [hin.advance_sendBufR hle, h.sendBufR]

end Holds

end Spook
