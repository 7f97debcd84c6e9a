import Spook.Rtp.Udp

set_option relaxedAutoImplicit false
set_option autoImplicit false

/-!
# The sockets of an endpoint

The search opens its sockets when it needs them. The socket for RTCP is kept from round to round;
that for RTP is kept when its port is in use, and closed when the port for RTCP is, so that the next
round opens a new one. Where the tries run out nothing is closed, and where the new socket for RTP
cannot be opened the one for RTCP is not.

## Main definitions

* `Spook.NoLeak` — what is to hold of the sockets when the function returns.
* `Spook.StopsCleanly` — the calls with which it does.

## Main results

* `Spook.connectUdp_noLeak_iff` — when no socket is lost.
-/

namespace Spook

/-- When the function fails, every socket it opened has been closed once and the endpoint is as it
was; when it succeeds, two sockets remain, and they are those of the endpoint. -/
structure NoLeak (ep : UdpEndpoint) (r : UdpOutcome) : Prop where
  ret : r.ret = -1 ∨ r.ret = 0
  failed : r.ret = -1 → r.ep = ep ∧
    ∀ fd < r.sockets.ledger.acquired, r.sockets.ledger.released.count fd = 1
  connected : r.ret = 0 → ∃ addr port rtp rtcp, r.ep.trans = .udp addr port rtp rtcp ∧ rtp ≠ rtcp ∧
    rtp < r.sockets.ledger.acquired ∧ rtcp < r.sockets.ledger.acquired ∧
    ∀ fd < r.sockets.ledger.acquired,
      r.sockets.ledger.released.count fd = if fd = rtp ∨ fd = rtcp then 0 else 1

section Rounds

variable (calls : UdpCalls) (range : RtpRange)

/-- The port that the round `i` tries. -/
def roundPort : ℕ → ℤ
  | 0 => wrapPort range (firstPort calls range)
  | i + 1 => wrapPort range (roundPort i + 2)

/-- In the round `i` the port for RTP is free and the one for RTCP is in use. -/
def RtcpTaken (i : ℕ) : Prop :=
  calls.rtpBind i (roundPort calls range i) = .bound ∧
    calls.rtcpBind i (roundPort calls range i + 1) = .inUse

/-- In the round `i` one of the ports is in use. -/
def Taken (i : ℕ) : Prop :=
  calls.rtpBind i (roundPort calls range i) = .inUse ∨ RtcpTaken calls range i

/-- The round `i` opens a socket for RTP: it is the first one, or the one before it closed its own. -/
def OpensRtp : ℕ → Prop
  | 0 => True
  | i + 1 => RtcpTaken calls range i

/-- The sockets that the round `i` opens can be opened. -/
def SocketsOpen (i : ℕ) : Prop :=
  (OpensRtp calls range i → calls.rtpSocket i = true) ∧ (i = 0 → calls.rtcpSocket i = true)

/-- The round `i` leads on to the next one. -/
def GoesOn (i : ℕ) : Prop := SocketsOpen calls range i ∧ Taken calls range i

/-- The search ends before the tries run out, and not because a round behind the first one cannot
open its socket. -/
def StopsCleanly : Prop :=
  ∃ i < maxTries range, (∀ j < i, GoesOn calls range j) ∧ ¬ GoesOn calls range i ∧
    (i ≠ 0 → SocketsOpen calls range i)

/-- The same from the round `i` on, for the next `n` tries. -/
def StopsWithin : ℕ → ℕ → Prop
  | 0, _ => False
  | n + 1, i => GoesOn calls range i ∧ StopsWithin n (i + 1) ∨
      ¬ GoesOn calls range i ∧ (i ≠ 0 → SocketsOpen calls range i)

/-- The descriptors at the beginning of the round `i`. -/
inductive Ready : ℕ → Option ℕ → Option ℕ → Ledger → Prop
  | first {s : Ledger} : s.Outstanding [] → Ready 0 none none s
  | kept {s : Ledger} {i rtp rtcp : ℕ} : ¬ RtcpTaken calls range i → s.Outstanding [rtp, rtcp] →
      Ready (i + 1) (some rtp) (some rtcp) s
  | closed {s : Ledger} {i rtcp : ℕ} : RtcpTaken calls range i → s.Outstanding [rtcp] →
      Ready (i + 1) none (some rtcp) s

end Rounds

section Leak

variable {calls : UdpCalls} {range : RtpRange} {i : ℕ} {rtpfd rtcpfd : Option ℕ} {s : UdpSockets}

/-- The sockets of a round that can open them. -/
theorem Ready.sockets (h : Ready calls range i rtpfd rtcpfd s.ledger)
    (hopen : SocketsOpen calls range i) :
    ∃ s₁ s₂ rtp rtcp, s.socket rtpfd (calls.rtpSocket i) = (s₁, some rtp) ∧
      s₁.socket rtcpfd (calls.rtcpSocket i) = (s₂, some rtcp) ∧
        s₂.ledger.Outstanding [rtp, rtcp] := by
  cases h with
  | first h =>
    rw [hopen.1 trivial, hopen.2 rfl]
    exact ⟨_, _, _, _, rfl, rfl, h.acquire.acquire.swap⟩
  | kept _ h => exact ⟨_, _, _, _, rfl, rfl, h⟩
  | closed htaken h =>
    rw [hopen.1 htaken]
    exact ⟨_, _, _, _, rfl, rfl, h.acquire⟩

/-- A round with its sockets. -/
theorem Ready.round (h : Ready calls range i rtpfd rtcpfd s.ledger)
    (hopen : SocketsOpen calls range i) :
    (Taken calls range i ∧ ∃ s' rtpfd' rtcpfd',
      udpRound calls i (roundPort calls range i) rtpfd rtcpfd s = (s', .again rtpfd' rtcpfd') ∧
        Ready calls range (i + 1) rtpfd' rtcpfd' s'.ledger) ∨
    (¬ Taken calls range i ∧
      ((∃ s' why, udpRound calls i (roundPort calls range i) rtpfd rtcpfd s = (s', .failed why) ∧
        s'.ledger.Outstanding []) ∨
      ∃ s' rtp rtcp, udpRound calls i (roundPort calls range i) rtpfd rtcpfd s =
        (s', .bound rtp rtcp) ∧ s'.ledger.Outstanding [rtp, rtcp])) := by
  obtain ⟨s₁, s₂, rtp, rtcp, h₁, h₂, hs⟩ := h.sockets hopen
  have hnone : ((s₂.close rtp).close rtcp).ledger.Outstanding [] := hs.release.release
  unfold udpRound Taken RtcpTaken
  rw [h₁]
  dsimp only
  rw [h₂]
  dsimp only
  rcases hrtp : calls.rtpBind i (roundPort calls range i) with _ | _ | _
  · rcases hrtcp : calls.rtcpBind i (roundPort calls range i + 1) with _ | _ | _
    · exact .inr ⟨by simp, .inr ⟨_, _, _, rfl, hs⟩⟩
    · exact .inl ⟨by simp, _, _, _, rfl, .closed ⟨hrtp, hrtcp⟩ hs.release⟩
    · exact .inr ⟨by simp, .inl ⟨_, _, rfl, hs.release.release⟩⟩
  · refine .inl ⟨by simp, _, _, _, rfl, .kept ?_ hs⟩
    rintro ⟨hbound, -⟩
    rw [hrtp] at hbound
    cases hbound
  · exact .inr ⟨by simp, .inl ⟨_, _, rfl, hnone⟩⟩

/-- The first round without its sockets closes what it opened, and a later one does not. -/
theorem Ready.noSockets (h : Ready calls range i rtpfd rtcpfd s.ledger)
    (hopen : ¬ SocketsOpen calls range i) (port : ℤ) :
    ∃ s' why, udpRound calls i port rtpfd rtcpfd s = (s', .failed why) ∧
      ((i = 0 ∧ s'.ledger.Outstanding []) ∨ (i ≠ 0 ∧ ∃ k, s'.ledger.Outstanding [k])) := by
  unfold udpRound
  cases h with
  | first h =>
    rcases hrtp : calls.rtpSocket 0 with _ | _
    · exact ⟨_, _, rfl, .inl ⟨rfl, h⟩⟩
    · rcases hrtcp : calls.rtcpSocket 0 with _ | _
      · exact ⟨_, _, rfl, .inl ⟨rfl, h.acquire.release⟩⟩
      · exact absurd ⟨fun _ => hrtp, fun _ => hrtcp⟩ hopen
  | kept htaken _ => exact absurd ⟨fun h => absurd h htaken, fun h => absurd h (by simp)⟩ hopen
  | @closed _ i rtcp htaken h =>
    rcases hrtp : calls.rtpSocket (i + 1) with _ | _
    · exact ⟨_, _, rfl, .inr ⟨by simp, rtcp, h⟩⟩
    · exact absurd ⟨fun _ => hrtp, fun h => absurd h (by simp)⟩ hopen

/-- The round in which the search ends. -/
theorem stopsWithin_iff (n i : ℕ) :
    StopsWithin calls range n i ↔ ∃ k < n, (∀ j < k, GoesOn calls range (i + j)) ∧
      ¬ GoesOn calls range (i + k) ∧ (i + k ≠ 0 → SocketsOpen calls range (i + k)) := by
  induction n generalizing i with
  | zero => simp [StopsWithin]
  | succ n ih =>
    rw [StopsWithin, ih]
    constructor
    · rintro (⟨hon, k, hk, hbefore, hstop⟩ | hstop)
      · refine ⟨k + 1, Nat.succ_lt_succ hk, fun j hj => ?_, ?_⟩
        · cases j with
          | zero => exact hon
          | succ j =>
            rw [Nat.add_comm j 1, ← Nat.add_assoc]
            exact hbefore j (Nat.lt_of_succ_lt_succ hj)
        · rw [Nat.add_comm k 1, ← Nat.add_assoc]
          exact hstop
      · exact ⟨0, Nat.succ_pos n, fun j hj => absurd hj (Nat.not_lt_zero j), hstop⟩
    · rintro ⟨k, hk, hbefore, hstop⟩
      cases k with
      | zero => exact .inr hstop
      | succ k =>
        refine .inl ⟨hbefore 0 (Nat.succ_pos k), k, Nat.lt_of_succ_lt_succ hk, fun j hj => ?_, ?_⟩
        · rw [Nat.add_assoc, Nat.add_comm 1 j]
          exact hbefore (j + 1) (Nat.succ_lt_succ hj)
        · rw [Nat.add_assoc, Nat.add_comm 1 k]
          exact hstop

/-- The search from its first try on. -/
theorem stopsCleanly_iff :
    StopsCleanly calls range ↔ StopsWithin calls range (maxTries range) 0 := by
  rw [stopsWithin_iff]
  simp only [Nat.zero_add]
  exact Iff.rfl

/-- Behind the first round a socket is open. -/
theorem Ready.outstanding (h : Ready calls range i rtpfd rtcpfd s.ledger) (hi : i ≠ 0) :
    ∃ k l, s.ledger.Outstanding (k :: l) := by
  cases h with
  | first _ => exact absurd rfl hi
  | kept _ h => exact ⟨_, _, h⟩
  | closed _ h => exact ⟨_, _, h⟩

/-- The search ends with the two sockets it found, or with none, if it stops within its tries; else
it leaves one open. -/
theorem Ready.search (h : Ready calls range i rtpfd rtcpfd s.ledger) {n : ℕ} {port : ℤ}
    (hport : wrapPort range port = roundPort calls range i) (hn : n ≠ 0 ∨ i ≠ 0) :
    (StopsWithin calls range n i ∧
      ((∃ s' why, udpSearch calls range n i port rtpfd rtcpfd s = (s', .error why) ∧
        s'.ledger.Outstanding []) ∨
      ∃ s' p rtp rtcp, udpSearch calls range n i port rtpfd rtcpfd s = (s', .ok (p, rtp, rtcp)) ∧
        s'.ledger.Outstanding [rtp, rtcp])) ∨
    (¬ StopsWithin calls range n i ∧
      ∃ s' why k l, udpSearch calls range n i port rtpfd rtcpfd s = (s', .error why) ∧
        s'.ledger.Outstanding (k :: l)) := by
  induction n generalizing i rtpfd rtcpfd s port with
  | zero =>
    obtain ⟨k, l, hs⟩ := h.outstanding (hn.resolve_left (by simp))
    exact .inr ⟨id, s, _, k, l, rfl, hs⟩
  | succ n ih =>
    rw [udpSearch, StopsWithin, hport]
    by_cases hopen : SocketsOpen calls range i
    · rcases h.round hopen with ⟨htaken, s', rtpfd', rtcpfd', hround, hready⟩ | ⟨htaken, hround⟩
      · -- The next round.
        have hon : GoesOn calls range i := ⟨hopen, htaken⟩
        rw [hround]
        simp only [hon, true_and, not_true_eq_false, false_and, or_false]
        exact ih hready rfl (.inr (Nat.succ_ne_zero i))
      · have hon : ¬ GoesOn calls range i := fun hon => htaken hon.2
        refine .inl ⟨.inr ⟨hon, fun _ => hopen⟩, ?_⟩
        rcases hround with ⟨s', why, hround, hs⟩ | ⟨s', rtp, rtcp, hround, hs⟩ <;> rw [hround]
        · exact .inl ⟨_, _, rfl, hs⟩
        · exact .inr ⟨_, _, _, _, rfl, hs⟩
    · have hon : ¬ GoesOn calls range i := fun hon => hopen hon.1
      obtain ⟨s', why, hround, hs⟩ := h.noSockets hopen (roundPort calls range i)
      rw [hround]
      simp only [hon, false_and, false_or, not_false_eq_true, true_and]
      rcases hs with ⟨hi, hs⟩ | ⟨hi, k, hs⟩
      · exact .inl ⟨fun hne => absurd hi hne, .inl ⟨_, _, rfl, hs⟩⟩
      · exact .inr ⟨fun hstop => hopen (hstop hi), _, _, _, _, rfl, hs⟩

/-- A function that fails with a socket open loses it. -/
theorem not_noLeak {ep : UdpEndpoint} {r : UdpOutcome} {k : ℕ} {l : List ℕ}
    (hs : r.sockets.ledger.Outstanding (k :: l)) (hret : r.ret = -1) : ¬ NoLeak ep r := by
  intro h
  have hone := (h.failed hret).2 k (hs.acquired k List.mem_cons_self)
  rw [hs.never k (.inl List.mem_cons_self)] at hone
  cases hone

/-- A function that fails and has closed all sockets loses none. -/
theorem noLeak_failed {ep : UdpEndpoint} {s : UdpSockets} (hs : s.ledger.Outstanding [])
    (port : Option ℤ) (why : Option UdpFailure) : NoLeak ep ⟨s, ep, port, why, -1⟩ :=
  ⟨.inl rfl, fun _ => ⟨rfl, hs.all_released⟩, fun h => absurd h (show (-1 : ℤ) ≠ 0 by decide)⟩

/-- A function that succeeds and has stored the two sockets that are open loses none. -/
theorem noLeak_connected {ep : UdpEndpoint} {s : UdpSockets} {rtp rtcp : ℕ}
    (hs : s.ledger.Outstanding [rtp, rtcp]) (size : ℤ) (addr : Bytes) (sdpPort : ℤ)
    (port : Option ℤ) (why : Option UdpFailure) :
    NoLeak ep ⟨s, ⟨size, .udp addr sdpPort rtp rtcp⟩, port, why, 0⟩ := by
  refine ⟨.inr rfl, fun h => absurd h (show (0 : ℤ) ≠ -1 by decide),
    fun _ => ⟨addr, sdpPort, rtp, rtcp, rfl, ?_, hs.acquired rtp (by simp),
      hs.acquired rtcp (by simp), fun fd hfd => ?_⟩⟩
  · have := hs.nodup
    simpa using this
  · split_ifs with hmem
    · exact hs.never fd (.inl (by simpa using hmem))
    · exact hs.once fd hfd (by simpa using hmem)

end Leak

/-- **UDP sockets.** No socket is lost if and only if the search ends before its tries run out, and
not because it cannot open a socket for RTP in a round behind the first one. -/
theorem connectUdp_noLeak_iff (calls : UdpCalls) (range : RtpRange) (ep : UdpEndpoint) :
    NoLeak ep (connectUdpEndpoint calls range ep) ↔ StopsCleanly calls range := by
  have hpos : maxTries range ≠ 0 := by
    have := range.size
    unfold maxTries
    omega
  have hsearch := @Ready.search calls range 0 none none .none (.first Ledger.outstanding_empty)
    (maxTries range) (firstPort calls range) rfl (.inl hpos)
  rw [← stopsCleanly_iff] at hsearch
  rcases hsearch with ⟨hstop, ⟨s, why, hrun, hs⟩ | ⟨s, p, rtp, rtcp, hrun, hs⟩⟩ |
    ⟨hstop, s, why, k, l, hrun, hs⟩
  · have hresult : connectUdpEndpoint calls range ep = ⟨s, ep, none, some why, -1⟩ := by
      simp [connectUdpEndpoint, hrun]
    rw [hresult]
    exact iff_of_true (noLeak_failed hs _ _) hstop
  · apply iff_of_true _ hstop
    have hnone : ((s.close rtp).close rtcp).ledger.Outstanding [] := hs.release.release
    have hresult : (∃ why, connectUdpEndpoint calls range ep =
        ⟨(s.close rtp).close rtcp, ep, none, some why, -1⟩) ∨
        ∃ addr port, connectUdpEndpoint calls range ep =
          ⟨s, ⟨1400, .udp addr port rtp rtcp⟩, some p, none, 0⟩ := by
      simp only [connectUdpEndpoint, hrun]
      split
      · exact .inl ⟨_, rfl⟩
      · split
        · exact .inl ⟨_, rfl⟩
        · split
          · exact .inl ⟨_, rfl⟩
          · exact .inr ⟨_, _, rfl⟩
    rcases hresult with ⟨why, hresult⟩ | ⟨addr, port, hresult⟩ <;> rw [hresult]
    · exact noLeak_failed hnone _ _
    · exact noLeak_connected hs _ _ _ _ _
  · have hresult : connectUdpEndpoint calls range ep = ⟨s, ep, none, some why, -1⟩ := by
      simp [connectUdpEndpoint, hrun]
    rw [hresult]
    exact iff_of_false (not_noLeak hs rfl) hstop

/-- The calls when the same error comes back from every `bind` of a port for RTCP; the socket for
RTP can be opened in the first rounds only. -/
def rtcpInUse (rounds : ℕ) : UdpCalls where
  random := 0
  rtpSocket i := i < rounds
  rtcpSocket _ := true
  rtpBind _ _ := .bound
  rtcpBind _ _ := .inUse
  rtpConnect := true
  rtcpConnect := true
  getsockname := none

/-- Where no pair of ports is free the socket for RTCP is left open, and so it is where the second
socket for RTP cannot be opened. -/
theorem connectUdp_leaks :
    ¬ NoLeak ⟨8192, .other⟩ (connectUdpEndpoint (rtcpInUse 100) ⟨5000, 5007, by decide, by decide⟩
      ⟨8192, .other⟩) ∧
    ¬ NoLeak ⟨8192, .other⟩ (connectUdpEndpoint (rtcpInUse 1) ⟨5000, 5007, by decide, by decide⟩
      ⟨8192, .other⟩) := by
  have hleaks : ∀ r : UdpOutcome, r.ret = -1 → 1 < r.sockets.ledger.acquired →
      r.sockets.ledger.released.count 1 = 0 → ¬ NoLeak ⟨8192, .other⟩ r := by
    intro r hret hopened hcount h
    rw [(h.failed hret).2 1 hopened] at hcount
    cases hcount
  exact ⟨hleaks _ (by decide +kernel) (by decide +kernel) (by decide +kernel),
    hleaks _ (by decide +kernel) (by decide +kernel) (by decide +kernel)⟩

end Spook
