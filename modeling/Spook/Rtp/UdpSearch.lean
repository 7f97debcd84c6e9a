import Spook.Rtp.Udp
import Mathlib.Data.Set.Basic

set_option relaxedAutoImplicit false
set_option autoImplicit false

/-!
# The search for two ports

The ports that the search tries are those of the pairs of the range, each of them once: it begins
at any pair, goes on to the next one, and from the last to the first.

## Main definitions

* `Spook.UdpCalls.Usual` — the calls when certain ports are in use.
* `Spook.FreePair` — two ports that are free.

## Main results

* `Spook.connectUdp_complete` — two free ports are found if there are any.
-/

namespace Spook

/-- The calls succeed, but for `bind` of a port that is in use. -/
structure UdpCalls.Usual (calls : UdpCalls) (used : Set ℤ) : Prop where
  rtpSocket : ∀ i, calls.rtpSocket i = true
  rtcpSocket : ∀ i, calls.rtcpSocket i = true
  rtpBind : ∀ i p, (p ∈ used → calls.rtpBind i p = .inUse) ∧ (p ∉ used → calls.rtpBind i p = .bound)
  rtcpBind : ∀ i p, (p ∈ used → calls.rtcpBind i p = .inUse) ∧
    (p ∉ used → calls.rtcpBind i p = .bound)
  rtpConnect : calls.rtpConnect = true
  rtcpConnect : calls.rtcpConnect = true
  getsockname : ∃ addr port, calls.getsockname = some (addr, port)

/-- An even port `p` and the next one are in the range and free. -/
structure FreePair (first last : ℤ) (used : Set ℤ) (p : ℤ) : Prop where
  even : p % 2 = 0
  first_le : first ≤ p
  le_last : p + 1 ≤ last
  rtp : p ∉ used
  rtcp : p + 1 ∉ used

section Search

variable {calls : UdpCalls} {range : RtpRange} {used : Set ℤ}

/-- The number of pairs in the range. -/
theorem maxTries_bounds (range : RtpRange) :
    2 * (maxTries range : ℤ) ≤ range.portEnd - range.portStart + 1 ∧
      range.portEnd - range.portStart + 1 < 2 * (maxTries range : ℤ) + 2 ∧ 0 < maxTries range := by
  have := range.size
  unfold maxTries
  omega

/-- The port of the pair `q` of the range. -/
def pairPort (range : RtpRange) (q : ℕ) : ℤ := range.portStart + 2 * q

/-- The next pair is two ports on. -/
theorem pairPort_succ (range : RtpRange) (q : ℕ) :
    pairPort range q + 2 = pairPort range (q + 1) := by
  unfold pairPort
  omega

/-- Behind the last pair the first one follows. -/
theorem wrapPort_pairPort {q : ℕ} (hq : q ≤ maxTries range) :
    wrapPort range (pairPort range q) = pairPort range (q % maxTries range) := by
  obtain ⟨hle, hlt, hpos⟩ := maxTries_bounds range
  unfold wrapPort pairPort
  by_cases hend : q = maxTries range
  · rw [if_pos (by omega), hend, Nat.mod_self]
    simp
  · rw [if_neg (by omega), Nat.mod_eq_of_lt (by omega)]

/-- The search begins at a pair, or just behind the last one. -/
theorem firstPort_eq (calls : UdpCalls) (range : RtpRange) :
    ∃ q ≤ maxTries range, firstPort calls range = pairPort range q := by
  obtain ⟨hle, hlt, hpos⟩ := maxTries_bounds range
  have hsize := range.size
  have heven := range.even
  obtain ⟨m, hm, hlast⟩ : ∃ m : ℕ,
      (calls.random : ℤ) % (range.portEnd - range.portStart) = m ∧
        (m : ℤ) < range.portEnd - range.portStart := by
    have h₀ := Int.emod_nonneg (calls.random : ℤ)
      (show range.portEnd - range.portStart ≠ 0 by omega)
    have h₁ := Int.emod_lt_of_pos (calls.random : ℤ)
      (show 0 < range.portEnd - range.portStart by omega)
    exact ⟨_, (Int.toNat_of_nonneg h₀).symm, by rwa [Int.toNat_of_nonneg h₀]⟩
  refine ⟨(m + 1) / 2, by omega, ?_⟩
  unfold firstPort pairPort
  dsimp only
  rw [hm]
  split_ifs with hodd <;> omega

/-- The ports of the pair `q` are free. -/
def PairFree (range : RtpRange) (used : Set ℤ) (q : ℕ) : Prop :=
  pairPort range q ∉ used ∧ pairPort range q + 1 ∉ used

/-- A socket is there when the calls succeed. -/
theorem socket_usual (s : UdpSockets) (fd : Option ℕ) :
    ∃ s' k, s.socket fd true = (s', some k) ∧ s'.bound = s.bound := by
  cases fd with
  | some k => exact ⟨s, k, rfl, rfl⟩
  | none => exact ⟨_, _, rfl, rfl⟩

/-- A round at ports that are free ends the search, and one at others does not. -/
theorem udpRound_usual (h : calls.Usual used) (i : ℕ) (q : ℕ) (rtpfd rtcpfd : Option ℕ)
    (s : UdpSockets) :
    (PairFree range used q → ∃ s' rtp rtcp,
      udpRound calls i (pairPort range q) rtpfd rtcpfd s = (s', .bound rtp rtcp) ∧
        (rtp, pairPort range q) ∈ s'.bound ∧ (rtcp, pairPort range q + 1) ∈ s'.bound) ∧
    (¬ PairFree range used q → ∃ s' rtpfd' rtcpfd',
      udpRound calls i (pairPort range q) rtpfd rtcpfd s = (s', .again rtpfd' rtcpfd')) := by
  obtain ⟨s₁, rtp, h₁, -⟩ := socket_usual s rtpfd
  obtain ⟨s₂, rtcp, h₂, -⟩ := socket_usual s₁ rtcpfd
  unfold udpRound
  rw [h.rtpSocket, h.rtcpSocket, h₁]
  dsimp only
  rw [h₂]
  dsimp only
  constructor
  · rintro ⟨hrtp, hrtcp⟩
    rw [(h.rtpBind i _).2 hrtp, (h.rtcpBind i _).2 hrtcp]
    exact ⟨_, _, _, rfl, by simp [UdpSockets.bind], by simp [UdpSockets.bind]⟩
  · intro hfree
    by_cases hrtp : pairPort range q ∈ used
    · rw [(h.rtpBind i _).1 hrtp]
      exact ⟨_, _, _, rfl⟩
    · have hrtcp : pairPort range q + 1 ∈ used := by
        by_contra hrtcp
        exact hfree ⟨hrtp, hrtcp⟩
      rw [(h.rtpBind i _).2 hrtp, (h.rtcpBind i _).1 hrtcp]
      exact ⟨_, _, _, rfl⟩

/-- The search with `n` tries, from the pair `q` on: it ends at one of the next `n` pairs that is
free, or all of them are taken. -/
theorem udpSearch_usual (h : calls.Usual used) {n i q : ℕ} (hq : q ≤ maxTries range)
    (rtpfd rtcpfd : Option ℕ) (s : UdpSockets) :
    (∃ k < n, PairFree range used ((q + k) % maxTries range) ∧ ∃ s' rtp rtcp,
      udpSearch calls range n i (pairPort range q) rtpfd rtcpfd s =
        (s', .ok (pairPort range ((q + k) % maxTries range), rtp, rtcp)) ∧
      (rtp, pairPort range ((q + k) % maxTries range)) ∈ s'.bound ∧
      (rtcp, pairPort range ((q + k) % maxTries range) + 1) ∈ s'.bound) ∨
    ((∀ k < n, ¬ PairFree range used ((q + k) % maxTries range)) ∧
      ∃ s', udpSearch calls range n i (pairPort range q) rtpfd rtcpfd s = (s', .error .ranOut)) := by
  induction n generalizing i q rtpfd rtcpfd s with
  | zero => exact .inr ⟨fun k hk => absurd hk (Nat.not_lt_zero k), s, rfl⟩
  | succ n ih =>
    have hpos := (maxTries_bounds range).2.2
    have hwrap := wrapPort_pairPort hq
    obtain ⟨hfree, htaken⟩ :=
      @udpRound_usual calls range used h i (q % maxTries range) rtpfd rtcpfd s
    by_cases hpair : PairFree range used (q % maxTries range)
    · obtain ⟨s', rtp, rtcp, hround, hrtp, hrtcp⟩ := hfree hpair
      refine .inl ⟨0, Nat.succ_pos n, hpair, s', rtp, rtcp, ?_, hrtp, hrtcp⟩
      rw [udpSearch, hwrap, hround]
      rfl
    · obtain ⟨s', rtpfd', rtcpfd', hround⟩ := htaken hpair
      have hshift : ∀ k, (q % maxTries range + 1 + k) % maxTries range =
          (q + (k + 1)) % maxTries range := by
        intro k
        rw [Nat.add_assoc, Nat.mod_add_mod, Nat.add_comm 1 k]
      have hsearch : udpSearch calls range (n + 1) i (pairPort range q) rtpfd rtcpfd s =
          udpSearch calls range n (i + 1) (pairPort range (q % maxTries range + 1)) rtpfd' rtcpfd'
            s' := by
        rw [udpSearch, hwrap, hround, ← pairPort_succ]
      rw [hsearch]
      rcases @ih (i + 1) (q % maxTries range + 1) (Nat.mod_lt q hpos) rtpfd' rtcpfd' s' with
        ⟨k, hk, hrest⟩ | ⟨hall, hrest⟩
      · rw [hshift] at hrest
        exact .inl ⟨k + 1, Nat.succ_lt_succ hk, hrest⟩
      · refine .inr ⟨fun k hk => ?_, hrest⟩
        cases k with
        | zero => exact hpair
        | succ k =>
          rw [← hshift]
          exact hall k (Nat.lt_of_succ_lt_succ hk)

/-- From any pair on all pairs are met within as many steps as there are pairs. -/
theorem exists_step (q : ℕ) {j m : ℕ} (hj : j < m) : ∃ k < m, (q + k) % m = j := by
  refine ⟨(j + (m - q % m)) % m, Nat.mod_lt _ (by omega), ?_⟩
  have hlt := Nat.mod_lt q (show 0 < m by omega)
  rw [Nat.add_mod_mod, ← Nat.mod_add_mod]
  have hsum : q % m + (j + (m - q % m)) = j + m := by omega
  rw [hsum, Nat.add_mod_right, Nat.mod_eq_of_lt hj]

end Search

/-- The range that a directive sets has the same pairs as the one it names. -/
theorem configRtprange_pairs {first last : ℤ} {range : RtpRange}
    (h : configRtprange first last = some range) {p : ℤ} (hp : p % 2 = 0) :
    (first ≤ p ↔ range.portStart ≤ p) ∧ (p + 1 ≤ last ↔ p + 1 ≤ range.portEnd) := by
  unfold configRtprange at h
  dsimp only at h
  split_ifs at h <;> obtain rfl := Option.some.inj h <;> dsimp only <;> omega

/-- **UDP ports.** In the default range and in every one that `config_rtprange` accepts, whatever the
search begins with and whatever ports are in use, the endpoint is connected at two free ports if
there are any, and the search runs out of ports if there are none.

**Proof sketch.** The pairs of the range are the places of a circle that the search goes around
once, from a random one on (`udpSearch_usual`). So it stops at a pair that is free, which is in the
range as configured because the ends that are cut off hold no pair; or it has seen all of them. -/
theorem connectUdp_complete {first last : ℤ} {range : RtpRange}
    (hrange : (first = 50000 ∧ last = 60000 ∧ range = defaultRtpRange) ∨
      configRtprange first last = some range)
    {calls : UdpCalls} {used : Set ℤ} (h : calls.Usual used) (ep : UdpEndpoint) :
    ((∃ p, FreePair first last used p) → ∃ p, FreePair first last used p ∧
      ∃ addr port rtp rtcp,
        (connectUdpEndpoint calls range ep).ret = 0 ∧
        (connectUdpEndpoint calls range ep).ourPort = some p ∧
        (connectUdpEndpoint calls range ep).ep.trans = .udp addr port rtp rtcp ∧
        (rtp, p) ∈ (connectUdpEndpoint calls range ep).sockets.bound ∧
        (rtcp, p + 1) ∈ (connectUdpEndpoint calls range ep).sockets.bound) ∧
    ((¬ ∃ p, FreePair first last used p) →
      (connectUdpEndpoint calls range ep).ret = -1 ∧
        (connectUdpEndpoint calls range ep).log = some .ranOut) := by
  have hpairs : ∀ {p : ℤ}, p % 2 = 0 →
      ((first ≤ p ↔ range.portStart ≤ p) ∧ (p + 1 ≤ last ↔ p + 1 ≤ range.portEnd)) := by
    rcases hrange with ⟨rfl, rfl, rfl⟩ | hconf
    · exact fun _ => ⟨Iff.rfl, Iff.rfl⟩
    · exact configRtprange_pairs hconf
  obtain ⟨hle, hlt, hpos⟩ := maxTries_bounds range
  have heven := range.even
  have hpair : ∀ j < maxTries range, PairFree range used j →
      FreePair first last used (pairPort range j) := by
    intro j hj hfree
    have hmod : pairPort range j % 2 = 0 := by
      unfold pairPort
      omega
    refine ⟨hmod, (hpairs hmod).1.2 ?_, (hpairs hmod).2.2 ?_, hfree.1, hfree.2⟩ <;>
      unfold pairPort <;> omega
  have hindex : ∀ p, FreePair first last used p →
      ∃ j < maxTries range, PairFree range used j ∧ p = pairPort range j := by
    rintro p ⟨hmod, hfirst, hlast, hrtp, hrtcp⟩
    rw [(hpairs hmod).1] at hfirst
    rw [(hpairs hmod).2] at hlast
    have hp : p = pairPort range ((p - range.portStart) / 2).toNat := by
      unfold pairPort
      omega
    exact ⟨_, by omega, ⟨by rwa [← hp], by rwa [← hp]⟩, hp⟩
  obtain ⟨q, hq, hfirstPort⟩ := firstPort_eq calls range
  have hsearch := @udpSearch_usual calls range used h (maxTries range) 0 q hq none none .none
  rw [← hfirstPort] at hsearch
  obtain ⟨addr, port, hname⟩ := h.getsockname
  rcases hsearch with ⟨k, hk, hfree, s', rtp, rtcp, hrun, hrtp, hrtcp⟩ | ⟨hall, s', hrun⟩
  · have hfreePair := hpair _ (Nat.mod_lt _ hpos) hfree
    have hresult : connectUdpEndpoint calls range ep = ⟨s', ⟨1400, .udp addr port rtp rtcp⟩,
        some (pairPort range ((q + k) % maxTries range)), none, 0⟩ := by
      simp [connectUdpEndpoint, hrun, h.rtpConnect, h.rtcpConnect, hname]
    rw [hresult]
    exact ⟨fun _ => ⟨_, hfreePair, addr, port, rtp, rtcp, rfl, rfl, rfl, hrtp, hrtcp⟩,
      fun hnone => absurd ⟨_, hfreePair⟩ hnone⟩
  · have hresult : connectUdpEndpoint calls range ep = ⟨s', ep, none, some .ranOut, -1⟩ := by
      simp [connectUdpEndpoint, hrun]
    rw [hresult]
    refine ⟨?_, fun _ => ⟨rfl, rfl⟩⟩
    rintro ⟨p, hp⟩
    obtain ⟨j, hj, hfree, -⟩ := hindex p hp
    obtain ⟨k, hk, hkj⟩ := exists_step q hj
    exact absurd (hkj ▸ hfree) (hall k hk)

/-- The calls when certain ports are in use, with the address of the socket. -/
def usualCalls (random : ℕ) (used : List ℤ) : UdpCalls where
  random := random
  rtpSocket _ := true
  rtcpSocket _ := true
  rtpBind _ p := if p ∈ used then .inUse else .bound
  rtcpBind _ p := if p ∈ used then .inUse else .bound
  rtpConnect := true
  rtcpConnect := true
  getsockname := some (str "10.0.0.1", 50000)

/-- Calls that find some ports in use. -/
theorem usualCalls_usual (random : ℕ) (used : List ℤ) :
    (usualCalls random used).Usual {p | p ∈ used} := by
  refine ⟨fun _ => rfl, fun _ => rfl, fun i p => ⟨fun h => ?_, fun h => ?_⟩,
    fun i p => ⟨fun h => ?_, fun h => ?_⟩, rfl, rfl, _, _, rfl⟩
  · exact if_pos h
  · exact if_neg h
  · exact if_pos h
  · exact if_neg h

/-- A range of eight ports of which only the last two are free. -/
theorem connectUdp_complete_last :
    ∃ p, FreePair 5003 5012 {p | p ∈ [5004, 5007, 5008]} p ∧ ∃ addr port rtp rtcp,
      let r := connectUdpEndpoint (usualCalls 0 [5004, 5007, 5008]) ⟨5004, 5011, by decide, by decide⟩
        ⟨8192, .other⟩
      r.ret = 0 ∧ r.ourPort = some p ∧ r.ep.trans = .udp addr port rtp rtcp ∧
        (rtp, p) ∈ r.sockets.bound ∧ (rtcp, p + 1) ∈ r.sockets.bound :=
  (@connectUdp_complete 5003 5012 _ (.inr rfl) _ _ (usualCalls_usual 0 [5004, 5007, 5008])
    ⟨8192, .other⟩).1 ⟨5010, by decide, by decide, by decide, by simp, by simp⟩

end Spook
