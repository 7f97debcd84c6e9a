import Spook.Lib.Serial
import Spook.Rtp.Wire

set_option relaxedAutoImplicit false
set_option autoImplicit false

/-!
# H.264 over a network

The frames of a stream of H.264 are sent by UDP, through a socket that may refuse any datagram, over a
network that may lose, repeat and reorder them. A receiver puts the packets in order, drops NAL units
of which a packet is missing, and gets exactly the frames all of whose packets arrived.

## Main definitions

* `Spook.h264Stream` — the frames of a stream, as they are processed and sent to one endpoint.
* `Spook.Offer`, `Offer.whole` — a frame that was passed to `h264_send`, and what became of it.
* `Spook.h264Receiver` — the receiver.

## Main results

* `Spook.h264_network` — what the receiver gets.

## Notes on the design

The network is any list of arrivals, each with the place of its packet in the stream. The receiver
knows only the packets; that it can tell their places is the sequence number, as long as arrivals
are less than half of its range apart. Then a receiver of packets is one of places, which is what
the induction is about.
-/

namespace Spook

/-! ## The sender -/

/-- A frame that was passed to `h264_send`: what was made of it, the value of `h264_send`, and which
of the datagrams that the socket took belong to it. -/
structure Offer where
  timestamp : ℕ
  unit : Bytes
  ret : ℤ
  first : ℕ
  last : ℕ
  deriving DecidableEq

/-- All of the frame was sent, and all of it arrived. -/
def Offer.whole (A : ℕ → Bool) (o : Offer) : Bool :=
  o.ret = 0 && (List.range' o.first (o.last - o.first)).all A

/-- A frame of which this was made. -/
def Offer.Of (f : MediaFrame) (o : Offer) : Prop :=
  (∃ long, f.d = startCode long ++ o.unit) ∧ (f.timestamp ≠ 0 → o.timestamp = f.timestamp)

section Sender

variable (sendmsgOk : ℕ → Bool) (rtcpRet maxDataSize : ℤ)

/-- The frames of a stream, each with whether it is passed to `h264_send` for the endpoint when
`h264_process_frame` accepts it. -/
def h264Stream : List (MediaFrame × Bool) → RtpH264 → UdpLink →
    Except Fault (UdpLink × List Offer)
  | [], _, l => .ok (l, [])
  | (f, offered) :: fs, out, l => do
    let (out, ret) ← h264ProcessFrame f out
    if ret ≠ 0 ∧ offered then
      let (l₁, ret) ← h264Send maxDataSize out _ (sendUdp sendmsgOk rtcpRet) l
      let (l₂, log) ← h264Stream fs out l₁
      return (l₂, ⟨out.timestamp, out.d, ret, l.sent.length, l₁.sent.length⟩ :: log)
    else h264Stream fs out l

end Sender

/-- A frame that holds one NAL unit of a type that can be sent, behind a start code. -/
def IsFrame (f : MediaFrame) : Prop :=
  ∃ long b body, f.d = startCode long ++ b :: body ∧ 1 ≤ nalType b ∧ nalType b ≤ 23

section Hands

variable {maxDataSize : ℤ} {b : UInt8} {rest : Bytes}

/-- The loop of `h264_send` hands over the fragments of the bytes that are left. -/
theorem h264Fragments_hands {out : RtpH264} {c : ℕ} (hc : maxDataSize = c + 2) (hpos : 0 < c)
    (start : Bool) {n i : ℕ} (hi : out.d.drop i = rest) (hrest : rest ≠ []) (hn : rest.length < n) :
    ∃ ps, Fragments out.timestamp c (b &&& 0xE0 ||| 28) (b &&& 0x1F) start rest ps ∧
      Hands (fun σ send => h264Fragments maxDataSize out σ send n i (b &&& 0xE0 ||| 28)
        (fuHeader start (b &&& 0x1F))) ps := by
  induction n generalizing i start rest with
  | zero => exact absurd hn (Nat.not_lt_zero _)
  | succ n ih =>
    have hlength : 0 < rest.length := List.length_pos_iff.2 hrest
    have hsum : out.d.length = i + rest.length := by
      rw [← hi, List.length_drop] at hlength ⊢
      omega
    have hleft : (out.d.length : ℤ) - i = rest.length := by omega
    by_cases hlast : rest.length ≤ c
    · refine ⟨_, .last hlast, fun σ send s => ?_⟩
      obtain ⟨n, rfl⟩ := Nat.exists_eq_succ_of_ne_zero (by omega : n ≠ 0)
      have hplen : ∀ vhdr₁, h264Plen maxDataSize rest.length vhdr₁ =
          (↑rest.length, vhdr₁ ||| 0x40) := fun _ => if_neg (by omega)
      have hend : (rest.length : ℤ) + i = out.d.length := by omega
      simp only [h264Fragments, hleft, hplen, Int.toNat_natCast, hi, List.take_length, hend,
        decide_true, sendAll]
      have hdone : ¬ (i + rest.length : ℤ) < out.d.length := by omega
      rw [if_pos (by omega), if_neg (by omega), if_neg hdone]
      split_ifs <;> rfl
    · have hlt : c < rest.length := not_le.1 hlast
      have hdrop : out.d.drop (i + c) = rest.drop c := by rw [← hi, List.drop_drop]
      obtain ⟨ps, hps, hhands⟩ := ih false hdrop
        (List.ne_nil_of_length_pos (by rw [List.length_drop]; omega))
        (by rw [List.length_drop]; omega)
      refine ⟨_, .more hlt hps, fun σ send s => ?_⟩
      have hplen : ∀ vhdr₁, h264Plen maxDataSize rest.length vhdr₁ = (↑c, vhdr₁) := by
        intro vhdr₁
        unfold h264Plen
        rw [if_pos (by omega), hc, add_sub_cancel_right]
      have hmore : ((c : ℤ) + i = out.d.length) = False := by
        rw [eq_iff_iff, iff_false]
        omega
      have hrun := hhands σ send
      simp only [Nat.cast_add] at hrun
      simp only [h264Fragments, hleft, hplen, Int.toNat_natCast, hi, hmore, decide_false, sendAll]
      rw [if_pos (by omega), if_neg (by omega), fuHeader_clear]
      split_ifs
      · rfl
      · exact hrun _

/-- What `h264_send` hands over. -/
theorem h264Send_hands {out : RtpH264} {body : Bytes} (hd : out.d = b :: body)
    (hmax : 3 ≤ maxDataSize) :
    ∃ ps, Hands (h264Send maxDataSize out) ps ∧
      H264Packets maxDataSize out.timestamp b body ps := by
  by_cases hfits : (out.d.length : ℤ) ≤ maxDataSize
  · refine ⟨_, fun σ send s => ?_, .single (hd ▸ hfits)⟩
    unfold h264Send
    rw [if_neg (not_lt.2 hfits), hd]
    dsimp only [sendAll]
    split_ifs <;> rfl
  · obtain ⟨c, hc⟩ : ∃ c : ℕ, maxDataSize = c + 2 := ⟨(maxDataSize - 2).toNat, by omega⟩
    have hlength : out.d.length = body.length + 1 := by rw [hd, List.length_cons]
    have hlong : c < body.length := by omega
    have hdrop : out.d.drop 1 = body := by rw [hd]; rfl
    obtain ⟨ps, hps, hhands⟩ := h264Fragments_hands (b := b) hc (by omega) true
      (n := out.d.length) hdrop (List.ne_nil_of_length_pos (by omega)) (by omega)
    refine ⟨ps, fun σ send s => ?_, .fragments hc hlong hps⟩
    have hrun := hhands σ send s
    unfold h264Send
    rw [if_pos (by omega)]
    rw [hd] at hrun ⊢
    exact hrun

end Hands

/-! ## The receiver -/

/-- A payload arrives at the place `a`, when the beginning of a NAL unit is known whose next packet
has a certain place: what is known then, and the NAL unit that is complete. What does not continue the
NAL unit drops it. -/
def receiveAt (part : Option (ℤ × Bytes)) (a : ℤ) (payload : Bytes) :
    Option (ℤ × Bytes) × Option Bytes :=
  let known := (part.filter fun p => p.1 = a).map Prod.snd
  let (known, unit) :=
    ((receivePayload known payload).or (receivePayload none payload)).getD (none, none)
  (known.map fun u => (a + 1, u), unit)

/-- The NAL units of some payloads, with the timestamps of their last packets. -/
def receiveAll : Option (ℤ × Bytes) → List (ℤ × (ℕ × Bytes)) →
    Option (ℤ × Bytes) × List (ℕ × Bytes)
  | part, [] => (part, [])
  | part, (a, timestamp, payload) :: as =>
    let (part, unit) := receiveAt part a payload
    let (part, units) := receiveAll part as
    (part, unit.toList.map (fun u => (timestamp, u)) ++ units)

/-- What a receiver gets of some datagrams: NAL units and their timestamps. -/
def h264Receiver (datagrams : List Bytes) : List (ℕ × Bytes) :=
  (receiveAll none (reorder 65536 (datagrams.filterMap fun d =>
    (rtpParse d).map fun r => ((r.seqnum : ℤ), r.timestamp, r.data)))).2

section Receiver

variable {part : Option (ℤ × Bytes)} {a : ℤ} {b fu : UInt8} {unit body payload : Bytes}

/-- No packet that is still to come before the place `a` is expected. -/
def Behind (part : Option (ℤ × Bytes)) (a : ℤ) : Prop := ∀ p ∈ part, p.1 ≤ a

/-- What is behind a packet is behind every later one. -/
theorem Behind.mono (h : Behind part a) {a' : ℤ} (ha : a ≤ a') : Behind part a' :=
  fun p hp => (h p hp).trans ha

/-- A NAL unit in one packet is complete, whatever is known. -/
theorem receiveAt_single (htype : 1 ≤ nalType b ∧ nalType b ≤ 23) :
    receiveAt part a (b :: body) = (none, some (b :: body)) := by
  have hnone : receivePayload none (b :: body) = some (none, some (b :: body)) := by
    simp [receivePayload, htype]
  rcases hknown : (part.filter fun p => p.1 = a).map Prod.snd with _ | unit
  · simp [receiveAt, hknown, hnone]
  · have hsome : receivePayload (some unit) (b :: body) = none := by
      simp [receivePayload, htype]
    simp [receiveAt, hknown, hnone, hsome]

/-- The first fragment begins a NAL unit, whatever is known. -/
theorem receiveAt_start :
    receiveAt part a ((b &&& 0xE0 ||| 28) :: fuHeader true (b &&& 0x1F) :: payload) =
      (some (a + 1, b :: payload), none) := by
  have hstart := (fuStart_fuHeader b true).1
  have hend := (fuEnd_fuHeader b true).1
  have hnone : receivePayload none ((b &&& 0xE0 ||| 28) :: fuHeader true (b &&& 0x1F) :: payload) =
      some (some (b :: payload), none) := by
    unfold receivePayload
    dsimp only
    rw [nalType_indicator, if_neg (by decide), if_pos rfl, hstart, hend]
    dsimp only
    rw [header_split]
  rcases hknown : (part.filter fun p => p.1 = a).map Prod.snd with _ | unit
  · simp [receiveAt, hknown, hnone]
  · have hsome : receivePayload (some unit)
        ((b &&& 0xE0 ||| 28) :: fuHeader true (b &&& 0x1F) :: payload) = none := by
      unfold receivePayload
      dsimp only
      rw [nalType_indicator, if_neg (by decide), if_pos rfl, hstart]
    simp [receiveAt, hknown, hnone, hsome]

/-- A later fragment at its place continues the NAL unit. -/
theorem receiveAt_fragment (a : ℤ) (b : UInt8) (unit payload : Bytes) (hfu : fuStart fu = false) :
    receiveAt (some (a, unit)) a ((b &&& 0xE0 ||| 28) :: fu :: payload) =
      if fuEnd fu then (none, some (unit ++ payload)) else (some (a + 1, unit ++ payload), none) := by
  have hreceive : receivePayload (some unit) ((b &&& 0xE0 ||| 28) :: fu :: payload) = _ :=
    receivePayload_fragment payload hfu
  have hknown : (some (a, unit)).filter (fun p => p.1 = a) = some (a, unit) := by simp
  rcases hend : fuEnd fu <;> rw [hend] at hreceive <;> simp [receiveAt, hknown, hreceive]

/-- A later fragment at another place is dropped. -/
theorem receiveAt_lost (hpart : ∀ p ∈ part, p.1 ≠ a) (hfu : fuStart fu = false) :
    receiveAt part a ((b &&& 0xE0 ||| 28) :: fu :: payload) = (none, none) := by
  have hnone : receivePayload none ((b &&& 0xE0 ||| 28) :: fu :: payload) = none := by
    unfold receivePayload
    dsimp only
    rw [nalType_indicator, if_neg (by decide), if_pos rfl, hfu]
  have hknown : part.filter (fun p => p.1 = a) = none := by
    simpa [Option.filter_eq_none_iff] using hpart
  simp [receiveAt, hknown, hnone]

/-- The arrivals of two streams, one behind the other. -/
theorem arrived_append {α : Type} (A : ℕ → Bool) (c : ℤ) (i : ℕ) (xs ys : List α) :
    arrived A c i (xs ++ ys) = arrived A c i xs ++ arrived A c (i + xs.length) ys := by
  induction xs generalizing i with
  | nil => rfl
  | cons x xs ih =>
    rw [List.cons_append, arrived, arrived, ih, List.length_cons, Nat.add_right_comm, Nat.add_assoc]
    split_ifs <;> rfl

/-- The receiver goes on where it was. -/
theorem receiveAll_append (as bs : List (ℤ × (ℕ × Bytes))) :
    receiveAll part (as ++ bs) =
      ((receiveAll (receiveAll part as).1 bs).1,
        (receiveAll part as).2 ++ (receiveAll (receiveAll part as).1 bs).2) := by
  induction as generalizing part with
  | nil => rfl
  | cons p as ih =>
    obtain ⟨a, timestamp, payload⟩ := p
    simp only [List.cons_append, receiveAll, ih, List.append_assoc]

end Receiver

/-! ## The packets of a frame -/

/-- What the receiver is told of a packet. -/
def RtpClock.item (clock : RtpClock) (p : RtpPacket) : ℕ × Bytes :=
  (clock.lastTimestamp p.timestamp, p.payload)

/-- What the receiver makes of the packets `ps` that arrive of those from the place `c₀ + i` on. -/
def receiveArrived (clock : RtpClock) (A : ℕ → Bool) (c₀ : ℤ) (i : ℕ) (ps : List RtpPacket)
    (part : Option (ℤ × Bytes)) : Option (ℤ × Bytes) × List (ℕ × Bytes) :=
  receiveAll part (arrived A c₀ i (ps.map clock.item))

section Arrived

variable {clock : RtpClock} {A : ℕ → Bool} {c₀ : ℤ} {i j : ℕ} {p : RtpPacket} {ps : List RtpPacket}
  {part : Option (ℤ × Bytes)}

/-- Nothing has arrived. -/
@[simp] theorem receiveArrived_nil : receiveArrived clock A c₀ i [] part = (part, []) := rfl

/-- A packet that does not arrive. -/
theorem receiveArrived_miss (hA : A i = false) :
    receiveArrived clock A c₀ i (p :: ps) part = receiveArrived clock A c₀ (i + 1) ps part := by
  simp [receiveArrived, arrived, hA]

/-- A packet that arrives. -/
theorem receiveArrived_hit (hA : A i = true) {part' : Option (ℤ × Bytes)} {unit : Option Bytes}
    (h : receiveAt part (c₀ + i) p.payload = (part', unit)) :
    receiveArrived clock A c₀ i (p :: ps) part =
      ((receiveArrived clock A c₀ (i + 1) ps part').1,
        unit.toList.map (fun u => (clock.lastTimestamp p.timestamp, u)) ++
          (receiveArrived clock A c₀ (i + 1) ps part').2) := by
  simp [receiveArrived, arrived, hA, receiveAll, RtpClock.item, h]

variable {timestamp c : ℕ} {b : UInt8} {start : Bool} {rest unit body : Bytes} {maxDataSize : ℤ}

/-- A later fragment that arrives behind one that is missing. -/
theorem receiveArrived_lost (clock : RtpClock) (A : ℕ → Bool) (ps : List RtpPacket) {fu : UInt8}
    (payload : Bytes) (hp : p.payload = (b &&& 0xE0 ||| 28) :: fu :: payload)
    (hfu : fuStart fu = false) (hpart : ∀ q ∈ part, q.1 < c₀ + i) :
    ∃ part', (∀ q ∈ part', q.1 < c₀ + (i + 1 : ℕ)) ∧
      receiveArrived clock A c₀ i (p :: ps) part = receiveArrived clock A c₀ (i + 1) ps part' := by
  by_cases hA : A i = true
  · refine ⟨none, by simp, ?_⟩
    have hlost : receiveAt part (c₀ + i) ((b &&& 0xE0 ||| 28) :: fu :: payload) = (none, none) :=
      receiveAt_lost (fun q hq => (hpart q hq).ne) hfu
    rw [receiveArrived_hit hA (hp ▸ hlost)]
    rfl
  · refine ⟨part, fun q hq => ?_, receiveArrived_miss (by simpa using hA)⟩
    have := hpart q hq
    push_cast
    omega

/-- Fragments behind one that is missing give nothing. -/
theorem Fragments.arrived_lost
    (h : Fragments timestamp c (b &&& 0xE0 ||| 28) (b &&& 0x1F) start rest ps)
    (hstart : start = false) (hj : j ≤ ps.length) (hpart : ∀ q ∈ part, q.1 < c₀ + i) :
    (receiveArrived clock A c₀ i (ps.take j) part).2 = [] ∧
      Behind (receiveArrived clock A c₀ i (ps.take j) part).1 (c₀ + (i + j : ℕ)) := by
  have hnil : ∀ {i : ℕ} {part : Option (ℤ × Bytes)}, (∀ q ∈ part, q.1 < c₀ + i) →
      Behind part (c₀ + (i + 0 : ℕ)) := fun hpart q hq => (hpart q hq).le
  induction h generalizing i j part with
  | @last start rest _ =>
    subst hstart
    rcases j with _ | j
    · exact ⟨rfl, hnil hpart⟩
    · obtain ⟨part', hpart', hnext⟩ := receiveArrived_lost clock A []
        (p := ⟨_, timestamp, true⟩) rest rfl (fuStart_fuHeader b false).2 hpart
      obtain rfl : j = 0 := by simpa using hj
      rw [List.take_succ_cons, List.take_zero, hnext]
      exact ⟨rfl, fun q hq => (hpart' q hq).le⟩
  | @more start rest ps _ _ ih =>
    subst hstart
    rcases j with _ | j
    · exact ⟨rfl, hnil hpart⟩
    · obtain ⟨part', hpart', hnext⟩ := receiveArrived_lost clock A (ps.take j)
        (p := ⟨_, timestamp, false⟩) (rest.take c) rfl (fuStart_fuHeader b false).1 hpart
      rw [List.take_succ_cons, hnext, show i + (j + 1) = i + 1 + j by omega]
      exact ih rfl (by simpa using hj) hpart'

/-- Fragments behind a part of a NAL unit give the NAL unit if they are all there. -/
theorem Fragments.arrived
    (h : Fragments timestamp c (b &&& 0xE0 ||| 28) (b &&& 0x1F) start rest ps)
    (hstart : start = false) (hj : j ≤ ps.length) :
    (receiveArrived clock A c₀ i (ps.take j) (some (c₀ + i, unit))).2 =
        (if j = ps.length ∧ (List.range' i j).all A = true then
          [(clock.lastTimestamp timestamp, unit ++ rest)] else []) ∧
      Behind (receiveArrived clock A c₀ i (ps.take j) (some (c₀ + i, unit))).1 (c₀ + (i + j : ℕ)) := by
  have hbehind : ∀ {i j : ℕ} {unit : Bytes}, Behind (some (c₀ + i, unit)) (c₀ + (i + j : ℕ)) := by
    intro i j unit q hq
    obtain rfl := Option.some.inj hq
    push_cast
    omega
  induction h generalizing i j unit with
  | @last start rest _ =>
    subst hstart
    rcases j with _ | j
    · exact ⟨rfl, hbehind⟩
    · obtain rfl : j = 0 := by simpa using hj
      rw [List.take_succ_cons, List.take_zero]
      rcases hA : A i with _ | _
      · rw [receiveArrived_miss hA]
        exact ⟨by simp [hA], hbehind⟩
      · have hunit := receiveAt_fragment (c₀ + i) b unit rest (fuStart_fuHeader b false).2
        rw [(fuEnd_fuHeader b false).2, if_pos rfl] at hunit
        rw [receiveArrived_hit hA hunit]
        exact ⟨by simp [hA], by simp [Behind]⟩
  | @more start rest ps _ hps ih =>
    subst hstart
    rcases j with _ | j
    · exact ⟨rfl, hbehind⟩
    · have hj' : j ≤ ps.length := by simpa using hj
      rw [List.take_succ_cons, show i + (j + 1) = i + 1 + j by omega]
      rcases hA : A i with _ | _
      · have hmissed : ∀ q ∈ some (c₀ + (i : ℤ), unit), q.1 < c₀ + (i + 1 : ℕ) := by
          intro q hq
          obtain rfl := Option.some.inj hq
          push_cast
          omega
        obtain ⟨hnothing, hend⟩ := hps.arrived_lost rfl hj' hmissed
        rw [receiveArrived_miss hA, hnothing]
        exact ⟨by simp [hA, List.range'_succ], hend⟩
      · have hunit := receiveAt_fragment (c₀ + i) b unit (rest.take c) (fuStart_fuHeader b false).1
        rw [(fuEnd_fuHeader b false).1, if_neg (by decide)] at hunit
        have hplace : c₀ + (i : ℤ) + 1 = c₀ + (i + 1 : ℕ) := by
          push_cast
          omega
        obtain ⟨hrest, hend⟩ := @ih (i + 1) j (unit ++ rest.take c) rfl hj'
        rw [receiveArrived_hit hA hunit, hplace]
        have hall : (List.range' i (j + 1)).all A = (List.range' (i + 1) j).all A := by
          rw [List.range'_succ, List.all_cons, hA, Bool.true_and]
        refine ⟨?_, hend⟩
        rw [hrest, hall, List.append_assoc, List.take_append_drop]
        simp only [List.length_cons, Nat.add_right_cancel_iff]
        rfl

/-- **The packets of a frame** give its NAL unit if they were all sent and all arrive, and nothing
otherwise. -/
theorem H264Packets.arrived (clock : RtpClock) (A : ℕ → Bool)
    (h : H264Packets maxDataSize timestamp b body ps)
    (htype : 1 ≤ nalType b ∧ nalType b ≤ 23) (hj : j ≤ ps.length) (hpart : Behind part (c₀ + i)) :
    (receiveArrived clock A c₀ i (ps.take j) part).2 =
        (if j = ps.length ∧ (List.range' i j).all A = true then
          [(clock.lastTimestamp timestamp, b :: body)] else []) ∧
      Behind (receiveArrived clock A c₀ i (ps.take j) part).1 (c₀ + (i + j : ℕ)) := by
  have hnext : ∀ k : ℕ, Behind part (c₀ + (i + k : ℕ)) := fun k => hpart.mono (by push_cast; omega)
  cases h with
  | single _ =>
    rcases j with _ | j
    · exact ⟨rfl, hnext 0⟩
    · obtain rfl : j = 0 := by simpa using hj
      rw [List.take_succ_cons, List.take_zero]
      rcases hA : A i with _ | _
      · rw [receiveArrived_miss hA]
        exact ⟨by simp [hA], hnext 1⟩
      · rw [receiveArrived_hit hA (receiveAt_single htype)]
        exact ⟨by simp [hA], by simp [Behind]⟩
  | @fragments c ps _ hlong hps =>
    cases hps with
    | last hle => exact absurd hlong (not_lt.2 hle)
    | @more _ _ ps _ hps =>
      rcases j with _ | j
      · exact ⟨rfl, hnext 0⟩
      · have hj' : j ≤ ps.length := by simpa using hj
        rw [List.take_succ_cons, show i + (j + 1) = i + 1 + j by omega]
        rcases hA : A i with _ | _
        · have hmissed : ∀ q ∈ part, q.1 < c₀ + (i + 1 : ℕ) := by
            intro q hq
            have := hpart q hq
            push_cast
            omega
          obtain ⟨hnothing, hend⟩ := hps.arrived_lost rfl hj' hmissed
          rw [receiveArrived_miss hA, hnothing]
          exact ⟨by simp [hA, List.range'_succ], hend⟩
        · have hplace : c₀ + (i : ℤ) + 1 = c₀ + (i + 1 : ℕ) := by
            push_cast
            omega
          obtain ⟨hrest, hend⟩ := hps.arrived rfl hj' (i := i + 1)
          have hall : (List.range' i (j + 1)).all A = (List.range' (i + 1) j).all A := by
            rw [List.range'_succ, List.all_cons, hA, Bool.true_and]
          rw [receiveArrived_hit hA receiveAt_start, hplace]
          refine ⟨?_, hend⟩
          rw [hrest, hall, List.cons_append, List.take_append_drop]
          simp only [List.length_cons, Nat.add_right_cancel_iff]
          rfl

/-- The receiver goes on where it was. -/
theorem receiveArrived_append (qs : List RtpPacket) :
    (receiveArrived clock A c₀ i (ps ++ qs) part).2 =
      (receiveArrived clock A c₀ i ps part).2 ++
        (receiveArrived clock A c₀ (i + ps.length) qs (receiveArrived clock A c₀ i ps part).1).2 := by
  rw [receiveArrived, List.map_append, arrived_append, receiveAll_append, List.length_map]
  rfl

end Arrived

/-! ## The stream -/

section Stream

variable {sendmsgOk : ℕ → Bool} {rtcpRet maxDataSize : ℤ} {ep : RtpEndpoint} {ps : List RtpPacket}
  {l : UdpLink} {out : RtpH264} {frames : List (MediaFrame × Bool)}

/-- The scan for NAL units does not look at the parameter sets. -/
theorem h264Scan_initDone {f : MediaFrame} {out out' : RtpH264} {ret : ℤ} {is : List ℕ}
    (h : h264Scan f out is = .ok (out', ret)) : out'.initDone = out.initDone := by
  induction is with
  | nil =>
    cases h
    rfl
  | cons i is ih =>
    obtain ⟨b, -, h⟩ := bind_eq_ok.1 h
    by_cases h₁ : b = 1
    · rw [if_pos h₁] at h
      cases h
      rfl
    · rw [if_neg h₁] at h
      split_ifs at h
      · cases h
        rfl
      · exact ih h

/-- Frames do not change what is known of the parameter sets. -/
theorem h264ProcessFrame_initDone {f : MediaFrame} {out out' : RtpH264} {ret : ℤ}
    (h : h264ProcessFrame f out = .ok (out', ret)) : out'.initDone = out.initDone := by
  obtain ⟨b₀, -, h⟩ := bind_eq_ok.1 h
  split_ifs at h
  · cases h
    rfl
  obtain ⟨b₁, -, h⟩ := bind_eq_ok.1 h
  split_ifs at h
  · cases h
    rfl
  · exact h264Scan_initDone h

/-- Every packet was sent or refused. -/
theorem Linked.length (h : Linked rtcpRet ep ps l) : l.sent.length = ps.length := by
  simpa using congrArg List.length h.sent

/-- What the receiver gets of the frames that are still to be sent. -/
theorem h264Stream_spec (hmax : 3 ≤ maxDataSize) (hpayload : ep.payload < 128)
    (hframes : ∀ f ∈ frames, IsFrame f.1) (hinit : out.initDone = true)
    (h : Linked rtcpRet ep ps l) :
    ∃ l' log qs, h264Stream sendmsgOk rtcpRet maxDataSize frames out l = .ok (l', log) ∧
      List.Forall₂ Offer.Of ((frames.filter Prod.snd).map Prod.fst) log ∧
      Linked rtcpRet ep (ps ++ qs) l' ∧
      ∀ A c₀ part, Behind part (c₀ + ps.length) →
        (receiveArrived ep.clock A c₀ ps.length qs part).2 =
          (log.filter (Offer.whole A)).map fun o => (ep.clock.lastTimestamp o.timestamp, o.unit) := by
  induction frames generalizing ps l out with
  | nil => exact ⟨l, [], [], rfl, .nil, by simpa using h, fun _ _ _ _ => rfl⟩
  | cons f frames ih =>
    obtain ⟨⟨d, timestamp⟩, offered⟩ := f
    obtain ⟨long, b, body, hd, htype⟩ := hframes _ List.mem_cons_self
    have hrest : ∀ f ∈ frames, IsFrame f.1 := fun f hf => hframes f (List.mem_cons_of_mem _ hf)
    dsimp only at hd
    subst hd
    obtain ⟨out', hprocess, hd⟩ := h264ProcessFrame_startCode hinit timestamp long (b :: body)
    have hinit' : out'.initDone = true := (h264ProcessFrame_initDone hprocess).trans hinit
    rw [h264Stream, hprocess, ok_bind]
    dsimp only
    rcases offered with _ | _
    · simpa using ih hrest hinit' h
    · obtain ⟨qs, hhands, hqs⟩ := h264Send_hands hd hmax
      obtain ⟨j, hj, hlinked, hall⟩ := @sendAll_linked sendmsgOk _ _ _ _ hpayload qs h
      rw [if_pos ⟨one_ne_zero, rfl⟩, hhands, ok_bind]
      set l₁ := (sendAll (sendUdp sendmsgOk rtcpRet) qs l).1
      set ret := (sendAll (sendUdp sendmsgOk rtcpRet) qs l).2
      obtain ⟨l', log, rs, hstream, hlog, hlinked', hreceive⟩ := ih hrest hinit' hlinked
      rw [hstream]
      have hof : Offer.Of ⟨startCode long ++ b :: body, timestamp⟩
          ⟨out'.timestamp, out'.d, ret, l.sent.length, l₁.sent.length⟩ :=
        ⟨⟨long, by rw [hd]⟩, fun hts => (h264ProcessFrame_timestamp hprocess).trans (if_pos hts)⟩
      refine ⟨l', _, qs.take j ++ rs, rfl, .cons hof hlog, by simpa using hlinked',
        fun A c₀ part hpart => ?_⟩
      obtain ⟨hunit, hend⟩ := hqs.arrived ep.clock A htype hj hpart
      have hlast : l₁.sent.length = ps.length + j := by
        simpa [Nat.min_eq_left hj] using hlinked.length
      have htake : (ps ++ qs.take j).length = ps.length + j := by simp [Nat.min_eq_left hj]
      have hwhole : Offer.whole A ⟨out'.timestamp, out'.d, ret, l.sent.length, l₁.sent.length⟩ =
          decide (j = qs.length ∧ (List.range' ps.length j).all A = true) := by
        simp only [Offer.whole, hlast, h.length, Nat.add_sub_cancel_left, hall, Bool.decide_and,
          Bool.decide_eq_true]
      rw [htake] at hreceive
      rw [receiveArrived_append, hunit, List.length_take, Nat.min_eq_left hj, hreceive _ _ _ hend,
        List.filter_cons, hwhole, hd]
      simp only [decide_eq_true_eq]
      split_ifs <;> rfl

end Stream

/-- **H.264 over a network.** Frames are sent through a socket that may refuse any datagram. Whatever
the network loses, repeats and reorders, as long as no packet is late or early by half of the sequence
numbers, the receiver gets, once and in order, exactly the NAL units with all packets sent and
arrived, each with the timestamp of its frame. -/
theorem h264_network (sendmsgOk : ℕ → Bool) (rtcpRet maxDataSize : ℤ) (ep : RtpEndpoint)
    (frames : List (MediaFrame × Bool)) (out : RtpH264) (hmax : 3 ≤ maxDataSize)
    (hpayload : ep.payload < 128) (hforce : ep.forceRtcp = true → 0 ≤ rtcpRet)
    (hframes : ∀ f ∈ frames, IsFrame f.1) (hinit : out.initDone = true) :
    ∃ l log, h264Stream sendmsgOk rtcpRet maxDataSize frames out ⟨ep, 0, []⟩ = .ok (l, log) ∧
      List.Forall₂ Offer.Of ((frames.filter Prod.snd).map Prod.fst) log ∧
      ∀ arrivals : List (ℕ × Bytes), (∀ a ∈ arrivals, l.sent[a.1]? = some a.2) →
        (∀ a ∈ arrivals.head?, InWindow 65536 a.1 (arrivals.map fun a => (a.1 : ℤ))) →
        h264Receiver (arrivals.map Prod.snd) =
          (log.filter (Offer.whole fun i => decide (i ∈ arrivals.map Prod.fst))).map fun o =>
            (ep.clock.lastTimestamp o.timestamp, o.unit) := by
  obtain ⟨l, log, ps, hstream, hlog, hlinked, hreceive⟩ :=
    @h264Stream_spec sendmsgOk _ _ _ _ _ _ _ hmax hpayload hframes hinit (Linked.start hforce 0)
  refine ⟨l, log, hstream, hlog, fun arrivals harrivals hwindow => ?_⟩
  rw [List.nil_append] at hlinked
  -- what the receiver is told of a datagram
  let told : Bytes → ℕ × Bytes := fun d =>
    ((rtpParse d).map fun r => (r.timestamp, r.data)).getD (0, [])
  have hparse : ∀ a ∈ arrivals, (ps.map ep.clock.item)[a.1]? = some (told a.2) ∧
      (rtpParse a.2).map (fun r => ((r.seqnum : ℤ), r.timestamp, r.data)) =
        some (((ep.seqnum : ℤ) + a.1) % 65536, told a.2) := by
    intro a ha
    have hsent := congrArg (·[a.1]?) hlinked.sent
    simp only [List.getElem?_map, List.getElem?_mapIdx, harrivals a ha, Option.map_some] at hsent
    obtain ⟨p, hp, hr⟩ := Option.map_eq_some_iff.1 hsent.symm
    simp [told, ← hr, hp, RtpEndpoint.received, RtpClock.item]
  set bs : List (ℕ × (ℕ × Bytes)) := arrivals.map fun a => (a.1, told a.2) with hbs
  have hfst : bs.map Prod.fst = arrivals.map Prod.fst := by simp [hbs]
  have htold : ((arrivals.map Prod.snd).filterMap fun d =>
      (rtpParse d).map fun r => ((r.seqnum : ℤ), r.timestamp, r.data)) =
      bs.map fun b => (((ep.seqnum : ℤ) + b.1) % (65536 : ℕ), b.2) := by
    rw [List.filterMap_map, hbs, List.map_map, ← List.filterMap_eq_map]
    exact List.filterMap_congr fun a ha => (hparse a ha).2
  have hmem : ∀ b ∈ bs, (ps.map ep.clock.item)[b.1]? = some b.2 := by
    intro b hb
    obtain ⟨a, ha, rfl⟩ := List.mem_map.1 hb
    exact (hparse a ha).1
  have hnear : ∀ b ∈ bs.head?, InWindow 65536 b.1 (bs.map fun b => (b.1 : ℤ)) := by
    intro b hb
    obtain ⟨a, ha, rfl⟩ := Option.map_eq_some_iff.1 (List.head?_map.symm.trans hb)
    simpa [hbs, Function.comp_def] using hwindow a ha
  obtain ⟨c, hreorder⟩ := reorder_eq ep.seqnum hmem hnear
  rw [h264Receiver, htold, hreorder, hfst]
  exact hreceive _ c none fun _ hp => absurd hp (by simp)

/-- A slice in three packets of at most five bytes, and two more slices. -/
def threeSlices : List (MediaFrame × Bool) :=
  [(⟨[0, 0, 1, 0x65, 1, 2, 3, 4, 5, 6, 7, 8], 10⟩, true), (⟨[0, 0, 0, 1, 0x61, 9], 14⟩, true),
    (⟨[0, 0, 1, 0x61, 1, 2, 3, 4, 5], 18⟩, true)]

/-- An endpoint whose sequence numbers are about to start over. -/
def sliceEndpoint : RtpEndpoint := ⟨96, 7, ⟨1, 900⟩, 1, 65535, 0, 0, false⟩

/-- The socket refuses the last packet of the first slice. Of the five datagrams that leave, the
network loses one, repeats one and turns the order around: the receiver gets the second and the third
slice, and without the last datagram the second one. -/
theorem h264_network_slices : ∃ l log,
    h264Stream (fun k => decide (k ≠ 2)) (-5) 5 threeSlices ⟨[], true, 3600, 0⟩
        ⟨sliceEndpoint, 0, []⟩ = .ok (l, log) ∧
      h264Receiver ([4, 2, 3, 2, 1].map fun i => l.sent.getD i []) =
        [(12601, [0x61, 9]), (16201, [0x61, 1, 2, 3, 4, 5])] ∧
      h264Receiver ([3, 1, 2, 0].map fun i => l.sent.getD i []) = [(12601, [0x61, 9])] := by
  have hframes : ∀ f ∈ threeSlices, IsFrame f.1 := by
    intro f hf
    simp only [threeSlices, List.mem_cons, List.not_mem_nil, or_false] at hf
    rcases hf with rfl | rfl | rfl
    · exact ⟨false, 0x65, [1, 2, 3, 4, 5, 6, 7, 8], rfl, by decide⟩
    · exact ⟨true, 0x61, [9], rfl, by decide⟩
    · exact ⟨false, 0x61, [1, 2, 3, 4, 5], rfl, by decide⟩
  obtain ⟨l, log, hstream, -, hreceive⟩ := h264_network (fun k => decide (k ≠ 2)) (-5) 5 sliceEndpoint
    threeSlices ⟨[], true, 3600, 0⟩ (by decide) (by decide) (by decide) hframes rfl
  have hlog : (h264Stream (fun k => decide (k ≠ 2)) (-5) 5 threeSlices ⟨[], true, 3600, 0⟩
      ⟨sliceEndpoint, 0, []⟩).toOption.map (fun r => (r.1.sent.length, r.2)) =
      some (5, [⟨10, [0x65, 1, 2, 3, 4, 5, 6, 7, 8], -1, 0, 2⟩, ⟨14, [0x61, 9], 0, 2, 3⟩,
        ⟨18, [0x61, 1, 2, 3, 4, 5], 0, 3, 5⟩]) := by decide +kernel
  rw [hstream] at hlog
  obtain ⟨hlen, rfl⟩ := Prod.mk.inj (Option.some.inj hlog)
  have hsent : ∀ is : List ℕ, (∀ i ∈ is, i < 5) →
      ∀ a ∈ is.map fun i => (i, l.sent.getD i []), l.sent[a.1]? = some a.2 := by
    intro is his a ha
    obtain ⟨i, hi, rfl⟩ := List.mem_map.1 ha
    have hlt : i < l.sent.length := hlen ▸ his i hi
    simp [hlt]
  refine ⟨l, _, hstream, ?_, ?_⟩
  · have hwindow : InWindow 65536 4 [4, 2, 3, 2, 1] := by decide
    have hget := hreceive _ (hsent [4, 2, 3, 2, 1] (by decide)) (by rintro _ ⟨⟩; exact hwindow)
    rw [List.map_map] at hget
    exact hget
  · have hwindow : InWindow 65536 3 [3, 1, 2, 0] := by decide
    have hget := hreceive _ (hsent [3, 1, 2, 0] (by decide)) (by rintro _ ⟨⟩; exact hwindow)
    rw [List.map_map] at hget
    exact hget

end Spook
