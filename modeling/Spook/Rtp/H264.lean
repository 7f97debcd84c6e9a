import Spook.Rtp.Media
import Mathlib.Algebra.Order.Ring.Int
import Mathlib.Data.List.Infix
import Mathlib.Tactic.Push

set_option relaxedAutoImplicit false
set_option autoImplicit false

/-!
# H.264

`h264_process_frame` and `h264_send`, and a receiver of RFC 6184 that knows single NAL unit packets
and FU-A fragments.

## Main definitions

* `Spook.h264ProcessFrame`, `h264Send` — the functions of the source.
* `Spook.depacketize` — the receiver.
* `Spook.Fragments` — the fragments of a NAL unit.
* `Spook.annexB` — a frame of NAL units behind start codes.

## Main results

* `Spook.h264_roundTrip` — a NAL unit is received as it was sent.
* `Spook.h264_accessUnit_iff` — which frames are received as they were.
-/

namespace Spook

/-! ## The functions of the source -/

/-- `struct rtp_h264`, with the bytes below `len`. -/
structure RtpH264 where
  d : Bytes
  initDone : Bool
  tsIncr : ℕ
  timestamp : ℕ

/-- The part of `h264_process_frame` behind a start code that ends at the index `i`. -/
def h264Take (f : MediaFrame) (out : RtpH264) (i : ℕ) : RtpH264 :=
  { out with
    d := f.d.drop (i + 1)
    timestamp :=
      if f.timestamp ≠ 0 then f.timestamp else (out.timestamp + out.tsIncr) % 2 ^ 32 }

/-- The loop of `h264_process_frame` over the indices that are left. -/
def h264Scan (f : MediaFrame) (out : RtpH264) : List ℕ → Except Fault (RtpH264 × ℤ)
  | [] => .ok (out, 0)
  | i :: is => do
    let b ← f.byte i
    if b = 1 then return (h264Take f out i, if out.initDone then 1 else 0)
    else if b ≠ 0 then return (out, 0)
    else h264Scan f out is

/-- `h264_process_frame`. -/
def h264ProcessFrame (f : MediaFrame) (out : RtpH264) : Except Fault (RtpH264 × ℤ) := do
  if (← f.byte 0) ≠ 0 then return (out, 0)
  if (← f.byte 1) ≠ 0 then return (out, 0)
  h264Scan f out [2, 3]

/-- `plen` when `left` bytes are left, and the FU header of the fragment. -/
def h264Plen (maxDataSize left : ℤ) (vhdr₁ : UInt8) : ℤ × UInt8 :=
  if maxDataSize - 2 < left then (maxDataSize - 2, vhdr₁) else (left, vhdr₁ ||| 0x40)

section Send

variable (maxDataSize : ℤ) (out : RtpH264) (σ : Type) (send : RtpSend σ)

/-- The loop of `h264_send`, at most `n` times. -/
def h264Fragments (n : ℕ) (i : ℤ) (vhdr₀ vhdr₁ : UInt8) (s : σ) : Except Fault (σ × ℤ) :=
  match n with
  | 0 => .error .loop
  | n + 1 =>
    if i < out.d.length then
      let (plen, vhdr₁) := h264Plen maxDataSize (out.d.length - i) vhdr₁
      if plen < 0 then .error .negativeLength
      else
        let payload := vhdr₀ :: vhdr₁ :: (out.d.drop i.toNat).take plen.toNat
        let (s, ret) := send ⟨payload, out.timestamp, plen + i = out.d.length⟩ s
        if ret < 0 then .ok (s, -1)
        else h264Fragments n (i + plen) vhdr₀ (vhdr₁ &&& ~~~0x80) s
    else .ok (s, 0)

/-- `h264_send`. -/
def h264Send (s : σ) : Except Fault (σ × ℤ) :=
  if maxDataSize < out.d.length then
    match out.d with
    | [] => .error .overread
    | b :: _ =>
      h264Fragments maxDataSize out σ send out.d.length 1 (b &&& 0xE0 ||| 28) (b &&& 0x1F ||| 0x80) s
  else
    let (s, ret) := send ⟨out.d, out.timestamp, true⟩ s
    if ret < 0 then .ok (s, -1) else .ok (s, 0)

end Send

/-! ## The receiver -/

/-- `nal_unit_type` of the first byte of a NAL unit. -/
def nalType (b : UInt8) : UInt8 := b &&& 0x1F

/-- The start bit of a FU header. -/
def fuStart (b : UInt8) : Bool := b &&& 0x80 ≠ 0

/-- The end bit of a FU header. -/
def fuEnd (b : UInt8) : Bool := b &&& 0x40 ≠ 0

/-- A payload arrives when a NAL unit is partly known, or none is: what is partly known then, and
the NAL unit that is complete. Other packets than single NAL unit packets and FU-A fragments are
errors, and so are fragments out of order. -/
def receivePayload (part : Option Bytes) : Bytes → Option (Option Bytes × Option Bytes)
  | [] => none
  | b :: rest =>
    if 1 ≤ nalType b ∧ nalType b ≤ 23 then
      match part with
      | none => some (none, some (b :: rest))
      | some _ => none
    else if nalType b = 28 then
      match rest with
      | [] => none
      | fu :: payload =>
        match part, fuStart fu, fuEnd fu with
        | none, true, false => some (some ((b &&& 0xE0 ||| nalType fu) :: payload), none)
        | some unit, false, false => some (some (unit ++ payload), none)
        | some unit, false, true => some (none, some (unit ++ payload))
        | _, _, _ => none
    else none

/-- The NAL units of some payloads. -/
def depacketizeFrom : Option Bytes → List Bytes → Option (List Bytes)
  | none, [] => some []
  | some _, [] => none
  | part, p :: ps =>
    match receivePayload part p with
    | none => none
    | some (part', unit) => (depacketizeFrom part' ps).map (unit.toList ++ ·)

/-- RFC 6184 depacketization. -/
def depacketize (ps : List Bytes) : Option (List Bytes) := depacketizeFrom none ps

/-! ## Fragments -/

/-- The FU header of a fragment that is not the last. -/
def fuHeader (start : Bool) (type : UInt8) : UInt8 := if start then type ||| 0x80 else type

/-- The fragments of the bytes `rest` of a NAL unit, of at most `c` bytes each, the first of which
has the start bit or not. -/
inductive Fragments (timestamp c : ℕ) (indicator type : UInt8) :
    Bool → Bytes → List RtpPacket → Prop
  | last {start : Bool} {rest : Bytes} : rest.length ≤ c →
      Fragments timestamp c indicator type start rest
        [⟨indicator :: (fuHeader start type ||| 0x40) :: rest, timestamp, true⟩]
  | more {start : Bool} {rest : Bytes} {ps : List RtpPacket} : c < rest.length →
      Fragments timestamp c indicator type false (rest.drop c) ps →
      Fragments timestamp c indicator type start rest
        (⟨indicator :: fuHeader start type :: rest.take c, timestamp, false⟩ :: ps)

section Bits

/-- Without the start bit the header is that of a later fragment. -/
theorem fuHeader_clear (b : UInt8) (start : Bool) :
    fuHeader start (b &&& 0x1F) &&& ~~~0x80 = fuHeader false (b &&& 0x1F) := by
  revert b
  refine forall_byte ?_
  cases start <;> decide +kernel

/-- The type of a fragment is 28. -/
theorem nalType_indicator (b : UInt8) : nalType (b &&& 0xE0 ||| 28) = 28 := by
  revert b
  exact forall_byte (by decide +kernel)

/-- The two header bytes of a fragment give the first byte of the NAL unit. -/
theorem header_split (b : UInt8) :
    (b &&& 0xE0 ||| 28) &&& 0xE0 ||| nalType (fuHeader true (b &&& 0x1F)) = b := by
  revert b
  exact forall_byte (by decide +kernel)

/-- The start bit, whether or not the end bit is set. -/
theorem fuStart_fuHeader (b : UInt8) (start : Bool) :
    fuStart (fuHeader start (b &&& 0x1F)) = start ∧
      fuStart (fuHeader start (b &&& 0x1F) ||| 0x40) = start := by
  revert b
  refine forall_byte ?_
  cases start <;> decide +kernel

/-- The end bit, whether or not the start bit is set. -/
theorem fuEnd_fuHeader (b : UInt8) (start : Bool) :
    fuEnd (fuHeader start (b &&& 0x1F)) = false ∧
      fuEnd (fuHeader start (b &&& 0x1F) ||| 0x40) = true := by
  revert b
  refine forall_byte ?_
  cases start <;> decide +kernel

end Bits

section Fragments

variable {timestamp c : ℕ} {b : UInt8} {start : Bool} {rest unit : Bytes} {ps : List RtpPacket}

/-- The loop of `h264_send` sends the fragments of the bytes that are left. -/
theorem h264Fragments_spec {out : RtpH264} {maxDataSize : ℤ} (hc : maxDataSize = c + 2) (hpos : 0 < c)
    (start : Bool) {n i : ℕ} (hi : out.d.drop i = rest) (hrest : rest ≠ []) (hn : rest.length < n) :
    ∃ ps, Fragments out.timestamp c (b &&& 0xE0 ||| 28) (b &&& 0x1F) start rest ps ∧
      Delivers (fun σ send => h264Fragments maxDataSize out σ send n i (b &&& 0xE0 ||| 28)
        (fuHeader start (b &&& 0x1F))) ps := by
  induction n generalizing i start rest with
  | zero => exact absurd hn (Nat.not_lt_zero _)
  | succ n ih =>
    have hlength : 0 < rest.length := List.length_pos_iff.2 hrest
    have hsum : out.d.length = i + rest.length := by
      rw [← hi, List.length_drop] at hlength ⊢
      omega
    have hleft : (out.d.length : ℤ) - i = rest.length := by omega
    by_cases hlast : rest.length ≤ c
    · refine ⟨_, .last hlast, fun σ send hsend s => ?_⟩
      obtain ⟨n, rfl⟩ := Nat.exists_eq_succ_of_ne_zero (by omega : n ≠ 0)
      have hplen : ∀ vhdr₁, h264Plen maxDataSize rest.length vhdr₁ =
          (↑rest.length, vhdr₁ ||| 0x40) := fun _ => if_neg (by omega)
      have hend : (rest.length : ℤ) + i = out.d.length := by omega
      simp only [h264Fragments, hleft, hplen, Int.toNat_natCast, hi, List.take_length, hend,
        decide_true]
      rw [if_pos (by omega), if_neg (by omega), if_neg (not_lt.2 (hsend _ _)), if_neg (by omega)]
      rfl
    · have hlt : c < rest.length := not_le.1 hlast
      have hdrop : out.d.drop (i + c) = rest.drop c := by rw [← hi, List.drop_drop]
      obtain ⟨ps, hps, hdelivers⟩ := ih false hdrop
        (List.ne_nil_of_length_pos (by rw [List.length_drop]; omega))
        (by rw [List.length_drop]; omega)
      refine ⟨_, .more hlt hps, fun σ send hsend s => ?_⟩
      have hplen : ∀ vhdr₁, h264Plen maxDataSize rest.length vhdr₁ = (↑c, vhdr₁) := by
        intro vhdr₁
        unfold h264Plen
        rw [if_pos (by omega), hc, add_sub_cancel_right]
      have hmore : ((c : ℤ) + i = out.d.length) = False := by
        rw [eq_iff_iff, iff_false]
        omega
      have hrun := hdelivers σ send hsend
      simp only [Nat.cast_add] at hrun
      simp only [h264Fragments, hleft, hplen, Int.toNat_natCast, hi, hmore, decide_false]
      rw [if_pos (by omega), if_neg (by omega), if_neg (not_lt.2 (hsend _ _)), fuHeader_clear, hrun]
      rfl

/-- A fragment that is not the first one. -/
theorem receivePayload_fragment {fu : UInt8} (payload : Bytes) (hfu : fuStart fu = false) :
    receivePayload (some unit) ((b &&& 0xE0 ||| 28) :: fu :: payload) =
      if fuEnd fu then some (none, some (unit ++ payload))
      else some (some (unit ++ payload), none) := by
  unfold receivePayload
  dsimp only
  rw [nalType_indicator, if_neg (by decide), if_pos rfl, hfu]
  cases fuEnd fu <;> rfl

/-- The fragments behind the first one complete the NAL unit. -/
theorem Fragments.received
    (h : Fragments timestamp c (b &&& 0xE0 ||| 28) (b &&& 0x1F) start rest ps) (hstart : start = false) :
    depacketizeFrom (some unit) (ps.map RtpPacket.payload) = some [unit ++ rest] := by
  induction h generalizing unit with
  | @last start rest _ =>
    subst hstart
    rw [List.map_singleton, depacketizeFrom, receivePayload_fragment _ (fuStart_fuHeader b false).2,
      (fuEnd_fuHeader b false).2]
    rfl
  | @more start rest ps _ _ ih =>
    subst hstart
    rw [List.map_cons, depacketizeFrom, receivePayload_fragment _ (fuStart_fuHeader b false).1,
      (fuEnd_fuHeader b false).1]
    simp [ih rfl]

/-- All fragments give the NAL unit. -/
theorem Fragments.received_all (hlt : c < rest.length)
    (h : Fragments timestamp c (b &&& 0xE0 ||| 28) (b &&& 0x1F) true rest ps) :
    depacketize (ps.map RtpPacket.payload) = some [b :: rest] ∧ ps.length ≠ 1 := by
  cases h with
  | last hle => exact absurd hlt (not_lt.2 hle)
  | @more _ _ ps _ hps =>
    have hfirst : receivePayload none ((b &&& 0xE0 ||| 28) :: fuHeader true (b &&& 0x1F) ::
        rest.take c) = some (some (b :: rest.take c), none) := by
      unfold receivePayload
      dsimp only
      rw [nalType_indicator, if_neg (by decide), if_pos rfl, (fuStart_fuHeader b true).1,
        (fuEnd_fuHeader b true).1]
      dsimp only
      rw [header_split]
    have hne : ps ≠ [] := by
      rintro rfl
      cases hps
    refine ⟨?_, by simpa using hne⟩
    rw [List.map_cons, depacketize, depacketizeFrom, hfirst]
    simp [hps.received rfl]

/-- Which fragments have the bits, and how long they are. -/
theorem Fragments.flags
    (h : Fragments timestamp c (b &&& 0xE0 ||| 28) (b &&& 0x1F) start rest ps) :
    ∀ i p, ps[i]? = some p → (p.marker = true ↔ i + 1 = ps.length) ∧
      ∃ fu data, p.payload = (b &&& 0xE0 ||| 28) :: fu :: data ∧ data.length ≤ c ∧
        (fuStart fu = true ↔ start = true ∧ i = 0) ∧ (fuEnd fu = true ↔ i + 1 = ps.length) := by
  induction h with
  | @last start rest hlast =>
    intro i p hp
    obtain ⟨rfl, rfl⟩ : i = 0 ∧ _ = p := by
      cases i with
      | zero => exact ⟨rfl, Option.some.inj hp⟩
      | succ i => cases hp
    refine ⟨by simp, _, _, rfl, hlast, ?_, ?_⟩
    · rw [(fuStart_fuHeader b start).2]
      simp
    · rw [(fuEnd_fuHeader b start).2]
      simp
  | @more start rest ps hlt hps ih =>
    intro i p hp
    have hne : ps.length ≠ 0 := by
      cases hps <;> simp
    cases i with
    | zero =>
      obtain rfl := Option.some.inj hp
      refine ⟨by simpa using hne, _, _, rfl, by simp, ?_, ?_⟩
      · rw [(fuStart_fuHeader b start).1]
        simp
      · rw [(fuEnd_fuHeader b start).1]
        simpa using hne
    | succ i =>
      obtain ⟨hmarker, fu, data, hdata, hlength, hfuStart, hfuEnd⟩ := ih i p hp
      refine ⟨by simpa using hmarker, fu, data, hdata, hlength, ?_, by simpa using hfuEnd⟩
      rw [hfuStart]
      simp

end Fragments

/-! ## NAL units -/

/-- The marker is on the last packet alone; and a fragment has the start bit if it is the first, and
the end bit if it is the last, but not both. -/
structure WellMarked (ps : List RtpPacket) : Prop where
  marker : ∀ i p, ps[i]? = some p → (p.marker = true ↔ i + 1 = ps.length)
  bits : ∀ i p b fu data, ps[i]? = some p → p.payload = b :: fu :: data → nalType b = 28 →
    (fuStart fu = true ↔ i = 0) ∧ (fuEnd fu = true ↔ i + 1 = ps.length) ∧
      ¬ (fuStart fu = true ∧ fuEnd fu = true)

/-- The packets of the NAL unit `b :: body`. -/
inductive H264Packets (maxDataSize : ℤ) (timestamp : ℕ) (b : UInt8) (body : Bytes) :
    List RtpPacket → Prop
  | single : ((b :: body).length : ℤ) ≤ maxDataSize →
      H264Packets maxDataSize timestamp b body [⟨b :: body, timestamp, true⟩]
  | fragments {c : ℕ} {ps : List RtpPacket} : maxDataSize = c + 2 → c < body.length →
      Fragments timestamp c (b &&& 0xE0 ||| 28) (b &&& 0x1F) true body ps →
      H264Packets maxDataSize timestamp b body ps

section Packets

variable {maxDataSize : ℤ} {timestamp : ℕ} {b : UInt8} {body : Bytes} {ps : List RtpPacket}

/-- What `h264_send` sends. -/
theorem h264Send_spec {out : RtpH264} (hd : out.d = b :: body) (hmax : 3 ≤ maxDataSize) :
    ∃ ps, Delivers (h264Send maxDataSize out) ps ∧
      H264Packets maxDataSize out.timestamp b body ps := by
  by_cases hfits : (out.d.length : ℤ) ≤ maxDataSize
  · refine ⟨_, fun σ send hsend s => ?_, .single (hd ▸ hfits)⟩
    unfold h264Send
    rw [if_neg (not_lt.2 hfits)]
    dsimp only
    rw [if_neg (not_lt.2 (hsend _ _)), hd]
    rfl
  · obtain ⟨c, hc⟩ : ∃ c : ℕ, maxDataSize = c + 2 := ⟨(maxDataSize - 2).toNat, by omega⟩
    have hlength : out.d.length = body.length + 1 := by rw [hd, List.length_cons]
    have hlong : c < body.length := by omega
    have hdrop : out.d.drop 1 = body := by rw [hd]; rfl
    obtain ⟨ps, hps, hdelivers⟩ := h264Fragments_spec (b := b) hc (by omega) true
      (n := out.d.length) hdrop (List.ne_nil_of_length_pos (by omega)) (by omega)
    refine ⟨ps, fun σ send hsend s => ?_, .fragments hc hlong hps⟩
    have hrun := hdelivers σ send hsend s
    unfold h264Send
    rw [if_pos (by omega)]
    rw [hd] at hrun ⊢
    exact hrun

/-- No payload is too long. -/
theorem H264Packets.length_le (h : H264Packets maxDataSize timestamp b body ps) :
    ∀ p ∈ ps, (p.payload.length : ℤ) ≤ maxDataSize := by
  cases h with
  | single hfits => simpa using hfits
  | fragments hc _ hps =>
    intro p hp
    obtain ⟨i, hi⟩ := List.mem_iff_getElem?.1 hp
    obtain ⟨-, fu, data, hdata, hlength, -⟩ := hps.flags i p hi
    rw [hdata, List.length_cons, List.length_cons]
    omega

/-- The depacketizer finds the NAL unit in its packets. -/
theorem H264Packets.received (h : H264Packets maxDataSize timestamp b body ps)
    (htype : 1 ≤ nalType b ∧ nalType b ≤ 23) :
    depacketize (ps.map RtpPacket.payload) = some [b :: body] := by
  cases h with
  | single _ => simp [depacketize, depacketizeFrom, receivePayload, htype]
  | fragments _ hlong hps => exact (hps.received_all hlong).1

/-- The packets of a NAL unit have the marker at its end. -/
theorem H264Packets.wellMarked (h : H264Packets maxDataSize timestamp b body ps)
    (htype : 1 ≤ nalType b ∧ nalType b ≤ 23) : WellMarked ps := by
  cases h with
  | single _ =>
    refine ⟨fun i p hp => ?_, fun i p b' fu data hp hpayload hb' => ?_⟩
    · cases i with
      | zero =>
        obtain rfl := Option.some.inj hp
        simp
      | succ i => cases hp
    · cases i with
      | zero =>
        obtain rfl := Option.some.inj hp
        obtain ⟨rfl, -⟩ := List.cons.inj hpayload
        rw [hb'] at htype
        exact absurd htype (by decide)
      | succ i => cases hp
  | fragments _ hlong hps =>
    obtain ⟨-, hone⟩ := hps.received_all hlong
    refine ⟨fun i p hp => (hps.flags i p hp).1, fun i p b' fu data hp hpayload hb' => ?_⟩
    obtain ⟨-, fu', data', hdata, -, hfuStart, hfuEnd⟩ := hps.flags i p hp
    rw [hdata] at hpayload
    obtain ⟨-, hrest⟩ := List.cons.inj hpayload
    obtain ⟨rfl, -⟩ := List.cons.inj hrest
    refine ⟨by simpa using hfuStart, hfuEnd, ?_⟩
    rw [hfuStart, hfuEnd]
    rintro ⟨⟨-, rfl⟩, hlast⟩
    exact hone hlast.symm

end Packets

/-- **H.264 packetization.** A NAL unit of any length is sent in packets of at most `max_data_size`
bytes, from which the receiver gets it back. -/
theorem h264_roundTrip (out : RtpH264) (maxDataSize : ℤ) {b : UInt8} {body : Bytes}
    (hd : out.d = b :: body) (htype : 1 ≤ nalType b ∧ nalType b ≤ 23) (hmax : 3 ≤ maxDataSize) :
    ∃ ps, Delivers (h264Send maxDataSize out) ps ∧
      (∀ p ∈ ps, (p.payload.length : ℤ) ≤ maxDataSize) ∧
      depacketize (ps.map RtpPacket.payload) = some [out.d] ∧ WellMarked ps := by
  obtain ⟨ps, hdelivers, hps⟩ := h264Send_spec hd hmax
  exact ⟨ps, hdelivers, hps.length_le, hd ▸ hps.received htype, hps.wellMarked htype⟩

/-- A slice of seven bytes in packets of at most five. -/
theorem h264_roundTrip_slice :
    let out : RtpH264 := ⟨[0x65, 1, 2, 3, 4, 5, 6], true, 3600, 0⟩
    ∃ ps, Delivers (h264Send 5 out) ps ∧ (∀ p ∈ ps, (p.payload.length : ℤ) ≤ 5) ∧
      depacketize (ps.map RtpPacket.payload) = some [[0x65, 1, 2, 3, 4, 5, 6]] ∧ WellMarked ps :=
  h264_roundTrip ⟨[0x65, 1, 2, 3, 4, 5, 6], true, 3600, 0⟩ 5 rfl (by decide) (by decide)

/-! ## Frames -/

/-- A start code of four bytes or of three. -/
def startCode (long : Bool) : Bytes := if long then [0, 0, 0, 1] else [0, 0, 1]

/-- NAL units, each behind a start code. -/
def annexB (units : List (Bool × Bytes)) : Bytes := units.flatMap fun u => startCode u.1 ++ u.2

/-- A NAL unit of a type that can be sent, without a start code inside. -/
def IsNal (u : Bytes) : Prop :=
  (∃ b body, u = b :: body ∧ 1 ≤ nalType b ∧ nalType b ≤ 23) ∧ ¬ HasStartCode u

/-- What a receiver gets of a frame, when all sends succeed; nothing is sent of a frame that is not
accepted. -/
def h264Receive (maxDataSize : ℤ) (f : MediaFrame) (out : RtpH264) :
    Except Fault (Option (List Bytes)) := do
  let (out, ret) ← h264ProcessFrame f out
  if ret = 0 then return some []
  let (ps, _) ← h264Send maxDataSize out _ collect []
  return depacketize (ps.map RtpPacket.payload)

section Frames

variable {out : RtpH264} {maxDataSize : ℤ} {timestamp : ℕ}

/-- The start code in front of a frame is taken off. -/
theorem h264ProcessFrame_startCode (hinit : out.initDone = true) (timestamp : ℕ) (long : Bool)
    (d : Bytes) :
    ∃ out', h264ProcessFrame ⟨startCode long ++ d, timestamp⟩ out = .ok (out', 1) ∧ out'.d = d := by
  have hone : (if out.initDone = true then (1 : ℤ) else 0) = 1 := if_pos hinit
  cases long with
  | true =>
    refine ⟨h264Take ⟨startCode true ++ d, timestamp⟩ out 3, ?_, rfl⟩
    simp [h264ProcessFrame, h264Scan, MediaFrame.byte, startCode, hone]
    rfl
  | false =>
    refine ⟨h264Take ⟨startCode false ++ d, timestamp⟩ out 2, ?_, rfl⟩
    simp [h264ProcessFrame, h264Scan, MediaFrame.byte, startCode, hone]
    rfl

/-- Of a frame behind a start code the receiver gets all the rest as one NAL unit. -/
theorem h264Receive_startCode (hinit : out.initDone = true) (hmax : 3 ≤ maxDataSize) (long : Bool)
    {b : UInt8} {body : Bytes} (htype : 1 ≤ nalType b ∧ nalType b ≤ 23) :
    h264Receive maxDataSize ⟨startCode long ++ b :: body, timestamp⟩ out =
      .ok (some [b :: body]) := by
  obtain ⟨out', hout, hd⟩ := h264ProcessFrame_startCode hinit timestamp long (b :: body)
  obtain ⟨ps, hdelivers, hps⟩ := h264Send_spec hd hmax
  simp only [h264Receive, hout, hdelivers.collect, ok_bind, one_ne_zero, if_false,
    hps.received htype]
  rfl

/-- **Access units.** The receiver gets the NAL units of a frame if and only if there is just one of
them. -/
theorem h264_accessUnit_iff (hinit : out.initDone = true) (hmax : 3 ≤ maxDataSize)
    {units : List (Bool × Bytes)} (hne : units ≠ []) (hunits : ∀ u ∈ units, IsNal u.2) :
    (∃ received, h264Receive maxDataSize ⟨annexB units, timestamp⟩ out = .ok (some received) ∧
      received = units.map Prod.snd ∧ ∀ u ∈ received, ¬ HasStartCode u) ↔ units.length = 1 := by
  obtain ⟨⟨long, u⟩, rest, rfl⟩ := List.exists_cons_of_ne_nil hne
  obtain ⟨⟨b, body, hu, htype⟩, hcode⟩ := hunits _ List.mem_cons_self
  dsimp only at hu hcode
  subst hu
  have hreceive : h264Receive maxDataSize ⟨annexB ((long, b :: body) :: rest), timestamp⟩ out =
      .ok (some [b :: (body ++ annexB rest)]) := by
    have hframe : annexB ((long, b :: body) :: rest) =
        startCode long ++ b :: (body ++ annexB rest) := by simp [annexB]
    rw [hframe]
    exact h264Receive_startCode hinit hmax long htype
  rw [hreceive]
  constructor
  · rintro ⟨received, hreceived, hunits, -⟩
    obtain rfl := Option.some.inj (Except.ok.inj hreceived)
    have hlength := congrArg List.length hunits
    simpa using hlength.symm
  · intro hone
    obtain rfl : rest = [] := by simpa using hone
    refine ⟨_, rfl, by simp [annexB], ?_⟩
    simpa [annexB] using hcode

/-- A slice on its own. -/
theorem h264_accessUnit_slice :
    ∃ received, h264Receive 1400 ⟨annexB [(true, [0x65, 0x88, 0x80])], 0⟩ ⟨[], true, 3600, 0⟩ =
        .ok (some received) ∧
      received = [[0x65, 0x88, 0x80]] ∧ ∀ u ∈ received, ¬ HasStartCode u := by
  have hnal : ∀ u ∈ [(true, ([0x65, 0x88, 0x80] : Bytes))], IsNal u.2 := by
    intro u hu
    obtain rfl := List.mem_singleton.1 hu
    refine ⟨⟨0x65, [0x88, 0x80], rfl, by decide⟩, ?_⟩
    unfold HasStartCode
    decide
  exact (h264_accessUnit_iff rfl (by decide) (by decide) hnal).2 rfl

/-- Parameter sets and a slice. -/
def keyUnits : List (Bool × Bytes) := [(true, [0x67, 0x42]), (true, [0x68, 0xce]), (true, [0x65, 0x88])]

/-- The parameter sets in front of a slice are not received as NAL units of their own. -/
theorem h264_merges_units :
    ¬ ∃ received, h264Receive 1400 ⟨annexB keyUnits, 0⟩ ⟨[], true, 3600, 0⟩ = .ok (some received) ∧
      received = keyUnits.map Prod.snd ∧ ∀ u ∈ received, ¬ HasStartCode u := by
  have hreceive : h264Receive 1400 ⟨annexB keyUnits, 0⟩ ⟨[], true, 3600, 0⟩ =
      .ok (some [[0x67, 0x42, 0, 0, 0, 1, 0x68, 0xce, 0, 0, 0, 1, 0x65, 0x88]]) := rfl
  rintro ⟨received, h, hunits, -⟩
  rw [hreceive] at h
  obtain rfl := Option.some.inj (Except.ok.inj h)
  exact absurd hunits (by decide)

end Frames

end Spook
