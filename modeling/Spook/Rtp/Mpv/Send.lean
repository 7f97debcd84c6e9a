import Spook.Rtp.Mpv.Basic
import Spook.Rtp.Mpeg4.Send
import Spook.Rtp.Mpeg4.Units
import Mathlib.Data.List.Forall2

set_option relaxedAutoImplicit false
set_option autoImplicit false

/-!
# Sending MPEG video

`mpv_send` packs whole blocks together and cuts a block that is longer than a packet. The array `v`
has 48 entries, of which the first two are headers: what is written to it depends on how many blocks
go into one packet, and nothing bounds this but the length of the packet.

The marker behind a block in fragments follows the End-of-slice bit of `vhdr[2]`, which begins as
`picture_type`. A picture header gives `picture_type` three bits; until one has been read it is what
`malloc` left.

## Main definitions

* `Spook.RtpMpv.content` — the bytes that are to be sent.
* `Spook.PacketsFit` — no packet takes more than 46 entries.
* `Spook.RtpMpv.EndBit`, `LastFits` — `picture_type` has the End-of-slice bit, and what then must hold
  of the last block.
* `Spook.MpvSends` — the packets carry the content and have the marker on the last one.

## Main results

* `Spook.mpvSendLoop_spec` — the loop of `mpv_send`, from any state of it.
-/

namespace Spook

/-! ## Conditions on the lengths -/

section Lengths

/-- The space for a block of `len` bytes behind the test of `min_space`, when a packet has `room`. -/
def mpvSpace (room space len : ℕ) : ℕ :=
  if space < (if room < len then 4 else len) then room else space

/-- The entries that are taken behind the test of `min_space`. -/
def mpvPieces (room space pieces len : ℕ) : ℕ :=
  if space < (if room < len then 4 else len) then 0 else pieces

/-- No packet takes more than 46 entries, when the packet under construction has `space` left and
holds `pieces` entries. -/
def PacketsFit (room : ℕ) : ℕ → ℕ → List ℕ → Prop
  | _, _, [] => True
  | space, pieces, len :: lens =>
    mpvPieces room space pieces len < 46 ∧
      if len ≤ mpvSpace room space len then
        PacketsFit room (mpvSpace room space len - len) (mpvPieces room space pieces len + 1) lens
      else PacketsFit room room 0 lens

instance PacketsFit.decidable (room : ℕ) :
    (space pieces : ℕ) → (lens : List ℕ) → Decidable (PacketsFit room space pieces lens)
  | _, _, [] => .isTrue trivial
  | space, pieces, len :: lens =>
    letI := fun space pieces => PacketsFit.decidable room space pieces lens
    inferInstanceAs (Decidable (mpvPieces room space pieces len < 46 ∧
      if len ≤ mpvSpace room space len then
        PacketsFit room (mpvSpace room space len - len) (mpvPieces room space pieces len + 1) lens
      else PacketsFit room room 0 lens))

/-- The last block needs at most two packets if it is sent in fragments. -/
def LastFits (room : ℕ) : ℕ → List ℕ → Prop
  | _, [] => True
  | space, len :: lens =>
    if len ≤ mpvSpace room space len then LastFits room (mpvSpace room space len - len) lens
    else if lens = [] then len - mpvSpace room space len ≤ room
    else LastFits room room lens

end Lengths

/-! ## Packets -/

section Packets

/-- No packet has the marker. -/
def Unmarked (ps : List RtpPacket) : Prop := ∀ p ∈ ps, p.marker = false

/-- The payloads of some packets, of at most `maxDataSize` bytes each, make up the bytes `d` without
their headers of four bytes. -/
structure MpvCarries (maxDataSize : ℤ) (ps : List RtpPacket) (d : Bytes) : Prop where
  flatten : (ps.map fun p => p.payload.drop 4).flatten = d
  length_le : ∀ p ∈ ps, (p.payload.length : ℤ) ≤ maxDataSize

variable {maxDataSize : ℤ} {ps qs : List RtpPacket} {c d : Bytes}

/-- No packets carry nothing. -/
theorem MpvCarries.nil : MpvCarries maxDataSize [] [] := by
  constructor <;> simp

/-- Packets behind packets. -/
theorem MpvCarries.append (hps : MpvCarries maxDataSize ps c) (hqs : MpvCarries maxDataSize qs d) :
    MpvCarries maxDataSize (ps ++ qs) (c ++ d) := by
  constructor
  · rw [List.map_append, List.flatten_append, hps.flatten, hqs.flatten]
  · intro p hp
    rcases List.mem_append.1 hp with hp | hp
    · exact hps.length_le p hp
    · exact hqs.length_le p hp

/-- One packet carries the pieces of its vector, behind the four bytes of its header. -/
theorem MpvCarries.packet (maxDataSize : ℤ) (out : RtpMpv) (vhdr2 : UInt8) (v : List Bytes)
    (marker : Bool)
    (hlen : (v.flatten.length : ℤ) + 4 ≤ maxDataSize) :
    MpvCarries maxDataSize [mpvPacket out vhdr2 v marker] v.flatten := by
  constructor
  · simp [mpvPacket, mpvVhdr]
  · intro p hp
    rw [List.mem_singleton.1 hp]
    simp only [mpvPacket, mpvVhdr, List.length_append, List.length_cons, List.length_nil]
    omega

/-- Packets without marker, behind packets without marker. -/
theorem Unmarked.append (hps : Unmarked ps) (hqs : Unmarked qs) : Unmarked (ps ++ qs) := by
  intro p hp
  rcases List.mem_append.1 hp with hp | hp
  · exact hps p hp
  · exact hqs p hp

/-- The marker is on the last of some packets behind others without it. -/
theorem markedLast_append (hps : Unmarked ps) (hqs : qs ≠ []) :
    MarkedLast (ps ++ qs) ↔ MarkedLast qs := by
  induction ps with
  | nil => rfl
  | cons p ps ih =>
    obtain ⟨hp, hps⟩ := List.forall_mem_cons.1 hps
    rw [List.cons_append, ← ih hps]
    constructor
    · intro h i q hq
      have hmark := h (i + 1) q (by simpa using hq)
      rw [hmark, List.length_cons]
      omega
    · intro h
      exact h.cons (by simp [hqs]) hp

/-- A packet with the marker that is not the last one. -/
theorem not_markedLast_cons {p : RtpPacket} (hp : p.marker = true) (hps : ps ≠ []) :
    ¬ MarkedLast (p :: ps) := by
  intro h
  have hlast := (h 0 p rfl).1 hp
  rw [List.length_cons] at hlast
  exact hps (List.length_eq_zero_iff.1 (by omega))

end Packets

/-! ## One block -/

section Block

variable {mem : FrameMemory} {f : MediaFrame} {maxDataSize : ℤ} {room : ℕ} {out : RtpMpv}

/-- `picture_type` has the bit that marks the end of a slice. -/
def RtpMpv.EndBit (out : RtpMpv) : Prop := UInt8.ofNat out.pictureType &&& 0x08 ≠ 0

instance (out : RtpMpv) : Decidable out.EndBit :=
  inferInstanceAs (Decidable (UInt8.ofNat out.pictureType &&& 0x08 ≠ 0))

/-- The bit that ends a slice is set. -/
theorem endOfSlice_ne_zero (b : UInt8) : (b ||| 0x08) &&& 0x08 ≠ 0 := by
  refine forall_byte (p := fun b => (b ||| 0x08) &&& 0x08 ≠ 0) ?_ b
  decide +kernel

/-- The fragments of a block behind the first.

**Proof sketch.** By induction on the fuel. The rest of the block fits into one packet, which has
the marker where it is the last of the picture; or a full packet is sent, whose bit for the end of a
slice is not set, and the rest is behind it. -/
theorem mpvFragments_spec (out : RtpMpv) (hmax : maxDataSize = room + 4) (hroom : 0 < room)
    (hint : room < 2 ^ 31)
    {n : ℕ} {e : Bytes} {off : ℕ} (last : Bool) (hn : e.length - off < n) (hoff : off < e.length) :
    ∃ ps, ps ≠ [] ∧ (∀ σ (send : RtpSend σ), send.Succeeds → ∀ s,
        mpvFragments maxDataSize out σ send n e off last s =
          .ok (ps.foldl (fun s p => (send p s).1) s, true)) ∧
      MpvCarries maxDataSize ps (e.drop off) ∧
      (if last then (MarkedLast ps ↔ (out.EndBit → e.length - off ≤ room)) else Unmarked ps) := by
  induction n generalizing off with
  | zero => omega
  | succ n ih =>
    have hsize : sizeT (maxDataSize - 4) = room := by
      rw [hmax, show (room + 4 - 4 : ℤ) = (room : ℕ) by omega, sizeT_natCast (by omega)]
    by_cases hwhole : e.length - off ≤ room
    · -- The rest of the block is the last fragment.
      have hmarker : decide ((UInt8.ofNat out.pictureType ||| 0x08) &&& 0x08 ≠ 0) = true :=
        decide_eq_true (endOfSlice_ne_zero _)
      refine ⟨[mpvPacket out (UInt8.ofNat out.pictureType ||| 0x08) [e.drop off] last], by simp,
        fun σ send hsend s => ?_, ?_, ?_⟩
      · obtain ⟨m, rfl⟩ : ∃ m, n = m + 1 := ⟨n - 1, by omega⟩
        rw [mpvFragments, if_pos hoff]
        simp only [hsize, hwhole, decide_true, if_true, hmarker, Bool.true_and]
        rw [if_neg (not_lt.2 (hsend _ _)), mpvFragments, if_neg (by rw [List.length_drop]; omega)]
        rfl
      · have hcarries := MpvCarries.packet maxDataSize out
          (UInt8.ofNat out.pictureType ||| 0x08) [e.drop off] last
          (by rw [List.flatten_singleton, List.length_drop]; omega)
        rwa [List.flatten_singleton] at hcarries
      · cases last with
        | true =>
          rw [if_pos rfl]
          exact iff_of_true (MarkedLast.single rfl) fun _ => hwhole
        | false =>
          rw [if_neg Bool.false_ne_true]
          intro p hp
          rw [List.mem_singleton.1 hp]
          rfl
    · -- A full packet, and the rest behind it.
      have hlater : e.length - (off + room) < n := by omega
      obtain ⟨ps, hne, hsent, hcarries, hmarked⟩ := ih hlater (by omega)
      have hlen : ((e.drop off).take room).length = room := by
        rw [List.length_take, List.length_drop]
        omega
      refine ⟨mpvPacket out (UInt8.ofNat out.pictureType) [(e.drop off).take room]
        (decide out.EndBit && last) :: ps, by simp, fun σ send hsend s => ?_, ?_, ?_⟩
      · rw [mpvFragments, if_pos hoff]
        simp only [hsize, hwhole, decide_false, if_false, Bool.false_eq_true]
        rw [if_neg (not_lt.2 (hsend _ _)), hlen, hsent σ send hsend]
        rfl
      · have hfirst := MpvCarries.packet maxDataSize out
          (UInt8.ofNat out.pictureType) [(e.drop off).take room] (decide out.EndBit && last)
          (by rw [List.flatten_singleton, hlen]; omega)
        have hall := hfirst.append hcarries
        rwa [List.flatten_singleton, ← List.drop_drop, List.take_append_drop] at hall
      · cases last with
        | true =>
          rw [if_pos rfl] at hmarked ⊢
          by_cases hend : out.EndBit
          · refine iff_of_false (not_markedLast_cons ?_ hne) fun h => hwhole (h hend)
            simp [mpvPacket, hend]
          · have hfalse : Unmarked [mpvPacket out (UInt8.ofNat out.pictureType)
                [(e.drop off).take room] (decide out.EndBit && true)] := by
              intro p hp
              rw [List.mem_singleton.1 hp]
              simp [mpvPacket, hend]
            refine iff_of_true ?_ fun h => absurd h hend
            exact (markedLast_append hfalse hne).2 (hmarked.2 fun h => absurd h hend)
        | false =>
          rw [if_neg Bool.false_ne_true] at hmarked ⊢
          intro p hp
          rcases List.mem_cons.1 hp with rfl | hp
          · simp [mpvPacket]
          · exact hmarked p hp

/-- The block `b` can be read and is `e`, and the byte that tells a slice can be read. -/
structure MpvBlock.Readable (mem : FrameMemory) (b : MpvBlock) (e : Bytes) : Prop where
  bytes : mem.bytes b.d b.len = .ok e
  code : ∃ c, mem (b.d + 3) = .ok c

/-- The packet under construction has `space` left of its `room`. -/
structure MpvCursor.At (cur : MpvCursor) (room space : ℕ) : Prop where
  full : cur.v.flatten.length + space = room
  left : cur.space = space

/-- A new packet has the whole room. -/
theorem MpvCursor.at_reset (out : RtpMpv) (hmax : maxDataSize = room + 4) :
    (MpvCursor.reset maxDataSize out).At room room := by
  constructor
  · simp [reset]
  · simp only [reset]
    omega

/-- The test of `min_space` sends the packet under construction or leaves it. -/
theorem mpvMakeRoom_spec (hmax : maxDataSize = room + 4) {cur : MpvCursor} {space : ℕ}
    (hcur : cur.At room space) (len : ℕ) :
    ∃ ps d cur', (∀ σ (send : RtpSend σ), send.Succeeds → ∀ s,
        mpvMakeRoom maxDataSize out σ send len cur s =
          (ps.foldl (fun s p => (send p s).1) s, some cur')) ∧
      MpvCarries maxDataSize ps d ∧ d ++ cur'.v.flatten = cur.v.flatten ∧ Unmarked ps ∧
      cur'.At room (mpvSpace room space len) ∧
      cur'.v.length = mpvPieces room space cur.v.length len := by
  have hmin : cur.space < (if maxDataSize - 4 < len then 4 else (len : ℤ)) ↔
      space < (if room < len then 4 else len) := by
    have hroom : maxDataSize - 4 < len ↔ room < len := by omega
    rw [hcur.left, if_congr hroom rfl rfl]
    split_ifs <;> omega
  by_cases hshort : space < (if room < len then 4 else len)
  · refine ⟨[mpvPacket out cur.vhdr2 cur.v false], cur.v.flatten, .reset maxDataSize out,
      fun σ send hsend s => ?_, ?_, by simp [MpvCursor.reset], ?_, ?_, ?_⟩
    · rw [mpvMakeRoom, if_pos (hmin.2 hshort)]
      dsimp only
      rw [if_neg (not_lt.2 (hsend _ _))]
      rfl
    · have hfull := hcur.full
      exact .packet maxDataSize out cur.vhdr2 cur.v false (by omega)
    · intro p hp
      rw [List.mem_singleton.1 hp]
      rfl
    · rw [mpvSpace, if_pos hshort]
      exact MpvCursor.at_reset out hmax
    · rw [mpvPieces, if_pos hshort]
      rfl
  · refine ⟨[], [], cur, fun σ send hsend s => ?_, .nil, rfl, fun p hp => (List.not_mem_nil hp).elim,
      ?_, ?_⟩
    · rw [mpvMakeRoom, if_neg (fun h => hshort (hmin.1 h))]
      rfl
    · rwa [mpvSpace, if_neg hshort]
    · rw [mpvPieces, if_neg hshort]

/-- A block for which `v` has no entry left. -/
theorem mpvAddBlock_overrun {cur : MpvCursor} (hpieces : 46 ≤ cur.v.length) (b : MpvBlock) (last : Bool)
    (σ : Type) (send : RtpSend σ) (s : σ) :
    mpvAddBlock mem maxDataSize out σ send b last cur s = .error .overrun := by
  rw [mpvAddBlock, if_pos (by unfold mpvVSize; omega)]

/-- A block that fits is added to the packet. -/
theorem mpvAddBlock_fits (hint : room < 2 ^ 31) {cur : MpvCursor} {space : ℕ}
    (hcur : cur.At room space) (hpieces : cur.v.length < 46) {b : MpvBlock} {e : Bytes}
    (hread : b.Readable mem e) (hfits : e.length ≤ space) (last : Bool) :
    ∃ cur', (∀ σ (send : RtpSend σ) s,
        mpvAddBlock mem maxDataSize out σ send b last cur s = .ok (s, some cur')) ∧
      cur'.v = cur.v ++ [e] ∧ cur'.At room (space - e.length) := by
  have hfull := hcur.full
  have hleft := hcur.left
  obtain ⟨code, hcode⟩ := hread.code
  have hsize : e.length ≤ sizeT cur.space := by
    rw [hleft, sizeT_natCast (by omega)]
    exact hfits
  set vhdr2 := if isSlice code then cur.vhdr2 ||| 0x10 else cur.vhdr2 with hvhdr
  refine ⟨⟨if isSlice code then vhdr2 ||| 0x08 else vhdr2, cur.space - e.length, cur.v ++ [e]⟩,
    fun σ send s => ?_, rfl, ?_⟩
  · rw [mpvAddBlock, if_neg (by unfold mpvVSize; omega), hread.bytes, ok_bind, hcode, ok_bind,
      ← hvhdr, if_pos hsize]
    rfl
  · constructor
    · simp only [List.flatten_append, List.flatten_singleton, List.length_append]
      omega
    · dsimp only
      omega

/-- A block that does not fit is sent in fragments, the first of which ends the packet. -/
theorem mpvAddBlock_long (hmax : maxDataSize = room + 4) (hroom : 0 < room) (hint : room < 2 ^ 31)
    {cur : MpvCursor} {space : ℕ} (hcur : cur.At room space) (hpieces : cur.v.length < 46)
    {b : MpvBlock} {e : Bytes} (hread : b.Readable mem e) (hlong : space < e.length) (last : Bool) :
    ∃ ps, ps ≠ [] ∧ (∀ σ (send : RtpSend σ), send.Succeeds → ∀ s,
        mpvAddBlock mem maxDataSize out σ send b last cur s =
          .ok (ps.foldl (fun s p => (send p s).1) s, some (.reset maxDataSize out))) ∧
      MpvCarries maxDataSize ps (cur.v.flatten ++ e) ∧
      (if last then (MarkedLast ps ↔ (out.EndBit → e.length - space ≤ room)) else Unmarked ps) := by
  have hfull := hcur.full
  have hsize : sizeT cur.space = space := by
    rw [hcur.left, sizeT_natCast (by omega)]
  obtain ⟨code, hcode⟩ := hread.code
  have hlen : (e.take space).length = space := by
    rw [List.length_take]
    omega
  have hfuel : e.length - space < e.length + 1 := by omega
  obtain ⟨ps, hne, hsent, hcarries, hmarked⟩ :=
    mpvFragments_spec out hmax hroom hint last hfuel hlong
  set vhdr2 := if isSlice code then cur.vhdr2 ||| 0x10 else cur.vhdr2 with hvhdr
  have hfirst : Unmarked [mpvPacket out (vhdr2 &&& ~~~0x08) (cur.v ++ [e.take space]) false] := by
    intro p hp
    rw [List.mem_singleton.1 hp]
    rfl
  refine ⟨mpvPacket out (vhdr2 &&& ~~~0x08) (cur.v ++ [e.take space]) false :: ps, by simp,
    fun σ send hsend s => ?_, ?_, ?_⟩
  · rw [mpvAddBlock, if_neg (by unfold mpvVSize; omega), hread.bytes, ok_bind, hcode, ok_bind]
    simp only [hsize, ← hvhdr]
    rw [if_neg (not_le.2 hlong), if_neg (not_lt.2 (hsend _ _)), hlen, hsent σ send hsend, ok_bind]
    rfl
  · have hpacket := MpvCarries.packet maxDataSize out (vhdr2 &&& ~~~0x08) (cur.v ++ [e.take space])
      false (by rw [List.flatten_append, List.flatten_singleton, List.length_append, hlen]; omega)
    have hall := hpacket.append hcarries
    rwa [List.flatten_append, List.flatten_singleton, List.append_assoc, List.take_append_drop]
      at hall
  · cases last with
    | true =>
      rw [if_pos rfl] at hmarked ⊢
      rw [← hmarked]
      exact markedLast_append hfirst hne
    | false =>
      rw [if_neg Bool.false_ne_true] at hmarked ⊢
      exact hfirst.append hmarked

end Block

/-! ## The loop -/

section Loop

variable {mem : FrameMemory} {maxDataSize : ℤ} {room : ℕ} {out : RtpMpv}

/-- The lengths of some blocks. -/
abbrev blockLengths (es : List Bytes) : List ℕ := es.map List.length

/-- The loop of `mpv_send` when no packet takes too many entries: the packets carry what the packet
under construction holds and the blocks that are left.

**Proof sketch.** By induction on the blocks that are left. Room is made for the block first
(`mpvMakeRoom_spec`); then it goes into the packet as a whole, or is sent in fragments and a new
packet begins. What the packets carry is appended in order, and the marker is on the last packet
only. -/
theorem mpvSendLoop_spec (hmax : maxDataSize = room + 4) (hroom : 0 < room) (hint : room < 2 ^ 31)
    {rest : List MpvBlock} {es : List Bytes} (hread : List.Forall₂ (MpvBlock.Readable mem) rest es)
    {cur : MpvCursor} {space : ℕ} (hcur : cur.At room space)
    (hfits : PacketsFit room space cur.v.length (blockLengths es)) :
    ∃ ps, Delivers (fun σ send => mpvSendLoop mem maxDataSize out σ send rest cur) ps ∧
      MpvCarries maxDataSize ps (cur.v.flatten ++ es.flatten) ∧
      (ps = [] ↔ cur.v = [] ∧ es = []) ∧
      (MarkedLast ps ↔ (out.EndBit → LastFits room space (blockLengths es))) := by
  induction hread generalizing cur space with
  | nil =>
    by_cases hv : cur.v = []
    · refine ⟨[], fun σ send hsend s => ?_, by simpa [hv] using MpvCarries.nil, by simp [hv], ?_⟩
      · show mpvSendLoop mem maxDataSize out σ send [] cur s = _
        rw [mpvSendLoop, if_pos hv]
        rfl
      · exact iff_of_true (fun i p hp => by cases hp) fun _ => trivial
    · refine ⟨[mpvPacket out cur.vhdr2 cur.v true], fun σ send hsend s => ?_, ?_, by simp [hv], ?_⟩
      · show mpvSendLoop mem maxDataSize out σ send [] cur s = _
        rw [mpvSendLoop, if_neg hv]
        dsimp only
        rw [if_neg (not_lt.2 (hsend _ _))]
        rfl
      · have hfull := hcur.full
        rw [List.flatten_nil, List.append_nil]
        exact .packet maxDataSize out cur.vhdr2 cur.v true (by omega)
      · exact iff_of_true (.single rfl) fun _ => trivial
  | @cons b e rest es hb hread ih =>
    have hlen : e.length = b.len := FrameMemory.length_bytes hb.bytes
    obtain ⟨ps, d, cur', hflush, hcarries, hd, hunmarked, hcur', hpieces⟩ :=
      mpvMakeRoom_spec hmax hcur b.len
    rw [← hlen] at hcur' hpieces
    obtain ⟨hlt, hfits⟩ := hfits
    rw [← hpieces] at hlt
    have hempty : rest.isEmpty = es.isEmpty := by
      cases hread <;> rfl
    by_cases hle : e.length ≤ mpvSpace room space e.length
    · -- The whole block goes into the packet.
      rw [if_pos hle, ← hpieces] at hfits
      obtain ⟨cur'', hadd, hv, hcur''⟩ := mpvAddBlock_fits hint hcur' hlt hb hle rest.isEmpty
      have hlength : cur''.v.length = cur'.v.length + 1 := by
        rw [hv, List.length_append, List.length_singleton]
      obtain ⟨qs, hsent, hqs, hne, hmarked⟩ := ih hcur'' (by rw [hlength]; exact hfits)
      have hne : qs ≠ [] := by simp [hne, hv]
      refine ⟨ps ++ qs, hsent.append fun σ send hsend s => ?_, ?_, by simp [hne], ?_⟩
      · show mpvSendLoop mem maxDataSize out σ send (b :: rest) cur s = _
        rw [mpvSendLoop, hflush σ send hsend]
        dsimp only
        rw [hadd, ok_bind]
      · have hall := hcarries.append hqs
        rwa [hv, List.flatten_append, List.flatten_singleton, ← List.append_assoc,
          ← List.append_assoc, hd, List.append_assoc] at hall
      · rw [markedLast_append hunmarked hne, hmarked]
        simp only [LastFits, List.map_cons, if_pos hle]
    · -- The block is sent in fragments.
      rw [if_neg hle] at hfits
      obtain ⟨frags, hfrags, hadd, hcarries', hmark⟩ :=
        mpvAddBlock_long hmax hroom hint hcur' hlt hb (not_le.1 hle) rest.isEmpty
      obtain ⟨qs, hsent, hqs, hne, hmarked⟩ := ih (MpvCursor.at_reset out hmax) hfits
      refine ⟨ps ++ (frags ++ qs), Delivers.append (hsent.append fun σ send hsend s => rfl)
        fun σ send hsend s => ?_, ?_, by simp [hfrags], ?_⟩
      · show mpvSendLoop mem maxDataSize out σ send (b :: rest) cur s = _
        rw [mpvSendLoop, hflush σ send hsend]
        dsimp only
        rw [hadd σ send hsend, ok_bind]
      · have hall := hcarries.append (hcarries'.append hqs)
        simp only [MpvCursor.reset, List.flatten_nil, List.nil_append] at hall
        rwa [List.append_assoc, ← List.append_assoc d, hd] at hall
      · rw [markedLast_append hunmarked (by simp [hfrags])]
        simp only [LastFits, List.map_cons, if_neg hle]
        rw [hempty] at hmark
        cases es with
        | nil =>
          -- No packet follows the fragments.
          obtain rfl := hne.2 ⟨rfl, rfl⟩
          simpa using hmark
        | cons e' es =>
          rw [List.isEmpty_cons, if_neg Bool.false_ne_true] at hmark
          rw [markedLast_append hmark (by simp [hne]), hmarked, if_neg (by simp)]

/-- The loop of `mpv_send` when a packet takes too many entries. -/
theorem mpvSendLoop_overrun (hmax : maxDataSize = room + 4) (hroom : 0 < room) (hint : room < 2 ^ 31)
    {rest : List MpvBlock} {es : List Bytes} (hread : List.Forall₂ (MpvBlock.Readable mem) rest es)
    {cur : MpvCursor} {space : ℕ} (hcur : cur.At room space)
    (hfits : ¬ PacketsFit room space cur.v.length (blockLengths es))
    (σ : Type) (send : RtpSend σ) (hsend : send.Succeeds) (s : σ) :
    mpvSendLoop mem maxDataSize out σ send rest cur s = .error .overrun := by
  induction hread generalizing cur space s with
  | nil => exact absurd trivial hfits
  | @cons b e rest es hb hread ih =>
    have hlen : e.length = b.len := FrameMemory.length_bytes hb.bytes
    obtain ⟨ps, d, cur', hflush, -, -, -, hcur', hpieces⟩ := mpvMakeRoom_spec hmax hcur b.len
    rw [← hlen] at hcur' hpieces
    rw [mpvSendLoop, hflush σ send hsend]
    dsimp only
    by_cases hlt : 46 ≤ cur'.v.length
    · rw [mpvAddBlock_overrun hlt]
      rfl
    have hlt : cur'.v.length < 46 := not_le.1 hlt
    by_cases hle : e.length ≤ mpvSpace room space e.length
    · obtain ⟨cur'', hadd, hv, hcur''⟩ := mpvAddBlock_fits hint hcur' hlt hb hle rest.isEmpty
      rw [hadd, ok_bind]
      refine ih hcur'' (fun h => hfits ?_) _
      rw [hv, List.length_append, List.length_singleton, hpieces] at h
      refine ⟨hpieces ▸ hlt, ?_⟩
      rw [if_pos hle]
      exact h
    · obtain ⟨frags, -, hadd, -, -⟩ :=
        mpvAddBlock_long hmax hroom hint hcur' hlt hb (not_le.1 hle) rest.isEmpty
      rw [hadd σ send hsend, ok_bind]
      refine ih (MpvCursor.at_reset out hmax) (fun h => hfits ?_) _
      refine ⟨hpieces ▸ hlt, ?_⟩
      rw [if_neg hle]
      exact h

end Loop

/-! ## The blocks of a frame -/

section Frame

variable {mem : FrameMemory} {f : MediaFrame}

/-- The bytes that a block points to. -/
def MpvBlock.bytes (f : MediaFrame) (b : MpvBlock) : Bytes := (f.d.drop b.d).take b.len

/-- The bytes that `mpv_send` is to send. -/
def RtpMpv.content (f : MediaFrame) (out : RtpMpv) : Bytes :=
  (if out.pictureType = 1 then out.vsh else []) ++ (out.blk.map (MpvBlock.bytes f)).flatten

/-- A part of the frame of which a start code can be read. -/
structure MpvBlock.Inside (mem : FrameMemory) (f : MediaFrame) (b : MpvBlock) : Prop where
  le : b.d + b.len ≤ f.d.length
  code : ∃ c, mem (b.d + 3) = .ok c

/-- A block inside the frame can be read. -/
theorem MpvBlock.Inside.readable (hmem : mem.Holds f) {b : MpvBlock} (h : b.Inside mem f) :
    b.Readable mem (b.bytes f) :=
  ⟨hmem.bytes h.le, h.code⟩

/-- A block inside the frame has as many bytes as it says. -/
theorem MpvBlock.Inside.length_bytes {b : MpvBlock} (h : b.Inside mem f) :
    (b.bytes f).length = b.len := by
  have hle := h.le
  rw [bytes, List.length_take, List.length_drop]
  omega

/-- The fields of a start code that was read. -/
theorem get32_code {d code : ℕ} (h : mem.get32 d = .ok code) : ∃ c, mem (d + 3) = .ok c := by
  obtain ⟨_, -, h⟩ := bind_eq_ok.1 h
  obtain ⟨_, h, -⟩ := bind_eq_ok.1 h
  obtain ⟨_, -, h⟩ := bind_eq_ok.1 h
  obtain ⟨c, h, -⟩ := bind_eq_ok.1 h
  exact ⟨c, h⟩

/-- The picture header adds no block. -/
theorem parsePictureHeader_blk {out out' : RtpMpv} {d len : ℕ}
    (h : parsePictureHeader mem out d len = .ok out') : out'.blk = out.blk := by
  unfold parsePictureHeader at h
  split_ifs at h
  · obtain ⟨r, -, h⟩ := bind_eq_ok.1 h
    obtain ⟨r', -, h⟩ := bind_eq_ok.1 h
    obtain ⟨_, -, h⟩ := bind_eq_ok.1 h
    obtain rfl := Except.ok.inj h
    rfl
  · obtain rfl := Except.ok.inj h
    rfl

/-- Whatever the code is, the part becomes one more block. -/
theorem mpvPicturePart_blk {out out' : RtpMpv} {code d len : ℕ}
    (h : mpvPicturePart mem out code d len = .ok out') : out'.blk = out.blk ++ [⟨d, len⟩] := by
  unfold mpvPicturePart at h
  split_ifs at h
  · obtain ⟨mid, hmid, h⟩ := bind_eq_ok.1 h
    obtain rfl := Except.ok.inj h
    rw [← parsePictureHeader_blk hmid]
  · obtain rfl := Except.ok.inj h
    rfl

/-- A part of the sequence header adds no block. -/
theorem addToVsh_blk {out out' : RtpMpv} {d len : ℕ} (h : addToVsh mem out d len = .ok out') :
    out'.blk = out.blk := by
  unfold addToVsh at h
  split_ifs at h
  obtain ⟨bs, -, h⟩ := bind_eq_ok.1 h
  obtain rfl := Except.ok.inj h
  rfl

/-- The sequence header adds no block. -/
theorem parseVideoSequenceHeader_blk {out out' : RtpMpv} {d : ℕ}
    (h : parseVideoSequenceHeader mem out d = .ok out') : out'.blk = out.blk := by
  obtain ⟨r, -, h⟩ := bind_eq_ok.1 h
  dsimp only at h
  split_ifs at h
  obtain rfl := Except.ok.inj h
  rfl

/-- What stands in front of the picture adds no block. -/
theorem mpvHeaderPart_blk {out out' : RtpMpv} {haveVsh haveVsh' : Bool} {code d len : ℕ}
    (h : mpvHeaderPart mem out haveVsh code d len = .ok (out', haveVsh')) : out'.blk = out.blk := by
  unfold mpvHeaderPart at h
  split_ifs at h
  · obtain ⟨mid, hmid, h⟩ := bind_eq_ok.1 h
    obtain ⟨mid', hadd, h⟩ := bind_eq_ok.1 h
    obtain rfl := (Prod.mk.inj (Except.ok.inj h)).1
    rw [addToVsh_blk hadd, parseVideoSequenceHeader_blk hmid]
  · obtain ⟨mid, hadd, h⟩ := bind_eq_ok.1 h
    obtain rfl := (Prod.mk.inj (Except.ok.inj h)).1
    exact addToVsh_blk hadd
  · obtain rfl := (Prod.mk.inj (Except.ok.inj h)).1
    rfl

/-- The blocks that a frame leaves lie inside it. -/
theorem mpvParts_inside {n : ℕ} {out out' : RtpMpv} {inPicture haveVsh : Bool} {start : ℕ}
    (hout : ∀ b ∈ out.blk, b.Inside mem f)
    (h : mpvParts mem f.d.length n out inPicture haveVsh start = .ok out') :
    ∀ b ∈ out'.blk, b.Inside mem f := by
  induction n generalizing out inPicture haveVsh start with
  | zero => cases h
  | succ n ih =>
    unfold mpvParts at h
    by_cases hstart : start < f.d.length
    · rw [if_pos hstart] at h
      by_cases hfull : out.blk.length = mpvBlkSize
      · rw [if_pos hfull] at h
        obtain rfl := Except.ok.inj h
        exact hout
      rw [if_neg hfull] at h
      obtain ⟨flen, hflen, h⟩ := bind_eq_ok.1 h
      dsimp only at h
      have hlen : unitLength mem f.d.length start =
          .ok (if flen = 0 then f.d.length - start else flen) := by
        unfold mpvFindNextCode at hflen
        rw [unitLength, hflen]
        rfl
      generalize (if flen = 0 then f.d.length - start else flen) = len at h hlen
      have hle := (unitLength_bounds hstart hlen).2
      obtain ⟨code, hcode, h⟩ := bind_eq_ok.1 h
      split_ifs at h with hpicture
      · obtain ⟨mid, hmid, h⟩ := bind_eq_ok.1 h
        refine ih (fun b hb => ?_) h
        rw [mpvPicturePart_blk hmid] at hb
        rcases List.mem_append.1 hb with hb | hb
        · exact hout b hb
        · rw [List.mem_singleton.1 hb]
          exact ⟨hle, get32_code hcode⟩
      · obtain ⟨⟨mid, have'⟩, hmid, h⟩ := bind_eq_ok.1 h
        refine ih (fun b hb => ?_) h
        rw [mpvHeaderPart_blk hmid] at hb
        exact hout b hb
    · rw [if_neg hstart] at h
      obtain rfl := Except.ok.inj h
      exact hout

/-- The blocks that `mpv_process_frame` leaves lie inside the frame. -/
theorem mpvProcessFrame_inside {out₀ out : RtpMpv} {ret : ℤ}
    (h : mpvProcessFrame mem f out₀ = .ok (out, ret)) : ∀ b ∈ out.blk, b.Inside mem f := by
  obtain ⟨mid, hmid, h⟩ := bind_eq_ok.1 h
  obtain rfl := (Prod.mk.inj (Except.ok.inj h)).1
  exact mpvParts_inside (by simp) hmid

end Frame

/-! ## Sending a frame -/

section Result

variable {mem : FrameMemory} {f : MediaFrame} {maxDataSize : ℤ} {room : ℕ} {out : RtpMpv}

/-- `mpv_send` writes inside `v`, and its packets, of at most `maxDataSize` bytes each, carry the
content of the frame and have the marker on the last one. -/
def MpvSends (mem : FrameMemory) (f : MediaFrame) (maxDataSize : ℤ) (out : RtpMpv) : Prop :=
  ∃ ps, Delivers (fun σ send => mpvSend mem maxDataSize out σ send) ps ∧
    MpvCarries maxDataSize ps (out.content f) ∧ MarkedLast ps

/-- The space that the stored sequence header leaves in the first packet. -/
def RtpMpv.firstSpace (out : RtpMpv) (room : ℕ) : ℕ :=
  if out.pictureType = 1 then room - out.vsh.length else room

/-- The entries that the stored sequence header takes in the first packet. -/
def RtpMpv.firstPieces (out : RtpMpv) : ℕ := if out.pictureType = 1 then 1 else 0

/-- No packet of `room` bytes takes more than 46 entries, and if `picture_type` has the End-of-slice
bit, then the last block needs at most two packets. -/
def RtpMpv.Fits (out : RtpMpv) (room : ℕ) : Prop :=
  PacketsFit room (out.firstSpace room) out.firstPieces (out.blk.map MpvBlock.len) ∧
    (out.EndBit → LastFits room (out.firstSpace room) (out.blk.map MpvBlock.len))

/-- At the start of a picture there is the room that its first packet has. -/
theorem MpvCursor.at_start (hmax : maxDataSize = room + 4)
    (hvsh : out.pictureType = 1 → out.vsh.length ≤ room) :
    (MpvCursor.start maxDataSize out).At room (out.firstSpace room) := by
  unfold start RtpMpv.firstSpace
  split_ifs with htype
  · have hle := hvsh htype
    constructor
    · rw [List.flatten_singleton]
      omega
    · dsimp only
      omega
  · exact at_reset out hmax

/-- The vector has the sequence header as a piece where the picture is intra coded. -/
theorem MpvCursor.length_start (maxDataSize : ℤ) (out : RtpMpv) :
    (MpvCursor.start maxDataSize out).v.length = out.firstPieces := by
  unfold start RtpMpv.firstPieces
  split_ifs <;> rfl

/-- What the first packet of a picture starts with. -/
theorem MpvCursor.flatten_start (maxDataSize : ℤ) (out : RtpMpv) :
    (MpvCursor.start maxDataSize out).v.flatten = if out.pictureType = 1 then out.vsh else [] := by
  unfold start
  split_ifs
  · exact List.flatten_singleton
  · rfl

/-- The blocks of a frame, read from the frame. -/
theorem readable_blocks (hmem : mem.Holds f) (hin : ∀ b ∈ out.blk, b.Inside mem f) :
    List.Forall₂ (MpvBlock.Readable mem) out.blk (out.blk.map (MpvBlock.bytes f)) := by
  rw [List.forall₂_map_right_iff, List.forall₂_same]
  exact fun b hb => (hin b hb).readable hmem

/-- The lengths of the blocks, read off their bytes. -/
theorem length_blocks (hin : ∀ b ∈ out.blk, b.Inside mem f) :
    blockLengths (out.blk.map (MpvBlock.bytes f)) = out.blk.map MpvBlock.len := by
  rw [blockLengths, List.map_map]
  exact List.map_congr_left fun b hb => (hin b hb).length_bytes

/-- `mpv_send` of blocks inside a frame. -/
theorem mpvSends_of_inside (hmem : mem.Holds f) (hin : ∀ b ∈ out.blk, b.Inside mem f)
    (hmax : maxDataSize = room + 4) (hroom : 0 < room) (hint : room < 2 ^ 31)
    (hvsh : out.pictureType = 1 → out.vsh.length ≤ room) :
    MpvSends mem f maxDataSize out ↔ out.Fits room := by
  have hread := readable_blocks hmem hin
  have hcur := MpvCursor.at_start hmax hvsh
  have hcontent : (MpvCursor.start maxDataSize out).v.flatten ++
      (out.blk.map (MpvBlock.bytes f)).flatten = out.content f := by
    rw [MpvCursor.flatten_start]
    rfl
  by_cases hfits : PacketsFit room (out.firstSpace room) out.firstPieces (out.blk.map MpvBlock.len)
  · have hlens := hfits
    rw [← length_blocks hin, ← MpvCursor.length_start maxDataSize] at hlens
    obtain ⟨ps, hsent, hcarries, -, hmarked⟩ := mpvSendLoop_spec hmax hroom hint hread hcur hlens
    rw [hcontent] at hcarries
    rw [length_blocks hin] at hmarked
    constructor
    · rintro ⟨qs, hqs, -, hlast⟩
      obtain rfl := Delivers.unique hsent hqs
      exact ⟨hfits, hmarked.1 hlast⟩
    · rintro ⟨-, hlast⟩
      exact ⟨ps, hsent, hcarries, hmarked.2 hlast⟩
  · refine iff_of_false ?_ fun h => hfits h.1
    rintro ⟨ps, hsent, -, -⟩
    have hlens := hfits
    rw [← length_blocks hin, ← MpvCursor.length_start maxDataSize] at hlens
    have hover : mpvSend mem maxDataSize out _ collect [] = .error .overrun :=
      mpvSendLoop_overrun hmax hroom hint hread hcur hlens _ collect collect_succeeds []
    have hcollect := hsent.collect
    rw [hover] at hcollect
    cases hcollect

end Result

/-- **MPEG video packetization.** After a frame, when the stored sequence header fits one packet,
`mpv_send` writes inside its array and its packets carry the content, with the marker on the last
one, exactly if no packet takes more than 46 entries and `picture_type`, should it have the
End-of-slice bit, marks no fragment but the last. -/
theorem mpvSends_iff {mem : FrameMemory} {f : MediaFrame} (hmem : mem.Holds f) {out₀ out : RtpMpv}
    {ret : ℤ} (hframe : mpvProcessFrame mem f out₀ = .ok (out, ret)) {maxDataSize : ℤ}
    (hmax : 4 < maxDataSize) (hint : maxDataSize < 2 ^ 31)
    (hvsh : out.pictureType = 1 → (out.vsh.length : ℤ) ≤ maxDataSize - 4) :
    MpvSends mem f maxDataSize out ↔ out.Fits (maxDataSize - 4).toNat :=
  mpvSends_of_inside hmem (mpvProcessFrame_inside hframe) (by omega) (by omega) (by omega)
    fun h => by have hle := hvsh h; omega

/-! ### Frames of short slices -/

/-- What `malloc` may leave in a `struct rtp_mpv`. -/
def rtpMpvLeft : RtpMpv := ⟨[], 0, 0, 0, [], false, 0, 0⟩

/-- A frame of a sequence header, a header of an I picture and `n` short slices. -/
def slicesFrame (n : ℕ) : MediaFrame :=
  ⟨[0, 0, 1, 0xB3, 0x12, 0x01, 0x20, 0x13, 0, 0, 0, 0] ++ [0, 0, 1, 0, 0, 0x0F, 0xFF, 0xF8] ++
    (List.replicate n [0, 0, 1, 1]).flatten, 0⟩

/-- What the frame leaves. -/
def slicesOut (n : ℕ) : RtpMpv :=
  ⟨⟨12, 8⟩ :: (List.range n).map fun i => ⟨20 + 4 * i, 4⟩, 0, 1, 0,
    [0, 0, 1, 0xB3, 0x12, 0x01, 0x20, 0x13, 0, 0, 0, 0], true, 3600, 3600⟩

/-- A picture with two slices is accepted. -/
theorem slicesFrame_two : mpvProcessFrame (slicesFrame 2).byte (slicesFrame 2)
    (newRtpMediaMpv rtpMpvLeft) = .ok (slicesOut 2, 1) := by
  decide +kernel

/-- A picture with 46 slices is accepted. -/
theorem slicesFrame_many : mpvProcessFrame (slicesFrame 46).byte (slicesFrame 46)
    (newRtpMediaMpv rtpMpvLeft) = .ok (slicesOut 46, 1) := by
  decide +kernel

/-- The sequence header, the picture and two slices, in one packet. -/
theorem mpvSends_iff_two : MpvSends (slicesFrame 2).byte (slicesFrame 2) 1400 (slicesOut 2) := by
  have hvsh : ((slicesOut 2).vsh.length : ℤ) ≤ 1400 - 4 := by decide
  refine (mpvSends_iff (slicesFrame 2).holds_byte slicesFrame_two (by decide) (by decide)
    fun _ => hvsh).2 ⟨?_, fun hend => absurd hend ?_⟩
  · decide
  · decide

/-- A frame of 204 bytes is accepted, and its 48 pieces would go into one packet. -/
theorem mpvSends_overrun :
    mpvProcessFrame (slicesFrame 46).byte (slicesFrame 46) (newRtpMediaMpv rtpMpvLeft) =
        .ok (slicesOut 46, 1) ∧
      ((slicesOut 46).vsh.length : ℤ) ≤ 1400 - 4 ∧
      ¬ MpvSends (slicesFrame 46).byte (slicesFrame 46) 1400 (slicesOut 46) := by
  refine ⟨slicesFrame_many, by decide, fun h => ?_⟩
  have hin := mpvProcessFrame_inside slicesFrame_many
  have hfits := (mpvSends_of_inside (slicesFrame 46).holds_byte hin (by rfl) (by decide) (by decide)
    fun _ => by decide).1 h
  have hpieces : ¬ PacketsFit 1396 ((slicesOut 46).firstSpace 1396) (slicesOut 46).firstPieces
      ((slicesOut 46).blk.map MpvBlock.len) := by
    decide +kernel
  exact hpieces hfits.1

end Spook
