import Spook.Lib.Pieces
import Spook.Rtp.Jpeg.Image
import Spook.Rtp.Network

set_option relaxedAutoImplicit false
set_option autoImplicit false

/-!
# JPEG over a network

The images of a stream of JPEG are sent by UDP, through a socket that may refuse any datagram, over a
network that may lose, repeat and reorder them. A receiver that puts the fragments of a timestamp
together gets exactly the pictures all of whose packets arrived.

## Main definitions

* `Spook.jpegStream` — the frames of a stream, as they are processed and sent to one endpoint.
* `Spook.JpegShot` — an image with its time.
* `Spook.jpegReceiver` — the receiver.

## Main results

* `Spook.jpeg_network` — what the receiver gets.
-/

namespace Spook

/-! ## The sender -/

section Sender

variable (sendmsgOk : ℕ → Bool) (rtcpRet maxDataSize : ℤ)

/-- The frames of a stream, each with whether it is passed to `jpeg_send` for the endpoint when
`jpeg_process_frame` accepts it. -/
def jpegStream : List (MediaFrame × Bool) → RtpJpeg → UdpLink →
    Except Fault (UdpLink × List Offer)
  | [], _, l => .ok (l, [])
  | (f, offered) :: fs, out, l => do
    let (out, ret) ← jpegProcessFrame f.byte f out
    if ret ≠ 0 ∧ offered then
      let (l₁, ret) ← jpegSend maxDataSize f.byte out _ (sendUdp sendmsgOk rtcpRet) l
      let (l₂, log) ← jpegStream fs out l₁
      return (l₂, ⟨out.timestamp, f.d, ret, l.sent.length, l₁.sent.length⟩ :: log)
    else jpegStream fs out l

end Sender

/-- An image with its time, and whether it is passed to `jpeg_send` when it is accepted. -/
structure JpegShot where
  image : JpegImage
  timestamp : ℕ
  offered : Bool

/-- The frame with an image. -/
def JpegShot.frame (s : JpegShot) : MediaFrame := ⟨s.image.bytes, s.timestamp⟩

/-- The packets with the fragments of a scan, the first of which is at `offset`, behind `tables`. -/
def jpegPackets (out : RtpJpeg) (tables : Bytes) (offset : ℕ) : List Bytes → List RtpPacket
  | [] => []
  | frag :: frags =>
    ⟨jpegHeader out offset ++ tables ++ frag, out.timestamp, frags.isEmpty⟩ ::
      jpegPackets out [] (offset + frag.length) frags

/-- The packets of a picture. -/
def picturePackets (out : RtpJpeg) (P : JpegPicture) (frags : List Bytes) : List RtpPacket :=
  jpegPackets out (quantHeader ++ P.luma ++ P.chroma) 0 frags

section Hands

variable {mem : FrameMemory} {out : RtpJpeg} {maxDataSize : ℤ} {luma chroma : Option ℕ}

/-- The loop of `jpeg_send` hands over fragments of the bytes of the scan that are left.

**Proof sketch.** By induction on the fuel. The length of a fragment is positive, because the
headers leave room, and at most what is left; the bytes that are read for it are the beginning of
the scan, and the marker is on it if nothing is left behind it. -/
theorem jpegFragments_hands (hmax : 140 < maxDataSize) {n offset : ℕ} {first : Bool}
    {data tables : Bytes} (hlen : out.scanDataLen = offset + data.length)
    (hdata : mem.bytes (out.scanData + offset) data.length = .ok data)
    (htables : tablesOf mem luma chroma first = .ok tables) (hn : data.length < n) :
    ∃ frags, frags.flatten = data ∧ (∀ frag ∈ frags, frag ≠ []) ∧
      Hands (fun σ send => jpegFragments maxDataSize mem out σ send luma chroma n offset first)
        (jpegPackets out tables offset frags) := by
  induction n generalizing offset first data tables with
  | zero => exact absurd hn (Nat.not_lt_zero _)
  | succ n ih =>
    by_cases hnil : data = []
    · subst hnil
      refine ⟨[], rfl, by simp, fun σ send s => ?_⟩
      show jpegFragments maxDataSize mem out σ send luma chroma (n + 1) offset first s = _
      rw [jpegFragments, if_neg (by rw [hlen]; simp)]
      rfl
    -- a fragment has at least one byte, and takes all that is left or as much as fits
    obtain ⟨k, hk, hpos, hle⟩ : ∃ k : ℕ,
        jpegPlen maxDataSize first (out.scanDataLen - offset) = k ∧ 0 < k ∧ k ≤ data.length := by
      have hhdr : jpegHdrLen first ≤ 140 := by cases first <;> decide
      have hlength : 0 < data.length := List.length_pos_iff.2 hnil
      unfold jpegPlen
      split_ifs with h
      · exact ⟨(maxDataSize - jpegHdrLen first).toNat, by omega, by omega, by omega⟩
      · exact ⟨data.length, by omega, hlength, le_rfl⟩
    obtain ⟨r, hr⟩ : ∃ r, data.length = k + r := ⟨data.length - k, by omega⟩
    rw [hr] at hdata
    obtain ⟨hfrag, hrest⟩ := FrameMemory.bytes_split hdata
    have hlength : (data.drop k).length = r := by rw [List.length_drop]; omega
    have htake : (data.take k).length = k := List.length_take_of_le hle
    obtain ⟨frags, hflat, hne, hhands⟩ := @ih (offset + k) false (data.drop k) []
      (by push_cast; omega) (by rw [hlength, ← Nat.add_assoc]; exact hrest) rfl (by omega)
    have hend : decide ((k : ℤ) + offset = out.scanDataLen) = frags.isEmpty := by
      have hempty : frags = [] ↔ data.drop k = [] := by
        rw [← hflat]
        constructor
        · rintro rfl
          rfl
        · intro hall
          rw [List.flatten_eq_nil_iff] at hall
          exact List.eq_nil_iff_forall_not_mem.2 fun frag hmem => hne frag hmem (hall frag hmem)
      rw [← List.length_eq_zero_iff (l := data.drop k), hlength] at hempty
      rw [Bool.eq_iff_iff, decide_eq_true_iff, List.isEmpty_iff, hempty]
      omega
    refine ⟨data.take k :: frags, by rw [List.flatten_cons, hflat, List.take_append_drop], ?_,
      fun σ send s => ?_⟩
    · intro frag hmem
      rcases List.mem_cons.1 hmem with rfl | hmem
      · apply List.ne_nil_of_length_pos
        omega
      · exact hne frag hmem
    · have hrun := hhands σ send
      simp only [Nat.cast_add] at hrun
      show jpegFragments maxDataSize mem out σ send luma chroma (n + 1) offset first s = _
      rw [jpegFragments, if_pos (by omega)]
      dsimp only
      rw [hk, if_neg (by omega), htables, ok_bind, Int.toNat_natCast, Int.toNat_natCast, hfrag, ok_bind,
        hend]
      simp only [jpegPackets, htake, sendAll]
      split_ifs
      · rfl
      · exact hrun _

/-- What `jpeg_send` hands over. -/
theorem jpegSend_hands (hmax : 140 < maxDataSize) {P : JpegPicture} {scan : Bytes}
    (hout : Shows mem out P) (hscan : ScanAt mem scan out) :
    ∃ frags, frags.flatten = scan ∧ (∀ frag ∈ frags, frag ≠ []) ∧
      Hands (jpegSend maxDataSize mem out) (picturePackets out P frags) := by
  obtain ⟨l, hl, hluma⟩ := bind_eq_ok.1 hout.luma
  obtain ⟨c, hc, hchroma⟩ := bind_eq_ok.1 hout.chroma
  have htables : tablesOf mem l c true = .ok (quantHeader ++ P.luma ++ P.chroma) := by
    simp only [tablesOf, if_true, quantTables, hluma, hchroma, ok_bind]
    rfl
  obtain ⟨frags, hflat, hne, hhands⟩ := @jpegFragments_hands mem out maxDataSize l c hmax
    (out.scanDataLen.toNat + 1) 0 true scan _ (by simp [hscan.length]) hscan.bytes htables
    (by rw [hscan.length]; omega)
  refine ⟨frags, hflat, hne, fun σ send s => ?_⟩
  rw [jpegSend, hl, ok_bind, hc, ok_bind]
  exact hhands σ send s

/-- The packets, one by one. -/
theorem getElem?_jpegPackets (tables : Bytes) (offset k : ℕ) (frags : List Bytes) :
    (jpegPackets out tables offset frags)[k]? = frags[k]?.map fun frag =>
      ⟨jpegHeader out ((offset + (frags.take k).flatten.length : ℕ) : ℤ) ++
        (if k = 0 then tables else []) ++ frag, out.timestamp, decide (k + 1 = frags.length)⟩ := by
  induction frags generalizing tables offset k with
  | nil => simp [jpegPackets]
  | cons frag frags ih =>
    cases k with
    | zero =>
      have hlast : frags.isEmpty = decide (frags = []) := by
        cases frags <;> rfl
      simp [jpegPackets, hlast]
    | succ k => simp [jpegPackets, ih, Nat.add_assoc]

end Hands

/-! ## The receiver -/

/-- A packet of RFC 2435 with tables of its own, as its receiver sees it. -/
structure JpegReceived where
  type : UInt8
  width : UInt8
  height : UInt8
  offset : ℕ
  tables : Bytes
  data : Bytes

/-- The payload of a packet. The tables are in front of the first fragment. -/
def jpegParse : Bytes → Option JpegReceived
  | _ :: o₂ :: o₁ :: o₀ :: type :: q :: width :: height :: rest =>
    let offset := o₂.toNat * 65536 + get16 o₁ o₀
    if q < 128 then none
    else if offset ≠ 0 then some ⟨type, width, height, offset, [], rest⟩
    else
      match rest with
      | _ :: _ :: l₁ :: l₀ :: rest =>
        some ⟨type, width, height, offset, rest.take (get16 l₁ l₀), rest.drop (get16 l₁ l₀)⟩
      | _ => none
  | _ => none

/-- A picture of the packets with one timestamp, each with its marker: there are one with the tables
and one with the marker, and the fragments reach to the end of the latter. -/
def assemble (rs : List (Bool × JpegReceived)) : Option JpegPicture := do
  let first ← rs.find? fun r => r.2.offset = 0
  let last ← rs.find? Prod.fst
  let scan := lay (rs.map fun r => (r.2.offset, r.2.data))
  if scan.length = last.2.offset + last.2.data.length then
    return ⟨first.2.type, first.2.width, first.2.height, first.2.tables.take 64,
      first.2.tables.drop 64, scan⟩
  else none

/-- The picture that a receiver gets with a timestamp. -/
def jpegReceiver (timestamp : ℕ) (datagrams : List Bytes) : Option JpegPicture :=
  assemble ((datagrams.filterMap rtpParse).filterMap fun r =>
    if r.timestamp = timestamp then (jpegParse r.data).map fun p => (r.marker, p) else none)

section Receiver

variable {out : RtpJpeg} {P : JpegPicture} {frags : List Bytes}

/-- What the receiver makes of the packet `k`. -/
def jpegItem (P : JpegPicture) (frags : List Bytes) (k : ℕ) : Bool × JpegReceived :=
  (decide (k + 1 = frags.length),
    ⟨P.type, P.width, P.height, (frags.take k).flatten.length,
      if k = 0 then P.luma ++ P.chroma else [], frags.getD k []⟩)

/-- The first fragment is the only one at the beginning. -/
theorem offset_eq_zero (hne : ∀ frag ∈ frags, frag ≠ []) {k : ℕ} (hk : k < frags.length) :
    (frags.take k).flatten.length = 0 ↔ k = 0 := by
  refine ⟨fun h => ?_, fun h => by rw [h]; rfl⟩
  by_contra hpos
  rw [List.length_eq_zero_iff, List.flatten_eq_nil_iff] at h
  have hlt : 0 < (frags.take k).length := by
    rw [List.length_take]
    omega
  have hmem := List.getElem_mem hlt
  exact hne _ (List.mem_of_mem_take hmem) (h _ hmem)

/-- The receiver reads the packets as they were written. -/
theorem jpegParse_packet {mem : FrameMemory} (hout : Shows mem out P) {offset : ℕ}
    (hoffset : offset < 2 ^ 24) (first : Bool) (hfirst : offset = 0 ↔ first = true) (frag : Bytes) :
    jpegParse (jpegHeader out (offset : ℤ) ++
        (if first then quantHeader ++ P.luma ++ P.chroma else []) ++ frag) =
      some ⟨P.type, P.width, P.height, offset, if first then P.luma ++ P.chroma else [], frag⟩ := by
  have hread : (toByte ((offset : ℤ) / 2 ^ 16)).toNat * 65536 +
      get16 (toByte ((offset : ℤ) / 2 ^ 8 % 2 ^ 8)) (toByte ((offset : ℤ) % 2 ^ 8)) = offset := by
    have h₁ : (offset : ℤ) / 2 ^ 16 = ((offset / 2 ^ 16 : ℕ) : ℤ) := by norm_cast
    have h₂ : (offset : ℤ) / 2 ^ 8 % 2 ^ 8 = ((offset / 2 ^ 8 % 2 ^ 8 : ℕ) : ℤ) := by norm_cast
    have h₃ : (offset : ℤ) % 2 ^ 8 = ((offset % 2 ^ 8 : ℕ) : ℤ) := by norm_cast
    rw [h₁, h₂, h₃, toByte_ofNat (by omega), get16, toByte_ofNat (by omega), toByte_ofNat (by omega)]
    omega
  simp only [jpegHeader, List.cons_append, List.nil_append, jpegParse, hread, hout.type, hout.width,
    hout.height]
  rw [if_neg (by decide)]
  cases first with
  | false => rw [if_pos (fun h => Bool.false_ne_true (hfirst.1 h))]; simp
  | true =>
    have hzero := hfirst.2 rfl
    obtain ⟨l, -, hluma⟩ := bind_eq_ok.1 hout.luma
    obtain ⟨c, -, hchroma⟩ := bind_eq_ok.1 hout.chroma
    have hlen : (P.luma ++ P.chroma).length = 128 := by
      rw [List.length_append, length_quantBytes hluma, length_quantBytes hchroma]
    have h128 : get16 0 128 = (P.luma ++ P.chroma).length := by
      rw [hlen]
      decide
    rw [if_neg (not_not.2 hzero)]
    simp only [if_true, quantHeader, List.cons_append, List.nil_append, h128, List.take_left,
      List.drop_left]

/-- The fragment `k` with its offset. -/
def fragmentAt (frags : List Bytes) (k : ℕ) : ℕ × Bytes :=
  ((frags.take k).flatten.length, frags.getD k [])

/-- A fragment and where it begins. -/
theorem getElem?_fragmentAt {k : ℕ} (hk : k < frags.length) :
    (piecesFrom 0 frags)[k]? = some (fragmentAt frags k) := by
  rw [getElem?_piecesFrom, fragmentAt, List.getD_eq_getElem?_getD, List.getElem?_eq_getElem hk]
  simp

/-- Where a fragment ends the next one begins. -/
theorem fragmentAt_end {k : ℕ} (hk : k < frags.length) :
    (fragmentAt frags k).1 + (fragmentAt frags k).2.length = (frags.take (k + 1)).flatten.length := by
  rw [fragmentAt, List.take_add_one, List.getD_eq_getElem?_getD, List.getElem?_eq_getElem hk,
    List.flatten_append, List.length_append]
  simp only [Option.getD_some, Option.toList_some, List.flatten_singleton]

/-- All fragments are there if all of their numbers are. -/
theorem fragments_present (hne : ∀ frag ∈ frags, frag ≠ []) {ks : List ℕ}
    (hks : ∀ k ∈ ks, k < frags.length) :
    (∀ p ∈ piecesFrom 0 frags, p ∈ ks.map (fragmentAt frags)) ↔ ∀ k < frags.length, k ∈ ks := by
  constructor
  · intro h k hk
    obtain ⟨j, hj, heq⟩ := List.mem_map.1 (h _ (List.mem_of_getElem? (getElem?_fragmentAt hk)))
    have hget := getElem?_fragmentAt (hks j hj)
    rw [heq, ← getElem?_fragmentAt hk] at hget
    obtain rfl : k = j :=
      (List.getElem?_inj (by simpa using hk) (nodup_piecesFrom hne)).1 hget.symm
    exact hj
  · intro h p hp
    obtain ⟨k, hk⟩ := List.mem_iff_getElem?.1 hp
    have hlt : k < frags.length := by
      simpa using (List.getElem?_eq_some_iff.1 hk).1
    rw [getElem?_fragmentAt hlt] at hk
    exact List.mem_map.2 ⟨k, h k hlt, Option.some.inj hk⟩

/-- **The receiver gets a picture when all of its packets are there**, in any order and any number of
times, and none otherwise. -/
theorem assemble_eq (hne : ∀ frag ∈ frags, frag ≠ []) (hpos : frags ≠ [])
    (hluma : P.luma.length = 64) (hscan : P.scan = frags.flatten) {ks : List ℕ}
    (hks : ∀ k ∈ ks, k < frags.length) :
    assemble (ks.map (jpegItem P frags)) =
      if ∀ k < frags.length, k ∈ ks then some P else none := by
  have hlength : 0 < frags.length := List.length_pos_iff.2 hpos
  have hpieces : (ks.map (jpegItem P frags)).map (fun r => (r.2.offset, r.2.data)) =
      ks.map (fragmentAt frags) := by
    rw [List.map_map]
    rfl
  have hsub : ∀ p ∈ ks.map (fragmentAt frags), p ∈ piecesFrom 0 frags := by
    intro p hp
    obtain ⟨k, hk, rfl⟩ := List.mem_map.1 hp
    exact List.mem_of_getElem? (getElem?_fragmentAt (hks k hk))
  have hwhole := (length_lay_eq_iff hne hsub).trans (fragments_present hne hks)
  unfold assemble
  rw [hpieces]
  cases hfirst : (ks.map (jpegItem P frags)).find? fun r => r.2.offset = 0 with
  | none =>
    rw [if_neg]
    · rfl
    · intro hall
      rw [List.find?_eq_none] at hfirst
      exact hfirst _ (List.mem_map_of_mem (hall 0 hlength)) rfl
  | some first =>
    obtain ⟨k, hk, rfl⟩ := List.mem_map.1 (List.mem_of_find?_eq_some hfirst)
    have hzero := List.find?_some hfirst
    obtain rfl : k = 0 := (offset_eq_zero hne (hks k hk)).1 (of_decide_eq_true hzero)
    cases hlast : (ks.map (jpegItem P frags)).find? Prod.fst with
    | none =>
      rw [if_neg]
      · rfl
      · intro hall
        rw [List.find?_eq_none] at hlast
        apply hlast _ (List.mem_map_of_mem (hall (frags.length - 1) (by omega)))
        simp only [jpegItem, decide_eq_true_eq]
        omega
    | some last =>
      obtain ⟨j, hj, rfl⟩ := List.mem_map.1 (List.mem_of_find?_eq_some hlast)
      have hj' : j + 1 = frags.length := by simpa [jpegItem] using List.find?_some hlast
      -- the fragment with the marker ends where the scan does
      have hend : (jpegItem P frags j).2.offset + (jpegItem P frags j).2.data.length =
          frags.flatten.length := by
        have hat := fragmentAt_end (hks j hj)
        rw [hj', List.take_length] at hat
        exact hat
      simp only [Option.bind_eq_bind, Option.bind_some, hend, hwhole]
      split_ifs with hall
      · rw [lay_all hne hsub ((fragments_present hne hks).2 hall), ← hscan]
        simp [jpegItem, ← hluma]
      · rfl

end Receiver

/-! ## The stream -/

section Stream

variable {sendmsgOk : ℕ → Bool} {rtcpRet maxDataSize : ℤ} {ep : RtpEndpoint} {clock : RtpClock}
  {ps qs ms before after : List RtpPacket} {l : UdpLink} {out : RtpJpeg} {P : JpegPicture}
  {frags : List Bytes} {s : JpegShot} {o : Offer} {base : ℕ} {shots : List JpegShot}

/-- The fragments `frags` carry the picture `P` of the shot. -/
structure Carried (s : JpegShot) (out : RtpJpeg) (P : JpegPicture) (frags : List Bytes) : Prop where
  shows : Shows s.frame.byte out P
  picture : s.image.picture = some P
  scan : P.scan = s.image.scan
  flatten : frags.flatten = s.image.scan
  nonempty : ∀ frag ∈ frags, frag ≠ []
  timestamp : out.timestamp = s.timestamp

/-- Of the packets `qs`, the first of which is number `base`, those that `o` names are `ms` up to the
first one that was refused. The others have other timestamps. -/
structure Placed (clock : RtpClock) (s : JpegShot) (o : Offer) (base : ℕ)
    (qs ms before after : List RtpPacket) : Prop where
  eq : qs = before ++ ms.take (o.last - o.first) ++ after
  first : o.first = base + before.length
  first_le : o.first ≤ o.last
  last_le : o.last - o.first ≤ ms.length
  ret : o.ret = 0 ↔ o.last - o.first = ms.length
  apart : ∀ p ∈ before ++ after,
    clock.lastTimestamp p.timestamp ≠ clock.lastTimestamp s.timestamp

/-- The packets `qs` hold those of the shot that were sent. -/
def Among (clock : RtpClock) (s : JpegShot) (o : Offer) (base : ℕ) (qs : List RtpPacket) : Prop :=
  ∃ out P frags before after, Carried s out P frags ∧
    Placed clock s o base qs (picturePackets out P frags) before after

/-- One packet to a fragment. -/
@[simp] theorem length_jpegPackets (tables : Bytes) (offset : ℕ) :
    (jpegPackets out tables offset frags).length = frags.length := by
  induction frags generalizing tables offset with
  | nil => rfl
  | cons frag frags ih => simp [jpegPackets, ih]

/-- All packets have the time stamp of the frame. -/
theorem timestamp_of_mem_jpegPackets {tables : Bytes} {offset : ℕ} {p : RtpPacket}
    (hp : p ∈ jpegPackets out tables offset frags) : p.timestamp = out.timestamp := by
  induction frags generalizing tables offset with
  | nil => cases hp
  | cons frag frags ih =>
    rcases List.mem_cons.1 hp with rfl | hp
    · rfl
    · exact ih hp

/-- Packets with other timestamps in front. -/
theorem Among.prepend (h : Among clock s o (base + ms.length) qs)
    (hms : ∀ p ∈ ms, clock.lastTimestamp p.timestamp ≠ clock.lastTimestamp s.timestamp) :
    Among clock s o base (ms ++ qs) := by
  obtain ⟨out, P, frags, before, after, hcarried, hplaced⟩ := h
  refine ⟨out, P, frags, ms ++ before, after, hcarried, ?_, ?_, hplaced.first_le, hplaced.last_le,
    hplaced.ret, fun p hp => ?_⟩
  · rw [hplaced.eq]
    simp only [List.append_assoc]
  · rw [hplaced.first, List.length_append, Nat.add_assoc]
  · rw [List.append_assoc, List.mem_append] at hp
    rcases hp with hp | hp
    · exact hms p hp
    · exact hplaced.apart p hp

/-- What a stream of images sends.

**Proof sketch.** By induction on the pictures. A picture that is offered is cut into fragments, of
which the socket takes the first `j`; the packets that go out after it have other time stamps,
because those of the pictures differ, and so do not get among its own. -/
theorem jpegStream_spec (hmax : 140 < maxDataSize) (hpayload : ep.payload < 128)
    (hready : ∀ s ∈ shots.head?, out.initDone = true ∨ s.image.reading.huffman = true)
    (hapart : ((shots.filter JpegShot.offered).map fun s =>
      ep.clock.lastTimestamp s.timestamp).Nodup)
    (h : Linked rtcpRet ep ps l) :
    ∃ l' log qs, jpegStream sendmsgOk rtcpRet maxDataSize
        (shots.map fun s => (s.frame, s.offered)) out l = .ok (l', log) ∧
      Linked rtcpRet ep (ps ++ qs) l' ∧
      (∀ p ∈ qs, ∃ s ∈ shots.filter JpegShot.offered, p.timestamp = s.timestamp) ∧
      List.Forall₂ (fun s o => Among ep.clock s o ps.length qs) (shots.filter JpegShot.offered)
        log := by
  induction shots generalizing ps l out with
  | nil => exact ⟨l, [], [], rfl, by simpa using h, by simp, .nil⟩
  | cons s shots ih =>
    obtain ⟨out', hprocess, hread, hscan⟩ :=
      @jpegProcessFrame_image _ _ out s.image s.frame.holds_byte rfl
    obtain ⟨P, hpicture, hPscan, hshows⟩ := s.image.picture_shown hread
    have hinit : out'.initDone = true := by
      rw [hread.initDone, Bool.or_eq_true]
      exact hready s rfl
    rw [if_pos hinit] at hprocess
    rw [List.map_cons, jpegStream, hprocess, ok_bind]
    dsimp only
    cases hoffered : s.offered with
    | false =>
      rw [List.filter_cons_of_neg (by simp [hoffered])] at hapart ⊢
      simpa using ih (fun _ _ => .inl hinit) hapart h
    | true =>
      rw [List.filter_cons_of_pos hoffered, List.map_cons, List.nodup_cons] at hapart
      rw [List.filter_cons_of_pos hoffered]
      obtain ⟨frags, hflat, hne, hhands⟩ := jpegSend_hands hmax hshows hscan
      have hcarried : Carried s out' P frags :=
        ⟨hshows, hpicture, hPscan, hflat, hne, hread.timestamp⟩
      obtain ⟨j, hj, hlinked, hall⟩ := @sendAll_linked sendmsgOk _ _ _ _ hpayload
        (picturePackets out' P frags) h
      rw [if_pos ⟨one_ne_zero, rfl⟩, hhands, ok_bind]
      set l₁ := (sendAll (sendUdp sendmsgOk rtcpRet) (picturePackets out' P frags) l).1
      set ret := (sendAll (sendUdp sendmsgOk rtcpRet) (picturePackets out' P frags) l).2
      obtain ⟨l', log, rs, hstream, hlinked', htimes, hamong⟩ :=
        ih (fun _ _ => .inl hinit) hapart.2 hlinked
      rw [hstream]
      have hlength : l₁.sent.length - l.sent.length = j := by
        rw [hlinked.length, h.length, List.length_append, List.length_take_of_le hj]
        omega
      have hmine : ∀ p ∈ (picturePackets out' P frags).take j, p.timestamp = s.timestamp :=
        fun p hp => (timestamp_of_mem_jpegPackets (List.mem_of_mem_take hp)).trans hread.timestamp
      -- the other pictures have other timestamps
      have hothers : ∀ s' ∈ shots.filter JpegShot.offered,
          ep.clock.lastTimestamp s'.timestamp ≠ ep.clock.lastTimestamp s.timestamp :=
        fun s' hs' heq => hapart.1 (List.mem_map.2 ⟨s', hs', heq⟩)
      refine ⟨l', _, (picturePackets out' P frags).take j ++ rs, rfl, by simpa using hlinked',
        fun p hp => ?_, .cons ⟨out', P, frags, [], rs, hcarried, ?_⟩ ?_⟩
      · rcases List.mem_append.1 hp with hp | hp
        · exact ⟨s, List.mem_cons_self, hmine p hp⟩
        · obtain ⟨s', hs', htime⟩ := htimes p hp
          exact ⟨s', List.mem_cons_of_mem _ hs', htime⟩
      · refine ⟨by simp [hlength], h.length, ?_, by rw [hlength]; exact hj, by rw [hlength]; exact hall,
          fun p hp => ?_⟩
        · rw [h.length, hlinked.length, List.length_append]
          exact Nat.le_add_right _ _
        · obtain ⟨s', hs', htime⟩ := htimes p hp
          rw [htime]
          exact hothers s' hs'
      · have hboth := (List.forall₂_and_left _ _).2 ⟨hothers, hamong⟩
        refine hboth.imp fun s' o ⟨hother, ho⟩ => Among.prepend ?_ fun p hp => ?_
        · rwa [List.length_append] at ho
        · rw [hmine p hp]
          exact hother.symm

/-- What the receiver makes of a packet of the picture. -/
theorem Carried.item (h : Carried s out P frags) {k : ℕ} {p : RtpPacket}
    (hp : (picturePackets out P frags)[k]? = some p) :
    (jpegParse p.payload).map (fun r => (p.marker, r)) = some (jpegItem P frags k) := by
  rw [picturePackets, getElem?_jpegPackets, Nat.zero_add] at hp
  obtain ⟨frag, hfrag, rfl⟩ := Option.map_eq_some_iff.1 hp
  have hk : k < frags.length := (List.getElem?_eq_some_iff.1 hfrag).1
  have hoffset : (frags.take k).flatten.length < 2 ^ 24 := by
    have hle := ((List.take_sublist k frags).flatten).length_le
    rw [h.flatten] at hle
    exact hle.trans_lt s.image.scan_lt
  have hparse := jpegParse_packet h.shows hoffset (decide (k = 0))
    (by rw [decide_eq_true_iff]; exact offset_eq_zero h.nonempty hk) frag
  simp only [decide_eq_true_eq] at hparse
  rw [hparse, jpegItem, List.getD_eq_getElem?_getD, hfrag]
  rfl

/-- The number in its picture of what arrived, if it belongs to the picture. -/
def Offer.place (o : Offer) (i : ℕ) : Option ℕ :=
  if o.first ≤ i ∧ i < o.last then some (i - o.first) else none

/-- What the receiver takes of a datagram for the picture. -/
theorem Placed.taken (hcarried : Carried s out P frags)
    (h : Placed ep.clock s o 0 qs (picturePackets out P frags) before after) {i : ℕ} {d : Bytes}
    {p : RtpPacket} (hp : qs[i]? = some p) (hd : rtpParse d = some (ep.received i p)) :
    ((rtpParse d).bind fun r =>
      if r.timestamp = ep.clock.lastTimestamp s.timestamp then
        (jpegParse r.data).map fun q => (r.marker, q)
      else none) = (o.place i).map (jpegItem P frags) := by
  rw [hd, Option.bind_some]
  have hfirst := h.first
  have hle := h.first_le
  have hlength : ((picturePackets out P frags).take (o.last - o.first)).length = o.last - o.first :=
    List.length_take_of_le h.last_le
  rw [h.eq] at hp
  by_cases hmine : o.first ≤ i ∧ i < o.last
  · rw [List.getElem?_append_left (by rw [List.length_append, hlength]; omega),
      List.getElem?_append_right (by omega), show i - before.length = i - o.first by omega,
      List.getElem?_take_of_lt (by omega)] at hp
    have htime := (timestamp_of_mem_jpegPackets (List.mem_of_getElem? hp)).trans hcarried.timestamp
    rw [if_pos (show (ep.received i p).timestamp = _ from congrArg ep.clock.lastTimestamp htime),
      Offer.place, if_pos hmine]
    exact hcarried.item hp
  · -- the packets in front of the picture and behind it have other timestamps
    have hother : p ∈ before ++ after := by
      by_cases hbefore : i < before.length
      · rw [List.append_assoc, List.getElem?_append_left hbefore] at hp
        exact List.mem_append_left _ (List.mem_of_getElem? hp)
      · rw [List.getElem?_append_right (by rw [List.length_append, hlength]; omega)] at hp
        exact List.mem_append_right _ (List.mem_of_getElem? hp)
    rw [if_neg (show ¬ (ep.received i p).timestamp = _ from h.apart p hother), Offer.place,
      if_neg hmine]
    rfl

/-- **What the receiver gets of a picture.**

**Proof sketch.** The packets that arrived and are about the time stamp of the picture are its own
fragments, by their place in the stream. The receiver puts them in order (`assemble_eq`), and has
the whole scan exactly if every fragment has been sent and has arrived. -/
theorem Among.received (h : Among ep.clock s o 0 qs)
    (hsent : l.sent.map rtpParse = qs.mapIdx fun k p => some (ep.received k p))
    {arrivals : List (ℕ × Bytes)} (harrivals : ∀ a ∈ arrivals, l.sent[a.1]? = some a.2) :
    jpegReceiver (ep.clock.lastTimestamp s.timestamp) (arrivals.map Prod.snd) =
      if o.whole (fun i => decide (i ∈ arrivals.map Prod.fst)) then s.image.picture else none := by
  obtain ⟨out, P, frags, before, after, hcarried, hplaced⟩ := h
  have hlen : (picturePackets out P frags).length = frags.length := length_jpegPackets _ _
  have hlast := hplaced.last_le
  have hle := hplaced.first_le
  rw [hlen] at hlast
  set ks := arrivals.filterMap fun a => o.place a.1 with hksdef
  have hitems : ((arrivals.map Prod.snd).filterMap rtpParse).filterMap (fun r =>
      if r.timestamp = ep.clock.lastTimestamp s.timestamp then
        (jpegParse r.data).map fun q => (r.marker, q)
      else none) = ks.map (jpegItem P frags) := by
    rw [hksdef, List.map_filterMap, List.filterMap_filterMap, List.filterMap_map]
    refine List.filterMap_congr fun a ha => ?_
    have hget := congrArg (·[a.1]?) hsent
    simp only [List.getElem?_map, List.getElem?_mapIdx, harrivals a ha, Option.map_some] at hget
    obtain ⟨p, hp, hr⟩ := Option.map_eq_some_iff.1 hget.symm
    exact hplaced.taken hcarried hp hr.symm
  have hmem : ∀ k, k ∈ ks ↔ o.first + k < o.last ∧ o.first + k ∈ arrivals.map Prod.fst := by
    intro k
    rw [hksdef, List.mem_filterMap, List.mem_map]
    constructor
    · rintro ⟨a, ha, hplace⟩
      unfold Offer.place at hplace
      split_ifs at hplace with hin
      obtain rfl := Option.some.inj hplace
      exact ⟨by omega, a, ha, by omega⟩
    · rintro ⟨hlt, a, ha, heq⟩
      refine ⟨a, ha, ?_⟩
      rw [heq, Offer.place, if_pos ⟨Nat.le_add_right _ _, hlt⟩, Nat.add_sub_cancel_left]
  have hne : frags ≠ [] := by
    rintro rfl
    exact s.image.scan_ne hcarried.flatten.symm
  have hluma : P.luma.length = 64 := by
    obtain ⟨q, -, hq⟩ := bind_eq_ok.1 hcarried.shows.luma
    exact length_quantBytes hq
  have hwhole : (∀ k < frags.length, k ∈ ks) ↔
      o.whole (fun i => decide (i ∈ arrivals.map Prod.fst)) = true := by
    rw [Offer.whole, Bool.and_eq_true, decide_eq_true_iff, hplaced.ret, hlen, List.all_eq_true]
    constructor
    · intro hall
      have hfull : o.last - o.first = frags.length := by
        have hpos := List.length_pos_iff.2 hne
        have := ((hmem _).1 (hall (frags.length - 1) (by omega))).1
        omega
      refine ⟨hfull, fun i hi => ?_⟩
      obtain ⟨hfirst, hlt⟩ := List.mem_range'_1.1 hi
      have hin := ((hmem _).1 (hall (i - o.first) (by omega))).2
      rw [Nat.add_sub_cancel' hfirst] at hin
      exact decide_eq_true hin
    · rintro ⟨hfull, hall⟩ k hk
      refine (hmem k).2 ⟨by omega, of_decide_eq_true (hall _ (List.mem_range'_1.2 ⟨?_, ?_⟩))⟩
      · exact Nat.le_add_right _ _
      · omega
  rw [jpegReceiver, hitems, assemble_eq hcarried.nonempty hne hluma
    (hcarried.scan.trans hcarried.flatten.symm) fun k hk => by have := ((hmem k).1 hk).1; omega,
    hcarried.picture]
  exact if_congr hwhole rfl rfl

end Stream

/-- **JPEG over a network.** Images are sent through a socket that may refuse any datagram, and have
different RTP timestamps. Whatever the network loses, repeats and reorders, the receiver gets for the
timestamp of an image its tables, its size and its scan if all packets were sent and arrived, and
nothing otherwise. -/
theorem jpeg_network (sendmsgOk : ℕ → Bool) (rtcpRet maxDataSize : ℤ) (ep : RtpEndpoint)
    (shots : List JpegShot) (out : RtpJpeg) (hmax : 140 < maxDataSize) (hpayload : ep.payload < 128)
    (hforce : ep.forceRtcp = true → 0 ≤ rtcpRet)
    (hready : ∀ s ∈ shots.head?, out.initDone = true ∨ s.image.reading.huffman = true)
    (hapart : ((shots.filter JpegShot.offered).map fun s =>
      ep.clock.lastTimestamp s.timestamp).Nodup) :
    ∃ l log, jpegStream sendmsgOk rtcpRet maxDataSize (shots.map fun s => (s.frame, s.offered)) out
        ⟨ep, 0, []⟩ = .ok (l, log) ∧
      ∀ arrivals : List (ℕ × Bytes), (∀ a ∈ arrivals, l.sent[a.1]? = some a.2) →
        List.Forall₂ (fun s o =>
          jpegReceiver (ep.clock.lastTimestamp s.timestamp) (arrivals.map Prod.snd) =
            if o.whole (fun i => decide (i ∈ arrivals.map Prod.fst)) then s.image.picture else none)
          (shots.filter JpegShot.offered) log := by
  obtain ⟨l, log, qs, hstream, hlinked, -, hamong⟩ :=
    @jpegStream_spec sendmsgOk _ _ _ _ _ _ _ hmax hpayload hready hapart (Linked.start hforce 0)
  rw [List.nil_append] at hlinked
  exact ⟨l, log, hstream, fun arrivals harrivals =>
    hamong.imp fun s o ho => Among.received ho hlinked.sent harrivals⟩

/-- Two tables, a start of frame of 16 by 8, and Huffman tables. -/
def smallParts : List JpegPart :=
  [.tables [⟨0, List.replicate 64 16, rfl⟩, ⟨1, List.replicate 64 17, rfl⟩],
    .frame ⟨1, 2, false, 0, 1⟩, .huffman []]

/-- The parts come in an order that is allowed. -/
theorem smallParts_allowed : JpegReading.start.AllowsAll smallParts := by
  refine ⟨⟨?_, trivial⟩, ⟨?_, ?_, ?_⟩, ⟨?_, trivial⟩, trivial⟩ <;> decide +kernel

/-- An image with three bytes of scan. -/
def smallImage : JpegImage where
  parts := smallParts
  scanHead := []
  scan := [1, 2, 3]
  allowed := smallParts_allowed
  framed := by decide +kernel
  head_lt := by decide
  scan_ne := by decide
  scan_lt := by decide

/-- The small image twice. -/
def smallShots : List JpegShot := [⟨smallImage, 10, true⟩, ⟨smallImage, 14, true⟩]

/-- Two images in two packets each, of which the socket refuses the last one. The packets of the first
image come in the wrong order and one of them twice: the receiver gets that image and no other, and it
gets none when its second packet is lost. -/
theorem jpeg_network_two : ∃ l log,
    jpegStream (fun k => decide (k ≠ 3)) (-5) 142 (smallShots.map fun s => (s.frame, s.offered))
        { twoTablesJpeg with initDone := false } ⟨⟨26, 7, ⟨1, 900⟩, 1, 65535, 0, 0, false⟩, 0, []⟩ =
          .ok (l, log) ∧
      smallImage.picture.isSome ∧
      jpegReceiver 9001 ([1, 2, 0, 1].map fun i => l.sent.getD i []) = smallImage.picture ∧
      jpegReceiver 12601 ([1, 2, 0, 1].map fun i => l.sent.getD i []) = none ∧
      jpegReceiver 9001 ([2, 0].map fun i => l.sent.getD i []) = none := by
  obtain ⟨l, log, hstream, hreceive⟩ := jpeg_network (fun k => decide (k ≠ 3)) (-5) 142
    ⟨26, 7, ⟨1, 900⟩, 1, 65535, 0, 0, false⟩ smallShots { twoTablesJpeg with initDone := false }
    (by decide) (by decide) (by decide) (by rintro _ ⟨⟩; exact .inr rfl) (by decide)
  have hlog : (jpegStream (fun k => decide (k ≠ 3)) (-5) 142
      (smallShots.map fun s => (s.frame, s.offered)) { twoTablesJpeg with initDone := false }
      ⟨⟨26, 7, ⟨1, 900⟩, 1, 65535, 0, 0, false⟩, 0, []⟩).toOption.map
        (fun r => (r.1.sent.length, r.2)) =
      some (3, [⟨10, smallImage.bytes, 0, 0, 2⟩, ⟨14, smallImage.bytes, -1, 2, 3⟩]) := by
    decide +kernel
  rw [hstream] at hlog
  obtain ⟨hlen, rfl⟩ := Prod.mk.inj (Option.some.inj hlog)
  have hsent : ∀ is : List ℕ, (∀ i ∈ is, i < 3) →
      ∀ a ∈ is.map fun i => (i, l.sent.getD i []), l.sent[a.1]? = some a.2 := by
    intro is his a ha
    obtain ⟨i, hi, rfl⟩ := List.mem_map.1 ha
    have hlt : i < l.sent.length := hlen ▸ his i hi
    simp [hlt]
  obtain ⟨hfirst, hrest⟩ := List.forall₂_cons.1 (hreceive _ (hsent [1, 2, 0, 1] (by decide)))
  obtain ⟨hsecond, -⟩ := List.forall₂_cons.1 hrest
  obtain ⟨hlost, -⟩ := List.forall₂_cons.1 (hreceive _ (hsent [2, 0] (by decide)))
  rw [List.map_map] at hfirst hsecond hlost
  exact ⟨l, _, hstream, by decide +kernel, hfirst, hsecond, hlost⟩

end Spook
