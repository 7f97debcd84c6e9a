import Spook.Rtp.Jpeg.Basic

set_option relaxedAutoImplicit false
set_option autoImplicit false

/-!
# Sending JPEG

`jpeg_send` sends the scan in fragments. The offset of a fragment is the number of bytes of the
fragments before it, and the first fragment comes behind the quantization tables.

## Main definitions

* `Spook.IsJpegPacket` — a packet with a fragment.
* `Spook.JpegCarries` — packets with all fragments of some bytes.

## Main results

* `Spook.jpeg_reassembles` — the packets carry the scan.
-/

namespace Spook

/-- The payload of a packet is the main header with the offset of a fragment, `tables` and the
fragment. -/
def IsJpegPacket (out : RtpJpeg) (tables : Bytes) (offset : ℕ) (frag : Bytes) (p : RtpPacket) :
    Prop :=
  ∃ o₁ o₂ o₃ : UInt8, o₁.toNat * 2 ^ 16 + o₂.toNat * 2 ^ 8 + o₃.toNat = offset ∧
    p.payload = [0, o₁, o₂, o₃, toByte out.type, 255, toByte out.width, toByte out.height] ++
      tables ++ frag

/-- The packets carry the fragments `frags` of `data`, none of them empty, of which the first is at
`offset`; `tables` are in the first packet only. -/
structure JpegCarries (out : RtpJpeg) (maxDataSize : ℤ) (tables : Bytes) (offset : ℕ) (data : Bytes)
    (ps : List RtpPacket) (frags : List Bytes) : Prop where
  flatten : frags.flatten = data
  nonempty : ∀ frag ∈ frags, frag ≠ []
  length_eq : ps.length = frags.length
  packet : ∀ i p frag, ps[i]? = some p → frags[i]? = some frag →
    IsJpegPacket out (if i = 0 then tables else []) (offset + (frags.take i).flatten.length) frag p
  length_le : ∀ p ∈ ps, (p.payload.length : ℤ) ≤ maxDataSize
  marked : MarkedLast ps

section Carries

variable {out : RtpJpeg} {maxDataSize : ℤ} {tables : Bytes} {offset : ℕ} {data frag : Bytes}
  {p : RtpPacket} {ps : List RtpPacket} {frags : List Bytes}

/-- There is a packet if and only if there are bytes to carry. -/
theorem JpegCarries.eq_nil_iff (h : JpegCarries out maxDataSize tables offset data ps frags) :
    ps = [] ↔ data = [] := by
  have hfrags : frags = [] ↔ data = [] := by
    rw [← h.flatten]
    constructor
    · rintro rfl
      rfl
    · intro hnil
      rw [List.flatten_eq_nil_iff] at hnil
      exact List.eq_nil_iff_forall_not_mem.2 fun frag hmem => h.nonempty frag hmem (hnil frag hmem)
  rw [← hfrags, ← List.length_eq_zero_iff, ← List.length_eq_zero_iff, h.length_eq]

/-- Nothing is carried by no packets. -/
theorem JpegCarries.nil : JpegCarries out maxDataSize tables offset [] [] [] :=
  ⟨rfl, by simp, rfl, by simp, by simp, by simp [MarkedLast]⟩

/-- A packet in front of the packets with the fragments behind its own. -/
theorem JpegCarries.cons (h : JpegCarries out maxDataSize [] (offset + frag.length) data ps frags)
    (hp : IsJpegPacket out tables offset frag p) (hle : (p.payload.length : ℤ) ≤ maxDataSize)
    (hne : frag ≠ []) (hmarker : p.marker = true ↔ data = []) :
    JpegCarries out maxDataSize tables offset (frag ++ data) (p :: ps) (frag :: frags) := by
  refine ⟨by simp [h.flatten], ?_, by simp [h.length_eq], ?_, ?_, ?_⟩
  · intro frag' hmem
    rcases List.mem_cons.1 hmem with rfl | hmem
    · exact hne
    · exact h.nonempty frag' hmem
  · intro i q frag' hq hfrag'
    cases i with
    | zero =>
      obtain rfl := Option.some.inj hq
      obtain rfl := Option.some.inj hfrag'
      simpa using hp
    | succ i =>
      have hpacket := h.packet i q frag' hq hfrag'
      simp only [ite_self] at hpacket
      rw [if_neg (Nat.succ_ne_zero i), List.take_succ_cons, List.flatten_cons, List.length_append,
        ← Nat.add_assoc]
      exact hpacket
  · intro q hq
    rcases List.mem_cons.1 hq with rfl | hq
    · exact hle
    · exact h.length_le q hq
  · by_cases hdata : data = []
    · rw [h.eq_nil_iff.2 hdata]
      exact .single (hmarker.2 hdata)
    · apply h.marked.cons (mt h.eq_nil_iff.1 hdata)
      simpa using mt hmarker.1 hdata

end Carries

section Fragments

variable {out : RtpJpeg} {mem : FrameMemory} {maxDataSize : ℤ} {luma chroma : Option ℕ}

/-- A number that fits into a byte. -/
theorem toByte_ofNat {n : ℕ} (h : n < 256) : (toByte n).toNat = n := by
  unfold toByte
  rw [UInt8.toNat_ofNat']
  omega

/-- The main header with an offset of 24 bits. -/
theorem isJpegPacket_header {tables frag : Bytes} {offset : ℕ} (h : offset < 2 ^ 24) (timestamp : ℕ)
    (marker : Bool) :
    IsJpegPacket out tables offset frag
      ⟨jpegHeader out offset ++ tables ++ frag, timestamp, marker⟩ := by
  refine ⟨_, _, _, ?_, rfl⟩
  have h₁ : (offset : ℤ) / 2 ^ 16 = ((offset / 2 ^ 16 : ℕ) : ℤ) := by norm_cast
  have h₂ : (offset : ℤ) / 2 ^ 8 % 2 ^ 8 = ((offset / 2 ^ 8 % 2 ^ 8 : ℕ) : ℤ) := by norm_cast
  have h₃ : (offset : ℤ) % 2 ^ 8 = ((offset % 2 ^ 8 : ℕ) : ℤ) := by norm_cast
  rw [h₁, h₂, h₃, toByte_ofNat (by omega), toByte_ofNat (by omega), toByte_ofNat (by omega)]
  omega

/-- A table has 64 bytes. -/
theorem length_quantBytes {p : Option ℕ} {bs : Bytes} (h : quantBytes mem p = .ok bs) :
    bs.length = 64 := by
  cases p with
  | none => cases h
  | some p => exact FrameMemory.length_bytes h

/-- With the main header the tables take up `hdr_len` bytes. -/
theorem length_tablesOf {first : Bool} {tables : Bytes}
    (h : tablesOf mem luma chroma first = .ok tables) :
    ((tables.length + 8 : ℕ) : ℤ) = jpegHdrLen first := by
  cases first with
  | false =>
    obtain rfl := Except.ok.inj h
    rfl
  | true =>
    obtain ⟨l, hl, h⟩ := bind_eq_ok.1 h
    obtain ⟨c, hc, h⟩ := bind_eq_ok.1 h
    obtain rfl := Except.ok.inj h
    simp [length_quantBytes hl, length_quantBytes hc, quantHeader, jpegHdrLen]

/-- The loop of `jpeg_send` sends the bytes of the scan that are left. -/
theorem jpegFragments_spec (hmax : 140 < maxDataSize) {n offset : ℕ} {first : Bool}
    {data tables : Bytes} (hlen : out.scanDataLen = offset + data.length)
    (hsmall : offset + data.length < 2 ^ 24)
    (hdata : mem.bytes (out.scanData + offset) data.length = .ok data)
    (htables : tablesOf mem luma chroma first = .ok tables) (hn : data.length < n) :
    ∃ ps frags, Delivers (fun σ send => jpegFragments maxDataSize mem out σ send luma chroma n offset
      first) ps ∧ JpegCarries out maxDataSize tables offset data ps frags := by
  induction n generalizing offset first data tables with
  | zero => exact absurd hn (Nat.not_lt_zero _)
  | succ n ih =>
    by_cases hnil : data = []
    · subst hnil
      refine ⟨[], [], fun σ send _ s => ?_, ?_⟩
      · show jpegFragments maxDataSize mem out σ send luma chroma (n + 1) offset first s = _
        rw [jpegFragments, if_neg (by rw [hlen]; simp)]
        rfl
      · exact .nil
    · -- `plen`, which is at least one.
      obtain ⟨k, hk, hpos, hle, hroom⟩ : ∃ k : ℕ,
          jpegPlen maxDataSize first (out.scanDataLen - offset) = k ∧ 0 < k ∧ k ≤ data.length ∧
            jpegHdrLen first + k ≤ maxDataSize := by
        have hhdr : jpegHdrLen first ≤ 140 := by cases first <;> decide
        have hlength : 0 < data.length := List.length_pos_iff.2 hnil
        unfold jpegPlen
        split_ifs with h
        · exact ⟨(maxDataSize - jpegHdrLen first).toNat, by omega, by omega, by omega, by omega⟩
        · exact ⟨data.length, by omega, hlength, le_rfl, by omega⟩
      obtain ⟨r, hr⟩ : ∃ r, data.length = k + r := ⟨data.length - k, by omega⟩
      rw [hr] at hdata
      obtain ⟨hfrag, hrest⟩ := FrameMemory.bytes_split hdata
      have hlength : (data.drop k).length = r := by rw [List.length_drop]; omega
      obtain ⟨ps, frags, hdelivers, hcarries⟩ := @ih (offset + k) false (data.drop k) []
        (by omega) (by omega) (by rw [hlength, ← Nat.add_assoc]; exact hrest) rfl (by omega)
      have hend : ((k : ℤ) + offset = out.scanDataLen) ↔ data.drop k = [] := by
        rw [← List.length_eq_zero_iff, hlength]
        omega
      have htake : (data.take k).length = k := List.length_take_of_le hle
      rw [← List.take_append_drop k data]
      refine ⟨_, _, hdelivers.cons fun σ send hsend s => ?_, JpegCarries.cons (by rwa [htake])
        (isJpegPacket_header (by omega) out.timestamp (decide ((k : ℤ) + offset = out.scanDataLen)))
        ?_ ?_ ?_⟩
      · show jpegFragments maxDataSize mem out σ send luma chroma (n + 1) offset first s = _
        rw [jpegFragments, if_pos (by omega)]
        dsimp only
        rw [hk, if_neg (by omega), htables, ok_bind, Int.toNat_natCast, Int.toNat_natCast, hfrag,
          ok_bind, if_neg (not_lt.2 (hsend _ _)), Nat.cast_add]
      · have := length_tablesOf htables
        simp only [List.length_append, htake, jpegHeader, List.length_cons, List.length_nil]
        omega
      · apply List.ne_nil_of_length_pos
        omega
      · simpa using hend

end Fragments

/-- The 64 bytes of the table `k`. -/
def quantTable (mem : FrameMemory) (out : RtpJpeg) (k : ℤ) : Except Fault Bytes := do
  quantBytes mem (← quantAt out k)

/-- **JPEG fragmentation.** Scan data below 2²⁴ bytes is sent in packets of at most `max_data_size`
bytes: the fragments make it up, each at the offset that its header names, the quantization header
and the two tables are in the first packet only, and the marker is on the last one. -/
theorem jpeg_reassembles (mem : FrameMemory) (out : RtpJpeg) {luma chroma data : Bytes}
    {maxDataSize : ℤ} (hluma : quantTable mem out out.lumaTable = .ok luma)
    (hchroma : quantTable mem out out.chromaTable = .ok chroma)
    (hdata : mem.bytes out.scanData data.length = .ok data)
    (hlen : out.scanDataLen = data.length) (hsmall : data.length < 2 ^ 24)
    (hmax : 140 < maxDataSize) :
    ∃ ps frags, Delivers (jpegSend maxDataSize mem out) ps ∧
      JpegCarries out maxDataSize (quantHeader ++ luma ++ chroma) 0 data ps frags := by
  obtain ⟨l, hl, hluma⟩ := bind_eq_ok.1 hluma
  obtain ⟨c, hc, hchroma⟩ := bind_eq_ok.1 hchroma
  have htables : tablesOf mem l c true = .ok (quantHeader ++ luma ++ chroma) := by
    simp only [tablesOf, if_true, quantTables, hluma, hchroma, ok_bind]
    rfl
  obtain ⟨ps, frags, hdelivers, hcarries⟩ := @jpegFragments_spec out mem maxDataSize l c hmax
    (out.scanDataLen.toNat + 1) 0 true data _ (by rw [hlen]; simp) (by omega) hdata htables (by omega)
  refine ⟨ps, frags, fun σ send hsend s => ?_, hcarries⟩
  rw [jpegSend, hl, ok_bind, hc, ok_bind]
  exact hdelivers σ send hsend s

/-- A frame of two tables and four bytes of scan data. -/
def twoTables : MediaFrame := ⟨List.replicate 64 16 ++ List.replicate 64 17 ++ [1, 2, 3, 4], 0⟩

/-- What is known of that frame. -/
def twoTablesJpeg : RtpJpeg :=
  ⟨1, 80, 60, 0, 1, fun k => if k = 0 then some 0 else if k = 1 then some 64 else none, 128, 4, true, 9⟩

/-- Four bytes in packets of at most 142. -/
theorem jpeg_reassembles_four :
    ∃ ps frags, Delivers (jpegSend 142 twoTables.byte twoTablesJpeg) ps ∧
      JpegCarries twoTablesJpeg 142 (quantHeader ++ List.replicate 64 16 ++ List.replicate 64 17) 0
        [1, 2, 3, 4] ps frags :=
  jpeg_reassembles twoTables.byte twoTablesJpeg (by decide +kernel) (by decide +kernel)
    (by decide +kernel) rfl (by decide) (by decide)

end Spook
