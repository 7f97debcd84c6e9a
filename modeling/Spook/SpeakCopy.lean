import Spook.Lib.Buffer
import Spook.Speak

set_option relaxedAutoImplicit false
set_option autoImplicit false

/-!
# Copying audio packets

The branch of `c_do_speak_server_handler` for audio, with its reads of the packet and its writes of
what it allocates. All lengths are `unsigned long` or `size_t` of 32 bits.

## Main definitions

* `Spook.copyAudio` — the chunk that is made of a packet.

## Main results

* `Spook.audio_copied_iff` — for which packets the copy stays in bounds.
-/

namespace Spook

/-- The word at an offset of some bytes. -/
def leWord (b : List UInt8) (i : ℕ) : UInt32 :=
  (b.getD i 0).toUInt32 ||| (b.getD (i + 1) 0).toUInt32 <<< 8 |||
    (b.getD (i + 2) 0).toUInt32 <<< 16 ||| (b.getD (i + 3) 0).toUInt32 <<< 24

/-- What `c_speak` gets for a packet on channel 1, or `none` if it is not called. The memory that
`malloc` gives holds `junk`. -/
def copyAudio (packet : EnetPacket) (env : SpeakEnv) (junk : ℕ → UInt8) :
    Except Fault (Option SpeakChunk) := do
  let len ← loadIn .overread packet.data 20 4
  if leWord len 0 = packet.dataLength - sizeofAudioChunk + sizeofListHead then
    if env.mallocChunk then
      -- copy the header
      let header ← loadIn .overread packet.data 0 sizeofAudioChunk.toNat
      let pChunk ← storeIn .overrun ((List.range sizeofAudioChunk.toNat).map junk) 0 header
      if env.mallocData then
        let data := (List.range (leWord pChunk 20 + 4).toNat).map junk
        let audio ← loadIn .overread packet.data (sizeofAudioChunk - sizeofListHead).toNat
          (leWord pChunk 20).toNat
        let data ← storeIn .overrun data 4 audio
        let data ← storeIn .overrun data 0 [pChunk.getD 16 0, pChunk.getD 17 0]
        let data ← storeIn .overrun data 2 [pChunk.getD 18 0, 0]
        .ok (some
          { codec := leWord pChunk 0, seq := leWord pChunk 4, tick := leWord pChunk 8,
            t := leWord pChunk 12,
            sample := (pChunk.getD 16 0).toUInt16 ||| (pChunk.getD 17 0).toUInt16 <<< 8,
            index := pChunk.getD 18 0, len := leWord pChunk 20 + 4, data })
      else .ok none
    else .ok none
  else .ok none

namespace EnetPacket

variable {packet : EnetPacket} {i : ℕ}

/-- A byte inside a packet. -/
theorem byte_eq (h : i < packet.data.length) (d : UInt8) : packet.byte i = packet.data.getD i d := by
  simp [byte, h]

/-- Bytes inside a packet. -/
theorem bytes_eq {n : ℕ} (h : i + n ≤ packet.data.length) :
    packet.bytes i n = (packet.data.drop i).take n := by
  apply List.ext_getElem
  · simp only [bytes, List.length_map, List.length_range, List.length_take, List.length_drop]
    omega
  · intro k hk _
    have hk' : k < n := by simpa [bytes] using hk
    simp [bytes, byte, show i + k < packet.data.length by omega]

/-- The word that is loaded from a packet. -/
theorem leWord_eq {b : List UInt8} {j : ℕ} (h : i + 4 ≤ packet.data.length)
    (hb : ∀ k < 4, b.getD (j + k) 0 = packet.data.getD (i + k) 0) :
    leWord b j = packet.word i := by
  have h0 := hb 0 (by decide)
  have h1 := hb 1 (by decide)
  have h2 := hb 2 (by decide)
  have h3 := hb 3 (by decide)
  unfold leWord word
  rw [byte_eq (show i < packet.data.length by omega) 0,
    byte_eq (show i + 1 < packet.data.length by omega) 0,
    byte_eq (show i + 2 < packet.data.length by omega) 0,
    byte_eq (show i + 3 < packet.data.length by omega) 0, ← h1, ← h2, ← h3]
  simp only [Nat.add_zero] at h0
  rw [h0]

/-- The length of a packet that matches, if it has a header. -/
theorem chunkLen_eq (hlen : packet.data.length < 2 ^ 32) (h : 28 ≤ packet.data.length)
    (hmatch : packet.LenMatches) : packet.chunkLen.toNat = packet.data.length - 28 := by
  rw [hmatch, dataLength]
  simp only [sizeofAudioChunk, sizeofListHead, UInt32.toNat_add, UInt32.toNat_sub,
    UInt32.toNat_ofNat', UInt32.reduceToNat]
  omega

end EnetPacket

section Copy

variable {packet : EnetPacket} {env : SpeakEnv} {junk : ℕ → UInt8}

/-- The length field is inside the packet. -/
theorem load_len (h : 24 ≤ packet.data.length) :
    loadIn Fault.overread packet.data 20 4 = .ok ((packet.data.drop 20).take 4) :=
  if_pos h

/-- The length field is at byte 20. -/
theorem leWord_len (h : 24 ≤ packet.data.length) :
    leWord ((packet.data.drop 20).take 4) 0 = packet.chunkLen := by
  refine EnetPacket.leWord_eq (i := 20) (by omega) fun k hk => ?_
  simp [List.getD_eq_getElem?_getD, hk]

/-- The field at an offset of the header. -/
theorem leWord_header {i : ℕ} (h : 36 ≤ packet.data.length) (hi : i + 4 ≤ 36) :
    leWord (packet.data.take 36) i = packet.word i := by
  refine EnetPacket.leWord_eq (by omega) fun k hk => ?_
  simp [List.getD_eq_getElem?_getD, show i + k < 36 by omega]

/-- The header is the first 36 bytes. -/
theorem getD_header {i : ℕ} (h : 36 ≤ packet.data.length) (hi : i < 36) :
    (packet.data.take 36).getD i 0 = packet.byte i := by
  rw [EnetPacket.byte_eq (show i < packet.data.length by omega) 0]
  simp [List.getD_eq_getElem?_getD, hi]

/-- The audio is stored behind four bytes, and these are stored one pair after the other. -/
theorem store_audio {buf audio : List UInt8} (hbuf : buf.length = audio.length + 4)
    (x y z w : UInt8) :
    (do
      let data ← storeIn Fault.overrun buf 4 audio
      let data ← storeIn Fault.overrun data 0 [x, y]
      storeIn Fault.overrun data 2 [z, w]) = .ok ([x, y, z, w] ++ audio) := by
  match buf, hbuf with
  | a :: b :: c :: d :: rest, hbuf =>
    have hrest : audio.length = rest.length := by
      simp only [List.length_cons] at hbuf
      omega
    have h₁ := storeIn_append Fault.overrun [a, b, c, d] [] hrest
    rw [List.append_nil, List.append_nil] at h₁
    have h₂ := @storeIn_append _ _ [x, y] [a, b] Fault.overrun [] ([c, d] ++ audio) rfl
    have h₃ := @storeIn_append _ _ [z, w] [c, d] Fault.overrun [x, y] audio rfl
    calc _ = (do
            let data ← storeIn Fault.overrun ([a, b, c, d] ++ audio) 0 [x, y]
            storeIn Fault.overrun data 2 [z, w]) := congrArg (· >>= _) h₁
      _ = storeIn Fault.overrun ([x, y] ++ ([c, d] ++ audio)) 2 [z, w] := congrArg (· >>= _) h₂
      _ = _ := h₃

/-- A packet that is long enough is copied. -/
theorem copyAudio_eq (hlen : packet.data.length < 2 ^ 32) (h : 36 ≤ packet.data.length)
    (hmatch : packet.LenMatches) (hchunk : env.mallocChunk = true) :
    copyAudio packet env junk =
      .ok (if env.mallocData = true then some packet.chunk else none) := by
  have hn := EnetPacket.chunkLen_eq hlen (by omega) hmatch
  have hsum : (packet.chunkLen + 4).toNat = packet.chunkLen.toNat + 4 := by
    rw [UInt32.toNat_add, show (4 : UInt32).toNat = 4 from rfl]
    omega
  have hheader : loadIn Fault.overread packet.data 0 sizeofAudioChunk.toNat =
      .ok (packet.data.take 36) := if_pos (show 0 + 36 ≤ packet.data.length by omega)
  have hcopied : storeIn Fault.overrun ((List.range sizeofAudioChunk.toNat).map junk) 0
      (packet.data.take 36) = .ok (packet.data.take 36) := by
    have hroom : (packet.data.take 36).length =
        ((List.range sizeofAudioChunk.toNat).map junk).length := by
      rw [List.length_take, List.length_map, List.length_range]
      exact min_eq_left h
    have hstore := storeIn_append Fault.overrun [] [] hroom
    simpa using hstore
  have haudio : loadIn Fault.overread packet.data (sizeofAudioChunk - sizeofListHead).toNat
      packet.chunkLen.toNat = .ok (packet.bytes 28 packet.chunkLen.toNat) := by
    rw [EnetPacket.bytes_eq (by omega)]
    exact if_pos (show 28 + packet.chunkLen.toNat ≤ packet.data.length by omega)
  have hdata := @store_audio ((List.range (packet.chunkLen + 4).toNat).map junk)
    (packet.bytes 28 packet.chunkLen.toNat) (by simp [EnetPacket.bytes, hsum])
    (packet.byte 16) (packet.byte 17) (packet.byte 18) 0
  obtain ⟨data, h₁, hdata⟩ := bind_eq_ok.1 hdata
  obtain ⟨data', h₂, h₃⟩ := bind_eq_ok.1 hdata
  have hword : leWord (packet.data.take 36) 20 = packet.chunkLen := leWord_header h (by decide)
  unfold EnetPacket.LenMatches at hmatch
  unfold copyAudio
  rw [load_len (by omega), ok_bind, leWord_len (by omega), if_pos hmatch, if_pos hchunk, hheader,
    ok_bind, hcopied, ok_bind]
  by_cases hmalloc : env.mallocData = true
  · dsimp only
    rw [if_pos hmalloc, if_pos hmalloc, hword, haudio, ok_bind, h₁, ok_bind,
      getD_header h (show 16 < 36 by decide), getD_header h (show 17 < 36 by decide),
      getD_header h (show 18 < 36 by decide), h₂, ok_bind, h₃, ok_bind,
      leWord_header h (show 0 + 4 ≤ 36 by decide), leWord_header h (show 4 + 4 ≤ 36 by decide),
      leWord_header h (show 8 + 4 ≤ 36 by decide), leWord_header h (show 12 + 4 ≤ 36 by decide)]
    rfl
  · rw [if_neg hmalloc, if_neg hmalloc]

/-- A packet that is in bounds in the model of the server is copied. -/
theorem handle_audio (s : SpeakServer) (p : ℕ) {r : Option SpeakChunk}
    (hr : r = if packet.LenMatches ∧ env.mallocChunk = true ∧ env.mallocData = true
      then some packet.chunk else none)
    (hwrap : packet.LenMatches → env.mallocChunk = true →
      ¬ packet.chunkLen + 4 < packet.chunkLen) :
    s.handle (.receive p 1 packet env) = .ok (s, r.toList.map (.speak p)) := by
  have hzero : ¬ (s.data p = 0 ∧ (1 : UInt8) = 0) := fun h => absurd h.2 (by decide)
  simp only [SpeakServer.handle, if_neg hzero, if_true]
  unfold SpeakServer.speak
  by_cases hmatch : packet.LenMatches
  · cases hchunk : env.mallocChunk with
    | false => simp [hmatch, hchunk, hr]
    | true =>
      have hno := hwrap hmatch hchunk
      cases hdata : env.mallocData <;> simp [hmatch, hchunk, hdata, hr, hno]
  · simp [hmatch, hr]

end Copy

/-- **Audio packets.** The copy stays in bounds, and `c_speak` gets the samples of the packet behind
`sample` and `index`, exactly if the packet has a header, or its length field is in it and does not
match.

**Proof sketch.** Forwards: the length field and the header are read, so they must be in the packet.
Backwards: with the header in the packet the length that matches cannot wrap when 4 is added, and
the copy is `copyAudio_eq`; where it does not match nothing is copied. -/
theorem audio_copied_iff (packet : EnetPacket) (env : SpeakEnv) (junk : ℕ → UInt8)
    (hlen : packet.data.length < 2 ^ 32) :
    (∃ r, copyAudio packet env junk = .ok r ∧
      (∀ (s : SpeakServer) (p : ℕ),
        s.handle (.receive p 1 packet env) = .ok (s, r.toList.map (.speak p))) ∧
      (¬ packet.LenMatches → r = none) ∧
      ∀ chunk, r = some chunk → chunk.len.toNat = packet.chunkLen.toNat + 4 ∧
        (packet.data.drop 28).length = packet.chunkLen.toNat ∧
        chunk.data = [packet.byte 16, packet.byte 17, packet.byte 18, 0] ++ packet.data.drop 28) ↔
      24 ≤ packet.data.length ∧
        (packet.LenMatches → env.mallocChunk = true → 36 ≤ packet.data.length) := by
  constructor
  · rintro ⟨r, hr, -⟩
    have h24 : 24 ≤ packet.data.length := by
      by_contra hshort
      have hread : loadIn Fault.overread packet.data 20 4 = .error .overread := if_neg (by omega)
      rw [copyAudio, hread] at hr
      cases hr
    refine ⟨h24, fun hmatch hchunk => ?_⟩
    by_contra hshort
    have hread : loadIn Fault.overread packet.data 0 sizeofAudioChunk.toNat = .error .overread :=
      if_neg (show ¬ 0 + 36 ≤ packet.data.length by omega)
    unfold EnetPacket.LenMatches at hmatch
    rw [copyAudio, load_len h24, ok_bind, leWord_len h24, if_pos hmatch, if_pos hchunk, hread] at hr
    cases hr
  · rintro ⟨h24, hheader⟩
    have hwrap : packet.LenMatches → env.mallocChunk = true →
        ¬ packet.chunkLen + 4 < packet.chunkLen := by
      intro hmatch hchunk
      have hn := EnetPacket.chunkLen_eq hlen (by have h36 := hheader hmatch hchunk; omega) hmatch
      rw [UInt32.lt_iff_toNat_lt, UInt32.toNat_add, show (4 : UInt32).toNat = 4 from rfl]
      omega
    have hcopy : copyAudio packet env junk =
        .ok (if packet.LenMatches ∧ env.mallocChunk = true ∧ env.mallocData = true
          then some packet.chunk else none) := by
      by_cases hmatch : packet.LenMatches
      · cases hchunk : env.mallocChunk with
        | true =>
          rw [copyAudio_eq hlen (hheader hmatch hchunk) hmatch hchunk]
          simp [hmatch]
        | false =>
          unfold EnetPacket.LenMatches at hmatch
          rw [copyAudio, load_len h24, ok_bind, leWord_len h24, if_pos hmatch, hchunk]
          simp
      · rw [if_neg fun h => hmatch h.1, copyAudio, load_len h24, ok_bind, leWord_len h24]
        exact if_neg hmatch
    refine ⟨_, hcopy, fun s p => handle_audio s p rfl hwrap, fun hmatch => if_neg fun h =>
      hmatch h.1, fun chunk hchunk => ?_⟩
    obtain ⟨⟨hmatch, hmalloc, -⟩, rfl⟩ := (Option.ite_none_right_eq_some.1 hchunk).imp_right
      Option.some.inj
    have h36 := hheader hmatch hmalloc
    have hn := EnetPacket.chunkLen_eq hlen (by omega) hmatch
    refine ⟨?_, by rw [List.length_drop, hn], ?_⟩
    · show (packet.chunkLen + 4).toNat = _
      rw [UInt32.toNat_add, show (4 : UInt32).toNat = 4 from rfl]
      omega
    · show _ ++ packet.bytes 28 packet.chunkLen.toNat = _
      rw [EnetPacket.bytes_eq (by omega), hn, List.take_of_length_le (by simp)]

/-- Ten bytes of audio. -/
def tenBytes : EnetPacket :=
  ⟨List.replicate 20 0 ++ [10, 0, 0, 0] ++ List.replicate 14 1, fun _ => 0⟩

/-- Ten bytes behind the header. -/
theorem audio_copied_iff_ten : ∃ r,
    copyAudio tenBytes ⟨true, true, true, true⟩ (fun _ => 7) = .ok r ∧
      (¬ tenBytes.LenMatches → r = none) := by
  obtain ⟨r, hr, -, hmatch, -⟩ := (audio_copied_iff tenBytes ⟨true, true, true, true⟩ (fun _ => 7)
    (by decide)).2 ⟨by decide, fun _ _ => by decide⟩
  exact ⟨r, hr, hmatch⟩

/-- A packet that ends behind its length field, which is 4 less than 0. -/
def shortAudio : EnetPacket := ⟨List.replicate 20 0 ++ [252, 255, 255, 255], fun _ => 0⟩

/-- The packet matches, and the chunk is copied from behind its end. -/
theorem shortAudio_overread : shortAudio.LenMatches ∧
    copyAudio shortAudio ⟨true, true, true, true⟩ (fun _ => 0) = .error .overread := by
  decide +kernel

end Spook
