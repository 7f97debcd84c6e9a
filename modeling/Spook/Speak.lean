import Mathlib.Data.List.FinRange
import Mathlib.Data.Set.Card
import Spook.Fault
import Spook.Lib.Machine

set_option relaxedAutoImplicit false
set_option autoImplicit false

/-!
# The speak server

`c_do_speak_server_handler` of `c_speak.c`, run on any sequence of ENet events. A client logs in
with a packet on channel 0, is acknowledged and entered in the peer table of channel 1 of the
program (`g_peers[1]`, `g_nPeers[1]`), and from then on sends audio on ENet channel 1. Any other
packet resets its peer. ENet gives no disconnect event for a peer that was reset, and uses the
structure again for a later connection.

The layout of `AUDIO_CHUNK` is that of a little-endian machine with 32-bit `long` and pointers.

## Main definitions

* `Spook.EnetPacket` — a packet, with what is found behind it in memory.
* `Spook.SpeakServer` — the peer table, and what ENet knows of its peers.
* `Spook.speakMachine` — the handler on ENet events.
* `Spook.Documented` — the events that ENet gives.

## Main results

* `Spook.peer_table` — the peer table is right in every run in which no peer that is logged in
  sends on a channel other than 1, and no longer after a step that does.
* `Spook.speak_admitted` — `c_speak` is called for the packets of peers that are logged in, as
  long as no other peer sends audio.
-/

namespace Spook

/-! ## Packets -/

/-- An `ENetPacket`. Reads behind its end find the bytes `beyond`. -/
structure EnetPacket where
  data : List UInt8
  beyond : ℕ → UInt8

namespace EnetPacket

/-- `dataLength`. -/
def dataLength (packet : EnetPacket) : UInt32 := .ofNat packet.data.length

/-- The byte at an offset. -/
def byte (packet : EnetPacket) (i : ℕ) : UInt8 := packet.data.getD i (packet.beyond i)

/-- The bytes from an offset on. -/
def bytes (packet : EnetPacket) (i n : ℕ) : List UInt8 := (List.range n).map fun k =>
  packet.byte (i + k)

/-- The word at an offset. -/
def word (packet : EnetPacket) (i : ℕ) : UInt32 :=
  (packet.byte i).toUInt32 ||| (packet.byte (i + 1)).toUInt32 <<< 8 |||
    (packet.byte (i + 2)).toUInt32 <<< 16 ||| (packet.byte (i + 3)).toUInt32 <<< 24

end EnetPacket

/-- `sizeof(AUDIO_CHUNK)`. -/
def sizeofAudioChunk : UInt32 := 36

/-- `sizeof(struct list_head)`. -/
def sizeofListHead : UInt32 := 8

/-- The `AUDIO_CHUNK` that `c_speak` gets. Its data begins with `sample` and `index` as shorts. -/
structure SpeakChunk where
  codec : UInt32
  seq : UInt32
  tick : UInt32
  t : UInt32
  sample : UInt16
  index : UInt8
  len : UInt32
  data : List UInt8
  deriving DecidableEq

/-- `pChunk->len` of a packet. -/
def EnetPacket.chunkLen (packet : EnetPacket) : UInt32 := packet.word 20

/-- The test that a packet on channel 1 has to pass. -/
def EnetPacket.LenMatches (packet : EnetPacket) : Prop :=
  packet.chunkLen = packet.dataLength - sizeofAudioChunk + sizeofListHead

instance (packet : EnetPacket) : Decidable packet.LenMatches :=
  inferInstanceAs (Decidable (_ = _))

/-- The chunk that is made of a packet. -/
def EnetPacket.chunk (packet : EnetPacket) : SpeakChunk :=
  { codec := packet.word 0, seq := packet.word 4, tick := packet.word 8, t := packet.word 12,
    sample := (packet.byte 16).toUInt16 ||| (packet.byte 17).toUInt16 <<< 8,
    index := packet.byte 18, len := packet.chunkLen + 4,
    data := [packet.byte 16, packet.byte 17, packet.byte 18, 0] ++
      packet.bytes (sizeofAudioChunk - sizeofListHead).toNat packet.chunkLen.toNat }

/-! ## The server -/

/-- `MAX_CONN`. -/
abbrev maxConn : ℕ := 5

/-- The tables of channel 1, and of every ENet peer whether it is connected and its `data`. -/
structure SpeakServer where
  peers : Fin maxConn → Option ℕ
  nPeers : UInt32
  connected : ℕ → Bool
  data : ℕ → ℕ

/-- What the calls made for one event return. -/
structure SpeakEnv where
  /-- `enet_packet_create` succeeds. -/
  packetCreate : Bool
  /-- `enet_peer_send` succeeds. -/
  peerSend : Bool
  /-- The `malloc` of the chunk succeeds. -/
  mallocChunk : Bool
  /-- The `malloc` of its data succeeds. -/
  mallocData : Bool

/-- What ENet reports. -/
inductive EnetEvent
  | connect (peer : ℕ)
  | receive (peer : ℕ) (channelID : UInt8) (packet : EnetPacket) (env : SpeakEnv)
  | disconnect (peer : ℕ)

/-- What can be seen of the handler. -/
inductive SpeakEvent
  /-- A client connected. -/
  | connected (peer : ℕ)
  /-- `TYPE_ACK` was sent to a peer, which was entered in this slot. -/
  | login (peer : ℕ) (slot : Fin maxConn)
  /-- `c_request_speak` is called. -/
  | requestSpeak
  /-- `c_speak` is called with a chunk made of a packet of this peer. -/
  | speak (peer : ℕ) (chunk : SpeakChunk)
  /-- `enet_peer_reset` is called. -/
  | reset (peer : ℕ)
  /-- A client disconnected. -/
  | disconnected (peer : ℕ)
  /-- `c_end_speak` is called. -/
  | endSpeak
  deriving DecidableEq

namespace SpeakServer

/-- The server after `c_init_speak_server`. -/
def init : SpeakServer :=
  { peers := fun _ => none, nPeers := 0, connected := fun _ => false, data := fun _ => 0 }

/-- The first free slot. -/
def freeSlot (s : SpeakServer) : Option (Fin maxConn) :=
  (List.finRange maxConn).find? fun i => (s.peers i).isNone

/-- Store in a slot. -/
def setPeer (s : SpeakServer) (i : Fin maxConn) (p : Option ℕ) : SpeakServer :=
  { s with peers := Function.update s.peers i p }

/-- A packet on channel 0 of a peer that has not logged in. -/
def login (s : SpeakServer) (p : ℕ) (env : SpeakEnv) : SpeakServer × List SpeakEvent :=
  if env.packetCreate then
    match s.freeSlot with
    | none => (s, [])
    | some i =>
      let s := s.setPeer i (some p)
      if env.peerSend then
        ({ s with data := Function.update s.data p 1, nPeers := s.nPeers + 1 },
          [.login p i, .requestSpeak])
      else (s.setPeer i none, [])
  else (s, [])

/-- A packet on channel 1. The buffer of the data has no room for it when the sum of its size
wraps. -/
def speak (s : SpeakServer) (p : ℕ) (packet : EnetPacket) (env : SpeakEnv) :
    Except Fault (SpeakServer × List SpeakEvent) :=
  if packet.LenMatches then
    if env.mallocChunk then
      if env.mallocData then
        if packet.chunkLen + 4 < packet.chunkLen then .error .overrun
        else .ok (s, [.speak p packet.chunk])
      else .ok (s, [])
    else .ok (s, [])
  else .ok (s, [])

/-- Any other packet. -/
def reset (s : SpeakServer) (p : ℕ) : SpeakServer × List SpeakEvent :=
  ({ s with connected := Function.update s.connected p false }, [.reset p, .endSpeak])

/-- One turn of the loop over the table when a peer disconnected. -/
def dropSlot (p : ℕ) (s : SpeakServer) (i : Fin maxConn) : SpeakServer :=
  if s.peers i = some p then { s.setPeer i none with nPeers := s.nPeers - 1 } else s

/-- A peer disconnected. -/
def disconnect (s : SpeakServer) (p : ℕ) : SpeakServer × List SpeakEvent :=
  let s := { s with connected := Function.update s.connected p false,
                    data := Function.update s.data p 0 }
  ((List.finRange maxConn).foldl (dropSlot p) s, [.disconnected p, .endSpeak])

/-- `c_do_speak_server_handler` on one event. -/
def handle (s : SpeakServer) : EnetEvent → Except Fault (SpeakServer × List SpeakEvent)
  | .connect p =>
    .ok ({ s with connected := Function.update s.connected p true,
                  data := Function.update s.data p 0 }, [.connected p])
  | .receive p channelID packet env =>
    if s.data p = 0 ∧ channelID = 0 then .ok (s.login p env)
    else if channelID = 1 then s.speak p packet env
    else .ok (s.reset p)
  | .disconnect p => .ok (s.disconnect p)

/-- A peer that is connected and has logged in. -/
def LoggedIn (s : SpeakServer) (p : ℕ) : Prop := s.connected p = true ∧ s.data p ≠ 0

/-- The slots in use. -/
def occupied (s : SpeakServer) : Finset (Fin maxConn) :=
  Finset.univ.filter fun i => (s.peers i).isSome

end SpeakServer

/-- The speak server on ENet events. -/
def speakMachine : Machine SpeakServer EnetEvent SpeakEvent Fault where
  Init s := s = .init
  step := SpeakServer.handle

/-- The events that ENet gives: a peer that is not connected connects, and one that is sends or
disconnects. -/
def Documented (s : SpeakServer) : EnetEvent → Prop
  | .connect p => s.connected p = false
  | .receive p _ _ _ => s.connected p = true
  | .disconnect p => s.connected p = true

instance (s : SpeakServer) : (e : EnetEvent) → Decidable (Documented s e)
  | .connect _ | .receive _ _ _ _ | .disconnect _ => inferInstanceAs (Decidable (_ = _))

/-! ## The peer table -/

/-- The peer table holds the peers that are logged in, each once, and counts them. -/
structure PeerTable (s : SpeakServer) : Prop where
  loggedIn : ∀ i p, s.peers i = some p → s.LoggedIn p
  uniq : ∀ i j p, s.peers i = some p → s.peers j = some p → i = j
  listed : ∀ p, s.LoggedIn p → ∃ i, s.peers i = some p
  count : s.nPeers.toNat = s.occupied.card

/-- No peer that is logged in sends on a channel other than 1. -/
def WellBehaved (s : SpeakServer) : EnetEvent → Prop
  | .receive p channelID _ _ => s.data p ≠ 0 → channelID = 1
  | _ => True

instance (s : SpeakServer) : (e : EnetEvent) → Decidable (WellBehaved s e)
  | .receive p channelID _ _ => inferInstanceAs (Decidable (s.data p ≠ 0 → channelID = 1))
  | .connect _ | .disconnect _ => inferInstanceAs (Decidable True)

namespace SpeakServer

variable {s : SpeakServer} {p q : ℕ} {i j : Fin maxConn}

/-- The peers that are in the table. -/
@[simp] theorem mem_occupied : i ∈ s.occupied ↔ (s.peers i).isSome := by
  simp [occupied]

/-- A free slot that is found is free. -/
theorem free_of_freeSlot (h : s.freeSlot = some i) : s.peers i = none := by
  have hfound := List.find?_some h
  simpa using hfound

/-- What a login does: it enters the peer in a free slot, or changes nothing. -/
theorem login_cases (s : SpeakServer) (p : ℕ) (env : SpeakEnv) :
    s.login p env = (s, []) ∨
      ∃ i, s.peers i = none ∧
        s.login p env =
          ({ s with peers := Function.update s.peers i (some p),
                    data := Function.update s.data p 1, nPeers := s.nPeers + 1 },
            [.login p i, .requestSpeak]) := by
  unfold login
  by_cases hpacket : env.packetCreate = true
  · rw [if_pos hpacket]
    rcases hfree : s.freeSlot with _ | i
    · exact .inl rfl
    · have hnone := free_of_freeSlot hfree
      by_cases hsend : env.peerSend = true
      · simp only [hsend, if_true]
        exact .inr ⟨i, hnone, rfl⟩
      · left
        simp only [hsend, setPeer, Function.update_idem, ← hnone, Function.update_eq_self]
        rfl
  · rw [if_neg hpacket]
    exact .inl rfl

/-- A slot that is filled is one slot more in use. -/
theorem card_occupied_fill (h : s.peers i = none) :
    { s with peers := Function.update s.peers i (some p) }.occupied.card =
      s.occupied.card + 1 := by
  have hnew : { s with peers := Function.update s.peers i (some p) }.occupied =
      insert i s.occupied := by
    ext j
    by_cases hj : j = i <;> simp [hj]
  rw [hnew, Finset.card_insert_of_notMem (by simp [h])]

/-- A slot that is cleared is one slot less in use. -/
theorem card_occupied_clear (h : s.peers i = some p) :
    { s with peers := Function.update s.peers i none }.occupied.card + 1 =
      s.occupied.card := by
  have hnew : { s with peers := Function.update s.peers i none }.occupied =
      s.occupied.erase i := by
    ext j
    by_cases hj : j = i <;> simp [hj]
  rw [hnew, Finset.card_erase_add_one (by simp [h])]

/-- There are at most `MAX_CONN` slots. -/
theorem card_occupied_le (s : SpeakServer) : s.occupied.card ≤ maxConn := by
  have hle := Finset.card_le_univ s.occupied
  simpa using hle

/-- One turn of the loop keeps the count right. -/
theorem dropSlot_count (h : s.nPeers.toNat = s.occupied.card) :
    (s.dropSlot p i).nPeers.toNat = (s.dropSlot p i).occupied.card := by
  unfold dropSlot
  split_ifs with hi
  · have hclear := card_occupied_clear hi
    have hpos : (1 : UInt32) ≤ s.nPeers := by
      rw [UInt32.le_iff_toNat_le, h, ← hclear]
      simp
    change (s.nPeers - 1).toNat = _
    rw [UInt32.toNat_sub_of_le _ _ hpos, h, ← hclear]
    rfl
  · exact h

/-- The loop over the table when a peer disconnected: its slots are cleared. -/
theorem drop_peers (l : List (Fin maxConn)) (s : SpeakServer) (p : ℕ) (j : Fin maxConn) :
    (l.foldl (dropSlot p) s).peers j =
      if j ∈ l ∧ s.peers j = some p then none else s.peers j := by
  induction l generalizing s with
  | nil => simp
  | cons i l ih =>
    rw [List.foldl_cons, ih]
    unfold dropSlot setPeer
    by_cases hi : s.peers i = some p
    · by_cases hj : j = i <;> simp [hi, hj]
    · by_cases hj : j = i <;> simp [hi, hj]

/-- The loop keeps the count right. -/
theorem drop_count (l : List (Fin maxConn)) (s : SpeakServer) (p : ℕ)
    (h : s.nPeers.toNat = s.occupied.card) :
    (l.foldl (dropSlot p) s).nPeers.toNat = (l.foldl (dropSlot p) s).occupied.card := by
  induction l generalizing s with
  | nil => exact h
  | cons i l ih => exact ih _ (dropSlot_count h)

/-- The loop keeps what ENet knows. -/
theorem drop_enet (l : List (Fin maxConn)) (s : SpeakServer) (p : ℕ) :
    (l.foldl (dropSlot p) s).connected = s.connected ∧
      (l.foldl (dropSlot p) s).data = s.data := by
  induction l generalizing s with
  | nil => exact ⟨rfl, rfl⟩
  | cons i l ih =>
    obtain ⟨hconn, hdata⟩ := ih (dropSlot p s i)
    rw [List.foldl_cons, hconn, hdata]
    unfold dropSlot
    split_ifs <;> exact ⟨rfl, rfl⟩

end SpeakServer

namespace PeerTable

variable {s s' : SpeakServer} {p : ℕ} {o : List SpeakEvent}

/-- The table after `c_init_speak_server`. -/
theorem init : PeerTable .init where
  loggedIn := by
    intro i p h
    cases h
  uniq := by
    intro i j p h
    cases h
  listed := by
    intro p h
    exact absurd h.1 Bool.false_ne_true
  count := by
    simp [SpeakServer.init, SpeakServer.occupied]

/-- While the table is right there is a free slot as long as fewer peers are logged in than the
table holds. -/
theorem free (h : PeerTable s) (hfew : {p | s.LoggedIn p}.ncard < maxConn) :
    ∃ i, s.peers i = none := by
  by_contra hfull
  push Not at hfull
  have hpeer : ∀ i, ∃ p, s.peers i = some p := fun i => Option.ne_none_iff_exists'.1 (hfull i)
  choose peer hpeer using hpeer
  have hinj : Function.Injective peer := by
    intro i j hij
    exact h.uniq i j (peer i) (hpeer i) (hij ▸ hpeer j)
  have hset : {p | s.LoggedIn p} = Set.range peer := by
    ext p
    constructor
    · intro hp
      obtain ⟨i, hi⟩ := h.listed p hp
      exact ⟨i, Option.some.inj ((hpeer i).symm.trans hi)⟩
    · rintro ⟨i, rfl⟩
      exact h.loggedIn i _ (hpeer i)
  rw [hset, ← Set.image_univ, Set.ncard_image_of_injective _ hinj, Set.ncard_univ,
    Nat.card_fin] at hfew
  exact lt_irrefl _ hfew

/-- A peer connects. -/
theorem connect (h : PeerTable s) (hp : s.connected p = false) :
    PeerTable { s with connected := Function.update s.connected p true,
                       data := Function.update s.data p 0 } := by
  have hother : ∀ {i q}, s.peers i = some q → q ≠ p := by
    rintro i q hi rfl
    have hconn := (h.loggedIn i q hi).1
    rw [hp] at hconn
    cases hconn
  refine ⟨fun i q hi => ?_, h.uniq, fun q hq => ?_, h.count⟩
  · obtain ⟨hconn, hdata⟩ := h.loggedIn i q hi
    exact ⟨by simpa [hother hi] using hconn, by simpa [hother hi] using hdata⟩
  · by_cases hqp : q = p
    · subst hqp
      exact absurd hq.2 (by simp)
    · obtain ⟨hconn, hdata⟩ := hq
      exact h.listed q ⟨by simpa [hqp] using hconn, by simpa [hqp] using hdata⟩

/-- A peer that has not logged in does. -/
theorem login (h : PeerTable s) (hp : s.connected p = true) (hdata : s.data p = 0)
    (env : SpeakEnv) : PeerTable (s.login p env).1 := by
  rcases s.login_cases p env with hsame | ⟨i, hfree, hlogin⟩
  · rw [hsame]
    exact h
  rw [hlogin]
  have hother : ∀ {j q}, s.peers j = some q → q ≠ p := by
    rintro j q hj rfl
    exact (h.loggedIn j q hj).2 hdata
  refine ⟨fun j q hj => ?_, fun j k q hj hk => ?_, fun q hq => ?_, ?_⟩
  · by_cases hji : j = i
    · subst hji
      obtain rfl : p = q := by simpa using hj
      exact ⟨hp, by simp⟩
    · have hold : s.peers j = some q := by simpa [hji] using hj
      obtain ⟨hconn, hd⟩ := h.loggedIn j q hold
      exact ⟨hconn, by simpa [hother hold] using hd⟩
  · by_cases hji : j = i <;> by_cases hki : k = i <;> simp [hji, hki] at hj hk
    · rw [hji, hki]
    · exact absurd hj.symm (hother hk)
    · exact absurd hk.symm (hother hj)
    · exact h.uniq j k q hj hk
  · by_cases hqp : q = p
    · exact ⟨i, by simp [hqp]⟩
    · obtain ⟨j, hj⟩ := h.listed q ⟨hq.1, by simpa [hqp] using hq.2⟩
      have hji : j ≠ i := by
        rintro rfl
        rw [hfree] at hj
        cases hj
      exact ⟨j, by simpa [hji] using hj⟩
  · have hcard := SpeakServer.card_occupied_fill (p := p) hfree
    have hle : s.occupied.card ≤ 5 := s.card_occupied_le
    change (s.nPeers + 1).toNat = { s with peers := Function.update s.peers i (some p) }.occupied.card
    rw [hcard, UInt32.toNat_add, h.count, Nat.mod_eq_of_lt]
    · rfl
    · exact (show s.occupied.card + 1 < 2 ^ 32 by omega)

/-- A peer disconnects. -/
theorem disconnect (h : PeerTable s) (p : ℕ) : PeerTable (s.disconnect p).1 := by
  obtain ⟨hconn, hdata⟩ := SpeakServer.drop_enet (List.finRange maxConn)
    { s with connected := Function.update s.connected p false,
             data := Function.update s.data p 0 } p
  have hpeers := SpeakServer.drop_peers (List.finRange maxConn)
    { s with connected := Function.update s.connected p false,
             data := Function.update s.data p 0 } p
  simp only [List.mem_finRange, true_and] at hpeers
  have hkept : ∀ {i q}, (s.disconnect p).1.peers i = some q → q ≠ p ∧ s.peers i = some q := by
    intro i q hi
    have hi' := (hpeers i).symm.trans hi
    split_ifs at hi' with hip
    refine ⟨?_, hi'⟩
    rintro rfl
    exact hip hi'
  refine ⟨fun i q hi => ?_, fun i j q hi hj => ?_, fun q hq => ?_, ?_⟩
  · obtain ⟨hqp, hold⟩ := hkept hi
    obtain ⟨hc, hd⟩ := h.loggedIn i q hold
    exact ⟨by simpa [SpeakServer.disconnect, hconn, hqp] using hc,
      by simpa [SpeakServer.disconnect, hdata, hqp] using hd⟩
  · exact h.uniq i j q (hkept hi).2 (hkept hj).2
  · have hqp : q ≠ p := by
      rintro rfl
      have hc := hq.1
      simp [SpeakServer.disconnect, hconn] at hc
    obtain ⟨i, hi⟩ := h.listed q
      ⟨by simpa [SpeakServer.disconnect, hconn, hqp] using hq.1,
        by simpa [SpeakServer.disconnect, hdata, hqp] using hq.2⟩
    refine ⟨i, (hpeers i).trans ?_⟩
    rw [if_neg, hi]
    intro hip
    exact hqp (Option.some.inj (hi.symm.trans hip))
  · exact SpeakServer.drop_count _ _ p h.count

/-- **One step.** An event of ENet keeps the table right if no peer that is logged in sends on a
channel other than 1.

**Proof sketch.** By the event. A connection leaves the table as it is; a disconnection takes the
peer out of it; a login enters it. A packet on another channel resets the peer but not its entry,
which is why the guard asks that it be not logged in. -/
theorem step (h : PeerTable s) {e : EnetEvent} (hdoc : Documented s e) (hgood : WellBehaved s e)
    (hs : s.handle e = .ok (s', o)) : PeerTable s' := by
  cases e with
  | connect p =>
    cases hs
    exact h.connect hdoc
  | disconnect p =>
    cases hs
    exact h.disconnect p
  | receive p channelID packet env =>
    simp only [SpeakServer.handle] at hs
    split_ifs at hs with hlogin hspeak
    · have hnew := h.login hdoc hlogin.1 env
      rw [Except.ok.inj hs] at hnew
      exact hnew
    · unfold SpeakServer.speak at hs
      split_ifs at hs
      all_goals
        cases hs
        exact h
    · cases hs
      have hdata : s.data p = 0 := by
        by_contra hne
        exact hspeak (hgood hne)
      refine ⟨fun i q hi => ?_, h.uniq, fun q hq => ?_, h.count⟩
      · obtain ⟨hconn, hd⟩ := h.loggedIn i q hi
        have hqp : q ≠ p := by
          rintro rfl
          exact hd hdata
        exact ⟨by simpa [SpeakServer.reset, hqp] using hconn, hd⟩
      · have hqp : q ≠ p := by
          rintro rfl
          exact hq.2 hdata
        exact h.listed q ⟨by simpa [SpeakServer.reset, hqp] using hq.1, hq.2⟩

/-- A peer that is logged in and sends on another channel is reset, and stays in the table. -/
theorem dangles (h : PeerTable s) {e : EnetEvent} (hdoc : Documented s e)
    (hbad : ¬ WellBehaved s e) (hs : s.handle e = .ok (s', o)) :
    ∃ i p, s'.peers i = some p ∧ s'.connected p = false := by
  cases e with
  | connect p => exact absurd trivial hbad
  | disconnect p => exact absurd trivial hbad
  | receive p channelID packet env =>
    simp only [WellBehaved, Classical.not_imp] at hbad
    obtain ⟨hdata, hchannel⟩ := hbad
    simp only [SpeakServer.handle, hdata, false_and, if_false, hchannel] at hs
    cases hs
    obtain ⟨i, hi⟩ := h.listed p ⟨hdoc, hdata⟩
    exact ⟨i, p, hi, by simp⟩

end PeerTable

/-- **The peer table.** In every run in which no peer that is logged in sends on a channel other
than 1 the table is right, and it has a free slot whenever fewer peers are logged in than it
holds; the next event keeps it right exactly if it is no such packet. -/
theorem peer_table {es : List EnetEvent} {os : List SpeakEvent} {s : SpeakServer}
    (h : Machine.Run speakMachine (fun s e => Documented s e ∧ WellBehaved s e) es os s) :
    PeerTable s ∧ ({p | s.LoggedIn p}.ncard < maxConn → ∃ i, s.peers i = none) ∧
      ∀ e s' o, Documented s e → s.handle e = .ok (s', o) →
        (PeerTable s' ↔ WellBehaved s e) := by
  have htable : PeerTable s := by
    refine h.invariant PeerTable ?_ ?_
    · rintro s rfl
      exact .init
    · intro s e s' o htable hguard hs
      exact htable.step hguard.1 hguard.2 hs
  refine ⟨htable, htable.free, fun e s' o hdoc hs => ⟨fun hnew => ?_, fun hgood => ?_⟩⟩
  · by_contra hbad
    obtain ⟨i, p, hi, hconn⟩ := htable.dangles hdoc hbad hs
    have hin := (hnew.loggedIn i p hi).1
    rw [hconn] at hin
    cases hin
  · exact htable.step hdoc hgood hs

/-- A client connects and logs in. -/
theorem peer_table_login : ∃ s : SpeakServer, PeerTable s ∧ s.peers 0 = some 0 ∧ s.nPeers = 1 := by
  have hrun : ∃ s, Machine.Run speakMachine (fun s e => Documented s e ∧ WellBehaved s e)
      [.connect 0, .receive 0 0 ⟨[1, 1], fun _ => 0⟩ ⟨true, true, true, true⟩]
      [.connected 0, .login 0 0, .requestSpeak] s ∧ (s.peers 0, s.nPeers) = (some 0, 1) :=
    Machine.Run.of_exec (fun s : SpeakServer => (s.peers 0, s.nPeers)) rfl (by decide +kernel)
  obtain ⟨s, hrun, hread⟩ := hrun
  obtain ⟨hpeer, hn⟩ := Prod.mk.inj hread
  exact ⟨s, (peer_table hrun).1, hpeer, hn⟩

/-- A client that sends on channel 0 again after its login is reset, and stays in the table; its
structure is used for the next connection, which is entered a second time. -/
theorem reset_keeps_slot : ¬ ∀ (es : List EnetEvent) (os : List SpeakEvent) (s : SpeakServer),
    Machine.Run speakMachine Documented es os s →
      (∀ i p, s.peers i = some p → s.LoggedIn p) ∧
      (∀ i j p, s.peers i = some p → s.peers j = some p → i = j) ∧
      s.nPeers.toNat = s.occupied.card ∧
      ({p | s.LoggedIn p}.ncard < maxConn → ∃ i, s.peers i = none) := by
  intro h
  have hrun : ∃ s, Machine.Run speakMachine Documented
      [.connect 0, .receive 0 0 ⟨[1, 1], fun _ => 0⟩ ⟨true, true, true, true⟩,
        .receive 0 0 ⟨[1, 3], fun _ => 0⟩ ⟨true, true, true, true⟩, .connect 0,
        .receive 0 0 ⟨[1, 1], fun _ => 0⟩ ⟨true, true, true, true⟩]
      [.connected 0, .login 0 0, .requestSpeak, .reset 0, .endSpeak, .connected 0, .login 0 1,
        .requestSpeak] s ∧ (s.peers 0, s.peers 1) = (some 0, some 0) :=
    Machine.Run.of_exec (fun s : SpeakServer => (s.peers 0, s.peers 1)) rfl (by decide +kernel)
  obtain ⟨s, hrun, hread⟩ := hrun
  obtain ⟨hfirst, hsecond⟩ := Prod.mk.inj hread
  have heq := (h _ _ s hrun).2.1 0 1 0 hfirst hsecond
  exact absurd heq (by decide)

/-! ## Admission -/

/-- In the events `os` the peer was acknowledged and entered in the table, and has neither
connected anew nor disconnected nor been reset since. -/
def Admitted (os : List SpeakEvent) (p : ℕ) : Prop :=
  ∃ i before after, os = before ++ .login p i :: after ∧
    .connected p ∉ after ∧ .reset p ∉ after ∧ .disconnected p ∉ after

/-- A packet for which `c_speak` is called. -/
def Spoken (packet : EnetPacket) (env : SpeakEnv) : Prop :=
  packet.LenMatches ∧ env.mallocChunk = true ∧ env.mallocData = true

/-- The event is no audio of a peer that is not logged in. -/
def AudioAdmitted (s : SpeakServer) : EnetEvent → Prop
  | .receive p channelID packet env => channelID = 1 → Spoken packet env → s.data p ≠ 0
  | _ => True

/-- An event that is not about the connection of the peer leaves its admission as it is. -/
theorem Admitted.snoc {os : List SpeakEvent} {x : SpeakEvent} {p : ℕ} :
    Admitted (os ++ [x]) p ↔ (∃ i, x = .login p i) ∨
      Admitted os p ∧ x ≠ .connected p ∧ x ≠ .reset p ∧ x ≠ .disconnected p := by
  constructor
  · rintro ⟨i, before, after, hos, hconn, hreset, hdisc⟩
    rcases List.eq_nil_or_concat after with rfl | ⟨after, y, rfl⟩
    · have hlast := (List.append_inj' hos rfl).2
      exact .inl ⟨i, List.singleton_inj.1 hlast⟩
    · rw [List.concat_eq_append, ← List.cons_append, ← List.append_assoc] at hos
      obtain ⟨rfl, hlast⟩ := List.append_inj' hos rfl
      obtain rfl := List.singleton_inj.1 hlast
      simp only [List.concat_eq_append, List.mem_append, List.mem_singleton, not_or]
        at hconn hreset hdisc
      exact .inr ⟨⟨i, before, after, rfl, hconn.1, hreset.1, hdisc.1⟩, Ne.symm hconn.2,
        Ne.symm hreset.2, Ne.symm hdisc.2⟩
  · rintro (⟨i, rfl⟩ | ⟨⟨i, before, after, rfl, hconn, hreset, hdisc⟩, h1, h2, h3⟩)
    · exact ⟨i, os, [], rfl, by simp, by simp, by simp⟩
    · exact ⟨i, before, after ++ [x], by simp, by simp [hconn, Ne.symm h1],
        by simp [hreset, Ne.symm h2], by simp [hdisc, Ne.symm h3]⟩

/-- The peers that are logged in are the ones that were admitted, and each is in the table. -/
structure Admission (os : List SpeakEvent) (s : SpeakServer) : Prop where
  admitted : ∀ p, Admitted os p ↔ s.LoggedIn p
  listed : ∀ p, s.LoggedIn p → s.data p = 1 ∧ ∃ i, s.peers i = some p

namespace Admission

variable {os o : List SpeakEvent} {s s' : SpeakServer} {p : ℕ}

/-- Nobody is admitted at first. -/
theorem init : Admission [] .init where
  admitted := by
    intro p
    constructor
    · rintro ⟨i, before, after, hos, -⟩
      simp at hos
    · intro h
      exact absurd h.1 Bool.false_ne_true
  listed := by
    intro p h
    exact absurd h.1 Bool.false_ne_true

/-- An event that is about no connection. -/
theorem same (h : Admission os s) {x : SpeakEvent} (hlogin : ∀ p i, x ≠ .login p i)
    (hconn : ∀ p, x ≠ .connected p) (hreset : ∀ p, x ≠ .reset p)
    (hdisc : ∀ p, x ≠ .disconnected p) : Admission (os ++ [x]) s := by
  refine ⟨fun p => ?_, h.listed⟩
  rw [Admitted.snoc, h.admitted]
  simp [hlogin, hconn, hreset, hdisc]

/-- The connection of a peer ends, or begins anew. -/
theorem ended (h : Admission os s) (t : SpeakServer) (p : ℕ) {x : SpeakEvent}
    (hlogin : ∀ p i, x ≠ .login p i)
    (hx : ∀ q, (x ≠ .connected q ∧ x ≠ .reset q ∧ x ≠ .disconnected q) ↔ q ≠ p)
    (hlog : ∀ q, t.LoggedIn q ↔ s.LoggedIn q ∧ q ≠ p) (hdata : ∀ q, q ≠ p → t.data q = s.data q)
    (hpeers : ∀ i q, q ≠ p → s.peers i = some q → t.peers i = some q) :
    Admission (os ++ [x]) t := by
  refine ⟨fun q => ?_, fun q hq => ?_⟩
  · rw [Admitted.snoc, h.admitted, hx, hlog]
    simp [hlogin]
  · obtain ⟨hold, hqp⟩ := (hlog q).1 hq
    obtain ⟨hone, i, hi⟩ := h.listed q hold
    exact ⟨(hdata q hqp).trans hone, i, hpeers i q hqp hi⟩

/-- **One step.** An event of ENet keeps the admitted peers the ones that are logged in.

**Proof sketch.** By the event, with what it records. A login is admitted, and the events that end a
peer end its admission; audio is passed on and changes nothing. -/
theorem step (h : Admission os s) {e : EnetEvent} (hdoc : Documented s e)
    (hs : s.handle e = .ok (s', o)) : Admission (os ++ o) s' := by
  cases e with
  | connect p =>
    cases hs
    refine h.ended _ p (by simp) (by simp [eq_comm]) (fun q => ?_)
      (fun q hq => by simp [hq]) (fun i q _ hi => hi)
    by_cases hq : q = p <;> simp [SpeakServer.LoggedIn, hq]
  | disconnect p =>
    cases hs
    obtain ⟨hconn, hdata⟩ := SpeakServer.drop_enet (List.finRange maxConn)
      { s with connected := Function.update s.connected p false,
               data := Function.update s.data p 0 } p
    have hpeers := SpeakServer.drop_peers (List.finRange maxConn)
      { s with connected := Function.update s.connected p false,
               data := Function.update s.data p 0 } p
    rw [show ([.disconnected p, .endSpeak] : List SpeakEvent) =
      [.disconnected p] ++ [.endSpeak] from rfl, ← List.append_assoc]
    refine (h.ended (s.disconnect p).1 p (by simp) (by simp [eq_comm])
      (fun q => ?_) (fun q hq => ?_) (fun i q hq hi => ?_)).same (by simp) (by simp) (by simp)
      (by simp)
    · by_cases hq : q = p <;>
        simp [SpeakServer.LoggedIn, SpeakServer.disconnect, hconn, hdata, hq]
    · simp [SpeakServer.disconnect, hdata, hq]
    · refine (hpeers i).trans ?_
      rw [if_neg, hi]
      rintro ⟨-, hip⟩
      exact hq (Option.some.inj (hi.symm.trans hip))
  | receive p channelID packet env =>
    simp only [SpeakServer.handle] at hs
    split_ifs at hs with hlogin hspeak
    · rcases s.login_cases p env with hsame | ⟨i, hfree, hnew⟩
      · rw [hsame] at hs
        cases hs
        simpa using h
      · rw [hnew] at hs
        cases hs
        rw [show ([.login p i, .requestSpeak] : List SpeakEvent) =
          [.login p i] ++ [.requestSpeak] from rfl, ← List.append_assoc]
        have hp : s.connected p = true := hdoc
        refine Admission.same ⟨fun q => ?_, fun q hq => ?_⟩ (by simp) (by simp) (by simp) (by simp)
        · rw [Admitted.snoc, h.admitted]
          by_cases hq : q = p
          · simp [SpeakServer.LoggedIn, hq, hp]
          · simp [SpeakServer.LoggedIn, hq, Ne.symm hq]
        · by_cases hqp : q = p
          · exact ⟨by simp [hqp], i, by simp [hqp]⟩
          · obtain ⟨hone, j, hj⟩ := h.listed q ⟨hq.1, by simpa [hqp] using hq.2⟩
            have hji : j ≠ i := by
              rintro rfl
              rw [hfree] at hj
              cases hj
            exact ⟨by simpa [hqp] using hone, j, by simpa [hji] using hj⟩
    · unfold SpeakServer.speak at hs
      split_ifs at hs <;> cases hs
      · exact h.same (by simp) (by simp) (by simp) (by simp)
      all_goals simpa using h
    · cases hs
      rw [show ([.reset p, .endSpeak] : List SpeakEvent) = [.reset p] ++ [.endSpeak] from rfl,
        ← List.append_assoc]
      refine (h.ended (s.reset p).1 p (by simp) (by simp [eq_comm])
        (fun q => ?_) (fun q _ => rfl) (fun i q _ hi => hi)).same (by simp) (by simp) (by simp)
        (by simp)
      by_cases hq : q = p <;> simp [SpeakServer.LoggedIn, SpeakServer.reset, hq]

end Admission

/-- **Admission.** After every sequence of ENet events, `c_speak` is called for the next one only
if its sender completed the login and has neither disconnected nor been reset since, exactly if it
is no audio of a peer that is not logged in. -/
theorem speak_admitted {es : List EnetEvent} {os o : List SpeakEvent} {s s' : SpeakServer}
    {e : EnetEvent} (h : Machine.Run speakMachine Documented es os s) (hdoc : Documented s e)
    (hs : s.handle e = .ok (s', o)) :
    (∀ p chunk, .speak p chunk ∈ o →
        Admitted os p ∧ s.data p = 1 ∧ ∃ i, s.peers i = some p) ↔ AudioAdmitted s e := by
  have hadm : Admission os s := by
    refine h.history (fun _ os s => Admission os s) ?_ ?_
    · rintro s rfl
      exact .init
    · intro es os s e s' o hadm hdoc hs
      exact hadm.step hdoc hs
  cases e with
  | connect p =>
    cases hs
    simp [AudioAdmitted]
  | disconnect p =>
    cases hs
    simp [AudioAdmitted]
  | receive p channelID packet env =>
    simp only [SpeakServer.handle] at hs
    split_ifs at hs with hlogin hspeak
    · have hnone : ∀ q chunk, SpeakEvent.speak q chunk ∉ o := by
        intro q chunk
        rcases s.login_cases p env with hsame | ⟨i, -, hnew⟩
        · rw [hsame] at hs
          cases hs
          simp
        · rw [hnew] at hs
          cases hs
          simp
      refine iff_of_true (fun q chunk hq => absurd hq (hnone q chunk)) ?_
      intro hchannel
      rw [hlogin.2] at hchannel
      exact absurd hchannel (by decide)
    · unfold SpeakServer.speak at hs
      split_ifs at hs with hlen hchunk hbytes hover <;> cases hs
      · constructor
        · intro hall _ _
          obtain ⟨-, hone, -⟩ := hall p packet.chunk (List.mem_singleton.2 rfl)
          rw [hone]
          exact one_ne_zero
        · intro haud q chunk hq
          obtain ⟨rfl, -⟩ := SpeakEvent.speak.inj (List.mem_singleton.1 hq)
          have hin : s.LoggedIn q := ⟨hdoc, haud hspeak ⟨hlen, hchunk, hbytes⟩⟩
          obtain ⟨hone, hlisted⟩ := hadm.listed q hin
          exact ⟨(hadm.admitted q).2 hin, hone, hlisted⟩
      all_goals
        refine iff_of_true (by simp) ?_
        rintro - ⟨h1, h2, h3⟩
        simp_all
    · cases hs
      refine iff_of_true (by simp) ?_
      intro hchannel
      exact absurd hchannel hspeak

/-- An audio packet without samples. -/
def silence : EnetPacket := ⟨List.replicate 28 0, fun _ => 0⟩

/-- It is played whoever sends it. -/
theorem SpeakServer.handle_silence (s : SpeakServer) (p : ℕ) :
    s.handle (.receive p 1 silence ⟨true, true, true, true⟩) =
      .ok (s, [.speak p silence.chunk]) := by
  simp only [handle, if_true]
  rw [if_neg fun h => absurd h.2 (by decide)]
  unfold speak
  rw [if_pos (by decide +kernel), if_pos rfl, if_pos rfl, if_neg (by decide +kernel)]

/-- A client that has logged in sends audio. -/
theorem speak_admitted_login : ∃ (s : SpeakServer) (os : List SpeakEvent) (chunk : SpeakChunk),
    s.handle (.receive 0 1 silence ⟨true, true, true, true⟩) = .ok (s, [.speak 0 chunk]) ∧
      Admitted os 0 ∧ s.data 0 = 1 := by
  have hrun : ∃ s, Machine.Run speakMachine Documented
      [.connect 0, .receive 0 0 ⟨[1, 1], fun _ => 0⟩ ⟨true, true, true, true⟩]
      [.connected 0, .login 0 0, .requestSpeak] s ∧ (s.connected 0, s.data 0) = (true, 1) :=
    Machine.Run.of_exec (fun s : SpeakServer => (s.connected 0, s.data 0)) rfl
      (by decide +kernel)
  obtain ⟨s, hrun, hread⟩ := hrun
  obtain ⟨hconn, hdata⟩ := Prod.mk.inj hread
  have hdoc : Documented s (.receive 0 1 silence ⟨true, true, true, true⟩) := hconn
  have hall := (speak_admitted hrun hdoc (s.handle_silence 0)).2 fun _ _ => by
    rw [hdata]
    exact one_ne_zero
  obtain ⟨hadm, hone, -⟩ := hall 0 _ (List.mem_singleton.2 rfl)
  exact ⟨s, _, _, s.handle_silence 0, hadm, hone⟩

/-- A client that has just connected sends audio, which is played. -/
theorem stranger_speaks : ¬ ∀ (es : List EnetEvent) (os o : List SpeakEvent)
    (s s' : SpeakServer) (e : EnetEvent), Machine.Run speakMachine Documented es os s →
      Documented s e → s.handle e = .ok (s', o) → ∀ p chunk, .speak p chunk ∈ o →
        Admitted os p ∧ s.data p = 1 ∧ ∃ i, s.peers i = some p := by
  intro h
  have hrun : ∃ s, Machine.Run speakMachine Documented [.connect 0] [.connected 0] s ∧
      (s.connected 0, s.data 0) = (true, 0) :=
    Machine.Run.of_exec (fun s : SpeakServer => (s.connected 0, s.data 0)) rfl
      (by decide +kernel)
  obtain ⟨s, hrun, hread⟩ := hrun
  obtain ⟨hconn, hdata⟩ := Prod.mk.inj hread
  have hdoc : Documented s (.receive 0 1 silence ⟨true, true, true, true⟩) := hconn
  have hone := (h _ _ _ s s _ hrun hdoc (s.handle_silence 0) 0 _ (List.mem_singleton.2 rfl)).2.1
  rw [hdata] at hone
  cases hone

end Spook
