import Spook.Tcp.Reading

set_option relaxedAutoImplicit false
set_option autoImplicit false

/-!
# Segmentation of the client stream

How the bytes of a client are split into `read` results should not matter, and it does: with
every message that is handed over the whole request buffer is emptied, so that bytes which
arrived behind the message in the same read are lost. What is handed over is what was sent
exactly when every message ends where a read ends.

## Main definitions

* `Spook.ClientStream` — complete messages on an RTSP connection and the beginning of another.
* `Spook.readAll`, `Splitting` — a whole stream in reads that fit in the buffer.
* `Spook.Aligned` — every message ends where a read ends.

## Main results

* `Spook.readAll_of_aligned` — aligned reads hand over every message.
* `Spook.readAll_aligned` — reads that lose no byte are aligned.
* `Spook.segmentation` — which splittings, and which streams, are read as they were sent.

## Notes on the design

The connection is looked at through its operations (`rtspOps`), which record what is handed over. A
stream is a list of messages that are complete and the beginning of one more, so that a read is
aligned or loses bytes, and both can be said of lengths alone.
-/

namespace Spook

/-- The first `reqBufSize - 1` bytes of the request buffer are for data. A message is valid when
it is shorter than that, and a request when it ends at its first empty line, is no packet and is
parsed as a request. -/
def Message.Valid (blank : Pmsg) : Message → Prop
  | .request t => NulFree t ∧ t.head? ≠ some 36 ∧ strstr CRLFCRLF t = some (t.length - 4) ∧
      t.length < reqBufSize - 1 ∧ ∃ m, parseRequest blank t = .ok (some m) ∧ m.type = .req
  | .packet _ d => d.length + 4 < reqBufSize - 1

/-- A request that makes a new connection an RTSP connection. -/
def Message.OpensRtsp : Message → Prop
  | .request t => clientAction .start t = .detected .rtsp
  | .packet _ _ => False

/-- The bytes of messages. -/
def bytesOf (ms : List Message) : Bytes := (ms.map Message.bytes).flatten

/-- What a client sends on a new RTSP connection: the messages `msgs` and a proper beginning
`rest` of the message `next`. -/
structure ClientStream (blank : Pmsg) where
  msgs : List Message
  next : Message
  rest : Bytes
  valid : ∀ m ∈ msgs ++ [next], m.Valid blank
  opens : ∀ m ∈ (msgs ++ [next]).head?, m.OpensRtsp
  begins : rest <+: next.bytes
  proper : rest ≠ next.bytes

/-- The bytes of a stream. -/
def ClientStream.bytes {blank : Pmsg} (S : ClientStream blank) : Bytes := bytesOf S.msgs ++ S.rest

/-- Reads that return the given bytes one after the other. -/
def readAll (blank : Pmsg) : ReadState → List Bytes → Except Fault ReadState
  | s, [] => .ok s
  | s, d :: ds => do readAll blank (← feed blank s d) ds

/-- No read returns more than there is room for. -/
def RoomFor (blank : Pmsg) : ReadState → List Bytes → Prop
  | _, [] => True
  | s, d :: ds =>
      (∀ c, s.conn = some c → c.reqBuf.length + d.length ≤ reqBufSize - 1) ∧
        ∀ s', feed blank s d = .ok s' → RoomFor blank s' ds

/-- A new connection that handed over nothing. -/
def newRead (fd : ℕ) : ReadState := ⟨some (Conn.accepted fd), []⟩

/-- What can be seen of reading: the messages handed over and what is left in the buffer. -/
def outcome (r : Except Fault ReadState) : Except Fault (List Message × Option Bytes) :=
  r.map fun s => (s.handed, s.conn.map Conn.reqBuf)

/-- A way to split the bytes `b` into reads of a new connection. -/
structure Splitting (blank : Pmsg) (fd : ℕ) (b : Bytes) where
  chunks : List Bytes
  whole : chunks.flatten = b
  nonempty : ∀ d ∈ chunks, d ≠ []
  room : RoomFor blank (newRead fd) chunks

/-- A splitting is read on a new connection. -/
def Splitting.read {blank : Pmsg} {fd : ℕ} {b : Bytes} (sp : Splitting blank fd b) :
    Except Fault (List Message × Option Bytes) :=
  outcome (readAll blank (newRead fd) sp.chunks)

/-- Every message ends where a read ends. -/
def Aligned (ms : List Message) (chunks : List Bytes) : Prop :=
  ∀ k ≤ ms.length, ∃ j ≤ chunks.length,
    (chunks.take j).flatten.length = (bytesOf (ms.take k)).length

/-! ## Bytes are not made up -/

/-- The number of bytes of messages. -/
def weight (ms : List Message) : ℕ := (bytesOf ms).length

/-- Messages behind messages. -/
@[simp] theorem weight_append (ms ms' : List Message) :
    weight (ms ++ ms') = weight ms + weight ms' := by
  simp [weight, bytesOf]

/-- A single message. -/
@[simp] theorem weight_singleton (m : Message) : weight [m] = m.bytes.length := by
  simp [weight, bytesOf]

/-- No messages. -/
@[simp] theorem weight_nil : weight [] = 0 := rfl

/-- One message more. -/
theorem weight_cons (m : Message) (ms : List Message) :
    weight (m :: ms) = m.bytes.length + weight ms := by
  simp [weight, bytesOf]

/-- The text of the request in a buffer is no longer than the buffer. -/
theorem requestText_length (buf : Bytes) :
    (requestText buf).length ≤ buf.length := by
  have hle : (cstr buf).length ≤ buf.length := (cstr_begins buf).length_le
  simp only [requestText, List.length_take]
  omega

/-- A packet that is found lies in the buffer. -/
theorem packetAction_length {buf d : Bytes} {chan : UInt8}
    (h : packetAction buf = .packet chan d) :
    (Message.packet chan d).bytes.length ≤ buf.length := by
  unfold packetAction at h
  split at h
  · split_ifs at h with hlen
    cases h
    simp only [Message.bytes, List.length_cons, List.length_take]
    omega
  · cases h

section Feed

variable {blank : Pmsg} {c c' : Conn} {L L' : List Message} {d : Bytes}

/-- What one read can do to a connection that it does not drop: it keeps the bytes, or it hands
over one message, no longer than the buffer, and empties the buffer. -/
inductive FeedStep (c : Conn) (L : List Message) (d : Bytes) : Conn → List Message → Prop
  | kept {c' : Conn} : c'.base64Count = c.base64Count → c'.reqBuf = c.reqBuf ++ d →
      c'.reqBuf.length ≠ reqBufSize - 1 → FeedStep c L d c' L
  | handed {c' : Conn} {m : Message} : c'.base64Count = c.base64Count → c'.reqBuf = [] →
      m.bytes.length ≤ c.reqBuf.length + d.length → FeedStep c L d c' (L ++ [m])

/-- Specification of one read. -/
theorem feed_spec (hc : c.base64Count < 0)
    (h : feed blank ⟨some c, L⟩ d = .ok ⟨some c', L'⟩) : FeedStep c L d c' L' := by
  rw [feed_eq hc] at h
  split_ifs at h with hfull
  · cases h
  have hlen : (c.reqBuf ++ d).length = c.reqBuf.length + d.length := List.length_append
  unfold settled at h
  rcases hs : settle c.proto (c.reqBuf ++ d) with ⟨p, _ | q | _ | _ | ⟨chan, x⟩⟩
  · rw [hs] at h
    cases h
    exact .kept rfl rfl hfull
  · rw [hs] at h
    cases h
    exact .kept rfl rfl hfull
  · rw [hs] at h
    cases h
  · rw [hs] at h
    dsimp only at h
    rcases hr : readRequest blank (c.reqBuf ++ d) with e | _ | v
    · rw [hr] at h
      cases h
    · rw [hr] at h
      cases h
    · rw [hr] at h
      cases h
      refine .handed rfl rfl ?_
      rw [← hlen]
      exact requestText_length _
  · rw [hs] at h
    cases h
    refine .handed rfl rfl ?_
    rw [← hlen]
    have ha : ∃ p, clientAction p (c.reqBuf ++ d) = .packet chan x := by
      unfold settle at hs
      split at hs
      · exact ⟨_, congrArg Prod.snd hs⟩
      · exact ⟨_, congrArg Prod.snd hs⟩
    obtain ⟨p, ha⟩ := ha
    cases p with
    | start =>
      simp only [clientAction, detectProto] at ha
      split at ha <;> try cases ha
      split at ha <;> try cases ha
      split_ifs at ha
    | rtsp =>
      simp only [clientAction] at ha
      split_ifs at ha
      · exact packetAction_length ha
      · unfold requestAction at ha
        split_ifs at ha
    | http =>
      simp only [clientAction, requestAction] at ha
      split_ifs at ha

/-- A connection that was dropped stays so. -/
theorem readAll_dropped (ds : List Bytes) : readAll blank ⟨none, L⟩ ds = .ok ⟨none, L⟩ := by
  induction ds with
  | nil => rfl
  | cons d ds ih => exact ih

/-- A first read, when the connection is alive in the end. -/
theorem readAll_cons {ds : List Bytes}
    (h : readAll blank ⟨some c, L⟩ (d :: ds) = .ok ⟨some c', L'⟩) :
    ∃ c₁ L₁, feed blank ⟨some c, L⟩ d = .ok ⟨some c₁, L₁⟩ ∧
      readAll blank ⟨some c₁, L₁⟩ ds = .ok ⟨some c', L'⟩ := by
  unfold readAll at h
  rcases hf : feed blank ⟨some c, L⟩ d with e | ⟨_ | c₁, L₁⟩
  · rw [hf] at h
    cases h
  · rw [hf, ok_bind, readAll_dropped] at h
    cases h
  · rw [hf, ok_bind] at h
    exact ⟨c₁, L₁, rfl, h⟩

/-- Reading makes up no bytes. -/
theorem readAll_weight {ds : List Bytes} (hc : c.base64Count < 0)
    (h : readAll blank ⟨some c, L⟩ ds = .ok ⟨some c', L'⟩) :
    weight L' + c'.reqBuf.length ≤ weight L + c.reqBuf.length + ds.flatten.length := by
  induction ds generalizing c L with
  | nil =>
    cases h
    simp
  | cons d ds ih =>
    obtain ⟨c₁, L₁, hf, hr⟩ := readAll_cons h
    rw [List.flatten_cons, List.length_append]
    cases feed_spec hc hf with
    | kept hb hbuf _ =>
      have := ih (hb ▸ hc) hr
      rw [hbuf, List.length_append] at this
      omega
    | handed hb hbuf hlen =>
      have := ih (hb ▸ hc) hr
      rw [hbuf, weight_append, weight_singleton, List.length_nil] at this
      omega

/-- **Reads that lose no byte are aligned.** -/
theorem readAll_aligned {ds : List Bytes} (hc : c.base64Count < 0)
    (h : readAll blank ⟨some c, L⟩ ds = .ok ⟨some c', L'⟩)
    (hall : weight L' + c'.reqBuf.length = weight L + c.reqBuf.length + ds.flatten.length) :
    ∃ ms, L' = L ++ ms ∧ ∀ k ≤ ms.length, 0 < k → ∃ j ≤ ds.length,
      c.reqBuf.length + (ds.take j).flatten.length = weight (ms.take k) := by
  induction ds generalizing c L with
  | nil =>
    cases h
    exact ⟨[], by simp, fun k hk hpos => by simp at hk; omega⟩
  | cons d ds ih =>
    obtain ⟨c₁, L₁, hf, hr⟩ := readAll_cons h
    rw [List.flatten_cons, List.length_append] at hall
    cases feed_spec hc hf with
    | kept hb hbuf _ =>
      obtain ⟨ms, hms, hal⟩ := ih (hb ▸ hc) hr (by rw [hbuf, List.length_append]; omega)
      refine ⟨ms, hms, fun k hk hpos => ?_⟩
      obtain ⟨j, hj, hlen⟩ := hal k hk hpos
      refine ⟨j + 1, Nat.succ_le_succ hj, ?_⟩
      rw [hbuf, List.length_append] at hlen
      rw [List.take_succ_cons, List.flatten_cons, List.length_append]
      omega
    | @handed m hb hbuf hlen =>
      have hle := readAll_weight (hb ▸ hc) hr
      rw [weight_append, weight_singleton, hbuf, List.length_nil] at hle
      obtain ⟨ms, hms, hal⟩ := ih (hb ▸ hc) hr
        (by rw [hbuf, weight_append, weight_singleton, List.length_nil]; omega)
      refine ⟨m :: ms, by rw [hms, List.append_assoc, List.singleton_append], fun k hk hpos => ?_⟩
      obtain ⟨k, rfl⟩ : ∃ k', k = k' + 1 := ⟨k - 1, by omega⟩
      rw [List.take_succ_cons, weight_cons]
      rcases Nat.eq_zero_or_pos k with rfl | hk0
      · refine ⟨1, by simp, ?_⟩
        simp only [List.take_succ_cons, List.take_zero, List.flatten_cons, List.flatten_nil,
          List.append_nil, weight_nil]
        omega
      · obtain ⟨j, hj, hjlen⟩ := hal k (by simpa using hk) hk0
        refine ⟨j + 1, Nat.succ_le_succ hj, ?_⟩
        rw [hbuf, List.length_nil] at hjlen
        rw [List.take_succ_cons, List.flatten_cons, List.length_append]
        omega

end Feed

/-! ## Aligned reads -/

section Aligned

variable {blank : Pmsg} {c : Conn} {L : List Message} {q d : Bytes} {m : Message}

/-- A proper beginning of a request holds no complete request. -/
theorem requestAction_wait {t : Bytes} (ht : (Message.request t).Valid blank) (hq : q <+: t)
    (hne : q ≠ t) : requestAction q = .wait := by
  obtain ⟨hnul, -, hend, -, -⟩ := ht
  have hlt : q.length < t.length := lt_of_le_of_ne hq.length_le fun h => hne (hq.eq_of_length h)
  obtain ⟨u, rfl⟩ := hq
  unfold requestAction
  rw [cstr_of_nulFree (hnul.of_begins (List.prefix_append q u)), if_pos]
  by_contra hsome
  obtain ⟨k, hk⟩ := Option.ne_none_iff_exists'.1 hsome
  have hb := strstr_bound hk
  rw [strstr_append hk u, Option.some.injEq] at hend
  simp only [CRLFCRLF, List.length_cons, List.length_nil] at hb
  omega

/-- The length of a packet is read back. -/
theorem get16_length {n : ℕ} (hn : n < 65536) :
    get16 (UInt8.ofNat (n / 256)) (UInt8.ofNat n) = n := by
  simp only [get16, UInt8.toNat_ofNat']
  omega

/-- A proper beginning of a packet is no complete packet. -/
theorem packetAction_wait {chan : UInt8} {x : Bytes} (hx : x.length < 65536)
    (hq : q <+: (Message.packet chan x).bytes) (hne : q ≠ (Message.packet chan x).bytes) :
    packetAction q = .wait := by
  unfold packetAction
  split
  · next b₀ b₁ b₂ b₃ y =>
    simp only [Message.bytes, List.cons_prefix_cons] at hq
    obtain ⟨rfl, rfl, rfl, rfl, hyx⟩ := hq
    have hlt : y.length < x.length :=
      lt_of_le_of_ne hyx.length_le fun h => hne (by rw [hyx.eq_of_length h]; rfl)
    rw [get16_length hx, if_pos hlt]
  · rfl

/-- A proper beginning of a valid message is kept. -/
theorem clientAction_wait (hm : m.Valid blank) (hq : q <+: m.bytes) (hne : q ≠ m.bytes) :
    clientAction .rtsp q = .wait := by
  unfold clientAction
  split_ifs with hlen hhead
  · rfl
  · cases m with
    | request t =>
      obtain ⟨u, hu⟩ := hq
      rw [show t = q ++ u from hu.symm] at hm
      obtain ⟨-, hdollar, -⟩ := hm
      cases q with
      | nil => simp at hlen
      | cons x q => exact absurd hhead hdollar
    | packet chan x =>
      exact packetAction_wait (by have := hm; simp only [Message.Valid, reqBufSize] at this; omega) hq hne
  · cases m with
    | request t => exact requestAction_wait hm hq hne
    | packet chan x =>
      obtain ⟨u, hu⟩ := hq
      cases q with
      | nil => simp at hlen
      | cons y q =>
        simp only [Message.bytes, List.cons_append, List.cons.injEq] at hu
        simp [hu.1] at hhead

/-- What is done with a whole message. -/
def Message.action : Message → ClientAction
  | .request _ => .request
  | .packet chan d => .packet chan d

/-- A whole message is found. -/
theorem clientAction_message (hm : m.Valid blank) : clientAction .rtsp m.bytes = m.action := by
  cases m with
  | request t =>
    obtain ⟨hnul, hdollar, hend, -, -⟩ := hm
    have hlen := strstr_bound hend
    simp only [CRLFCRLF, List.length_cons, List.length_nil] at hlen
    simp only [Message.bytes, Message.action, clientAction, requestAction, cstr_of_nulFree hnul, hend]
    rw [if_neg (by omega), if_neg hdollar, if_neg (by simp)]
  | packet chan x =>
    simp only [Message.Valid, reqBufSize] at hm
    simp [Message.bytes, Message.action, clientAction, packetAction,
      get16_length (show x.length < 65536 by omega)]

/-- The text of a whole request is the request. -/
theorem requestText_message {t : Bytes} (ht : (Message.request t).Valid blank) :
    requestText t = t := by
  obtain ⟨hnul, -, hend, -, -⟩ := ht
  have hlen := strstr_bound hend
  simp only [CRLFCRLF, List.length_cons, List.length_nil] at hlen
  unfold requestText
  rw [cstr_of_nulFree hnul, hend]
  exact List.take_of_length_le (by simp; omega)

/-- A message is shorter than what the buffer holds. -/
theorem Message.Valid.length_lt (hm : m.Valid blank) : m.bytes.length < reqBufSize - 1 := by
  cases m with
  | request t => exact hm.2.2.2.1
  | packet chan x => simpa [Message.bytes, Message.Valid] using hm

/-- A message is not empty. -/
theorem Message.Valid.length_pos (hm : m.Valid blank) : 0 < m.bytes.length := by
  cases m with
  | request t =>
    have hlen := strstr_bound hm.2.2.1
    simp only [CRLFCRLF, List.length_cons, List.length_nil] at hlen
    simp only [Message.bytes]
    omega
  | packet chan x => simp [Message.bytes]

/-- The connection is an RTSP connection, or a new one whose first message makes it one. -/
def OpenFor (c : Conn) (m : Message) : Prop :=
  c.proto = .rtsp ∨ c.proto = .start ∧ m.OpensRtsp

/-- The protocol is found in a beginning of the first message, or it is not found yet. -/
theorem clientAction_start {t : Bytes} (hnul : NulFree t)
    (ht : clientAction .start t = .detected .rtsp) (hq : q <+: t) :
    clientAction .start q = .wait ∨ clientAction .start q = .detected .rtsp := by
  simp only [clientAction, cstr_of_nulFree hnul, cstr_of_nulFree (hnul.of_begins hq)] at ht ⊢
  rcases hk : strchr LF q with _ | k
  · exact .inl rfl
  · obtain ⟨u, rfl⟩ := hq
    rw [strchr_append hk u] at ht
    have hlt := strchr_lt hk
    have htake : (q ++ u).take k = q.take k := List.take_append_of_le_length hlt.le
    dsimp only at ht ⊢
    rw [htake] at ht
    exact .inr ht

/-- What a round settles on: what an RTSP connection does, unless the protocol is not found yet. -/
theorem settle_beginning (hm : m.Valid blank) (ho : OpenFor c m) (hq : q <+: m.bytes) :
    settle c.proto q = (.rtsp, clientAction .rtsp q) ∨
      c.proto = .start ∧ settle c.proto q = (.start, .wait) ∧ strchr LF q = none := by
  rcases ho with hp | ⟨hp, hopen⟩
  · left
    rw [hp]
    unfold settle
    split
    · next p hd => exact absurd hd (clientAction_ne_detected (by simp) q p)
    · rfl
  · cases m with
    | packet chan x => exact hopen.elim
    | request t =>
      have hnulq : NulFree q := hm.1.of_begins hq
      rw [hp]
      rcases clientAction_start hm.1 hopen hq with hw | hd
      · right
        refine ⟨rfl, by simp [settle, hw], ?_⟩
        simp only [clientAction, cstr_of_nulFree hnulq, detectProto] at hw
        split at hw
        · assumption
        · split at hw <;> try cases hw
          split_ifs at hw
      · left
        simp [settle, hd]

/-- A read that leaves a proper beginning of a message keeps it. -/
theorem feed_beginning (hc : c.base64Count < 0) (hm : m.Valid blank) (ho : OpenFor c m)
    (hq : c.reqBuf ++ d <+: m.bytes) (hne : c.reqBuf ++ d ≠ m.bytes) :
    ∃ c', feed blank ⟨some c, L⟩ d = .ok ⟨some c', L⟩ ∧ c'.base64Count < 0 ∧
      c'.reqBuf = c.reqBuf ++ d ∧ OpenFor c' m := by
  have hlen := hm.length_lt
  have hle := hq.length_le
  rw [feed_eq hc, if_neg (by omega)]
  unfold settled
  dsimp only
  rcases settle_beginning hm ho hq with hs | ⟨hp, hs, -⟩
  · rw [hs, clientAction_wait hm hq hne]
    exact ⟨_, rfl, hc, rfl, .inl rfl⟩
  · rw [hs]
    refine ⟨_, rfl, hc, rfl, .inr ⟨rfl, ?_⟩⟩
    exact (ho.resolve_left (by simp [hp])).2

/-- A parsed request is read. -/
theorem readRequest_request {b : Bytes} {pm : Pmsg} (h : parseRequest blank b = .ok (some pm))
    (hreq : pm.type = .req) : ∃ v, readRequest blank b = .ok (some v) := by
  rcases parseRequest_cases h with ⟨-, ⟨method, uri, hmethod, huri⟩, -⟩ | ⟨ht, -⟩
  · exact ⟨(pm, method, uri), by simp only [readRequest, h, ok_bind, hmethod, huri]; rfl⟩
  · rw [hreq] at ht
    cases ht

/-- A read that completes a message hands it over. -/
theorem feed_message (hc : c.base64Count < 0) (hm : m.Valid blank) (ho : OpenFor c m)
    (hq : c.reqBuf ++ d = m.bytes) :
    ∃ c', feed blank ⟨some c, L⟩ d = .ok ⟨some c', L ++ [m]⟩ ∧ c'.base64Count < 0 ∧
      c'.reqBuf = [] ∧ c'.proto = .rtsp := by
  have hlen := hm.length_lt
  have hs : settle c.proto m.bytes = (.rtsp, m.action) := by
    rcases settle_beginning hm ho (List.prefix_refl m.bytes) with hs | ⟨hp, -, hlf⟩
    · rw [hs, clientAction_message hm]
    · have hopen := (ho.resolve_left (by simp [hp])).2
      cases m with
      | packet chan x => exact hopen.elim
      | request t =>
        change strchr LF t = none at hlf
        simp [Message.OpensRtsp, clientAction, cstr_of_nulFree hm.1, hlf] at hopen
  rw [feed_eq hc, if_neg (by rw [hq]; omega)]
  unfold settled
  dsimp only
  rw [hq, hs]
  cases m with
  | request t =>
    obtain ⟨pm, hpm, hreq⟩ := hm.2.2.2.2
    obtain ⟨v, hv⟩ := readRequest_request hpm hreq
    simp only [Message.bytes, Message.action] at hq ⊢
    rw [hv, requestText_message hm]
    exact ⟨_, rfl, hc, rfl, rfl⟩
  | packet chan x => exact ⟨_, rfl, hc, rfl, rfl⟩

/-- **Aligned reads hand over every message.**

**Proof sketch.** By induction on the reads. A read that leaves a message incomplete only grows the
buffer (`feed_beginning`); one that completes the message hands it over and empties the buffer
(`feed_message`). That no read goes beyond a message is the alignment: after the first read the next
boundary has not been passed. -/
theorem readAll_of_aligned {ds : List Bytes} {ms : List Message} {next : Message} {rest : Bytes}
    (hc : c.base64Count < 0) (hv : ∀ m ∈ ms ++ [next], m.Valid blank)
    (ho : ∀ m ∈ (ms ++ [next]).head?, OpenFor c m) (hrest : rest <+: next.bytes)
    (hproper : rest ≠ next.bytes) (hd : ∀ d ∈ ds, d ≠ [])
    (hbeg : ∀ m ∈ ms.head?, c.reqBuf.length < m.bytes.length)
    (hwhole : c.reqBuf ++ ds.flatten = bytesOf ms ++ rest)
    (hal : ∀ k ≤ ms.length, 0 < k → ∃ j ≤ ds.length,
      c.reqBuf.length + (ds.take j).flatten.length = weight (ms.take k)) :
    ∃ c', readAll blank ⟨some c, L⟩ ds = .ok ⟨some c', L ++ ms⟩ ∧ c'.reqBuf = rest := by
  induction ds generalizing c L ms with
  | nil =>
    cases ms with
    | nil =>
      refine ⟨c, by simp [readAll], ?_⟩
      simpa [bytesOf] using hwhole
    | cons m ms =>
      have h := hbeg m (by simp)
      have hlen := congrArg List.length hwhole
      simp [bytesOf] at hlen
      omega
  | cons d ds ih =>
    have hd0 : 0 < d.length := List.length_pos_iff.2 (hd d (by simp))
    have hd' : ∀ x ∈ ds, x ≠ [] := fun x hx => hd x (by simp [hx])
    rw [List.flatten_cons, ← List.append_assoc] at hwhole
    have key : ∀ {c₁ : Conn} {L₁ : List Message},
        feed blank ⟨some c, L⟩ d = .ok ⟨some c₁, L₁⟩ →
        readAll blank ⟨some c, L⟩ (d :: ds) = readAll blank ⟨some c₁, L₁⟩ ds := by
      intro c₁ L₁ hf
      rw [readAll, hf, ok_bind]
    cases ms with
    | nil =>
      have hq : c.reqBuf ++ d <+: rest := ⟨ds.flatten, by simpa [bytesOf] using hwhole⟩
      have hne : c.reqBuf ++ d ≠ next.bytes := by
        intro h
        exact hproper (hrest.eq_of_length_le (h ▸ hq.length_le))
      obtain ⟨c₁, hf, hc₁, hb₁, ho₁⟩ := feed_beginning (L := L) hc (hv next (by simp))
        (ho next (by simp)) (hq.trans hrest) hne
      rw [key hf]
      refine ih hc₁ hv (by simpa using ho₁) hd' (by simp) (by rw [hb₁]; exact hwhole) ?_
      intro k hk hpos
      simp at hk
      omega
    | cons m ms =>
      have hm : m.Valid blank := hv m (by simp)
      have hlt : c.reqBuf.length < m.bytes.length := hbeg m (by simp)
      have hqlen : (c.reqBuf ++ d).length = c.reqBuf.length + d.length := List.length_append
      have hshift : ∀ k, 0 < k → k ≤ (m :: ms).length → ∃ j ≤ ds.length,
          c.reqBuf.length + d.length + (ds.take j).flatten.length = weight ((m :: ms).take k) := by
        intro k hpos hk
        obtain ⟨j, hj, hlen⟩ := hal k hk hpos
        obtain ⟨k, rfl⟩ : ∃ k', k = k' + 1 := ⟨k - 1, by omega⟩
        rw [List.take_succ_cons, weight_cons] at hlen ⊢
        cases j with
        | zero =>
          simp at hlen
          omega
        | succ j =>
          rw [List.take_succ_cons, List.flatten_cons, List.length_append] at hlen
          exact ⟨j, by simpa using hj, by omega⟩
      have hle : c.reqBuf.length + d.length ≤ m.bytes.length := by
        obtain ⟨j, -, hlen⟩ := hshift 1 (by omega) (by simp)
        simp only [List.take_succ_cons, List.take_zero, weight_singleton] at hlen
        omega
      have hq : c.reqBuf ++ d <+: m.bytes := by
        have hstream : c.reqBuf ++ d <+: m.bytes ++ (bytesOf ms ++ rest) := by
          refine ⟨ds.flatten, ?_⟩
          rw [hwhole]
          simp [bytesOf]
        exact List.prefix_of_prefix_length_le hstream (List.prefix_append _ _) (by omega)
      by_cases hfull : c.reqBuf ++ d = m.bytes
      · obtain ⟨c₁, hf, hc₁, hb₁, hp₁⟩ := feed_message (L := L) hc hm (ho m (by simp)) hfull
        rw [key hf]
        have hwhole' : c₁.reqBuf ++ ds.flatten = bytesOf ms ++ rest := by
          rw [hb₁, List.nil_append]
          rw [hfull] at hwhole
          simpa [bytesOf] using hwhole
        have hv' : ∀ x ∈ ms ++ [next], x.Valid blank := fun x hx => hv x (List.mem_cons_of_mem m hx)
        have hbeg' : ∀ x ∈ ms.head?, c₁.reqBuf.length < x.bytes.length := by
          intro x hx
          rw [hb₁]
          exact (hv' x (List.mem_append_left _ (List.mem_of_mem_head? hx))).length_pos
        have hal' : ∀ k ≤ ms.length, 0 < k → ∃ j ≤ ds.length,
            c₁.reqBuf.length + (ds.take j).flatten.length = weight (ms.take k) := by
          intro k hk hpos
          obtain ⟨j, hj, hlen⟩ := hshift (k + 1) (by omega) (by simpa using hk)
          rw [List.take_succ_cons, weight_cons] at hlen
          have hlen' := congrArg List.length hfull
          refine ⟨j, hj, ?_⟩
          rw [hb₁, List.length_nil]
          omega
        obtain ⟨c', hr, hb'⟩ := ih (L := L ++ [m]) hc₁ hv' (fun _ _ => .inl hp₁) hd' hbeg' hwhole' hal'
        exact ⟨c', by rw [hr, List.append_assoc, List.singleton_append], hb'⟩
      · obtain ⟨c₁, hf, hc₁, hb₁, ho₁⟩ := feed_beginning (L := L) hc hm (ho m (by simp)) hq hfull
        rw [key hf]
        have hlt' : (c.reqBuf ++ d).length < m.bytes.length :=
          lt_of_le_of_ne (by omega) fun h => hfull (hq.eq_of_length h)
        refine ih hc₁ hv (by simpa using ho₁) hd' ?_ (by rw [hb₁]; exact hwhole) fun k hk hpos => ?_
        · intro x hx
          rw [hb₁]
          obtain rfl : m = x := by simpa using hx
          exact hlt'
        · rw [hb₁, hqlen]
          exact hshift k hpos hk

end Aligned

/-! ## Whole streams -/

section Stream

variable {blank : Pmsg} {fd : ℕ}

/-- The outcome of a connection that is alive in the end. -/
theorem outcome_eq_ok {r : Except Fault ReadState} {ms : List Message} {rest : Bytes} :
    outcome r = .ok (ms, some rest) ↔ ∃ c, r = .ok ⟨some c, ms⟩ ∧ c.reqBuf = rest := by
  rcases r with e | ⟨_ | c, L⟩
  · exact ⟨(by intro h; cases h), (by rintro ⟨c, h, -⟩; cases h)⟩
  · exact ⟨(by intro h; cases h), (by rintro ⟨c, h, -⟩; cases h)⟩
  · refine ⟨fun h => ?_, fun ⟨c', h, hb⟩ => ?_⟩
    · cases h
      exact ⟨c, rfl, rfl⟩
    · cases h
      rw [← hb]
      rfl

/-- A stream is read as it was sent exactly when every message ends where a read ends. -/
theorem read_iff_aligned (S : ClientStream blank) (sp : Splitting blank fd S.bytes) :
    sp.read = .ok (S.msgs, some S.rest) ↔ Aligned S.msgs sp.chunks := by
  have hc : (Conn.accepted fd).base64Count < 0 := Int.negSucc_lt_zero 0
  rw [Splitting.read, outcome_eq_ok]
  constructor
  · rintro ⟨c', hr, hb⟩ k hk
    obtain ⟨ms, hms, hal⟩ := readAll_aligned hc hr (by
      rw [sp.whole, hb, ClientStream.bytes, List.length_append]
      simp [weight, Conn.accepted, bytesOf])
    rw [List.nil_append] at hms
    subst hms
    rcases Nat.eq_zero_or_pos k with rfl | hpos
    · exact ⟨0, Nat.zero_le _, by simp [bytesOf]⟩
    · obtain ⟨j, hj, hlen⟩ := hal k hk hpos
      exact ⟨j, hj, by simpa [Conn.accepted, weight] using hlen⟩
  · intro hal
    have hopen : ∀ m ∈ (S.msgs ++ [S.next]).head?, OpenFor (Conn.accepted fd) m :=
      fun m hm => .inr ⟨rfl, S.opens m hm⟩
    have hbeg : ∀ m ∈ S.msgs.head?, (Conn.accepted fd).reqBuf.length < m.bytes.length := fun m hm =>
      (S.valid m (List.mem_append_left _ (List.mem_of_mem_head? hm))).length_pos
    obtain ⟨c', hr, hb⟩ := readAll_of_aligned (L := []) hc S.valid hopen S.begins S.proper
      sp.nonempty hbeg sp.whole fun k hk _ => by
        obtain ⟨j, hj, hlen⟩ := hal k hk
        exact ⟨j, hj, by simpa [Conn.accepted, weight] using hlen⟩
    exact ⟨c', hr, hb⟩

/-- There is room for single bytes. -/
theorem roomFor_singles {s : ReadState} (b : Bytes)
    (hs : ∀ c, s.conn = some c → c.base64Count < 0 ∧ c.reqBuf.length < reqBufSize - 1) :
    RoomFor blank s (b.map fun x => [x]) := by
  induction b generalizing s with
  | nil => trivial
  | cons x b ih =>
    refine ⟨fun c hc => (hs c hc).2, fun s' hf => ih fun c' hc' => ?_⟩
    obtain ⟨_ | c, L⟩ := s
    · cases hf
      cases hc'
    · obtain ⟨_ | _, L'⟩ := s'
      · cases hc'
      cases hc'
      obtain ⟨h64, hlen⟩ := hs c rfl
      cases feed_spec h64 hf with
      | kept hb hbuf hne =>
        rw [hbuf, List.length_append, List.length_singleton] at hne ⊢
        exact ⟨hb ▸ h64, by omega⟩
      | handed hb hbuf _ =>
        rw [hbuf]
        exact ⟨hb ▸ h64, by decide⟩

/-- There is room for bytes that fit in the buffer together. -/
theorem roomFor_short {s : ReadState} {ds : List Bytes}
    (hs : ∀ c, s.conn = some c → c.base64Count < 0 ∧
      c.reqBuf.length + ds.flatten.length ≤ reqBufSize - 1) : RoomFor blank s ds := by
  induction ds generalizing s with
  | nil => trivial
  | cons d ds ih =>
    simp only [List.flatten_cons, List.length_append] at hs
    refine ⟨fun c hc => by have := (hs c hc).2; omega, fun s' hf => ih fun c' hc' => ?_⟩
    obtain ⟨_ | c, L⟩ := s
    · cases hf
      cases hc'
    · obtain ⟨_ | _, L'⟩ := s'
      · cases hc'
      cases hc'
      obtain ⟨h64, hlen⟩ := hs c rfl
      cases feed_spec h64 hf with
      | kept hb hbuf _ =>
        rw [hbuf, List.length_append]
        exact ⟨hb ▸ h64, by omega⟩
      | handed hb hbuf _ =>
        rw [hbuf, List.length_nil]
        exact ⟨hb ▸ h64, by omega⟩

/-- Single bytes are the bytes. -/
theorem flatten_singles (b : Bytes) : (b.map fun x => [x]).flatten = b := by
  induction b with
  | nil => rfl
  | cons x b ih => simp [ih]

/-- The bytes of the first messages are no more than all bytes. -/
theorem length_bytesOf_take (ms : List Message) (k : ℕ) :
    (bytesOf (ms.take k)).length ≤ (bytesOf ms).length := by
  have h := weight_append (ms.take k) (ms.drop k)
  rw [List.take_append_drop] at h
  unfold weight at h
  omega

/-- A stream can be read byte by byte. -/
def Splitting.singles (S : ClientStream blank) (fd : ℕ) : Splitting blank fd S.bytes where
  chunks := S.bytes.map fun x => [x]
  whole := flatten_singles _
  nonempty d hd := by
    obtain ⟨x, -, rfl⟩ := List.mem_map.1 hd
    simp
  room := roomFor_singles _ fun c hc => by
    cases hc
    exact ⟨Int.negSucc_lt_zero 0, Nat.succ_pos _⟩

/-- Byte by byte every message ends where a read ends. -/
theorem aligned_singles (S : ClientStream blank) : Aligned S.msgs (Splitting.singles S fd).chunks := by
  intro k hk
  have hle : (bytesOf (S.msgs.take k)).length ≤ S.bytes.length := by
    have h := length_bytesOf_take S.msgs k
    simp only [ClientStream.bytes, List.length_append]
    omega
  refine ⟨(bytesOf (S.msgs.take k)).length, by simpa [Splitting.singles] using hle, ?_⟩
  change ((S.bytes.map fun x => [x]).take _).flatten.length = _
  rw [← List.map_take, flatten_singles, List.length_take]
  omega

/-- A stream whose first message is followed by another byte can be read so that both arrive in
the same read. -/
def Splitting.overlap (S : ClientStream blank) (fd : ℕ) {m : Message} {y : UInt8} {b : Bytes}
    (hm : m.Valid blank) (hb : S.bytes = m.bytes ++ y :: b) : Splitting blank fd S.bytes where
  chunks := (m.bytes ++ [y]) :: b.map fun x => [x]
  whole := by rw [List.flatten_cons, flatten_singles, hb]; simp
  nonempty d hd := by
    rcases List.mem_cons.1 hd with rfl | hd
    · simp
    · obtain ⟨x, -, rfl⟩ := List.mem_map.1 hd
      simp
  room := by
    have hlen := hm.length_lt
    refine ⟨fun c hc => ?_, fun s' hf => roomFor_singles b fun c' hc' => ?_⟩
    · cases hc
      simp only [Conn.accepted, List.length_nil, List.length_append, List.length_singleton]
      omega
    · obtain ⟨_ | _, L'⟩ := s'
      · cases hc'
      cases hc'
      cases feed_spec (Int.negSucc_lt_zero 0) hf with
      | kept hb64 hbuf hne =>
        simp only [Conn.accepted, List.nil_append] at hb64 hbuf
        rw [hbuf, List.length_append, List.length_singleton] at hne ⊢
        exact ⟨by omega, by omega⟩
      | handed hb64 hbuf _ =>
        simp only [Conn.accepted] at hb64
        rw [hbuf]
        exact ⟨by omega, Nat.succ_pos _⟩

/-- The overlapping reads are not aligned. -/
theorem not_aligned_overlap {m : Message} {ms : List Message} {y : UInt8} {b : Bytes}
    (hm : 0 < m.bytes.length) :
    ¬ Aligned (m :: ms) ((m.bytes ++ [y]) :: b.map fun x => [x]) := by
  intro h
  obtain ⟨j, -, hlen⟩ := h 1 (by simp)
  have hone : bytesOf ((m :: ms).take 1) = m.bytes := by simp [bytesOf]
  rw [hone] at hlen
  cases j with
  | zero => simp at hlen; omega
  | succ j =>
    rw [List.take_succ_cons, List.flatten_cons] at hlen
    simp only [List.length_append, List.length_singleton] at hlen
    omega

/-- **Segmentation.** A splitting of a stream hands over the messages that were sent, and leaves
in the buffer what was sent behind them, exactly when every message ends where a read ends; and
all splittings of a stream have the same outcome exactly when nothing is sent behind its first
message. -/
theorem segmentation (S : ClientStream blank) (fd : ℕ) :
    (∀ sp : Splitting blank fd S.bytes,
      sp.read = .ok (S.msgs, some S.rest) ↔ Aligned S.msgs sp.chunks) ∧
    ((∀ sp sp' : Splitting blank fd S.bytes, sp.read = sp'.read) ↔
      S.msgs = [] ∨ S.msgs.length = 1 ∧ S.rest = []) := by
  refine ⟨read_iff_aligned S, fun h => ?_, fun h sp sp' => ?_⟩
  · by_contra hno
    rw [not_or] at hno
    obtain ⟨m, ms, hms⟩ := List.exists_cons_of_ne_nil hno.1
    have hm : m.Valid blank := S.valid m (by simp [hms])
    have hbytes : S.bytes = m.bytes ++ (bytesOf ms ++ S.rest) := by
      simp [ClientStream.bytes, bytesOf, hms]
    have hmore : bytesOf ms ++ S.rest ≠ [] := by
      intro hnil
      obtain ⟨hms0, hrest⟩ := List.append_eq_nil_iff.1 hnil
      refine hno.2 ⟨?_, hrest⟩
      cases ms with
      | nil => simp [hms]
      | cons m' ms =>
        have hpos : 0 < m'.bytes.length := (S.valid m' (by simp [hms])).length_pos
        have hlen := congrArg List.length hms0
        simp only [bytesOf, List.map_cons, List.flatten_cons, List.length_append,
          List.length_nil] at hlen
        omega
    obtain ⟨y, b, hyb⟩ := List.exists_cons_of_ne_nil hmore
    rw [hyb] at hbytes
    have href := (read_iff_aligned S (.singles S fd)).2 (aligned_singles S)
    rw [h _ (.overlap S fd hm hbytes), read_iff_aligned, hms] at href
    exact not_aligned_overlap hm.length_pos href
  · have hal : ∀ sp : Splitting blank fd S.bytes, Aligned S.msgs sp.chunks := by
      intro sp k hk
      rcases Nat.eq_zero_or_pos k with rfl | hpos
      · exact ⟨0, Nat.zero_le _, by simp [bytesOf]⟩
      · rcases h with h | ⟨h1, hrest⟩
        · simp [h] at hk
          omega
        · refine ⟨sp.chunks.length, le_rfl, ?_⟩
          rw [List.take_length, sp.whole, ClientStream.bytes, hrest, List.append_nil,
            List.take_of_length_le (by omega)]
    rw [(read_iff_aligned S sp).2 (hal sp), (read_iff_aligned S sp').2 (hal sp')]

/-- The text of an `OPTIONS` request. -/
def optionsText : Bytes := str "OPTIONS * RTSP/1.0\r\n\r\n"

/-- The `OPTIONS` request is a message. -/
theorem options_valid : (Message.request optionsText).Valid zeroMsg := by
  obtain ⟨m, hm, ht⟩ := of_parsedType
    (show parsedType zeroMsg optionsText = some .req by decide +kernel)
  exact ⟨by decide +kernel, by decide +kernel, by decide +kernel, by decide +kernel, m, hm, ht⟩

/-- Two `OPTIONS` requests. -/
def twoOptions : ClientStream zeroMsg where
  msgs := [.request optionsText, .request optionsText]
  next := .request optionsText
  rest := []
  valid m hm := by
    obtain rfl : m = .request optionsText := by simpa using hm
    exact options_valid
  opens m hm := by
    obtain rfl : m = .request optionsText := by simpa using hm.symm
    exact (by decide +kernel : clientAction .start optionsText = .detected .rtsp)
  begins := List.nil_prefix
  proper := by decide +kernel

/-- A splitting of the two requests, which fit in the buffer together. -/
def twoOptionsIn (chunks : List Bytes) (whole : chunks.flatten = twoOptions.bytes)
    (nonempty : ∀ d ∈ chunks, d ≠ []) : Splitting zeroMsg 5 twoOptions.bytes where
  chunks := chunks
  whole := whole
  nonempty := nonempty
  room := roomFor_short fun c hc => by
    cases hc
    rw [whole]
    decide +kernel

/-- Two requests in one read: the second one is lost. In two reads both are handed over. -/
theorem second_request_lost :
    ∃ sp sp' : Splitting zeroMsg 5 twoOptions.bytes,
      sp.chunks = [optionsText ++ optionsText] ∧ sp'.chunks = [optionsText, optionsText] ∧
      sp.read = .ok ([.request optionsText], some []) ∧
      sp'.read = .ok ([.request optionsText, .request optionsText], some []) :=
  ⟨twoOptionsIn [optionsText ++ optionsText] (by decide +kernel) (by decide +kernel),
    twoOptionsIn [optionsText, optionsText] (by decide +kernel) (by decide +kernel), rfl, rfl,
    by decide +kernel, by decide +kernel⟩

end Stream

end Spook
