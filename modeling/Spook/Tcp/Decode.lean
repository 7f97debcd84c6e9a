import Spook.Lib.Base64
import Spook.Pmsg.RoundTrip
import Spook.Tcp.Segmentation
import Mathlib.Logic.Function.Iterate

set_option relaxedAutoImplicit false
set_option autoImplicit false

/-!
# The decoder of a tunnel

A QuickTime client that tunnels RTSP over HTTP sends base64. `do_read` decodes what a `read`
returned in the request buffer itself: the bytes of the whole groups are written over the
characters, and the characters of an unfinished group are moved behind them until the next
`read`, which appends to them.

## Main definitions

* `Spook.Unbase`, `unbase64Step`, `unbase64At` — `unbase64` in the memory of the request buffer,
  character by character.
* `Spook.codes` — the characters of a text that are not skipped.
* `Spook.Conn.Decodes` — the buffer holds the decoding of what was received.

## Main results

* `Spook.unbase64_eq` — what the decoder makes of a text, in terms of its groups.
* `Spook.unbase64At_eq` — the decoder writes only over what it has read.
* `Spook.tunnel_decodes` — the buffer holds the decoding of all that was received, however it was
  split.
-/

namespace Spook

/-! ## The decoder in memory -/

/-- The memory with the bytes `b` at `p`: `memcpy( mem + p, b, .. )`. -/
def memcpy (mem : ℕ → UInt8) (p : ℕ) (b : Bytes) : ℕ → UInt8 := fun i =>
  if p ≤ i ∧ i < p + b.length then b.getD (i - p) 0 else mem i

/-- The local variables of `unbase64`: the memory that `d` points into, `src`, `dest` and the
characters of `enc` that are set. -/
structure Unbase where
  mem : ℕ → UInt8
  src : ℕ
  dest : ℕ
  enc : Bytes

/-- The bytes that `unbase64` writes at `dest` for four characters. -/
def unbase64Bytes (e₀ e₁ e₂ e₃ : UInt8) : Bytes :=
  let v (e : UInt8) : ℕ := (base64 e).getD 0
  [UInt8.ofNat (((v e₀ <<< 2) &&& 0xFC) ||| (v e₁ >>> 4)),
    UInt8.ofNat (((v e₁ <<< 4) &&& 0xF0) ||| (v e₂ >>> 2)),
    UInt8.ofNat (((v e₂ <<< 6) &&& 0xC0) ||| v e₃)]

/-- What `unbase64` does with one character; `d` is the index at which its argument points. -/
def unbase64Step (d : ℕ) (u : Unbase) : Unbase :=
  let b := u.mem (d + u.src)
  match base64 b, u.enc with
  | none, _ => { u with src := u.src + 1 }
  | some _, [e₀, e₁, e₂] =>
    { mem := memcpy u.mem (d + u.dest) (unbase64Bytes e₀ e₁ e₂ b)
      src := u.src + 1
      dest := if b = 61 then (if e₂ = 61 then u.dest + 1 else u.dest + 2) else u.dest + 3
      enc := [] }
  | some _, enc => { u with src := u.src + 1, enc := enc ++ [b] }

/-- `unbase64( mem + d, len, remain )`: the memory, the value returned and `*remain`. -/
def unbase64At (mem : ℕ → UInt8) (d len : ℕ) : (ℕ → UInt8) × ℕ × ℕ :=
  let u := (unbase64Step d)^[len] ⟨mem, 0, 0, []⟩
  (memcpy u.mem (d + u.dest) u.enc, u.dest + u.enc.length, u.enc.length)

section Memcpy

variable {mem : ℕ → UInt8} {p i : ℕ} {b : Bytes}

/-- The bytes copied. -/
theorem at_memcpy (mem : ℕ → UInt8) (p : ℕ) (b : Bytes) : At (memcpy mem p b) p b := by
  intro j hj
  rw [memcpy, if_pos ⟨by omega, by omega⟩, Nat.add_sub_cancel_left]
  simp [hj]

/-- The bytes around the copy. -/
theorem memcpy_of_outside (h : i < p ∨ p + b.length ≤ i) : memcpy mem p b i = mem i :=
  if_neg (by omega)

end Memcpy

/-! ## The table -/

/-- The table, in terms of the alphabet. -/
theorem base64_eq (b : UInt8) :
    base64 b = if Base64.IsCode b then some (Base64.value b) else none := by
  unfold base64 Base64.IsCode Base64.value
  split_ifs <;> first | rfl | (exfalso; tauto)

/-- The bits of a character; one that is skipped has none. -/
theorem base64_getD (b : UInt8) : (base64 b).getD 0 = Base64.value b := by
  rw [base64_eq]
  split_ifs with h
  · rfl
  · unfold Base64.IsCode at h
    unfold Base64.value
    split_ifs <;> first | rfl | (exfalso; tauto)

/-- Shifts and masks of six bits. -/
theorem shift_bits {a b : ℕ} (ha : a < 64) (hb : b < 64) :
    UInt8.ofNat (((a <<< 2) &&& 0xFC) ||| (b >>> 4)) = UInt8.ofNat (a * 4 + b / 16) ∧
      UInt8.ofNat (((a <<< 4) &&& 0xF0) ||| (b >>> 2)) = UInt8.ofNat (a * 16 + b / 4) ∧
      UInt8.ofNat (((a <<< 6) &&& 0xC0) ||| b) = UInt8.ofNat (a * 64 + b) := by
  have h : ∀ a < 64, ∀ b < 64,
      UInt8.ofNat (((a <<< 2) &&& 0xFC) ||| (b >>> 4)) = UInt8.ofNat (a * 4 + b / 16) ∧
        UInt8.ofNat (((a <<< 4) &&& 0xF0) ||| (b >>> 2)) = UInt8.ofNat (a * 16 + b / 4) ∧
        UInt8.ofNat (((a <<< 6) &&& 0xC0) ||| b) = UInt8.ofNat (a * 64 + b) := by
    decide +kernel
  exact h a ha b hb

/-- The three bytes of four characters. -/
theorem unbase64Bytes_eq (e₀ e₁ e₂ e₃ : UInt8) :
    unbase64Bytes e₀ e₁ e₂ e₃ =
      [UInt8.ofNat (Base64.value e₀ * 4 + Base64.value e₁ / 16),
        UInt8.ofNat (Base64.value e₁ * 16 + Base64.value e₂ / 4),
        UInt8.ofNat (Base64.value e₂ * 64 + Base64.value e₃)] := by
  unfold unbase64Bytes
  simp only [base64_getD]
  rw [(shift_bits (Base64.value_lt e₀) (Base64.value_lt e₁)).1,
    (shift_bits (Base64.value_lt e₁) (Base64.value_lt e₂)).2.1,
    (shift_bits (Base64.value_lt e₂) (Base64.value_lt e₃)).2.2]

/-- The bytes of a group of the list are those of the alphabet. -/
theorem unbase64Group_eq (e₀ e₁ e₂ e₃ : UInt8) :
    unbase64Group e₀ e₁ e₂ e₃ = Base64.group e₀ e₁ e₂ e₃ := by
  unfold unbase64Group Base64.group
  simp only [base64_getD]
  rfl

/-! ## The decoder on a list -/

/-- The characters that the decoder does not skip. -/
def codes (s : Bytes) : Bytes := s.filter fun b => Base64.IsCode b

/-- The codes of two texts, one behind the other. -/
@[simp] theorem codes_append (s t : Bytes) : codes (s ++ t) = codes s ++ codes t :=
  List.filter_append _ _

/-- Nothing is skipped twice. -/
theorem codes_of_all {s : Bytes} (h : ∀ b ∈ s, Base64.IsCode b) : codes s = s :=
  List.filter_eq_self.2 fun b hb => decide_eq_true (h b hb)

/-- What is not skipped are characters of the encoding. -/
theorem isCode_of_mem_codes {s : Bytes} {b : UInt8} (h : b ∈ codes s) : Base64.IsCode b :=
  of_decide_eq_true (List.mem_filter.1 h).2

section Steps

variable {b : UInt8} {s enc : Bytes}

/-- A character is skipped. -/
theorem unbase64_skip (h : ¬ Base64.IsCode b) : unbase64 (b :: s) enc = unbase64 s enc := by
  have hb : base64 b = none := by rw [base64_eq, if_neg h]
  rw [unbase64]
  simp only [hb]

/-- A character is added to an unfinished group. -/
theorem unbase64_code (h : Base64.IsCode b) (hlen : enc.length < 3) :
    unbase64 (b :: s) enc = unbase64 s (enc ++ [b]) := by
  have hb : base64 b = some (Base64.value b) := by rw [base64_eq, if_pos h]
  match enc, hlen with
  | [], _ => simp only [unbase64, hb]
  | [_], _ => simp only [unbase64, hb]
  | [_, _], _ => simp only [unbase64, hb]
  | _ :: _ :: _ :: s, h => exact absurd h (by simp)

/-- A character finishes a group. -/
theorem unbase64_group (h : Base64.IsCode b) (e₀ e₁ e₂ : UInt8) :
    unbase64 (b :: s) [e₀, e₁, e₂] =
      (Base64.group e₀ e₁ e₂ b ++ (unbase64 s []).1, (unbase64 s []).2) := by
  have hb : base64 b = some (Base64.value b) := by rw [base64_eq, if_pos h]
  rw [← unbase64Group_eq]
  simp only [unbase64, hb]

/-- Three characters are the ones of an unfinished group that the next one finishes. -/
theorem eq_of_length_three (h : enc.length = 3) : ∃ e₀ e₁ e₂, enc = [e₀, e₁, e₂] := by
  match enc, h with
  | [e₀, e₁, e₂], _ => exact ⟨e₀, e₁, e₂, rfl⟩

end Steps

/-- What the decoder makes of a text: the bytes of its whole groups, and the characters behind
them. -/
theorem unbase64_eq {enc : Bytes} (h : enc.length < 4) (s : Bytes) :
    unbase64 s enc = (Base64.decode (enc ++ codes s) ++ Base64.rest (enc ++ codes s),
      (Base64.rest (enc ++ codes s)).length) := by
  induction s generalizing enc with
  | nil =>
    obtain ⟨hd, hr⟩ := Base64.decode_of_lt h
    rw [unbase64, codes, List.filter_nil, List.append_nil, hd, hr]
    rfl
  | cons b s ih =>
    by_cases hb : Base64.IsCode b
    · have hcodes : codes (b :: s) = b :: codes s := List.filter_cons_of_pos (by simpa using hb)
      rw [hcodes]
      rcases Nat.lt_or_ge enc.length 3 with hlt | hge
      · rw [unbase64_code hb hlt, ih (by rw [List.length_append, List.length_singleton]; omega),
          List.append_assoc, List.singleton_append]
      · obtain ⟨e₀, e₁, e₂, rfl⟩ := eq_of_length_three (by omega : enc.length = 3)
        rw [unbase64_group hb, ih (by decide)]
        simp only [List.cons_append, List.nil_append, Base64.decode, Base64.rest, List.append_assoc]
    · have hcodes : codes (b :: s) = codes s := List.filter_cons_of_neg (by simpa using hb)
      rw [hcodes, unbase64_skip hb, ih h]

/-! ## The decoder in its input -/

/-- The state of the decoder after `n` characters of the text `s` at `d`: it has written the bytes
of the whole groups behind `d`, holds the characters behind these, and everything from the next
character on is as it was. -/
structure Decoded (mem : ℕ → UInt8) (d : ℕ) (s : Bytes) (n : ℕ) (u : Unbase) : Prop where
  src : u.src = n
  enc : u.enc = Base64.rest (codes (s.take n))
  dest : u.dest = (Base64.decode (codes (s.take n))).length
  bytes : At u.mem d (Base64.decode (codes (s.take n)))
  room : u.dest + u.enc.length ≤ n
  below : ∀ i < d, u.mem i = mem i
  ahead : ∀ i, d + n ≤ i → u.mem i = mem i

section Decoded

variable {mem : ℕ → UInt8} {d n : ℕ} {s : Bytes} {u : Unbase}

/-- A character is skipped. -/
theorem unbase64Step_skip (h : ¬ Base64.IsCode (u.mem (d + u.src))) :
    unbase64Step d u = { u with src := u.src + 1 } := by
  have hb : base64 (u.mem (d + u.src)) = none := by rw [base64_eq, if_neg h]
  unfold unbase64Step
  simp only [hb]

/-- A character is added to an unfinished group. -/
theorem unbase64Step_code (h : Base64.IsCode (u.mem (d + u.src))) (hlen : u.enc.length < 3) :
    unbase64Step d u =
      { u with src := u.src + 1, enc := u.enc ++ [u.mem (d + u.src)] } := by
  have hb : base64 (u.mem (d + u.src)) = some (Base64.value (u.mem (d + u.src))) := by
    rw [base64_eq, if_pos h]
  unfold unbase64Step
  simp only [hb]
  generalize u.enc = enc at hlen
  match enc, hlen with
  | [], _ => rfl
  | [_], _ => rfl
  | [_, _], _ => rfl

/-- A character finishes a group, whose bytes are written. -/
theorem unbase64Step_group {e₀ e₁ e₂ : UInt8} (h : Base64.IsCode (u.mem (d + u.src)))
    (henc : u.enc = [e₀, e₁, e₂]) :
    unbase64Step d u =
      { mem := memcpy u.mem (d + u.dest) (unbase64Bytes e₀ e₁ e₂ (u.mem (d + u.src)))
        src := u.src + 1
        dest := u.dest + (Base64.group e₀ e₁ e₂ (u.mem (d + u.src))).length
        enc := [] } := by
  have hb : base64 (u.mem (d + u.src)) = some (Base64.value (u.mem (d + u.src))) := by
    rw [base64_eq, if_pos h]
  unfold unbase64Step Base64.group Base64.PAD
  simp only [hb, henc]
  split_ifs <;> rfl

/-- The bytes of a group are the first of those written. -/
theorem group_begins (e₀ e₁ e₂ e₃ : UInt8) :
    Base64.group e₀ e₁ e₂ e₃ <+: unbase64Bytes e₀ e₁ e₂ e₃ := by
  rw [unbase64Bytes_eq]
  unfold Base64.group
  dsimp only
  split_ifs
  · exact List.take_prefix _ _
  · exact List.take_prefix _ _
  · exact List.prefix_rfl

/-- The beginning of bytes in memory. -/
theorem At.of_begins {a b : Bytes} {i : ℕ} (h : At mem i b) (hab : a <+: b) : At mem i a := by
  obtain ⟨c, rfl⟩ := hab
  exact (at_append.1 h).1

/-- One character is decoded. -/
theorem Decoded.step (h : Decoded mem d s n u) (hat : At mem d s) (hn : n < s.length) :
    Decoded mem d s (n + 1) (unbase64Step d u) := by
  have hb : u.mem (d + u.src) = s[n] := by rw [h.src, h.ahead _ le_rfl, hat n hn]
  have htake : s.take (n + 1) = s.take n ++ [s[n]] := (List.take_append_getElem hn).symm
  have hlt := Base64.length_rest (codes (s.take n))
  have hroom := h.room
  rw [← h.enc] at hlt
  obtain ⟨hdec, hrest⟩ := Base64.decode_append (codes (s.take n)) (codes [s[n]])
  rw [← codes_append, ← htake, ← h.enc] at hdec hrest
  by_cases hcode : Base64.IsCode s[n]
  · have hone : codes [s[n]] = [s[n]] := codes_of_all (by simpa using hcode)
    rw [hone] at hdec hrest
    rcases Nat.lt_or_ge u.enc.length 3 with hlt₃ | hge
    · -- the group is not finished
      obtain ⟨hd, hr⟩ := Base64.decode_of_lt (s := u.enc ++ [s[n]])
        (by rw [List.length_append, List.length_singleton]; omega)
      rw [hd, List.append_nil] at hdec
      rw [hr] at hrest
      rw [unbase64Step_code (hb ▸ hcode) hlt₃, hb]
      refine ⟨by rw [h.src], hrest.symm, by rw [hdec]; exact h.dest, by rw [hdec]; exact h.bytes, ?_,
        h.below, fun i hi => h.ahead i (by omega)⟩
      simp only [List.length_append, List.length_singleton]
      omega
    · -- the group is finished and written over characters that were read before
      obtain ⟨e₀, e₁, e₂, henc⟩ := eq_of_length_three (by omega : u.enc.length = 3)
      have hthree : (unbase64Bytes e₀ e₁ e₂ s[n]).length = 3 := rfl
      have hle := (group_begins e₀ e₁ e₂ s[n]).length_le
      rw [henc] at hdec hrest hroom
      simp only [List.cons_append, List.nil_append, Base64.decode, Base64.rest, List.append_nil,
        List.length_cons, List.length_nil] at hdec hrest hroom
      rw [unbase64Step_group (hb ▸ hcode) henc, hb]
      refine ⟨by rw [h.src], hrest.symm, ?_, ?_, ?_, fun i hi => ?_, fun i hi => ?_⟩
      · rw [hdec, List.length_append, ← h.dest]
      · rw [hdec, at_append, ← h.dest]
        refine ⟨h.bytes.congr fun j _ hj => memcpy_of_outside ?_,
          (at_memcpy _ _ _).of_begins (group_begins e₀ e₁ e₂ s[n])⟩
        rw [← h.dest] at hj
        exact .inl hj
      · simp only [List.length_nil]
        omega
      · dsimp only
        rw [memcpy_of_outside (.inl (by omega)), h.below i hi]
      · dsimp only
        rw [memcpy_of_outside (.inr (by omega)), h.ahead i (by omega)]
  · have hone : codes [s[n]] = [] := List.filter_cons_of_neg (by simpa using hcode)
    obtain ⟨hd, hr⟩ := Base64.decode_of_lt hlt
    rw [hone, List.append_nil, hd, List.append_nil] at hdec
    rw [hone, List.append_nil, hr] at hrest
    rw [unbase64Step_skip (hb ▸ hcode)]
    exact ⟨by rw [h.src], hrest.symm, by rw [hdec]; exact h.dest, by rw [hdec]; exact h.bytes,
      hroom.trans (Nat.le_succ n), h.below, fun i hi => h.ahead i (by omega)⟩

/-- Any number of characters is decoded. -/
theorem decoded (hat : At mem d s) (hn : n ≤ s.length) :
    Decoded mem d s n ((unbase64Step d)^[n] ⟨mem, 0, 0, []⟩) := by
  induction n with
  | zero =>
    exact ⟨rfl, rfl, rfl, at_nil, le_rfl, fun _ _ => rfl, fun _ _ => rfl⟩
  | succ n ih =>
    rw [Function.iterate_succ_apply']
    exact (ih (by omega)).step hat hn

/-- **The decoder in memory.** It leaves what the decoder makes of the list, returns its length,
and writes nothing before its input. -/
theorem unbase64At_eq (hat : At mem d s) :
    At (unbase64At mem d s.length).1 d (unbase64 s []).1 ∧
      (unbase64At mem d s.length).2 = ((unbase64 s []).1.length, (unbase64 s []).2) ∧
      ∀ i < d, (unbase64At mem d s.length).1 i = mem i := by
  have h := decoded hat le_rfl
  rw [unbase64_eq (by decide), List.nil_append]
  unfold unbase64At
  generalize (unbase64Step d)^[s.length] ⟨mem, 0, 0, []⟩ = u at h
  have henc := h.enc
  have hdest := h.dest
  have hbytes := h.bytes
  rw [List.take_length] at henc hdest hbytes
  refine ⟨?_, ?_, fun i hi => ?_⟩
  · rw [at_append, ← hdest, ← henc]
    refine ⟨hbytes.congr fun j _ hj => memcpy_of_outside (.inl (by omega)), at_memcpy _ _ _⟩
  · dsimp only
    rw [List.length_append, ← hdest, ← henc]
  · dsimp only
    rw [memcpy_of_outside (.inl (by omega)), h.below i hi]

end Decoded

/-! ## The request buffer -/

/-- `req_buf`, `req_len` and `base64_count` of `struct conn`. -/
structure ReqBuf where
  mem : ℕ → UInt8
  reqLen : ℕ
  base64Count : ℤ

namespace ReqBuf

/-- Where the decoder starts after a `read`: the first character that is left over. -/
def start (b : ReqBuf) : ℕ := b.reqLen - b.base64Count.toNat

/-- How many characters the decoder gets after a `read` that returns `len`. -/
def len (b : ReqBuf) (len : ℕ) : ℕ := len + b.base64Count.toNat

/-- What a `read` that returns the bytes `d` does to the request buffer. -/
def receive (b : ReqBuf) (d : Bytes) : ReqBuf :=
  let mem := memcpy b.mem b.reqLen d
  if 0 ≤ b.base64Count then
    let (mem, ret, remain) := unbase64At mem b.start (b.len d.length)
    ⟨mem, b.start + ret, remain⟩
  else ⟨mem, b.reqLen + d.length, b.base64Count⟩

/-- The decoder after `n` of its characters. -/
def decoder (b : ReqBuf) (d : Bytes) (n : ℕ) : Unbase :=
  (unbase64Step b.start)^[n] ⟨memcpy b.mem b.reqLen d, 0, 0, []⟩

/-- The request buffer of a connection. -/
structure Holds (b : ReqBuf) (c : Conn) : Prop where
  bytes : At b.mem 0 c.reqBuf
  reqLen : b.reqLen = c.reqBuf.length
  base64Count : b.base64Count = c.base64Count

section Holds

variable {b : ReqBuf} {c : Conn}

/-- The input of the decoder lies behind the bytes that are decoded. -/
theorem Holds.input (h : b.Holds c) (hc : 0 ≤ c.base64Count ∧ c.base64Count ≤ c.reqBuf.length)
    (d : Bytes) :
    At (memcpy b.mem b.reqLen d) 0 (c.reqBuf.take b.start) ∧
      At (memcpy b.mem b.reqLen d) b.start (c.reqBuf.drop b.start ++ d) ∧
      (c.reqBuf.take b.start).length = b.start ∧
      (c.reqBuf.drop b.start ++ d).length = b.len d.length := by
  have hlen := h.reqLen
  have hcount := h.base64Count
  have hall : At (memcpy b.mem b.reqLen d) 0 (c.reqBuf ++ d) := by
    rw [at_append, Nat.zero_add, ← h.reqLen]
    refine ⟨h.bytes.congr fun j _ hj => memcpy_of_outside (.inl (by omega)), at_memcpy _ _ _⟩
  have hstart : (c.reqBuf.take b.start).length = b.start := by
    rw [List.length_take]
    unfold start
    omega
  rw [← List.take_append_drop b.start c.reqBuf, List.append_assoc, at_append, hstart,
    Nat.zero_add] at hall
  refine ⟨hall.1, hall.2, hstart, ?_⟩
  rw [List.length_append, List.length_drop]
  unfold start len
  omega

/-- The memory is what the list says after a `read` as well. -/
theorem Holds.receive (h : b.Holds c)
    (hc : 0 ≤ c.base64Count ∧ c.base64Count ≤ c.reqBuf.length) (d : Bytes) :
    (b.receive d).Holds (c.receive d) := by
  obtain ⟨hbelow, hinput, hstart, hlen⟩ := h.input hc d
  obtain ⟨hbytes, hret, hkeep⟩ := unbase64At_eq hinput
  rw [hlen] at hbytes hret hkeep
  have hk : c.reqBuf.length - c.base64Count.toNat = b.start := by
    unfold start
    rw [h.reqLen, h.base64Count]
  unfold ReqBuf.receive Conn.receive
  rw [h.base64Count, if_pos hc.1, if_pos hc.1, hk]
  obtain ⟨hlen', hcount'⟩ := Prod.ext_iff.1 hret
  refine ⟨?_, ?_, congrArg Nat.cast hcount'⟩
  · dsimp only
    rw [at_append, hstart, Nat.zero_add]
    refine ⟨hbelow.congr fun j _ hj => hkeep j (by omega), hbytes⟩
  · dsimp only
    rw [List.length_append, hstart, hlen']

/-- The decoder has read what it writes over. -/
theorem Holds.decoder (h : b.Holds c)
    (hc : 0 ≤ c.base64Count ∧ c.base64Count ≤ c.reqBuf.length) (d : Bytes) {n : ℕ}
    (hn : n ≤ b.len d.length) : (b.decoder d n).src = n ∧
      ∀ i, b.start + n ≤ i → (b.decoder d n).mem i = memcpy b.mem b.reqLen d i := by
  obtain ⟨-, hinput, -, hlen⟩ := h.input hc d
  have hdec := decoded hinput (hlen.symm ▸ hn)
  exact ⟨hdec.src, hdec.ahead⟩

end Holds

end ReqBuf

/-! ## Reading a tunnel -/

/-- What the buffer of a tunnel holds: the decoding of the last part `r` of what was received, with
the characters of its unfinished group. -/
def Conn.Decodes (c : Conn) (r : Bytes) : Prop :=
  c.reqBuf = Base64.decode (codes r) ++ Base64.rest (codes r) ∧
    c.base64Count = (Base64.rest (codes r)).length

section Tunnel

variable {blank : Pmsg} {c c' : Conn} {L L' : List Message} {d r : Bytes}

/-- The characters left over are counted. -/
theorem Conn.Decodes.count (h : c.Decodes r) :
    0 ≤ c.base64Count ∧ c.base64Count ≤ c.reqBuf.length := by
  obtain ⟨hbuf, hcount⟩ := h
  rw [hcount, hbuf, List.length_append]
  omega

/-- A read is decoded with the characters left over. -/
theorem Conn.Decodes.receive (h : c.Decodes r) (d : Bytes) : (c.receive d).Decodes (r ++ d) := by
  obtain ⟨hbuf, hcount⟩ := h
  have hk : c.reqBuf.length - c.base64Count.toNat = (Base64.decode (codes r)).length := by
    rw [hcount, hbuf, List.length_append, Int.toNat_natCast]
    omega
  have hrest : codes (Base64.rest (codes r)) = Base64.rest (codes r) :=
    codes_of_all fun b hb => isCode_of_mem_codes (Base64.rest_subset hb)
  obtain ⟨hdec, hrest'⟩ := Base64.decode_append (codes r) (codes d)
  unfold Conn.receive
  rw [if_pos (by rw [hcount]; omega), hk]
  dsimp only
  rw [hbuf, List.take_left', List.drop_left', unbase64_eq (by decide), List.nil_append, codes_append,
    hrest]
  · refine ⟨?_, ?_⟩
    · dsimp only
      rw [codes_append, hdec, hrest', List.append_assoc]
    · dsimp only
      rw [codes_append, hrest']
  · rfl
  · rfl

/-- A read adds no more bytes than it returns. -/
theorem Conn.Decodes.length_receive (h : c.Decodes r) (d : Bytes) :
    (c.receive d).reqBuf.length ≤ c.reqBuf.length + d.length := by
  have hle : ∀ s : Bytes, (codes s).length ≤ s.length := fun s => List.length_filter_le _ _
  unfold Conn.receive
  rw [if_pos h.count.1]
  dsimp only
  rw [unbase64_eq (by decide), List.nil_append, List.length_append, List.length_append,
    List.length_take]
  have hdec := Base64.length_decode_le
    (codes (c.reqBuf.drop (c.reqBuf.length - c.base64Count.toNat) ++ d))
  have hcodes := hle (c.reqBuf.drop (c.reqBuf.length - c.base64Count.toNat) ++ d)
  rw [List.length_append, List.length_drop] at hcodes
  omega

/-- What `parse_client_data` leaves: the buffer as it was, or an empty one behind a message. -/
theorem settled_kept (h : settled blank c L = .ok ⟨some c', L'⟩) :
    c'.base64Count = c.base64Count ∧
      (c'.reqBuf = c.reqBuf ∧ L' = L ∨ c'.reqBuf = [] ∧ L' ≠ []) := by
  unfold settled at h
  rcases hs : settle c.proto c.reqBuf with ⟨p, _ | q | _ | _ | ⟨chan, d⟩⟩ <;> rw [hs] at h
  · cases h
    exact ⟨rfl, .inl ⟨rfl, rfl⟩⟩
  · cases h
    exact ⟨rfl, .inl ⟨rfl, rfl⟩⟩
  · cases h
  · dsimp only at h
    rcases hread : readRequest blank c.reqBuf with e | _ | v <;> rw [hread] at h
    · cases h
    · cases h
    · cases h
      exact ⟨rfl, .inr ⟨rfl, by simp⟩⟩
  · cases h
    exact ⟨rfl, .inr ⟨rfl, by simp⟩⟩

/-- What is known of a tunnel after the bytes `R` were received: its buffer fits, and holds the
decoding of what was received since it was last emptied. -/
def TunnelHolds (R : Bytes) (s : ReadState) : Prop :=
  ∀ c, s.conn = some c → c.reqBuf.length ≤ reqBufSize - 1 ∧
    ∃ r, r <:+ R ∧ (s.handed = [] → r = R) ∧ c.Decodes r

/-- One read of a tunnel. -/
theorem TunnelHolds.feed {R : Bytes} {s s' : ReadState} (h : TunnelHolds R s)
    (hroom : ∀ c, s.conn = some c → c.reqBuf.length + d.length ≤ reqBufSize - 1)
    (hfeed : feed blank s d = .ok s') : TunnelHolds (R ++ d) s' := by
  obtain ⟨conn, L⟩ := s
  rcases conn with _ | c
  · cases hfeed
    intro c hc
    cases hc
  obtain ⟨hlen, r, hr, hall, hdec⟩ := h c rfl
  have hdec' := hdec.receive d
  have hlen' := hdec.length_receive d
  have hroom' := hroom c rfl
  have hr' : r ++ d <:+ R ++ d := by
    obtain ⟨q, rfl⟩ := hr
    exact ⟨q, by rw [List.append_assoc]⟩
  rw [feed_receive] at hfeed
  intro c' hc'
  obtain ⟨conn', L'⟩ := s'
  obtain rfl : conn' = some c' := hc'
  split_ifs at hfeed with hfull h64
  · cases hfeed
  · cases hfeed
    exact ⟨by omega, r ++ d, hr', fun hL => by rw [hall hL], hdec'⟩
  · obtain ⟨hcount, ⟨hbuf, rfl⟩ | ⟨hbuf, hL⟩⟩ := settled_kept hfeed
    · refine ⟨by rw [hbuf]; omega, r ++ d, hr', fun hL => by rw [hall hL], ?_⟩
      exact ⟨hbuf.trans hdec'.1, hcount.trans hdec'.2⟩
    · refine ⟨by rw [hbuf]; simp, [], List.nil_suffix, fun h => absurd h hL, hbuf, ?_⟩
      have hzero := hdec'.count.1
      rw [hcount]
      change (c.receive d).base64Count = 0
      omega

/-- Any number of reads of a tunnel. -/
theorem TunnelHolds.readAll {R : Bytes} {ds : List Bytes} {s s' : ReadState} (h : TunnelHolds R s)
    (hroom : RoomFor blank s ds) (hrun : readAll blank s ds = .ok s') :
    TunnelHolds (R ++ ds.flatten) s' := by
  induction ds generalizing R s with
  | nil =>
    cases hrun
    rwa [List.flatten_nil, List.append_nil]
  | cons d ds ih =>
    rw [Spook.readAll] at hrun
    rcases hf : Spook.feed blank s d with e | s₁
    · rw [hf] at hrun
      cases hrun
    · rw [hf, ok_bind] at hrun
      rw [List.flatten_cons, ← List.append_assoc]
      exact ih (h.feed hroom.1 hf) (hroom.2 s₁ hf) hrun

end Tunnel

/-- What the reads of a tunnel have made of the bytes `R` that were received, when it has handed
over the messages `L`. -/
structure TunnelDecoded (R : Bytes) (L : List Message) (c : Conn) : Prop where
  /-- `req_len` and `base64_count` are in range. -/
  range : c.reqBuf.length ≤ reqBufSize - 1 ∧ 0 ≤ c.base64Count ∧ c.base64Count ≤ c.reqBuf.length
  /-- Between groups the buffer holds the decoding of what was received since it was last emptied,
  of everything if nothing was handed over. -/
  decoded : c.base64Count = 0 →
    ∃ r, r <:+ R ∧ (L = [] → r = R) ∧ c.reqBuf = Base64.decode (codes r)
  /-- When the client sends the encodings of some byte strings and characters that are skipped, the
  buffer holds the beginning of these strings, and all of them at the end. -/
  sent : c.base64Count = 0 → L = [] → ∀ (bs : List Bytes) w,
    codes w = (bs.map Base64.encode).flatten → R <+: w →
    c.reqBuf <+: bs.flatten ∧ (codes R = codes w → c.reqBuf = bs.flatten)
  /-- The next read is decoded in the buffer, and nothing is written over characters that were not
  read before. -/
  inPlace : ∀ b : ReqBuf, b.Holds c → ∀ d, (b.receive d).Holds (c.receive d) ∧
    ∀ n ≤ b.len d.length, (b.decoder d n).src = n ∧
      ∀ i, b.start + n ≤ i → (b.decoder d n).mem i = memcpy b.mem b.reqLen d i

/-- **The decoder of a tunnel.** However the bytes received are split into reads, the buffer holds
their decoding, which is made in the buffer itself. -/
theorem tunnel_decodes {blank : Pmsg} {c₀ c : Conn} {ds : List Bytes} {s : ReadState}
    (h₀ : c₀.base64Count = 0 ∧ c₀.reqBuf = []) (hroom : RoomFor blank ⟨some c₀, []⟩ ds)
    (hrun : readAll blank ⟨some c₀, []⟩ ds = .ok s) (hconn : s.conn = some c) :
    TunnelDecoded ds.flatten s.handed c := by
  have hinit : TunnelHolds [] ⟨some c₀, []⟩ := by
    intro c hc
    cases hc
    exact ⟨by rw [h₀.2]; simp, [], List.suffix_rfl, fun _ => rfl, h₀.2, h₀.1⟩
  obtain ⟨hlen, r, hr, hall, hdec⟩ := hinit.readAll hroom hrun c hconn
  rw [List.nil_append] at hr hall
  have hbuf : c.base64Count = 0 → c.reqBuf = Base64.decode (codes r) := fun hz => by
    have hrest : Base64.rest (codes r) = [] :=
      List.length_eq_zero_iff.1 (by have := hdec.2; omega)
    rw [hdec.1, hrest, List.append_nil]
  refine ⟨⟨hlen, hdec.count⟩, fun hz => ⟨r, hr, hall, hbuf hz⟩, fun hz hL bs w hw hR => ?_,
    fun b hb d => ⟨hb.receive hdec.count d, fun n hn => hb.decoder hdec.count d hn⟩⟩
  have hwhole : Base64.decode (codes w) = bs.flatten := by
    rw [hw]
    exact Base64.decode_encodings bs
  rw [hbuf hz, hall hL]
  constructor
  · rw [← hwhole]
    exact Base64.decode_mono (hR.filter _)
  · intro hcodes
    rw [hcodes, hwhole]

/-- A connection that a tunnel GET made a tunnel. -/
def tunnelConn : Conn := { Conn.accepted 0 with proto := .rtsp, base64Count := 0 }

/-- Three bytes that arrive in two reads, with a line end between them. -/
theorem tunnel_decodes_split :
    ∃ c, readAll zeroMsg ⟨some tunnelConn, []⟩ [str "T1\r\n", str "BU"] = .ok ⟨some c, []⟩ ∧
      c.base64Count = 0 ∧ TunnelDecoded (str "T1\r\nBU") [] c := by
  obtain ⟨c, hrun, hzero⟩ : ∃ c, readAll zeroMsg ⟨some tunnelConn, []⟩
      [str "T1\r\n", str "BU"] = .ok ⟨some c, []⟩ ∧ c.base64Count = 0 := ⟨_, rfl, rfl⟩
  have hroom : RoomFor zeroMsg ⟨some tunnelConn, []⟩ [str "T1\r\n", str "BU"] := by
    refine ⟨fun c hc => ?_, fun s₁ hs₁ => ⟨fun c hc => ?_, fun _ _ => trivial⟩⟩
    · cases hc
      decide
    · cases hs₁
      cases hc
      decide
  exact ⟨c, hrun, hzero, tunnel_decodes ⟨rfl, rfl⟩ hroom hrun rfl⟩

end Spook
