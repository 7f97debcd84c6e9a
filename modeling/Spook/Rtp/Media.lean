import Spook.Fault
import Spook.Lib.CString
import Spook.Lib.Reads

set_option relaxedAutoImplicit false
set_option autoImplicit false

/-!
# What a media format gets and gives

A media format is given frames, which it may only read within their length, and hands packets to
`send_rtp_packet`, of which it sees what they return.

## Main definitions

* `Spook.MediaFrame`, `MediaFrame.byte` — a frame.
* `Spook.FrameMemory`, `FrameMemory.Holds` — what may be read from a pointer into a frame on.
* `Spook.MediaFrame.Reads` — a computation that reads inside a frame exactly under a condition.
* `Spook.RtpPacket`, `RtpSend` — a packet, and the function that sends it.
* `Spook.Delivers` — a computation hands over certain packets when all of them can be sent.
* `Spook.MarkedLast`, `Tiles` — packets with the marker on the last one, that carry certain bytes.
-/

namespace Spook

/-- `struct frame` as a media format sees it, with the bytes below `length`. -/
structure MediaFrame where
  d : Bytes
  timestamp : ℕ

/-- A byte of a frame. -/
def MediaFrame.byte (f : MediaFrame) (i : ℕ) : Except Fault UInt8 :=
  match f.d[i]? with
  | some b => .ok b
  | none => .error .overread

/-- What the bytes at and behind a pointer read as. -/
abbrev FrameMemory := ℕ → Except Fault UInt8

/-- The bytes of a frame are read below its length; what is behind them is left open. -/
def FrameMemory.Holds (mem : FrameMemory) (f : MediaFrame) : Prop :=
  ∀ i b, f.d[i]? = some b → mem i = .ok b

/-- Some bytes hold a start code. -/
def HasStartCode (u : Bytes) : Prop := [0, 0, 1] <:+: u

/-- The memory in which nothing can be read behind a frame. -/
theorem MediaFrame.holds_byte (f : MediaFrame) : FrameMemory.Holds f.byte f := by
  intro i b h
  simp [MediaFrame.byte, h]

/-- The `n` bytes at `p`. -/
def FrameMemory.bytes (mem : FrameMemory) (p : ℕ) : ℕ → Except Fault Bytes
  | 0 => .ok []
  | n + 1 => do
    let b ← mem p
    let bs ← bytes mem (p + 1) n
    return b :: bs

/-- `GET_16`. -/
def FrameMemory.get16 (mem : FrameMemory) (p : ℕ) : Except Fault ℕ := do
  let b₀ ← mem p
  let b₁ ← mem (p + 1)
  return b₀.toNat * 256 + b₁.toNat

/-- `GET_32`. -/
def FrameMemory.get32 (mem : FrameMemory) (p : ℕ) : Except Fault ℕ := do
  let h ← mem.get16 p
  let l ← mem.get16 (p + 2)
  return h * 65536 + l

/-- What `bytes` reads has the length asked for. -/
theorem FrameMemory.length_bytes {mem : FrameMemory} {p n : ℕ} {bs : Bytes}
    (h : mem.bytes p n = .ok bs) : bs.length = n := by
  induction n generalizing p bs with
  | zero =>
    obtain rfl := Except.ok.inj h
    rfl
  | succ n ih =>
    obtain ⟨b, -, h⟩ := bind_eq_ok.1 h
    obtain ⟨bs', hbs, h⟩ := bind_eq_ok.1 h
    obtain rfl := Except.ok.inj h
    simp [ih hbs]

/-- Bytes that can be read can be read in two parts. -/
theorem FrameMemory.bytes_split {mem : FrameMemory} {p m n : ℕ} {bs : Bytes}
    (h : mem.bytes p (m + n) = .ok bs) :
    mem.bytes p m = .ok (bs.take m) ∧ mem.bytes (p + m) n = .ok (bs.drop m) := by
  induction m generalizing p bs with
  | zero => simpa [bytes] using h
  | succ m ih =>
    rw [Nat.succ_add] at h
    obtain ⟨b, hb, h⟩ := bind_eq_ok.1 h
    obtain ⟨bs', hbs, h⟩ := bind_eq_ok.1 h
    obtain rfl := Except.ok.inj h
    obtain ⟨htake, hdrop⟩ := ih hbs
    refine ⟨by simp [bytes, hb, htake, pure, Except.pure], ?_⟩
    rw [show p + (m + 1) = p + 1 + m by omega, hdrop]
    rfl

/-- The bytes of a part of a frame. -/
theorem FrameMemory.Holds.bytes {mem : FrameMemory} {f : MediaFrame} (h : mem.Holds f) {p n : ℕ}
    (hp : p + n ≤ f.d.length) : mem.bytes p n = .ok ((f.d.drop p).take n) := by
  induction n generalizing p with
  | zero => simp [FrameMemory.bytes]
  | succ n ih =>
    have hlt : p < f.d.length := by omega
    have hb : mem p = .ok f.d[p] := h p _ (List.getElem?_eq_getElem hlt)
    rw [List.drop_eq_getElem_cons hlt, List.take_succ_cons]
    simp only [FrameMemory.bytes, hb, ih (p := p + 1) (by omega), ok_bind]
    rfl

/-! ## Reading inside a frame -/

section Inside

variable {α : Type} {P : FrameMemory → Except Fault α} {c : Prop}

/-- A byte of a frame that is followed by zeros. -/
def MediaFrame.pad (f : MediaFrame) (i : ℕ) : UInt8 := f.d.getD i 0

/-- A frame that is followed by zeros. -/
def MediaFrame.padded (f : MediaFrame) : FrameMemory := readPadded f.d 0

/-- `P` reads inside the frame exactly if `c` holds. -/
def MediaFrame.Reads (f : MediaFrame) (P : FrameMemory → Except Fault α) (c : Prop) : Prop :=
  ReadsIf f.d 0 .overread P c

/-- The frame as memory. -/
theorem MediaFrame.byte_eq (f : MediaFrame) : f.byte = readIn f.d .overread := by
  funext i
  simp only [MediaFrame.byte, readIn]
  cases f.d[i]? <;> rfl

/-- Where it reads inside, the zeros behind the frame do not matter. -/
theorem MediaFrame.Reads.inside {f : MediaFrame} (h : f.Reads P c) (hc : c) :
    P f.byte = P f.padded := by
  rw [f.byte_eq]
  exact ReadsIf.inside h hc

/-- Where it does not, there is a fault. -/
theorem MediaFrame.Reads.outside {f : MediaFrame} (h : f.Reads P c) (hc : ¬ c) :
    P f.byte = .error .overread := by
  rw [f.byte_eq]
  exact ReadsIf.outside h hc

/-- A byte of the frame with zeros behind it. -/
@[simp] theorem MediaFrame.padded_eq (f : MediaFrame) (i : ℕ) : f.padded i = .ok (f.pad i) := rfl

/-- One byte. -/
theorem MediaFrame.reads_byte (f : MediaFrame) (i : ℕ) : f.Reads (fun mem => mem i) (i < f.d.length) :=
  ReadsIf.read _ _ _ i

/-- `GET_16` in a frame that is followed by zeros. -/
def MediaFrame.pad16 (f : MediaFrame) (p : ℕ) : ℕ := (f.pad p).toNat * 256 + (f.pad (p + 1)).toNat

/-- Two bytes of the frame with zeros behind it. -/
@[simp] theorem MediaFrame.padded_get16 (f : MediaFrame) (p : ℕ) :
    f.padded.get16 p = .ok (f.pad16 p) := rfl

/-- Two bytes. -/
theorem MediaFrame.reads_get16 (f : MediaFrame) (p : ℕ) :
    f.Reads (fun mem => mem.get16 p) (p + 1 < f.d.length) := by
  have hlow := f.reads_byte (p + 1)
  refine ReadsIf.congr (ReadsIf.bind_ok (f.reads_byte p) (f.padded_eq p)
    (ReadsIf.bind_ok hlow (f.padded_eq (p + 1)) (ReadsIf.const _))) ?_
  constructor
  · exact fun h => ⟨by omega, h, trivial⟩
  · exact fun h => h.2.1

end Inside

/-- A call of `send_rtp_packet`: the bytes of `v` behind the RTP header, `timestamp` and `marker`. -/
structure RtpPacket where
  payload : Bytes
  timestamp : ℕ
  marker : Bool
  deriving DecidableEq

/-- `send_rtp_packet` on some state, with its value. -/
abbrev RtpSend (σ : Type) := RtpPacket → σ → σ × ℤ

/-- All sends succeed. -/
def RtpSend.Succeeds {σ : Type} (send : RtpSend σ) : Prop := ∀ p s, 0 ≤ (send p s).2

/-- A function that sends hands over the packets `ps`, in order, when all sends succeed. -/
def Delivers (f : (σ : Type) → RtpSend σ → σ → Except Fault (σ × ℤ)) (ps : List RtpPacket) : Prop :=
  ∀ (σ : Type) (send : RtpSend σ), send.Succeeds → ∀ s : σ,
    f σ send s = .ok (ps.foldl (fun s p => (send p s).1) s, 0)

/-- Packets are collected. -/
def collect : RtpSend (List RtpPacket) := fun p ps => (ps ++ [p], 0)

/-- Packets can always be collected. -/
theorem collect_succeeds : collect.Succeeds := fun _ _ => Int.le_refl 0

/-- What is collected is in order. -/
theorem foldl_collect (ps qs : List RtpPacket) :
    ps.foldl (fun s p => (collect p s).1) qs = qs ++ ps := by
  induction ps generalizing qs with
  | nil => simp
  | cons p ps ih =>
    rw [List.foldl_cons, ih]
    simp [collect]

/-- A packet and the packets of what is left. -/
theorem Delivers.cons {f g : (σ : Type) → RtpSend σ → σ → Except Fault (σ × ℤ)} {p : RtpPacket}
    {ps : List RtpPacket} (hg : Delivers g ps)
    (hf : ∀ σ (send : RtpSend σ), send.Succeeds → ∀ s, f σ send s = g σ send (send p s).1) :
    Delivers f (p :: ps) := by
  intro σ send hsend s
  rw [hf σ send hsend s, hg σ send hsend]
  rfl

/-- What is collected of a function that hands over some packets. -/
theorem Delivers.collect {f : (σ : Type) → RtpSend σ → σ → Except Fault (σ × ℤ)} {ps : List RtpPacket}
    (h : Delivers f ps) : f _ Spook.collect [] = .ok (ps, 0) := by
  rw [h _ _ collect_succeeds, foldl_collect, List.nil_append]

/-- The packets of two computations, one after the other. -/
theorem Delivers.append {f g : (σ : Type) → RtpSend σ → σ → Except Fault (σ × ℤ)}
    {ps qs : List RtpPacket} (hg : Delivers g qs)
    (hf : ∀ σ (send : RtpSend σ), send.Succeeds → ∀ s,
      f σ send s = g σ send (ps.foldl (fun s p => (send p s).1) s)) :
    Delivers f (ps ++ qs) := by
  intro σ send hsend s
  rw [hf σ send hsend s, hg σ send hsend, List.foldl_append]

/-- The packets of a computation are determined. -/
theorem Delivers.unique {f : (σ : Type) → RtpSend σ → σ → Except Fault (σ × ℤ)}
    {ps qs : List RtpPacket} (hps : Delivers f ps) (hqs : Delivers f qs) : ps = qs := by
  have heq := hps.collect.symm.trans hqs.collect
  exact (Prod.mk.inj (Except.ok.inj heq)).1

/-! ## Packets that carry some bytes -/

section Tiles

variable {c : ℤ} {p : RtpPacket} {ps : List RtpPacket} {d : Bytes}

/-- The marker is on the last packet alone. -/
def MarkedLast (ps : List RtpPacket) : Prop :=
  ∀ i p, ps[i]? = some p → (p.marker = true ↔ i + 1 = ps.length)

/-- One packet. -/
theorem MarkedLast.single (h : p.marker = true) : MarkedLast [p] := by
  intro i q hq
  cases i with
  | zero =>
    obtain rfl := Option.some.inj hq
    simpa using h
  | succ i => cases hq

/-- A packet without marker in front. -/
theorem MarkedLast.cons (h : MarkedLast ps) (hne : ps ≠ []) (hp : p.marker = false) :
    MarkedLast (p :: ps) := by
  intro i q hq
  cases i with
  | zero =>
    obtain rfl := Option.some.inj hq
    simpa [hp] using hne
  | succ i => simpa using h i q hq

/-- The payloads of some packets, of at most `c` bytes each, make up the bytes `d`; the marker is on
the last packet alone. -/
structure Tiles (c : ℤ) (ps : List RtpPacket) (d : Bytes) : Prop where
  flatten : (ps.map RtpPacket.payload).flatten = d
  length_le : ∀ p ∈ ps, (p.payload.length : ℤ) ≤ c
  marked : MarkedLast ps

/-- One packet. -/
theorem Tiles.single (hp : p.marker = true) (hc : (p.payload.length : ℤ) ≤ c) :
    Tiles c [p] p.payload := by
  refine ⟨by simp, ?_, .single hp⟩
  simpa using hc

/-- A packet in front. -/
theorem Tiles.cons (h : Tiles c ps d) (hne : ps ≠ []) (hp : p.marker = false)
    (hc : (p.payload.length : ℤ) ≤ c) : Tiles c (p :: ps) (p.payload ++ d) := by
  refine ⟨by simp [h.flatten], ?_, h.marked.cons hne hp⟩
  intro q hq
  rcases List.mem_cons.1 hq with rfl | hq
  · exact hc
  · exact h.length_le q hq

end Tiles

/-- What holds of the bytes below 256 holds of all. -/
theorem forall_byte {p : UInt8 → Prop} (h : ∀ n < 256, p (UInt8.ofNat n)) (b : UInt8) : p b := by
  rw [← UInt8.ofNat_toNat (x := b)]
  exact h b.toNat b.toNat_lt

end Spook
