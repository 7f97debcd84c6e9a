import Spook.Md5.Rounds

set_option relaxedAutoImplicit false
set_option autoImplicit false

/-!
# A message in pieces

`MD5Update` may be called with any pieces of a message. It keeps what does not fill a block in `in`,
and the number of bits in two words.

## Main definitions

* `Spook.MD5Context.Absorbed` — the context after a message.

## Main results

* `Spook.md5Update_absorbed` — a piece more.
* `Spook.md5Final_absorbed` — the digest.
-/

namespace Spook

/-! ## What is kept in `in` -/

namespace MD5Context

/-- `in` has its size, and begins with the bytes `p`. -/
structure Begins (ctx : MD5Context) (p : Bytes) : Prop where
  size : ctx.inBytes.length = 64
  begins : p <+: ctx.inBytes

namespace Begins

variable {ctx : MD5Context} {p b : Bytes}

/-- A context that has absorbed nothing. -/
theorem nil (h : ctx.inBytes.length = 64) : ctx.Begins [] := ⟨h, List.nil_prefix⟩

/-- Bytes are stored behind those that are there. -/
theorem store (h : ctx.Begins p) (hle : p.length + b.length ≤ 64) :
    ∃ inBytes, ctx.store p.length b = .ok { ctx with inBytes } ∧
      ({ ctx with inBytes } : MD5Context).Begins (p ++ b) := by
  obtain ⟨inBytes, hstore⟩ := (storeIn_ok_iff Fault.overrun ctx.inBytes b p.length).2
    (by rw [h.size]; exact hle)
  refine ⟨inBytes, ?_, ?_, ?_⟩
  · rw [MD5Context.store, hstore]
    rfl
  · exact (length_storeIn hstore).trans h.size
  · obtain ⟨rest, hrest⟩ := h.begins
    rw [storeIn_eq hstore, ← hrest, List.take_left]
    exact ⟨_, List.append_assoc ..⟩

/-- `in` is a whole block. -/
theorem transform (h : ctx.Begins p) (hp : p.length = 64) :
    ctx.transform = { ctx with buf := md5Compress sineWord ctx.buf p } := by
  have hin : p = ctx.inBytes := h.begins.eq_of_length (hp.trans h.size.symm)
  rw [MD5Context.transform, md5Transform_eq, hin]

end Begins

/-- The context when the bytes of `m` went in. -/
structure Absorbed (ctx : MD5Context) (m : Bytes) : Prop where
  buf : ctx.buf = (md5Absorb md5Start m).1
  rest : ctx.Begins (md5Absorb md5Start m).2
  bits0 : ctx.bits0 = UInt32.ofNat (8 * m.length)
  bits1 : ctx.bits1 = UInt32.ofNat (8 * m.length / 2 ^ 32)

end MD5Context

section Update

variable {ctx : MD5Context} {m buf : Bytes}

/-- `MD5Init` begins with nothing. -/
theorem md5Init_absorbed (h : ctx.inBytes.length = 64) : (md5Init ctx).Absorbed [] := by
  refine ⟨?_, ?_, rfl, rfl⟩
  · rw [md5Absorb, absorb_nil]
    rfl
  · rw [md5Absorb, absorb_nil]
    exact .nil h

/-! ## The number of bits -/

/-- The low word of the number of bits. -/
theorem bits0_add (n l : ℕ) :
    UInt32.ofNat (8 * n) + UInt32.ofNat l <<< 3 = UInt32.ofNat (8 * (n + l)) := by
  apply UInt32.toNat_inj.1
  simp only [UInt32.toNat_add, UInt32.toNat_ofNat', UInt32.toNat_shiftLeft, Nat.shiftLeft_eq,
    UInt32.reduceToNat, Nat.reduceMod, Nat.reducePow]
  omega

/-- The high word of the number of bits, with the carry. -/
theorem bits1_add {n l : ℕ} (hl : l < 2 ^ 32) :
    (if UInt32.ofNat (8 * (n + l)) < UInt32.ofNat (8 * n) then UInt32.ofNat (8 * n / 2 ^ 32) + 1
      else UInt32.ofNat (8 * n / 2 ^ 32)) + UInt32.ofNat l >>> 29 =
      UInt32.ofNat (8 * (n + l) / 2 ^ 32) := by
  apply UInt32.toNat_inj.1
  have hcarry : UInt32.ofNat (8 * (n + l)) < UInt32.ofNat (8 * n) ↔
      8 * (n + l) % 2 ^ 32 < 8 * n % 2 ^ 32 := by
    rw [UInt32.lt_iff_toNat_lt, UInt32.toNat_ofNat', UInt32.toNat_ofNat']
  simp only [hcarry, UInt32.toNat_add, UInt32.toNat_ofNat', UInt32.toNat_shiftRight, apply_ite,
    Nat.shiftRight_eq_div_pow, UInt32.reduceToNat, Nat.reduceMod, Nat.reducePow]
  split_ifs <;> omega

/-- The number of bytes that do not fill a block, from the low word. -/
theorem bits0_bytes (n : ℕ) : (UInt32.ofNat (8 * n) >>> 3 &&& 0x3f).toNat = n % 64 := by
  have hand : ∀ k : ℕ, k &&& 63 = k % 64 := fun k => Nat.and_two_pow_sub_one_eq_mod k 6
  simp only [UInt32.toNat_and, UInt32.toNat_shiftRight, UInt32.toNat_ofNat',
    Nat.shiftRight_eq_div_pow, UInt32.reduceToNat, Nat.reduceMod, Nat.reducePow, hand]
  omega

/-! ## A piece of a message -/

/-- The first bytes of a buffer. -/
theorem load_prefix (a b : Bytes) : loadIn Fault.overread (a ++ b) 0 a.length = .ok a := by
  simpa using loadIn_append Fault.overread [] a b

/-- The loop over whole chunks. -/
theorem md5Chunks_eq (buf : Bytes) (hin : ctx.inBytes.length = 64) {fuel : ℕ}
    (hfuel : buf.length ≤ fuel) :
    ∃ inBytes, inBytes.length = 64 ∧ md5Chunks fuel ctx buf buf.length =
      .ok ({ ctx with buf := (md5Absorb ctx.buf buf).1, inBytes }, (md5Absorb ctx.buf buf).2,
        (md5Absorb ctx.buf buf).2.length) := by
  induction buf using block_induction (n := 64) (by decide) generalizing ctx fuel with
  | short buf hlt =>
    refine ⟨ctx.inBytes, hin, ?_⟩
    have hdone : ¬ 64 ≤ buf.length := by omega
    rw [md5Absorb, absorb_of_lt _ hlt]
    cases fuel <;> rw [md5Chunks, if_neg hdone]
  | block b rest hb ih =>
    have hlen : (b ++ rest).length = rest.length + 64 := by simp [hb, Nat.add_comm]
    obtain ⟨fuel, rfl⟩ : ∃ k, fuel = k + 1 := ⟨fuel - 1, by omega⟩
    obtain ⟨inBytes, hstore, hbegins⟩ := (MD5Context.Begins.nil hin).store (b := b) (by simp [hb])
    have hstep := hbegins.transform (by simp [hb])
    obtain ⟨inBytes', hin', hrest⟩ := @ih
      { ctx with buf := md5Compress sineWord ctx.buf b, inBytes } hbegins.size fuel (by omega)
    refine ⟨inBytes', hin', ?_⟩
    have hload : loadIn Fault.overread (b ++ rest) 0 64 = .ok b := by
      simpa only [hb] using load_prefix b rest
    rw [List.length_nil] at hstore
    rw [List.nil_append] at hstep
    rw [md5Chunks, if_pos (by omega), hload, ok_bind, hstore, ok_bind, hstep, List.drop_left' hb,
      hlen, Nat.add_sub_cancel, hrest, md5Absorb, absorb_block (by decide) _ hb]

/-- The leading chunk fills the block that was begun. -/
theorem md5Leading_eq {r : Bytes} (h : ctx.Begins r) (hr : r.length < 64)
    (hfill : ¬ (r.length ≠ 0 ∧ buf.length < 64 - r.length)) :
    ∃ words inBytes rest, inBytes.length = 64 ∧
      md5Leading ctx r.length buf buf.length =
        .ok ({ ctx with buf := words, inBytes }, rest, rest.length) ∧
      rest.length ≤ buf.length ∧ md5Absorb words rest = md5Absorb ctx.buf (r ++ buf) := by
  by_cases hzero : r.length = 0
  · obtain rfl := List.length_eq_zero_iff.1 hzero
    exact ⟨ctx.buf, ctx.inBytes, buf, h.size, rfl, le_rfl, rfl⟩
  · have hle : 64 - r.length ≤ buf.length := by omega
    have htake : (buf.take (64 - r.length)).length = 64 - r.length := by simp [hle]
    have hblock : (r ++ buf.take (64 - r.length)).length = 64 := by simp [htake]; omega
    obtain ⟨inBytes, hstore, hbegins⟩ := h.store (b := buf.take (64 - r.length)) (by omega)
    refine ⟨md5Compress sineWord ctx.buf (r ++ buf.take (64 - r.length)), inBytes,
      buf.drop (64 - r.length), hbegins.size, ?_, by simp, ?_⟩
    · have hload : loadIn Fault.overread buf 0 (64 - r.length) = .ok (buf.take (64 - r.length)) := by
        simp [loadIn, hle]
      rw [md5Leading, if_neg hzero, hload, ok_bind, hstore, ok_bind, hbegins.transform hblock,
        List.length_drop]
      rfl
    · rw [md5Absorb, ← absorb_block (by decide) ctx.buf hblock, List.append_assoc,
        List.take_append_drop]

/-- **`MD5Update` with a piece of a message.** -/
theorem md5Update_absorbed (h : ctx.Absorbed m) (hlen : buf.length < 2 ^ 32) :
    ∃ ctx', md5Update ctx buf (UInt32.ofNat buf.length) = .ok ctx' ∧ ctx'.Absorbed (m ++ buf) := by
  obtain ⟨words, b0, b1, inBytes⟩ := ctx
  obtain ⟨hbuf, hrest, rfl, rfl⟩ := h
  have hr : (md5Absorb md5Start m).2.length = m.length % 64 := length_absorb ..
  have happend : md5Absorb md5Start (m ++ buf) =
      md5Absorb (md5Absorb md5Start m).1 ((md5Absorb md5Start m).2 ++ buf) :=
    absorb_append (by decide) ..
  have hlen' : (UInt32.ofNat buf.length).toNat = buf.length := by
    rw [UInt32.toNat_ofNat', Nat.mod_eq_of_lt hlen]
  obtain rfl : words = _ := hbuf
  set r := (md5Absorb md5Start m).2
  have hr64 : r.length < 64 := by omega
  have hload : ∀ b : Bytes, loadIn Fault.overread b 0 b.length = .ok b := by
    intro b
    simpa using load_prefix b []
  unfold md5Update
  simp only [bits0_add, bits1_add hlen, bits0_bytes, hlen', ← hr]
  rw [← List.length_append]
  set ctx : MD5Context := ⟨(md5Absorb md5Start m).1, UInt32.ofNat (8 * (m ++ buf).length),
    UInt32.ofNat (8 * (m ++ buf).length / 2 ^ 32), inBytes⟩
  have hbegins : ctx.Begins r := ⟨hrest.size, hrest.begins⟩
  by_cases hfill : r.length ≠ 0 ∧ buf.length < 64 - r.length
  · -- the block that was begun is not full yet
    obtain ⟨inBytes', hstore, hstored⟩ := hbegins.store (b := buf) (by omega)
    have hshort : md5Absorb md5Start (m ++ buf) = ((md5Absorb md5Start m).1, r ++ buf) := by
      rw [happend, md5Absorb, absorb_of_lt _ (by simp only [List.length_append]; omega)]
    rw [if_pos hfill, hload, ok_bind, hstore]
    exact ⟨_, rfl, by rw [hshort], by rw [hshort]; exact hstored, rfl, rfl⟩
  · obtain ⟨words, in₁, rest, hin₁, hlead, -, habsorb⟩ := md5Leading_eq hbegins hr64 hfill
    obtain ⟨in₂, hin₂, hchunks⟩ := @md5Chunks_eq { ctx with buf := words, inBytes := in₁ }
      rest hin₁ _ le_rfl
    rw [if_neg hfill, hlead, ok_bind, hchunks, ok_bind, hload, ok_bind]
    have hleft : (md5Absorb words rest).2.length < 64 := by
      rw [md5Absorb, length_absorb]
      exact Nat.mod_lt _ (by decide)
    obtain ⟨in₃, hstore, hstored⟩ := (@MD5Context.Begins.nil
      { ctx with buf := (md5Absorb words rest).1, inBytes := in₂ } hin₂).store
      (b := (md5Absorb words rest).2) (by simpa using hleft.le)
    refine ⟨_, hstore, ?_, ?_, rfl, rfl⟩
    · rw [happend, ← habsorb]
    · rw [happend, ← habsorb]
      exact hstored

/-! ## The digest -/

/-- What the bytes that are padded to 56 bytes do, whether they need one block or two. -/
theorem md5Padding_eq {r : Bytes} (h : ctx.Begins r) (hr : r.length < 64) :
    ∃ words inBytes p, p.length = 56 ∧
      md5Padding ctx r.length = .ok { ctx with buf := words, inBytes } ∧
      ({ ctx with buf := words, inBytes } : MD5Context).Begins p ∧
      ∀ b, md5Absorb words (p ++ b) = md5Absorb ctx.buf
        (r ++ ([0x80] ++ (List.replicate ((119 - r.length) % 64) 0 ++ b))) := by
  obtain ⟨in₁, hstore, hbegins⟩ := h.store (b := [0x80]) (by simpa using hr)
  have hlen : r.length + 1 = (r ++ [0x80]).length := by simp
  unfold md5Padding
  rw [hstore, ok_bind]
  dsimp only
  by_cases htwo : 64 - 1 - r.length < 8
  · obtain ⟨in₂, hstore₂, hbegins₂⟩ := hbegins.store (b := List.replicate (64 - 1 - r.length) 0)
      (by simp; omega)
    have hblock : (r ++ [0x80] ++ List.replicate (64 - 1 - r.length) 0).length = 64 := by
      simp
      omega
    obtain ⟨in₃, hstore₃, hbegins₃⟩ := (@MD5Context.Begins.nil { ctx with
      buf := md5Compress sineWord ctx.buf (r ++ [0x80] ++ List.replicate (64 - 1 - r.length) 0),
      inBytes := in₂ } hbegins₂.size).store (b := List.replicate 56 0) (by simp)
    refine ⟨_, in₃, List.replicate 56 0, by simp, ?_, hbegins₃, fun b => ?_⟩
    · rw [if_pos htwo, hlen, hstore₂, ok_bind, hbegins₂.transform hblock]
      exact hstore₃
    · have hzeros : List.replicate ((119 - r.length) % 64) (0 : UInt8) =
          List.replicate (64 - 1 - r.length) 0 ++ List.replicate 56 0 := by
        rw [List.replicate_append_replicate]
        congr 1
        omega
      rw [md5Absorb, ← absorb_block (by decide) ctx.buf hblock, hzeros]
      simp only [List.append_assoc]
  · obtain ⟨in₂, hstore₂, hbegins₂⟩ := hbegins.store
      (b := List.replicate (64 - 1 - r.length - 8) 0) (by simp; omega)
    refine ⟨ctx.buf, in₂, _, ?_, ?_, hbegins₂, fun b => ?_⟩
    · simp
      omega
    · rw [if_neg htwo, hlen, hstore₂]
    · have hzeros : (119 - r.length) % 64 = 64 - 1 - r.length - 8 := by omega
      rw [hzeros]
      simp only [List.append_assoc]

/-- **`MD5Final` gives the digest of what went in.** -/
theorem md5Final_absorbed (h : ctx.Absorbed m) : ∃ ctx', md5Final ctx = .ok (md5Digest m, ctx') := by
  obtain ⟨words, b0, b1, inBytes⟩ := ctx
  obtain ⟨hbuf, hrest, rfl, rfl⟩ := h
  obtain rfl : words = _ := hbuf
  have hr : (md5Absorb md5Start m).2.length = m.length % 64 := length_absorb ..
  have happend : md5Absorb md5Start (md5Pad m) =
      md5Absorb (md5Absorb md5Start m).1 ((md5Absorb md5Start m).2 ++ _) :=
    absorb_append (by decide) ..
  rw [← hr] at happend
  set r := (md5Absorb md5Start m).2
  obtain ⟨words, in₁, p, hp, hpad, hbegins, habsorb⟩ := md5Padding_eq hrest (by omega)
  rw [← habsorb] at happend
  obtain ⟨in₂, hstore₂, hbegins₂⟩ := hbegins.store (b := le32 (UInt32.ofNat (8 * m.length)))
    (by simp [le32, hp])
  obtain ⟨in₃, hstore₃, hbegins₃⟩ := hbegins₂.store
    (b := le32 (UInt32.ofNat (8 * m.length / 2 ^ 32))) (by simp [le32, hp])
  have hlen : (p ++ le32 (UInt32.ofNat (8 * m.length))).length = 60 := by simp [le32, hp]
  have hwhole := hbegins₃.transform (by simp [le32, hp])
  rw [hp] at hstore₂
  rw [hlen] at hstore₃
  unfold md5Final
  dsimp only
  rw [bits0_bytes, ← hr, hpad, ok_bind, hstore₂, ok_bind, hstore₃, ok_bind, hwhole]
  have hblock : (p ++ le32 (UInt32.ofNat (8 * m.length)) ++
      le32 (UInt32.ofNat (8 * m.length / 2 ^ 32))).length = 64 := by simp [le32, hp]
  have hdigest := absorb_block (f := md5Compress sineWord) (by decide) words hblock []
  rw [absorb_nil, List.append_nil, List.append_assoc] at hdigest
  rw [md5Digest, happend, bitLength, md5Absorb, hdigest, List.append_assoc]
  exact ⟨_, rfl⟩

end Update

/-! ## Pieces one after the other -/

/-- `MD5Update` with each of the pieces of a message. -/
def md5Feed (ctx : MD5Context) (pieces : List Bytes) : Except Fault MD5Context :=
  pieces.foldlM (fun ctx piece => md5Update ctx piece (UInt32.ofNat piece.length)) ctx

/-- The pieces make up the message. -/
theorem md5Feed_absorbed {ctx : MD5Context} {m : Bytes} {pieces : List Bytes} (h : ctx.Absorbed m)
    (hlen : ∀ piece ∈ pieces, piece.length < 2 ^ 32) :
    ∃ ctx', md5Feed ctx pieces = .ok ctx' ∧ ctx'.Absorbed (m ++ pieces.flatten) := by
  induction pieces generalizing ctx m with
  | nil => exact ⟨ctx, rfl, by simpa using h⟩
  | cons piece pieces ih =>
    obtain ⟨ctx₁, hupdate, h₁⟩ := md5Update_absorbed h (hlen piece List.mem_cons_self)
    obtain ⟨ctx₂, hfeed, h₂⟩ := ih h₁ fun b hb => hlen b (List.mem_cons_of_mem _ hb)
    refine ⟨ctx₂, ?_, ?_⟩
    · rw [md5Feed, List.foldlM_cons, hupdate, ok_bind]
      exact hfeed
    · rwa [List.append_assoc] at h₂

/-- `MD5Init`, `MD5Update` with each piece and `MD5Final`, on a context that holds anything. -/
def md5Sum (ctx : MD5Context) (pieces : List Bytes) : Except Fault (Bytes × MD5Context) := do
  let ctx ← md5Feed (md5Init ctx) pieces
  md5Final ctx

/-- **A message in pieces.** However a message is cut into pieces, the functions of `md5.c` leave
none of their buffers and give the MD5 digest of the message. -/
theorem md5Sum_pieces (ctx : MD5Context) (pieces : List Bytes) (hin : ctx.inBytes.length = 64)
    (hlen : ∀ piece ∈ pieces, piece.length < 2 ^ 32) :
    ∃ ctx', md5Sum ctx pieces = .ok (md5Digest pieces.flatten, ctx') := by
  obtain ⟨ctx', hfeed, habsorbed⟩ := md5Feed_absorbed (md5Init_absorbed hin) hlen
  obtain ⟨ctx'', hfinal⟩ := md5Final_absorbed habsorbed
  refine ⟨ctx'', ?_⟩
  rw [md5Sum, hfeed, ok_bind, hfinal]
  rfl

/-- A context as it may lie on the stack. -/
def anyContext : MD5Context := ⟨⟨1, 2, 3, 4⟩, 5, 6, List.replicate 64 7⟩

/-- Two pieces, and an empty one between them. -/
theorem md5Sum_pieces_abc :
    ∃ ctx', md5Sum anyContext [str "a", [], str "bc"] = .ok (md5Digest (str "abc"), ctx') :=
  md5Sum_pieces anyContext [str "a", [], str "bc"] (by decide) (by decide)

example : (md5Sum anyContext [str "a", [], str "bc"]).map Prod.fst =
    .ok [0x90, 0x01, 0x50, 0x98, 0x3c, 0xd2, 0x4f, 0xb0,
      0xd6, 0x96, 0x3f, 0x7d, 0x28, 0xe1, 0x7f, 0x72] := by
  decide +kernel

end Spook
