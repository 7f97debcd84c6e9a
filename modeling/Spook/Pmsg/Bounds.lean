import Spook.Pmsg.Build

set_option relaxedAutoImplicit false
set_option autoImplicit false

/-!
# The bytes the parser touches

`parse_pmsg` once more, with every access to the buffer made through `byteIn` and `pokeIn`, which
fault on an index that is not below the length. In a text that has an empty line the parser never
leaves the text, although most of its writes are not preceded by a test of the index: no scan
passes a carriage return, so none gets behind the empty line.

What remains is the table of the headers, which `parse_pmsg` does not guard: it ends in a fault
exactly on a text that has more header lines than the table has fields.

## Main definitions

* `Spook.Pmsg.parsePmsgIn` — `parse_pmsg` with checked accesses, and the checked versions of its
  parts.
* `Spook.HeadersEnd` — there is an empty line before the first NUL.
* `Spook.Ahead` — the part of the empty line that is not behind an index.

## Main results

* `Spook.Pmsg.parsePmsgIn_eq` — in such a text the checked accesses make no difference.
* `Spook.Pmsg.parsePmsg_full` — a text with too many headers makes the parser leave the table.
* `Spook.Pmsg.parse_bounds_iff` — the two together.

## Notes on the design

The checked parser is the parser of `Pmsg.Parse` with another way to reach the bytes. Each of its
parts is shown to be equal to the unchecked one while the empty line is ahead, and what was proved
about the unchecked parser is used from there.
-/

namespace Spook

/-! ## Checked accesses -/

/-- The loop `for( .. ; .. < len && p( d[..] ); ++.. )` from the index `d` on, at most `n` times,
in a buffer of `len` bytes: the number of iterations. -/
def runIn (p : UInt8 → Bool) (mem : ℕ → UInt8) (len d : ℕ) : ℕ → Except Fault ℕ
  | 0 => .ok 0
  | n + 1 =>
    if d < len then
      if p (mem d) then do
        let k ← runIn p mem len (d + 1) n
        return k + 1
      else return 0
    else .error .overread

namespace Pmsg

/-- `d[i]`, read. -/
def byteIn (m : Pmsg) (len i : ℕ) : Except Fault UInt8 :=
  if i < len then .ok (m.mem i) else .error .overread

/-- `d[i] = 0`. -/
def pokeIn (m : Pmsg) (len i : ℕ) : Except Fault Pmsg :=
  if i < len then .ok (m.poke i 0) else .error .overrun

/-- `delim( d + i, len - i, term1, term2 )`. -/
def delimIn (m : Pmsg) (len i : ℕ) (term1 term2 : UInt8) : Except Fault ℕ :=
  runIn (fun b => !(b = term1 || b = term2 || b = CR || b = LF)) m.mem len i (len - i)

/-- `while( i < len && d[i] == ' ' ) ++i`: the index reached. -/
def skipSpacesIn (m : Pmsg) (len i : ℕ) : Except Fault ℕ := do
  let k ← runIn (· = SP) m.mem len i (len - i)
  return i + k

/-- The three digits of a response code and the space behind them, or `none`. -/
def codeIn (m : Pmsg) (len i : ℕ) : Except Fault (Option ℕ) := do
  if len - i < 4 then return none
  let a ← m.byteIn len i
  if !isDigit a then return none
  let b ← m.byteIn len (i + 1)
  if !isDigit b then return none
  let c ← m.byteIn len (i + 2)
  if !isDigit c then return none
  let s ← m.byteIn len (i + 3)
  if s ≠ SP then return none
  -- atoi reads the same four bytes
  return some ((a.toNat - 48) * 100 + (b.toNat - 48) * 10 + (c.toNat - 48))

/-- The first line of a response. -/
def parseResponseLineIn (m : Pmsg) (len : ℕ) : Except Fault (Pmsg × Option ℕ) := do
  let m := { m with type := .resp, protoId := some 0 }
  let i ← m.delimIn len 0 SP 0
  if (← m.byteIn len i) ≠ SP then return (m, none)
  let m ← m.pokeIn len i
  let i ← m.skipSpacesIn len (i + 1)
  match ← m.codeIn len i with
  | none => return (m, none)
  | some code =>
    let m := { m with slFst := .code code }
    let i ← m.skipSpacesIn len (i + 4)
    let m := { m with slSnd := .reason (some i) }
    let k ← m.delimIn len i 0 0
    let m ← m.pokeIn len (i + k)
    return (m, some (i + k + 1))

/-- A word that ends in a space, from `i` on, which is overwritten. Returns the index behind the
spaces, or `none` for `return -1`. -/
def wordIn (m : Pmsg) (len i : ℕ) : Except Fault (Pmsg × Option ℕ) := do
  let k ← m.delimIn len i SP 0
  if i + k ≥ len then return (m, none)
  if (← m.byteIn len (i + k)) ≠ SP then return (m, none)
  let m ← m.pokeIn len (i + k)
  let j ← m.skipSpacesIn len (i + k + 1)
  return (m, some j)

/-- The first line of a request. -/
def parseRequestLineIn (m : Pmsg) (len : ℕ) : Except Fault (Pmsg × Option ℕ) := do
  let m := { m with type := .req, slFst := .method 0 }
  match ← m.wordIn len 0 with
  | (m, none) => return (m, none)
  | (m, some i) =>
    let m := { m with slSnd := .uri i }
    match ← m.wordIn len i with
    | (m, none) => return (m, none)
    | (m, some i) =>
      let m := { m with protoId := some i }
      let k ← m.delimIn len i 0 0
      let m ← m.pokeIn len (i + k)
      return (m, some (i + k + 1))

/-- The words of the first line. -/
def parseStartWordsIn (m : Pmsg) (len : ℕ) : Except Fault (Pmsg × Option ℕ) := do
  if len < 4 then return (m, none)
  let i ← runIn (fun b => b ≠ SP && b ≠ SLASH) m.mem len 0 len
  if i = len then return (m, none)
  if (← m.byteIn len i) = SLASH then m.parseResponseLineIn len else m.parseRequestLineIn len

/-- `if( i < len && d[i] == '\r' ) ++i`: the index reached. -/
def skipCRIn (m : Pmsg) (len i : ℕ) : Except Fault ℕ := do
  if i < len then
    if (← m.byteIn len i) = CR then return i + 1
  return i

/-- The end of the first line. -/
def closeLineIn (m : Pmsg) (len i : ℕ) : Except Fault (Option ℕ) := do
  let i ← m.skipSpacesIn len i
  let i ← m.skipCRIn len i
  if i ≥ len then return none
  if (← m.byteIn len i) ≠ LF then return none
  return some (i + 1)

/-- The name of a header line. -/
def parseHeaderNameIn (m : Pmsg) (len i : ℕ) : Except Fault (Pmsg × Option ℕ) := do
  let b ← m.byteIn len i
  if b = TAB ∨ b = SP then return (m, none)
  let m ← m.setName m.headerCount (some i)
  let k ← m.delimIn len i SP COLON
  let q := i + k
  if q ≥ len then return (m, none)
  if (← m.byteIn len q) = SP then
    let m ← m.pokeIn len q
    let c ← m.skipSpacesIn len (q + 1)
    if c ≥ len then return (m, none)
    if (← m.byteIn len c) ≠ COLON then return (m, none)
    let m ← m.pokeIn len c
    return (m, some (c + 1))
  else
    if (← m.byteIn len q) ≠ COLON then return (m, none)
    let m ← m.pokeIn len q
    return (m, some (q + 1))

/-- The value of a header line. -/
def parseHeaderValueIn (m : Pmsg) (len i : ℕ) : Except Fault (Pmsg × Option ℕ) := do
  let k ← runIn (fun b => b = SP || b = TAB) m.mem len i (len - i)
  let a := i + k
  let m ← m.setValue m.headerCount (some a)
  let k ← m.delimIn len a 0 0
  let b := a + k
  let m ← m.pokeIn len b
  if b + 1 ≥ len then return (m, none)
  if (← m.byteIn len (b + 1)) ≠ LF then return (m, none)
  return ({ m with headerCount := m.headerCount + 1 }, some (b + 2))

/-- The loop over the header lines from `i` on. -/
def parseHeaderLinesIn (len : ℕ) : ℕ → Pmsg → ℕ → Except Fault (Pmsg × ℤ)
  | 0, _, _ => .error .loop
  | fuel + 1, m, i => do
    let i ← m.skipCRIn len i
    if i = len then return (m, (len : ℤ))
    if (← m.byteIn len i) = LF then return (m, (i : ℤ) + 1)
    match ← m.parseHeaderNameIn len i with
    | (m, none) => return (m, -1)
    | (m, some i) =>
      match ← m.parseHeaderValueIn len i with
      | (m, none) => return (m, -1)
      | (m, some i) => parseHeaderLinesIn len fuel m i

/-- `parse_pmsg` with checked accesses. -/
def parsePmsgIn (m : Pmsg) : Except Fault (Pmsg × ℤ) := do
  let len := m.msgLen
  match ← { m with headerCount := 0 }.parseStartWordsIn len with
  | (m, none) => return (m, -1)
  | (m, some i) =>
    match ← m.closeLineIn len i with
    | none => return (m, -1)
    | some i => parseHeaderLinesIn len (len + 1) m i

/-! ## Accesses within the text -/

section Checked

variable {m : Pmsg} {len i : ℕ}

/-- A scan that is bounded by the length reads nothing behind it. -/
theorem runIn_eq (p : UInt8 → Bool) (mem : ℕ → UInt8) {d n : ℕ} (h : d + n ≤ len ∨ n = 0) :
    runIn p mem len d n = .ok (run p mem d n) := by
  induction n generalizing d with
  | zero => rfl
  | succ n ih =>
    have hd : d < len := by omega
    rw [runIn, run, if_pos hd]
    by_cases hp : p (mem d) = true
    · rw [if_pos hp, if_pos hp, ih (by omega)]
      rfl
    · rw [if_neg hp, if_neg hp]
      rfl

/-- The search stays inside the message. -/
@[simp] theorem delimIn_eq (m : Pmsg) (len i : ℕ) (t₁ t₂ : UInt8) :
    m.delimIn len i t₁ t₂ = .ok (delim m.mem i (len - i) t₁ t₂) :=
  runIn_eq _ _ (by omega)

/-- The search stays inside the message. -/
@[simp] theorem skipSpacesIn_eq (m : Pmsg) (len i : ℕ) :
    m.skipSpacesIn len i = .ok (skipSpaces m.mem i len) := by
  rw [skipSpacesIn, runIn_eq _ _ (by omega)]
  rfl

/-- A byte of the text. -/
theorem byteIn_eq (h : i < len) : m.byteIn len i = .ok (m.mem i) := if_pos h

/-- A byte of the text is overwritten. -/
theorem pokeIn_eq (h : i < len) : m.pokeIn len i = .ok (m.poke i 0) := if_pos h

/-- The search stays inside the message. -/
@[simp] theorem skipCRIn_eq (m : Pmsg) (len i : ℕ) : m.skipCRIn len i = .ok (skipCR m.mem len i) := by
  unfold skipCRIn skipCR
  by_cases h : i < len
  · rw [if_pos h, byteIn_eq h, ok_bind]
    by_cases hcr : m.mem i = CR
    · rw [if_pos hcr, if_pos ⟨h, hcr⟩]
      rfl
    · rw [if_neg hcr, if_neg fun hc => hcr hc.2]
      rfl
  · rw [if_neg h, if_neg fun hc => h hc.1]
    rfl

/-- The response code. -/
theorem codeIn_eq (m : Pmsg) (len i : ℕ) :
    m.codeIn len i = .ok (
      if len - i < 4 ∨ !isDigit (m.mem i) ∨ !isDigit (m.mem (i + 1)) ∨ !isDigit (m.mem (i + 2)) ∨
        m.mem (i + 3) ≠ SP then none
      else some (((m.mem i).toNat - 48) * 100 + ((m.mem (i + 1)).toNat - 48) * 10 +
        ((m.mem (i + 2)).toNat - 48))) := by
  unfold codeIn
  by_cases hlen : len - i < 4
  · rw [if_pos hlen, if_pos (.inl hlen)]
    rfl
  rw [if_neg hlen, byteIn_eq (by omega), byteIn_eq (by omega), byteIn_eq (by omega),
    byteIn_eq (by omega)]
  simp only [ok_bind]
  split_ifs <;> first | rfl | (exfalso; tauto)

/-- Nothing is read or written behind a word with a line end before the length. -/
theorem wordIn_eq (m : Pmsg) (len i : ℕ) :
    m.wordIn len i =
      .ok (let k := i + delim m.mem i (len - i) SP 0
        if k ≥ len ∨ m.mem k ≠ SP then (m, none)
        else (m.poke k 0, some (skipSpaces (m.poke k 0).mem (k + 1) len))) := by
  unfold wordIn
  rw [delimIn_eq, ok_bind]
  dsimp only
  by_cases hk : i + delim m.mem i (len - i) SP 0 ≥ len
  · rw [if_pos hk, if_pos (.inl hk)]
    rfl
  · rw [if_neg hk, byteIn_eq (by omega), ok_bind]
    by_cases hsp : m.mem (i + delim m.mem i (len - i) SP 0) ≠ SP
    · rw [if_pos hsp, if_pos (.inr hsp)]
      rfl
    · rw [if_neg hsp, if_neg (not_or.2 ⟨hk, hsp⟩), pokeIn_eq (by omega), ok_bind, skipSpacesIn_eq]
      rfl

end Checked

end Pmsg

/-- The part of an empty line at `p` that does not lie before `i`, which is at most in its
middle. -/
structure Ahead (mem : ℕ → UInt8) (len p i : ℕ) : Prop where
  room : p + 4 ≤ len
  here : i ≤ p + 2
  cr : i ≤ p → mem p = CR
  lf : i ≤ p + 1 → mem (p + 1) = LF
  cr' : mem (p + 2) = CR
  lf' : mem (p + 3) = LF

/-- There is an empty line before the first NUL: `strstr( msg, "\r\n\r\n" )` finds one. -/
def HeadersEnd (mem : ℕ → UInt8) (len : ℕ) : Prop :=
  ∃ p, p + 4 ≤ len ∧ (∀ j < p, mem j ≠ 0) ∧
    mem p = CR ∧ mem (p + 1) = LF ∧ mem (p + 2) = CR ∧ mem (p + 3) = LF

section Ahead

variable {mem mem' : ℕ → UInt8} {len p i i' : ℕ}

/-- Further on, in a memory that is the same from there. -/
theorem Ahead.of_above (h : Ahead mem len p i) (hi : i ≤ i') (hp : i' ≤ p + 2)
    (hm : ∀ j, i' ≤ j → mem' j = mem j) : Ahead mem' len p i' where
  room := h.room
  here := hp
  cr hc := (hm p hc).trans (h.cr (hi.trans hc))
  lf hc := (hm _ hc).trans (h.lf (hi.trans hc))
  cr' := (hm _ hp).trans h.cr'
  lf' := (hm _ (by omega)).trans h.lf'

/-- A scan that passes no carriage return stays before the empty line. -/
theorem Ahead.delim_le (h : Ahead mem len p i) (hi : i ≤ p) (n : ℕ) (t₁ t₂ : UInt8) :
    i + delim mem i n t₁ t₂ ≤ p := by
  by_contra hlt
  exact (delim_pass hi (by omega : p < i + delim mem i n t₁ t₂)).2.2.1 (h.cr hi)

/-- A scan for spaces stays before the empty line. -/
theorem Ahead.skipSpaces_le (h : Ahead mem len p i) (hi : i ≤ p) : skipSpaces mem i len ≤ p := by
  by_contra hlt
  have hsp := skipSpaces_pass hi (by omega : p < skipSpaces mem i len)
  rw [h.cr hi] at hsp
  cases hsp

/-- A scan for blanks stays before the empty line. -/
theorem Ahead.blanks_le (h : Ahead mem len p i) (hi : i ≤ p) :
    i + run (fun b => b = SP || b = TAB) mem i (len - i) ≤ p := by
  by_contra hlt
  have hsp := run_pass hi (by omega : p < i + run (fun b => b = SP || b = TAB) mem i (len - i))
  rw [h.cr hi] at hsp
  cases hsp

/-- A line that ends before the empty line or in its first half. -/
theorem Ahead.close {d : ℕ} (h : Ahead mem len p d) (hd : d ≤ p + 1)
    (hc : LineClose mem len d i) : i ≤ p ∨ i = p + 2 := by
  obtain ⟨s, hds, hsp, -, hend⟩ := hc
  have hlf := h.lf hd
  rcases hd.lt_or_eq with hd | rfl
  · have hcr := h.cr (by omega)
    have hs : s ≤ p := by
      by_contra hlt
      have hspace := hsp p (by omega) (by omega)
      rw [hcr] at hspace
      cases hspace
    have hne : ∀ j, mem j = LF → j ≠ p := by
      rintro j hj rfl
      rw [hcr] at hj
      cases hj
    rcases hend with ⟨hs', rfl⟩ | ⟨-, hs', rfl⟩
    · have hsne := hne _ hs'
      omega
    · have hsne := hne _ hs'
      omega
  · have hs : s = p + 1 := by
      by_contra hne
      have hspace := hsp (p + 1) le_rfl (by omega)
      rw [hlf] at hspace
      cases hspace
    rw [hs, hlf] at hend
    rcases hend with ⟨-, rfl⟩ | ⟨hcr, -⟩
    · exact .inr rfl
    · cases hcr

/-- A carriage return before a header line that is skipped. -/
theorem Ahead.skipCR (h : Ahead mem len p i) (hi : i ≤ p ∨ i = p + 2) :
    (Spook.skipCR mem len i ≤ p ∧ i ≤ Spook.skipCR mem len i) ∨
      (Spook.skipCR mem len i < len ∧ mem (Spook.skipCR mem len i) = LF) := by
  have hroom := h.room
  unfold Spook.skipCR
  rcases hi with hi | rfl
  · by_cases hcr : i < len ∧ mem i = CR
    · rw [if_pos hcr]
      rcases hi.lt_or_eq with hlt | rfl
      · exact .inl ⟨hlt, Nat.le_succ i⟩
      · exact .inr ⟨by omega, h.lf (by omega)⟩
    · rw [if_neg hcr]
      exact .inl ⟨hi, le_rfl⟩
  · rw [if_pos ⟨by omega, h.cr'⟩]
    exact .inr ⟨by omega, h.lf'⟩

/-- The response code stands before the empty line. -/
theorem Ahead.code_le {d : ℕ} (h : Ahead mem len p i) (hi : i ≤ d) (hd : d ≤ p)
    (hcode : ¬ (len - d < 4 ∨ !isDigit (mem d) ∨ !isDigit (mem (d + 1)) ∨
      !isDigit (mem (d + 2)) ∨ mem (d + 3) ≠ SP)) : d + 4 ≤ p := by
  have hcr : mem p = CR := h.cr (hi.trans hd)
  simp only [not_or, Bool.not_eq_true', Bool.not_eq_false, not_not] at hcode
  obtain ⟨-, h₀, h₁, h₂, h₃⟩ := hcode
  have hp : ∀ j, isDigit (mem j) = true → j ≠ p := by
    rintro j hj rfl
    rw [hcr] at hj
    cases hj
  have hp' : d + 3 ≠ p := by
    intro he
    rw [he, hcr] at h₃
    cases h₃
  have h0 := hp _ h₀
  have h1 := hp _ h₁
  have h2 := hp _ h₂
  omega

end Ahead

namespace Pmsg

section Checked

variable {m : Pmsg} {len p i : ℕ}

/-- The first line of a response, in a text with an empty line. -/
theorem parseResponseLineIn_eq (h : Ahead m.mem len p 0) :
    m.parseResponseLineIn len = .ok (m.parseResponseLine len) := by
  have hroom := h.room
  have hw := h.delim_le (Nat.zero_le p) len SP 0
  unfold parseResponseLineIn parseResponseLine
  dsimp only
  rw [delimIn_eq, ok_bind]
  dsimp only
  rw [Nat.sub_zero]
  generalize delim m.mem 0 len SP 0 = w at hw
  rw [byteIn_eq (by omega), ok_bind]
  dsimp only
  by_cases hsp : m.mem w ≠ SP
  · rw [if_pos hsp, if_pos hsp]
    rfl
  have hwp : w ≠ p := fun he => hsp (by rw [he, h.cr (Nat.zero_le p)]; decide)
  rw [if_neg hsp, if_neg hsp, pokeIn_eq (by omega), ok_bind]
  generalize hm₁ : poke _ w 0 = m₁
  have h₁ : Ahead m₁.mem len p (w + 1) := h.of_above (Nat.zero_le _) (by omega) fun j hj => by
    rw [← hm₁]
    exact Function.update_of_ne (by omega) _ _
  have hd := h₁.skipSpaces_le (by omega)
  have hwd := le_skipSpaces m₁.mem (w + 1) len
  rw [skipSpacesIn_eq, ok_bind, codeIn_eq, ok_bind]
  generalize skipSpaces m₁.mem (w + 1) len = d at hd hwd
  by_cases hcode : len - d < 4 ∨ !isDigit (m₁.mem d) ∨ !isDigit (m₁.mem (d + 1)) ∨
      !isDigit (m₁.mem (d + 2)) ∨ m₁.mem (d + 3) ≠ SP
  · rw [if_pos hcode, if_pos hcode]
    rfl
  rw [if_neg hcode, if_neg hcode]
  have hdp : d + 4 ≤ p := h₁.code_le hwd hd hcode
  have h₂ : Ahead m₁.mem len p (d + 4) := h₁.of_above (by omega) (by omega) fun _ _ => rfl
  have hr := h₂.skipSpaces_le hdp
  have hdr := le_skipSpaces m₁.mem (d + 4) len
  dsimp only
  rw [skipSpacesIn_eq, ok_bind]
  dsimp only
  generalize skipSpaces m₁.mem (d + 4) len = r at hr hdr
  have h₃ : Ahead m₁.mem len p r := h₂.of_above hdr (by omega) fun _ _ => rfl
  rw [delimIn_eq, ok_bind, pokeIn_eq (by have := h₃.delim_le hr (len - r) 0 0; dsimp only; omega)]
  rfl

/-- The first line of a request, in a text with an empty line. -/
theorem parseRequestLineIn_eq (h : Ahead m.mem len p 0) :
    m.parseRequestLineIn len = .ok (m.parseRequestLine len) := by
  have hroom := h.room
  have hw := h.delim_le (Nat.zero_le p) len SP 0
  unfold parseRequestLineIn parseRequestLine
  dsimp only
  rw [wordIn_eq, ok_bind]
  dsimp only
  rw [Nat.sub_zero, Nat.zero_add]
  generalize delim m.mem 0 len SP 0 = w at hw
  by_cases hsp : w ≥ len ∨ m.mem w ≠ SP
  · rw [if_pos hsp, if_pos hsp]
    rfl
  rw [if_neg hsp, if_neg hsp]
  have hwp : w ≠ p := fun he => hsp (.inr (by rw [he, h.cr (Nat.zero_le p)]; decide))
  generalize hm₁ : poke _ w 0 = m₁
  have h₁ : Ahead m₁.mem len p (w + 1) := h.of_above (Nat.zero_le _) (by omega) fun j hj => by
    rw [← hm₁]
    exact Function.update_of_ne (by omega) _ _
  have hv := h₁.skipSpaces_le (by omega)
  have hwv := le_skipSpaces m₁.mem (w + 1) len
  generalize skipSpaces m₁.mem (w + 1) len = v at hv hwv
  dsimp only
  have hu := (h₁.of_above hwv (by omega) fun _ _ => rfl).delim_le hv (len - v) SP 0
  rw [wordIn_eq, ok_bind]
  dsimp only
  generalize hvu : v + delim m₁.mem v (len - v) SP 0 = u at hu
  have hvu' : v ≤ u := hvu ▸ Nat.le_add_right _ _
  by_cases hsp₂ : u ≥ len ∨ m₁.mem u ≠ SP
  · rw [if_pos hsp₂, if_pos hsp₂]
    rfl
  rw [if_neg hsp₂, if_neg hsp₂]
  have hup : u ≠ p := fun he => hsp₂ (.inr (by rw [he, h₁.cr (by omega)]; decide))
  generalize hm₂ : poke _ u 0 = m₂
  have h₂ : Ahead m₂.mem len p (u + 1) := h₁.of_above (by omega) (by omega) fun j hj => by
    rw [← hm₂]
    exact Function.update_of_ne (by omega) _ _
  have hx := h₂.skipSpaces_le (by omega)
  have hux := le_skipSpaces m₂.mem (u + 1) len
  generalize skipSpaces m₂.mem (u + 1) len = x at hx hux
  dsimp only
  have he := (h₂.of_above hux (by omega) fun _ _ => rfl).delim_le hx (len - x) 0 0
  rw [delimIn_eq, ok_bind, pokeIn_eq (by dsimp only; omega)]
  rfl

/-- The end of a line is closed within the text. -/
theorem closeLineIn_eq (m : Pmsg) (len i : ℕ) : m.closeLineIn len i = .ok (closeLine m.mem len i) := by
  unfold closeLineIn closeLine
  rw [skipSpacesIn_eq, ok_bind, skipCRIn_eq, ok_bind]
  dsimp only
  change _ = Except.ok (if skipCR m.mem len (skipSpaces m.mem i len) ≥ len ∨
    m.mem (skipCR m.mem len (skipSpaces m.mem i len)) ≠ LF then none
    else some (skipCR m.mem len (skipSpaces m.mem i len) + 1))
  generalize skipCR m.mem len (skipSpaces m.mem i len) = s
  by_cases hs : s ≥ len
  · rw [if_pos hs, if_pos (.inl hs)]
    rfl
  · rw [if_neg hs, byteIn_eq (by omega), ok_bind]
    by_cases hlf : m.mem s ≠ LF
    · rw [if_pos hlf, if_pos (.inr hlf)]
      rfl
    · rw [if_neg hlf, if_neg (not_or.2 ⟨hs, hlf⟩)]
      rfl

/-- The words of the first line, in a text with an empty line. -/
theorem parseStartWordsIn_eq (h : Ahead m.mem len p 0) :
    m.parseStartWordsIn len = .ok (m.parseStartWords len) := by
  unfold parseStartWordsIn parseStartWords
  have hle : run (fun b => b ≠ SP && b ≠ SLASH) m.mem 0 len ≤ len := run_le 0 len
  rw [runIn_eq _ _ (.inl (Nat.zero_add len).le)]
  dsimp only
  generalize run (fun b => b ≠ SP && b ≠ SLASH) m.mem 0 len = s at hle
  by_cases hlen : len < 4
  · rw [if_pos hlen, if_pos hlen]
    rfl
  rw [if_neg hlen, if_neg hlen, ok_bind]
  by_cases hs : s = len
  · rw [if_pos hs, if_pos hs]
    rfl
  rw [if_neg hs, if_neg hs, byteIn_eq (by omega), ok_bind, parseResponseLineIn_eq h,
    parseRequestLineIn_eq h]
  split_ifs <;> rfl

/-- The name of a header line that begins within the text. -/
theorem parseHeaderNameIn_eq (m : Pmsg) (h : i < len) :
    m.parseHeaderNameIn len i = m.parseHeaderName len i := by
  unfold parseHeaderNameIn parseHeaderName
  rw [byteIn_eq h, ok_bind]
  by_cases hb : m.mem i = TAB ∨ m.mem i = SP
  · rw [if_pos hb, if_pos hb]
  rw [if_neg hb, if_neg hb]
  rcases hn : m.setName m.headerCount (some i) with e | m₁
  · rfl
  rw [ok_bind, ok_bind, delimIn_eq, ok_bind]
  dsimp only
  have hmem : m₁.mem = m.mem := by
    unfold setName at hn
    split_ifs at hn
    cases hn
    rfl
  generalize i + delim m₁.mem i (len - i) SP COLON = q
  by_cases hq : q ≥ len
  · rw [if_pos hq, if_pos hq]
  rw [if_neg hq, if_neg hq, byteIn_eq (by omega), ok_bind]
  by_cases hsp : m₁.mem q = SP
  · simp only [if_pos hsp]
    rw [pokeIn_eq (by omega), ok_bind, skipSpacesIn_eq, ok_bind, poke_mem,
      skipSpaces_update (Nat.lt_succ_self q)]
    generalize skipSpaces m₁.mem (q + 1) len = c
    by_cases hc : c ≥ len
    · rw [if_pos hc, if_pos (.inl hc)]
    rw [if_neg hc, byteIn_eq (by omega), ok_bind]
    rw [poke_mem]
    by_cases hcol : Function.update m₁.mem q 0 c ≠ COLON
    · rw [if_pos hcol, if_pos (.inr hcol)]
    · rw [if_neg hcol, if_neg (not_or.2 ⟨hc, hcol⟩), pokeIn_eq (by omega)]
      rfl
  · simp only [if_neg hsp]
    rw [ok_bind]
    by_cases hcol : m₁.mem q ≠ COLON
    · rw [if_pos hcol, if_pos (.inr hcol)]
    · rw [if_neg hcol, if_neg (not_or.2 ⟨hq, hcol⟩), pokeIn_eq (by omega)]
      rfl

/-- The value of a header line that begins before the empty line. -/
theorem parseHeaderValueIn_eq (h : Ahead m.mem len p i) (hi : i ≤ p) :
    m.parseHeaderValueIn len i = m.parseHeaderValue len i := by
  unfold parseHeaderValueIn parseHeaderValue
  have ha := h.blanks_le hi
  rw [runIn_eq _ _ (by omega), ok_bind]
  dsimp only
  have hia : i ≤ i + run (fun b => b = SP || b = TAB) m.mem i (len - i) := Nat.le_add_right _ _
  generalize i + run (fun b => b = SP || b = TAB) m.mem i (len - i) = a at ha hia
  rcases hv : m.setValue m.headerCount (some a) with e | m₁
  · rfl
  have hmem : m₁.mem = m.mem := by
    unfold setValue at hv
    split_ifs at hv
    cases hv
    rfl
  have h₁ : Ahead m₁.mem len p a := h.of_above hia (by omega) fun _ _ => by rw [hmem]
  have hroom := h₁.room
  have hb := h₁.delim_le ha (len - a) 0 0
  rw [ok_bind, ok_bind, delimIn_eq, ok_bind]
  generalize a + delim m₁.mem a (len - a) 0 0 = b at hb
  rw [pokeIn_eq (by omega), ok_bind]
  by_cases hlen : b + 1 ≥ len
  · rw [if_pos hlen, if_pos (.inl hlen)]
  · rw [if_neg hlen, byteIn_eq (by omega), ok_bind]
    by_cases hlf : (m₁.poke b 0).mem (b + 1) ≠ LF
    · rw [if_pos hlf, if_pos (.inr hlf)]
    · rw [if_neg hlf, if_neg (not_or.2 ⟨hlen, hlf⟩)]

/-- A name that is stored had a field to be stored in. -/
theorem parseHeaderName_room {m' : Pmsg} {i' : ℕ}
    (h : m.parseHeaderName len i = .ok (m', some i')) : m.headerCount < maxFields := by
  by_contra hk
  unfold parseHeaderName setName at h
  rw [if_neg hk] at h
  split_ifs at h
  · cases h
  · cases h

/-- Behind a header name the empty line is still ahead. -/
theorem HeaderNameStep.ahead {m' : Pmsg} {i' : ℕ} (hs : HeaderNameStep m len i m' (some i'))
    (h : Ahead m.mem len p i) (hi : i ≤ p) : Ahead m'.mem len p i' ∧ i' ≤ p := by
  obtain ⟨q, c, hiq, hqc, -, rfl, -, hname, hspaces, hcol, -, -, habove⟩ := hs.done _ rfl
  have hcr := h.cr hi
  have hcp : c < p := by
    rcases Nat.lt_trichotomy c p with hlt | rfl | hlt
    · exact hlt
    · rw [hcr] at hcol
      cases hcol
    · rcases Nat.lt_or_ge p q with hpq | hpq
      · exact absurd hcr (hname p hi hpq).2.2.1
      · have hsp := hspaces p hpq hlt
        rw [hcr] at hsp
        cases hsp
  exact ⟨h.of_above (by omega) (by omega) fun j hj => habove j (by omega), hcp⟩

/-- Behind a header value the empty line is still ahead, or half of it is behind. -/
theorem HeaderValueStep.ahead {m' : Pmsg} {i' : ℕ} (hs : HeaderValueStep m len i m' (some i'))
    (h : Ahead m.mem len p i) (hi : i ≤ p) : Ahead m'.mem len p i' ∧ (i' ≤ p ∨ i' = p + 2) := by
  obtain ⟨a, b, hia, hab, -, rfl, hblanks, -, hval, -, hlf, -, -, -, hother⟩ := hs.done _ rfl
  have hcr := h.cr hi
  have hbp : b ≤ p := by
    by_contra hlt
    rcases Nat.lt_or_ge p a with hpa | hpa
    · have hb := hblanks p hi hpa
      rw [hcr] at hb
      exact absurd hb (by decide)
    · exact hval p hpa (by omega) (.inr (.inl hcr))
  have hne : b + 1 ≠ p := by
    intro he
    rw [he, hcr] at hlf
    cases hlf
  exact ⟨h.of_above (by omega) (by omega) fun j hj => hother j (by omega), by omega⟩

/-- The loop over the header lines stays within the text. -/
theorem parseHeaderLinesIn_eq (fuel : ℕ) (h : Ahead m.mem len p i) (hi : i ≤ p ∨ i = p + 2) :
    parseHeaderLinesIn len fuel m i = parseHeaderLines len fuel m i := by
  induction fuel generalizing m i with
  | zero => rfl
  | succ fuel ih =>
    have hroom := h.room
    unfold parseHeaderLinesIn parseHeaderLines
    have hcr : (if i < len ∧ m.mem i = CR then i + 1 else i) = skipCR m.mem len i := rfl
    rw [skipCRIn_eq, ok_bind]
    dsimp only
    rw [hcr]
    have hskip := h.skipCR hi
    generalize skipCR m.mem len i = s at hskip
    have hs : s < len := by omega
    rw [if_neg hs.ne, if_neg hs.ne, byteIn_eq hs, ok_bind]
    by_cases hlf : m.mem s = LF
    · rw [if_pos hlf, if_pos hlf]
    rw [if_neg hlf, if_neg hlf, parseHeaderNameIn_eq m hs]
    obtain ⟨hsp, his⟩ := hskip.resolve_right fun hc => hlf hc.2
    have h₁ : Ahead m.mem len p s := h.of_above his (by omega) fun _ _ => rfl
    unfold parseHeaderLine
    rcases hn : m.parseHeaderName len s with e | ⟨m₁, _ | i₁⟩
    · rfl
    · rfl
    have hk := parseHeaderName_room hn
    have hname := parseHeaderName_spec hk hn
    obtain ⟨h₂, hi₁⟩ := hname.ahead h₁ hsp
    rw [ok_bind, ok_bind]
    dsimp only
    rw [parseHeaderValueIn_eq h₂ hi₁]
    rcases hv : m₁.parseHeaderValue len i₁ with e | ⟨m₂, _ | i₂⟩
    · rfl
    · rfl
    have hvalue := parseHeaderValue_spec (hname.count ▸ hk) hv
    obtain ⟨h₃, hi₂⟩ := hvalue.ahead h₂ hi₁
    exact ih h₃ hi₂

/-- **The accesses of the parser.** In a text with an empty line they are all within the text. -/
theorem parsePmsgIn_eq (h : HeadersEnd m.mem m.msgLen) : m.parsePmsgIn = m.parsePmsg := by
  obtain ⟨p, hroom, -, hcr, hlf, hcr', hlf'⟩ := h
  have h₀ : Ahead ({ m with headerCount := 0 } : Pmsg).mem m.msgLen p 0 :=
    ⟨hroom, Nat.zero_le _, fun _ => hcr, fun _ => hlf, hcr', hlf'⟩
  unfold parsePmsgIn parsePmsg parseStartLine
  dsimp only
  rw [parseStartWordsIn_eq h₀, ok_bind]
  rcases hw : ({ m with headerCount := 0 } : Pmsg).parseStartWords m.msgLen with ⟨m₁, _ | i⟩
  · rfl
  obtain ⟨e, rfl, hstep, -⟩ := parseStartWords_spec hw
  have hep : e ≤ p := by
    by_contra hlt
    exact hstep.inner p (by omega) (.inr (.inl hcr))
  have h₁ : Ahead m₁.mem m.msgLen p (e + 1) := h₀.of_above (Nat.zero_le _) (by omega) hstep.above
  dsimp only
  rw [closeLineIn_eq, ok_bind]
  rcases hc : closeLine m₁.mem m.msgLen (e + 1) with _ | i
  · rfl
  obtain ⟨hei, hclose⟩ := closeLine_spec hc
  have hi := h₁.close (by omega) hclose
  exact parseHeaderLinesIn_eq _ (h₁.of_above hei.le (by omega) fun _ _ => rfl) hi

end Checked

/-! ## Texts with too many headers -/

section Full

variable {m : Pmsg} {mem : ℕ → UInt8} {len i : ℕ}

/-- A scan that ends at `e`. -/
theorem run_to {p : UInt8 → Bool} {d e n : ℕ} (hde : d ≤ e) (hen : e < d + n)
    (hp : ∀ j, d ≤ j → j < e → p (mem j) = true) (hs : p (mem e) = false) :
    d + run p mem d n = e := by
  have hstop : p (mem (d + (e - d))) = false := by rwa [Nat.add_sub_cancel' hde]
  rw [run_eq (by omega : e - d < n) (fun j h1 h2 => hp j h1 (by omega)) hstop]
  omega

/-- The byte at which a scan for a delimiter stops. -/
theorem delim_stop {d n : ℕ} {t₁ t₂ : UInt8} (h : delim mem d n t₁ t₂ < n) :
    mem (d + delim mem d n t₁ t₂) = t₁ ∨ mem (d + delim mem d n t₁ t₂) = t₂ ∨
      mem (d + delim mem d n t₁ t₂) = CR ∨ mem (d + delim mem d n t₁ t₂) = LF := by
  have hs := run_stop h
  simpa [delim, or_iff_not_imp_left] using hs

/-- A word that ends in a space before the line does. -/
theorem delim_space {d u e : ℕ} (hdu : d ≤ u) (hue : u < e) (hel : e ≤ len) (hu : mem u = SP)
    (hin : ∀ j, d ≤ j → j < e → ¬ isEol (mem j)) :
    d + delim mem d (len - d) SP 0 ≤ u ∧ mem (d + delim mem d (len - d) SP 0) = SP := by
  have hle : d + delim mem d (len - d) SP 0 ≤ u := by
    by_contra hlt
    exact (delim_pass hdu (by omega : u < d + delim mem d (len - d) SP 0)).1 hu
  refine ⟨hle, ?_⟩
  have hne : ¬ isEol (mem (d + delim mem d (len - d) SP 0)) :=
    hin _ (by omega) (by omega)
  rcases delim_stop (by omega : delim mem d (len - d) SP 0 < len - d) with h | h | h | h
  · exact h
  · exact absurd (.inl h) hne
  · exact absurd (.inr (.inl h)) hne
  · exact absurd (.inr (.inr h)) hne

/-- A request line is parsed. -/
theorem parseRequestLine_of_words {e : ℕ} (hin : ∀ j < e, ¬ isEol (m.mem j)) (hel : e ≤ len)
    (hw : RequestWords m.mem e) : ∃ m' i, m.parseRequestLine len = (m', some i) := by
  obtain ⟨s, v, u, hsv, hvu, hue, hfirst, hv, hu⟩ := hw
  obtain ⟨hws, hwsp⟩ := delim_space (Nat.zero_le s) (by omega) hel hfirst.2
    fun j _ => hin j
  unfold parseRequestLine
  dsimp only
  rw [Nat.sub_zero, Nat.zero_add] at hws hwsp
  generalize delim m.mem 0 len SP 0 = w at hws hwsp
  rw [if_neg (not_or.2 ⟨by omega, not_not.2 hwsp⟩)]
  generalize hm₁ : poke _ w 0 = m₁
  have hmem : ∀ j, w < j → m₁.mem j = m.mem j := fun j hj => by
    rw [← hm₁]
    exact Function.update_of_ne (by omega) _ _
  have hdv : skipSpaces m₁.mem (w + 1) len ≤ v := by
    by_contra hlt
    have hsp := skipSpaces_pass (by omega : w + 1 ≤ v) (by omega : v < skipSpaces m₁.mem (w + 1) len)
    exact hv (by rwa [hmem v (by omega)] at hsp)
  have hwd := le_skipSpaces m₁.mem (w + 1) len
  generalize skipSpaces m₁.mem (w + 1) len = d at hdv hwd
  have hu₁ : m₁.mem u = SP := (hmem u (by omega)).trans hu
  have hin₁ : ∀ j, d ≤ j → j < e → ¬ isEol (m₁.mem j) := fun j h1 h2 => by
    rw [hmem j (by omega)]
    exact hin j h2
  obtain ⟨hxu, hxsp⟩ := delim_space (by omega : d ≤ u) hue hel hu₁ hin₁
  rw [if_neg (not_or.2 ⟨by omega, not_not.2 hxsp⟩)]
  exact ⟨_, _, rfl⟩

/-- A response line is parsed. -/
theorem parseResponseLine_of_words {e : ℕ} (hin : ∀ j < e, ¬ isEol (m.mem j)) (hel : e ≤ len)
    (hw : StatusWords m.mem e) : ∃ m' i, m.parseResponseLine len = (m', some i) := by
  obtain ⟨s, w, d, hsw, hwd, hde, -, -, hword, hspaces, hd₁, hd₂, hd₃, hd₄⟩ := hw
  have hw : delim m.mem 0 len SP 0 = w := by
    rw [← Nat.zero_add (delim _ _ _ _ _)]
    refine run_to (Nat.zero_le w) (by omega) (fun j _ h2 => ?_) (by simp [hspaces w le_rfl hwd])
    have hj := hin j (by omega)
    unfold isEol at hj
    rw [not_or, not_or] at hj
    simp [hword j h2, hj]
  unfold parseResponseLine
  dsimp only
  rw [hw, if_neg (not_not.2 (hspaces w le_rfl hwd))]
  generalize hm₁ : poke _ w 0 = m₁
  have hmem : ∀ j, w < j → m₁.mem j = m.mem j := fun j hj => by
    rw [← hm₁]
    exact Function.update_of_ne (by omega) _ _
  have hskip : skipSpaces m₁.mem (w + 1) len = d := by
    refine run_to hwd (by omega) (fun j h1 h2 => ?_) ?_
    · rw [hmem j h1]
      simpa using hspaces j (by omega) h2
    · rw [hmem d hwd]
      by_contra hsp
      have hsp' : m.mem d = SP := by simpa using hsp
      rw [hsp'] at hd₁
      cases hd₁
  rw [hskip, hmem d hwd, hmem (d + 1) (by omega), hmem (d + 2) (by omega), hmem (d + 3) (by omega),
    if_neg (by simp [hd₁, hd₂, hd₃, hd₄]; omega)]
  exact ⟨_, _, rfl⟩

/-- The words of a start line are parsed up to its end. -/
theorem parseStartWords_of_line {e : ℕ} (h : StartLineAt m.mem len e i) :
    ∃ m', m.parseStartWords len = (m', some (e + 1)) := by
  obtain ⟨s, hes, -, hil, hend⟩ := id h.close
  have hel : e < len := by omega
  have hfirst : ∀ s < len, (∀ j < s, m.mem j ≠ SP ∧ m.mem j ≠ SLASH) →
      (m.mem s = SP ∨ m.mem s = SLASH) → run (fun b => b ≠ SP && b ≠ SLASH) m.mem 0 len = s := by
    intro s hs hbefore hat
    rw [← Nat.zero_add (run _ _ _ _)]
    refine run_to (Nat.zero_le s) (by omega) (fun j _ h2 => by simp [hbefore j h2]) ?_
    rcases hat with hat | hat <;> rw [hat] <;> rfl
  have hsome : ∃ m' i, m.parseStartWords len = (m', some i) := by
    unfold parseStartWords
    dsimp only
    rcases h.words with hw | hw
    · obtain ⟨s, v, u, hsv, hvu, hue, ⟨hbefore, hsp⟩, -⟩ := id hw
      rw [if_neg (by omega), hfirst s (by omega) hbefore (.inl hsp), if_neg (by omega), hsp,
        if_neg (by decide)]
      exact parseRequestLine_of_words h.inner hel.le hw
    · obtain ⟨s, w, d, hsw, hwd, hde, hbefore, hsl, -⟩ := id hw
      rw [if_neg (by omega), hfirst s (by omega) hbefore (.inr hsl), if_neg (by omega), if_pos hsl]
      exact parseResponseLine_of_words h.inner hel.le hw
  obtain ⟨m', i', hp⟩ := hsome
  obtain ⟨e', rfl, hstep, -⟩ := parseStartWords_spec hp
  rcases Nat.lt_trichotomy e e' with hlt | rfl | hlt
  · exact absurd h.eol (hstep.inner e hlt)
  · exact ⟨m', hp⟩
  · exact absurd (hstep.eol (by omega)) (h.inner e' hlt)

/-- A line that is closed is found closed. -/
theorem closeLine_of_close {d : ℕ} (h : LineClose mem len d i) : closeLine mem len d = some i := by
  obtain ⟨s, hds, hsp, hil, hend⟩ := h
  have hskip : skipSpaces mem d len = s := by
    refine run_to hds (by omega) (fun j h1 h2 => by simpa using hsp j h1 h2) ?_
    rcases hend with ⟨h, -⟩ | ⟨h, -⟩ <;> rw [h] <;> decide
  unfold closeLine
  rw [hskip]
  dsimp only
  rcases hend with ⟨hlf, rfl⟩ | ⟨hcr, hlf, rfl⟩
  · have hne : ¬ (s < len ∧ mem s = CR) := fun h => by rw [hlf] at h; exact absurd h.2 (by decide)
    rw [if_neg hne, if_neg (not_or.2 ⟨by omega, not_not.2 hlf⟩)]
  · have hlt : s < len ∧ mem s = CR := ⟨by omega, hcr⟩
    rw [if_pos hlt, if_neg (not_or.2 ⟨by omega, not_not.2 hlf⟩)]

/-- The name of a header line is parsed. -/
theorem parseHeaderName_of_line {q c a b i' : ℕ} (hk : m.headerCount < maxFields)
    (h : HeaderLineAt m.mem len i q c a b i') :
    ∃ m', m.parseHeaderName len i = .ok (m', some (c + 1)) := by
  obtain ⟨hiq, hqc, hca, hab, hbl, -⟩ := h.bounds
  have hq : i + delim m.mem i (len - i) SP COLON = q := by
    refine run_to hiq (by omega) (fun j h1 h2 => ?_) ?_
    · obtain ⟨h₁, h₂, h₃, h₄⟩ := h.name j h1 h2
      simp [h₁, h₂, h₃, h₄]
    · rcases hqc.lt_or_eq with hlt | rfl
      · rw [h.spaces q le_rfl hlt]; rfl
      · rw [h.colon]; rfl
  have hc : (if m.mem q = SP then skipSpaces m.mem (q + 1) len else q) = c := by
    rcases hqc.lt_or_eq with hlt | rfl
    · rw [if_pos (h.spaces q le_rfl hlt)]
      refine run_to hlt (by omega)
        (fun j h1 h2 => by simpa using h.spaces j (by omega) h2) ?_
      rw [h.colon]
      rfl
    · rw [if_neg (by rw [h.colon]; decide)]
  unfold parseHeaderName
  rw [if_neg (not_or.2 h.start), setName_ok hk, ok_bind]
  dsimp only
  rw [hq, if_neg (by omega), hc, if_neg]
  · exact ⟨_, rfl⟩
  · refine not_or.2 ⟨by omega, not_not.2 ?_⟩
    split_ifs with hsp
    · have hne : c ≠ q := by
        rintro rfl
        rw [h.colon] at hsp
        cases hsp
      rw [poke_mem, Function.update_of_ne hne]
      exact h.colon
    · exact h.colon

/-- A header line is parsed. -/
theorem parseHeaderLine_of_line {q c a b i' : ℕ} (hk : m.headerCount < maxFields)
    (h : HeaderLineAt m.mem len i q c a b i') :
    ∃ m', m.parseHeaderLine len i = .ok (m', some i') := by
  obtain ⟨m₁, hn⟩ := parseHeaderName_of_line hk h
  have hs := parseHeaderName_spec hk hn
  obtain ⟨hiq, hqc, hca, hab, hbl, rfl⟩ := h.bounds
  have hmem : ∀ j, c < j → m₁.mem j = m.mem j := by
    obtain ⟨q', c', -, -, -, hc', -, -, -, -, -, -, habove⟩ := hs.done _ rfl
    obtain rfl : c = c' := by omega
    exact habove
  have ha : c + 1 + run (fun b => b = SP || b = TAB) m₁.mem (c + 1) (len - (c + 1)) = a := by
    refine run_to hca (by omega) (fun j h1 h2 => ?_) ?_
    · rw [hmem j h1]
      simpa using h.blanks j h1 h2
    · rw [hmem a hca]
      rcases hab.lt_or_eq with hlt | rfl
      · simpa using h.valueStart hlt
      · rcases h.eol.1 with h | h | h <;> rw [h] <;> rfl
  have hb : a + delim m₁.mem a (len - a) 0 0 = b := by
    refine run_to hab (by omega) (fun j h1 h2 => ?_) ?_
    · rw [hmem j (by omega)]
      have hv := h.value j h1 h2
      simpa [isEol, and_assoc] using hv
    · rw [hmem b (by omega)]
      rcases h.eol.1 with h | h | h <;> rw [h] <;> rfl
  unfold parseHeaderLine
  rw [hn, ok_bind]
  dsimp only
  unfold parseHeaderValue
  dsimp only
  rw [ha, setValue_ok (hs.count.symm ▸ hk), ok_bind]
  dsimp only
  rw [hb, if_neg]
  · exact ⟨_, rfl⟩
  · refine not_or.2 ⟨by omega, not_not.2 ?_⟩
    rw [poke_mem, Function.update_of_ne (by omega), hmem _ (by omega)]
    exact h.eol.2

/-- The table runs out in the loop over the header lines. -/
theorem parseHeaderLines_full {fuel n j : ℕ} (hlines : HeaderLines m.mem len i n j)
    (hn : m.headerCount + n = maxFields) (hbegin : HeaderBegins m.mem len j)
    (hfuel : len - i < fuel) : parseHeaderLines len fuel m i = .error .fieldIndex := by
  induction fuel generalizing m i n with
  | zero => omega
  | succ fuel ih =>
    have hcr : (if i < len ∧ m.mem i = CR then i + 1 else i) = skipCR m.mem len i := rfl
    have his : i ≤ skipCR m.mem len i := by unfold skipCR; split_ifs <;> omega
    unfold parseHeaderLines
    dsimp only
    rw [hcr]
    cases hlines with
    | nil =>
      obtain ⟨hlt, hlf, htab, hsp⟩ := hbegin
      rw [if_neg (by omega), if_neg hlf, parseHeaderLine_full (by omega),
        if_neg (not_or.2 ⟨htab, hsp⟩)]
      rfl
    | @cons _ n _ q c a b i' hlt hlf hline hrest =>
      have hk : m.headerCount < maxFields := by omega
      obtain ⟨m', hp⟩ := parseHeaderLine_of_line hk hline
      obtain ⟨q', c', a', b', hline', hcount, -, -, -, habove⟩ :=
        (parseHeaderLine_spec hk hp).done i' rfl
      obtain ⟨-, -, -, -, -, hib⟩ := hline'.bounds
      have hbounds := hline.bounds
      have hmem : ∀ j, i' ≤ j → m'.mem j = m.mem j := fun j hj => habove j (by omega)
      have hij := headerLines_le hrest
      rw [if_neg (by omega), if_neg hlf, hp, ok_bind]
      dsimp only
      refine ih (headerLines_congr hrest hmem) (by omega) ?_ (by omega)
      unfold HeaderBegins skipCR at hbegin ⊢
      rw [hmem j hij]
      split_ifs at hbegin ⊢ <;> rwa [hmem _ (by omega)]

/-- A text with too many headers makes the parser write behind the table. -/
theorem parsePmsg_full (h : TooManyHeaders m) : m.parsePmsg = .error .fieldIndex := by
  obtain ⟨e, i, j, hstart, hlines, hbegin⟩ := h
  obtain ⟨m₁, hw⟩ := parseStartWords_of_line (m := { m with headerCount := 0 }) hstart
  obtain ⟨e', he', hstep, -⟩ := parseStartWords_spec hw
  obtain rfl : e = e' := by omega
  have habove : ∀ j, e + 1 ≤ j → m₁.mem j = m.mem j := hstep.above
  have hclose := closeLine_of_close (lineClose_congr hstart.close habove)
  have hei := (closeLine_spec hclose).1
  have hcount : m₁.headerCount = 0 := by
    have hsame := parseStartWords_same { m with headerCount := 0 } m.msgLen
    rw [hw] at hsame
    exact hsame.headerCount
  have hmem : ∀ j, i ≤ j → m₁.mem j = m.mem j := fun j hj => habove j (by omega)
  unfold parsePmsg parseStartLine
  dsimp only
  rw [hw]
  dsimp only
  rw [hclose]
  refine parseHeaderLines_full (headerLines_congr hlines hmem) (by omega) ?_ (by omega)
  have hij := headerLines_le hlines
  unfold HeaderBegins skipCR at hbegin ⊢
  rw [hmem j hij]
  split_ifs at hbegin ⊢ <;> rwa [hmem _ (by omega)]

/-- **The bytes the parser touches.** In a text with an empty line it touches only bytes of the
text, and it terminates and leaves the message as it should if and only if the text does not have
more headers than the table has fields; in a text that does it writes behind the table. -/
theorem parse_bounds_iff {m : Pmsg} (hu : m.msgLen ≤ m.maxLen) (h : HeadersEnd m.mem m.msgLen) :
    ((∃ m' r, m.parsePmsgIn = .ok (m', r)) ↔ ¬ TooManyHeaders m) ∧
      ∀ e, m.parsePmsgIn = .error e → e = .fieldIndex := by
  rw [parsePmsgIn_eq h]
  refine ⟨⟨?_, fun hfew => ?_⟩, fun e he => ?_⟩
  · rintro ⟨m', r, hp⟩ hmany
    rw [parsePmsg_full hmany] at hp
    cases hp
  · rcases parsePmsg_spec hu with ⟨m', r, hp, -⟩ | ⟨-, hmany⟩
    · exact ⟨m', r, hp⟩
    · exact absurd hmany hfew
  · rcases parsePmsg_spec hu with ⟨m', r, hp, -⟩ | ⟨hp, -⟩
    · rw [hp] at he
      cases he
    · rw [hp] at he
      exact (Except.error.inj he).symm

end Full

end Pmsg

/-- A request with an empty line. -/
def optionsRequest : Pmsg := received (str "OPTIONS * RTSP/1.0\r\nCSeq: 1\r\n\r\n")

/-- A request is parsed within its bytes. -/
theorem parse_bounds_options :
    HeadersEnd optionsRequest.mem optionsRequest.msgLen ∧
      ∃ m' r, optionsRequest.parsePmsgIn = .ok (m', r) := by
  have hend : HeadersEnd optionsRequest.mem optionsRequest.msgLen :=
    ⟨27, by decide +kernel, by decide +kernel, by decide +kernel, by decide +kernel,
      by decide +kernel, by decide +kernel⟩
  have hfew : ¬ TooManyHeaders optionsRequest :=
    Pmsg.not_tooManyHeaders (by change List.length _ ≤ _; decide)
  exact ⟨hend, (Pmsg.parse_bounds_iff le_rfl hend).1.2 hfew⟩

/-- A request with one header line more than the table has fields ends in an empty line, and is
not parsed. -/
theorem parse_leaves_table :
    ∃ m : Pmsg, m.msgLen ≤ m.maxLen ∧ HeadersEnd m.mem m.msgLen ∧
      ¬ ∃ m' r, m.parsePmsgIn = .ok (m', r) := by
  refine ⟨received (str "OPTIONS * RTSP/1.0\r\n" ++
    (List.replicate (maxFields + 1) (str "a:\r\n")).flatten ++ str "\r\n"), le_rfl,
    ⟨150, by decide +kernel, by decide +kernel, by decide +kernel, by decide +kernel,
      by decide +kernel, by decide +kernel⟩, ?_⟩
  rintro ⟨m', r, hp⟩
  have hfault : faultOf (received (str "OPTIONS * RTSP/1.0\r\n" ++
      (List.replicate (maxFields + 1) (str "a:\r\n")).flatten ++ str "\r\n")).parsePmsgIn =
        some .fieldIndex := by decide +kernel
  rw [hp] at hfault
  cases hfault

end Spook
