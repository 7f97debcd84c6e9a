import Spook.Pmsg.Basic

set_option relaxedAutoImplicit false
set_option autoImplicit false

/-!
# The message parser

`parse_pmsg` of `pmsg.c`. The parser works in place: it overwrites the byte behind each word
with a NUL and stores pointers to the words. The header lines are parsed one by one by
`parseHeaderLine`; the loop around it is `parseHeaderLines`.

## Main definitions

* `Spook.run` — how many bytes from a position on satisfy a test; `Spook.delim` is the source's
  helper of the same name.
* `Spook.Pmsg.parseStartLine`, `parseHeaderLine` — the two kinds of line.
* `Spook.Pmsg.parsePmsg` — the function of the same name.

## Main results

* `Spook.run_pass`, `run_stop` — the bytes that a scan passes and the byte at which it stops.
* `Spook.delim_isEol`, `skipSpaces_pass` — the same of the source's own scans.
-/

namespace Spook

/-- The bytes at which a word or the rest of a line ends. -/
def isEol (b : UInt8) : Prop := b = 0 ∨ b = CR ∨ b = LF

instance (b : UInt8) : Decidable (isEol b) := by unfold isEol; infer_instance

/-- The number of bytes from `d` on, at most `n`, up to the first that fails `p`. -/
def run (p : UInt8 → Bool) (mem : ℕ → UInt8) (d : ℕ) : ℕ → ℕ
  | 0 => 0
  | n + 1 => if p (mem d) then run p mem (d + 1) n + 1 else 0

/-- `delim( d, len, term1, term2 )`: the number of bytes before the first of `term1`, `term2`
and the line ends. -/
def delim (mem : ℕ → UInt8) (d len : ℕ) (term1 term2 : UInt8) : ℕ :=
  run (fun b => !(b = term1 || b = term2 || b = CR || b = LF)) mem d len

/-- `while( i < len && d[i] == ' ' ) ++i`: the index reached. -/
def skipSpaces (mem : ℕ → UInt8) (i len : ℕ) : ℕ := i + run (· = SP) mem i (len - i)

/-- `isdigit`. -/
def isDigit (b : UInt8) : Bool := 48 ≤ b && b ≤ 57

/-! ## The scanning loops -/

section Scan

variable {p : UInt8 → Bool} {mem mem' : ℕ → UInt8}

/-- A scan does not pass its bound. -/
theorem run_le (d n : ℕ) : run p mem d n ≤ n := by
  induction n generalizing d with
  | zero => simp [run]
  | succ n ih =>
    simp only [run]
    split_ifs
    · exact Nat.succ_le_succ (ih _)
    · exact Nat.zero_le _

/-- Every byte a scan passes satisfies the test. -/
theorem run_pass {d n j : ℕ} (h1 : d ≤ j) (h2 : j < d + run p mem d n) : p (mem j) = true := by
  induction n generalizing d with
  | zero => simp [run] at h2; omega
  | succ n ih =>
    simp only [run] at h2
    split_ifs at h2 with hp
    · rcases h1.eq_or_lt with rfl | h1
      · exact hp
      · exact ih (d := d + 1) h1 (by omega)
    · omega

/-- The byte at which a scan stops before its bound fails the test. -/
theorem run_stop {d n : ℕ} (h : run p mem d n < n) : p (mem (d + run p mem d n)) = false := by
  induction n generalizing d with
  | zero => simp at h
  | succ n ih =>
    simp only [run] at h ⊢
    split_ifs at h ⊢ with hp
    · have := ih (d := d + 1) (by omega)
      rwa [show d + 1 + run p mem (d + 1) n = d + (run p mem (d + 1) n + 1) by omega] at this
    · simpa using hp

/-- A scan over `k` bytes that satisfy the test and one that fails it stops there. -/
theorem run_eq {d k n : ℕ} (hn : k < n) (hp : ∀ j, d ≤ j → j < d + k → p (mem j) = true)
    (hs : p (mem (d + k)) = false) : run p mem d n = k := by
  have hle : run p mem d n ≤ n := run_le d n
  rcases Nat.lt_trichotomy (run p mem d n) k with h | h | h
  · have h1 : p (mem (d + run p mem d n)) = false := run_stop (by omega)
    rw [hp _ (by omega) (by omega)] at h1
    simp at h1
  · exact h
  · have h1 : p (mem (d + k)) = true := run_pass (d := d) (n := n) (by omega) (by omega)
    rw [hs] at h1
    simp at h1

/-- A scan depends only on the bytes within its bound. -/
theorem run_congr {d n : ℕ} (h : ∀ j, d ≤ j → j < d + n → mem j = mem' j) :
    run p mem d n = run p mem' d n := by
  induction n generalizing d with
  | zero => rfl
  | succ n ih =>
    simp only [run]
    rw [h d le_rfl (by omega), ih fun j h1 h2 => h j (by omega) (by omega)]

/-- The bytes that a scan for a delimiter passes. -/
theorem delim_pass {d len j : ℕ} {t₁ t₂ : UInt8} (h1 : d ≤ j)
    (h2 : j < d + delim mem d len t₁ t₂) : mem j ≠ t₁ ∧ mem j ≠ t₂ ∧ mem j ≠ CR ∧ mem j ≠ LF := by
  simpa [not_or, and_assoc] using run_pass h1 h2

/-- The bytes before a delimiter are no line ends. -/
theorem delim_not_isEol {d len j : ℕ} {t : UInt8} (h1 : d ≤ j)
    (h2 : j < d + delim mem d len t 0) : ¬ isEol (mem j) := by
  obtain ⟨-, h0, hcr, hlf⟩ := delim_pass h1 h2
  exact fun h => h.elim h0 fun h => h.elim hcr hlf

/-- The byte at which a scan for a line end stops is one. -/
theorem delim_isEol {d len : ℕ} (h : delim mem d len 0 0 < len) :
    isEol (mem (d + delim mem d len 0 0)) := by
  have hs := run_stop h
  simpa [isEol, delim, or_iff_not_imp_left] using hs

/-- Skipping spaces goes forward. -/
theorem le_skipSpaces (mem : ℕ → UInt8) (i len : ℕ) : i ≤ skipSpaces mem i len :=
  Nat.le_add_right _ _

/-- What is skipped are spaces. -/
theorem skipSpaces_pass {i len j : ℕ} (h1 : i ≤ j) (h2 : j < skipSpaces mem i len) :
    mem j = SP := by
  simpa using run_pass (p := (· = SP)) h1 h2

/-- Behind skipped spaces there is no space. -/
theorem skipSpaces_stop {i len : ℕ} (h : skipSpaces mem i len < len) :
    mem (skipSpaces mem i len) ≠ SP := by
  unfold skipSpaces at h ⊢
  have hlt : run (· = SP) mem i (len - i) < len - i := by omega
  simpa using run_stop hlt

end Scan

namespace Pmsg

/-- The first line of a response. Returns the index behind it, or `none` for `return -1`. -/
def parseResponseLine (m : Pmsg) (len : ℕ) : Pmsg × Option ℕ :=
  -- The first word is the protocol name and version
  let m := { m with type := .resp, protoId := some 0 }
  let i := delim m.mem 0 len SP 0
  -- Check for a space following the version number
  if m.mem i ≠ SP then (m, none) else
  let m := m.poke i 0
  let i := skipSpaces m.mem (i + 1) len
  -- The next word is the 3-digit response code, then a space
  if len - i < 4 ∨ !isDigit (m.mem i) ∨ !isDigit (m.mem (i + 1)) ∨ !isDigit (m.mem (i + 2)) ∨
    m.mem (i + 3) ≠ SP then (m, none) else
  let m := { m with slFst := .code (((m.mem i).toNat - 48) * 100 +
    ((m.mem (i + 1)).toNat - 48) * 10 + ((m.mem (i + 2)).toNat - 48)) }
  let i := skipSpaces m.mem (i + 4) len
  -- The rest of the line is the textual response
  let m := { m with slSnd := .reason (some i) }
  let i := i + delim m.mem i (len - i) 0 0
  (m.poke i 0, some (i + 1))

/-- The first line of a request. Returns the index behind it, or `none` for `return -1`. -/
def parseRequestLine (m : Pmsg) (len : ℕ) : Pmsg × Option ℕ :=
  -- The first word is the method
  let m := { m with type := .req, slFst := .method 0 }
  let i := delim m.mem 0 len SP 0
  -- Then a space
  if i ≥ len ∨ m.mem i ≠ SP then (m, none) else
  let m := m.poke i 0
  let i := skipSpaces m.mem (i + 1) len
  -- The second word is the URI
  let m := { m with slSnd := .uri i }
  let i := i + delim m.mem i (len - i) SP 0
  -- Then a space
  if i ≥ len ∨ m.mem i ≠ SP then (m, none) else
  let m := m.poke i 0
  let i := skipSpaces m.mem (i + 1) len
  -- The last word is the protocol name and version
  let m := { m with protoId := some i }
  let i := i + delim m.mem i (len - i) 0 0
  (m.poke i 0, some (i + 1))

/-- The words of the first line, a request's or a response's. -/
def parseStartWords (m : Pmsg) (len : ℕ) : Pmsg × Option ℕ :=
  -- Was it all whitespace?
  if len < 4 then (m, none) else
  -- Check for a slash in the first word
  let i := run (fun b => b ≠ SP && b ≠ SLASH) m.mem 0 len
  if i = len then (m, none)
  -- Responses begin with "PROTO/"
  else if m.mem i = SLASH then m.parseResponseLine len
  else m.parseRequestLine len

/-- The end of the first line, from `i` on: trailing spaces, the carriage return if it was not
killed already, and the line feed. Returns the index behind it, or `none` for `return -1`. -/
def closeLine (mem : ℕ → UInt8) (len i : ℕ) : Option ℕ :=
  let i := skipSpaces mem i len
  let i := if i < len ∧ mem i = CR then i + 1 else i
  if i ≥ len ∨ mem i ≠ LF then none else some (i + 1)

/-- The first line. Returns the index of the first header line, or `none` for `return -1`. -/
def parseStartLine (m : Pmsg) (len : ℕ) : Pmsg × Option ℕ :=
  match m.parseStartWords len with
  | (m, none) => (m, none)
  | (m, some i) => (m, closeLine m.mem len i)

/-- The name of a header line, which starts at `i`, with the colon behind it. Returns the index
behind the colon, or `none` for `return -1`. -/
def parseHeaderName (m : Pmsg) (len i : ℕ) : Except Fault (Pmsg × Option ℕ) := do
  -- XXX headers beginning with whitespace are continuations
  if m.mem i = TAB ∨ m.mem i = SP then return (m, none)
  -- The first thing on the line is the header name
  let m ← m.setName m.headerCount (some i)
  -- The name ends with optional spaces then a colon
  let q := i + delim m.mem i (len - i) SP COLON
  if q ≥ len then return (m, none)
  -- If the optional spaces are present, skip them
  let c := if m.mem q = SP then skipSpaces m.mem (q + 1) len else q
  let m := if m.mem q = SP then m.poke q 0 else m
  -- Make sure the colon is present
  if c ≥ len ∨ m.mem c ≠ COLON then return (m, none)
  return (m.poke c 0, some (c + 1))

/-- The value of a header line, which starts at `i` behind the colon, with the end of the line.
Returns the index behind the line, or `none` for `return -1`. -/
def parseHeaderValue (m : Pmsg) (len i : ℕ) : Except Fault (Pmsg × Option ℕ) := do
  -- Skip any whitespace after the colon
  let a := i + run (fun b => b = SP || b = TAB) m.mem i (len - i)
  -- Everything else on the line is the header data
  let m ← m.setValue m.headerCount (some a)
  let b := a + delim m.mem a (len - a) 0 0
  let m := m.poke b 0
  -- We should be at the end of the line now
  if b + 1 ≥ len ∨ m.mem (b + 1) ≠ LF then return (m, none)
  return ({ m with headerCount := m.headerCount + 1 }, some (b + 2))

/-- One header line, which starts at `i`. Returns the index behind it, or `none` for
`return -1`. -/
def parseHeaderLine (m : Pmsg) (len i : ℕ) : Except Fault (Pmsg × Option ℕ) := do
  match ← m.parseHeaderName len i with
  | (m, none) => return (m, none)
  | (m, some i) => m.parseHeaderValue len i

/-- The loop over the header lines from `i` on, the first argument bounding its iterations. -/
def parseHeaderLines (len : ℕ) : ℕ → Pmsg → ℕ → Except Fault (Pmsg × ℤ)
  | 0, _, _ => .error .loop
  | fuel + 1, m, i => do
    -- There may be a \r here if we're at the end of the headers
    let i := if i < len ∧ m.mem i = CR then i + 1 else i
    -- If there's no more data, we're done
    if i = len then return (m, (len : ℤ))
    -- If there's a newline, we're at the end of the headers
    if m.mem i = LF then return (m, (i : ℤ) + 1)
    match ← m.parseHeaderLine len i with
    | (m, none) => return (m, -1)
    | (m, some i) => parseHeaderLines len fuel m i

/-- `parse_pmsg`: the message with its new contents, and the value returned. -/
def parsePmsg (m : Pmsg) : Except Fault (Pmsg × ℤ) :=
  let len := m.msgLen
  match { m with headerCount := 0 }.parseStartLine len with
  | (m, none) => .ok (m, -1)
  | (m, some i) => parseHeaderLines len (len + 1) m i

end Pmsg

end Spook
