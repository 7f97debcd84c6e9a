import Spook.Pmsg.Parse

set_option relaxedAutoImplicit false
set_option autoImplicit false

/-!
# The text of a message

What the parser accepts, said of the bytes it is given and without the parser: where a start
line and a header line lie in the memory, and what it means that a message has a number of
header lines. The parser's single steps are then specified against these relations.

## Main definitions

* `Spook.HeaderLineAt` — a header line lies between two indices.
* `Spook.HeaderLines` — a number of header lines in a row.
* `Spook.StartLineAt` — a start line lies before an index.

## Main results

* `Spook.Pmsg.parseHeaderLine_spec` — everything that one header line can do to a message.
* `Spook.Pmsg.parseStartLine_spec` — everything that the start line can do to a message.
-/

namespace Spook

/-- A header line lies at `[i, i')`: a name up to `q`, spaces up to the colon at `c`, blanks up
to `a`, a value up to the line end `b`, and a line feed behind it. -/
structure HeaderLineAt (mem : ℕ → UInt8) (len i q c a b i' : ℕ) : Prop where
  bounds : i ≤ q ∧ q ≤ c ∧ c < a ∧ a ≤ b ∧ b + 1 < len ∧ i' = b + 2
  start : mem i ≠ TAB ∧ mem i ≠ SP
  name : ∀ j, i ≤ j → j < q → mem j ≠ SP ∧ mem j ≠ COLON ∧ mem j ≠ CR ∧ mem j ≠ LF
  spaces : ∀ j, q ≤ j → j < c → mem j = SP
  colon : mem c = COLON
  blanks : ∀ j, c < j → j < a → mem j = SP ∨ mem j = TAB
  valueStart : a < b → mem a ≠ SP ∧ mem a ≠ TAB
  value : ∀ j, a ≤ j → j < b → ¬ isEol (mem j)
  eol : isEol (mem b) ∧ mem (b + 1) = LF

/-- Behind an optional carriage return at `i`. -/
def skipCR (mem : ℕ → UInt8) (len i : ℕ) : ℕ := if i < len ∧ mem i = CR then i + 1 else i

/-- `HeaderLines mem len i n j`: `n` header lines lie between `i` and `j`, each behind an
optional carriage return. -/
inductive HeaderLines (mem : ℕ → UInt8) (len : ℕ) : ℕ → ℕ → ℕ → Prop
  | nil {i : ℕ} : HeaderLines mem len i 0 i
  | cons {i n j q c a b i' : ℕ} : skipCR mem len i < len → mem (skipCR mem len i) ≠ LF →
      HeaderLineAt mem len (skipCR mem len i) q c a b i' → HeaderLines mem len i' n j →
      HeaderLines mem len i (n + 1) j

/-- A header line begins behind an optional carriage return at `i`: there is another byte, it
does not end the headers and it is no continuation line. -/
def HeaderBegins (mem : ℕ → UInt8) (len i : ℕ) : Prop :=
  skipCR mem len i < len ∧ mem (skipCR mem len i) ≠ LF ∧ mem (skipCR mem len i) ≠ TAB ∧
    mem (skipCR mem len i) ≠ SP

/-- From `d` on there are spaces, an optional carriage return and a line feed, and `i` is behind
them. -/
def LineClose (mem : ℕ → UInt8) (len d i : ℕ) : Prop :=
  ∃ s, d ≤ s ∧ (∀ j, d ≤ j → j < s → mem j = SP) ∧ i ≤ len ∧
    (mem s = LF ∧ i = s + 1 ∨ mem s = CR ∧ mem (s + 1) = LF ∧ i = s + 2)

/-- The first space or slash is the space at `s`. -/
def FirstIsSpace (mem : ℕ → UInt8) (s : ℕ) : Prop :=
  (∀ j < s, mem j ≠ SP ∧ mem j ≠ SLASH) ∧ mem s = SP

/-- The text before `e` has the three words of a request line: a method, a URI and a rest. -/
def RequestWords (mem : ℕ → UInt8) (e : ℕ) : Prop :=
  ∃ s v u, s < v ∧ v < u ∧ u < e ∧ FirstIsSpace mem s ∧ mem v ≠ SP ∧ mem u = SP

/-- The text before `e` has the words of a response line: a protocol name with a slash and a
code of three digits with a space behind it. -/
def StatusWords (mem : ℕ → UInt8) (e : ℕ) : Prop :=
  ∃ s w d, s < w ∧ w < d ∧ d + 4 ≤ e ∧ (∀ j < s, mem j ≠ SP ∧ mem j ≠ SLASH) ∧
    mem s = SLASH ∧ (∀ j < w, mem j ≠ SP) ∧ (∀ j, w ≤ j → j < d → mem j = SP) ∧
    isDigit (mem d) ∧ isDigit (mem (d + 1)) ∧ isDigit (mem (d + 2)) ∧ mem (d + 3) = SP

/-- A start line lies before `i`: the words end at the first line end `e`. -/
structure StartLineAt (mem : ℕ → UInt8) (len e i : ℕ) : Prop where
  inner : ∀ j < e, ¬ isEol (mem j)
  eol : isEol (mem e)
  words : RequestWords mem e ∨ StatusWords mem e
  close : LineClose mem len (e + 1) i

namespace Pmsg

/-! ## One header line -/

/-- Two messages that differ at most in the memory, the fields and the number of headers. -/
structure SameHead (m m' : Pmsg) : Prop where
  msgLen : m'.msgLen = m.msgLen
  maxLen : m'.maxLen = m.maxLen
  type : m'.type = m.type
  slFst : m'.slFst = m.slFst
  slSnd : m'.slSnd = m.slSnd

/-- Nothing changed. -/
theorem SameHead.refl (m : Pmsg) : SameHead m m := ⟨rfl, rfl, rfl, rfl, rfl⟩

/-- Changes compose. -/
theorem SameHead.trans {m m' m'' : Pmsg} (h : SameHead m m') (h' : SameHead m' m'') :
    SameHead m m'' :=
  ⟨h'.1.trans h.1, h'.2.trans h.2, h'.3.trans h.3, h'.4.trans h.4, h'.5.trans h.5⟩

/-- What the parser can do to a message with one header line at `i`. -/
structure HeaderLineStep (m : Pmsg) (len i : ℕ) (m' : Pmsg) (r : Option ℕ) : Prop where
  head : SameHead m m'
  below : ∀ j < i, m'.mem j = m.mem j
  other : ∀ k, k ≠ m.headerCount → m'.fields k = m.fields k
  fail : r = none → m'.headerCount = m.headerCount
  done : ∀ i', r = some i' → ∃ q c a b, HeaderLineAt m.mem len i q c a b i' ∧
    m'.headerCount = m.headerCount + 1 ∧ m'.fields m.headerCount = ⟨some i, some a⟩ ∧
    m'.mem q = 0 ∧ m'.mem b = 0 ∧ ∀ j, b < j → m'.mem j = m.mem j

/-- The byte that was stored. -/
@[simp] theorem poke_mem (m : Pmsg) (i : ℕ) (b : UInt8) :
    (m.poke i b).mem = Function.update m.mem i b := rfl

/-- A byte changes no field. -/
@[simp] theorem poke_fields (m : Pmsg) (i : ℕ) (b : UInt8) : (m.poke i b).fields = m.fields :=
  rfl

/-- A byte does not change the count. -/
@[simp] theorem poke_headerCount (m : Pmsg) (i : ℕ) (b : UInt8) :
    (m.poke i b).headerCount = m.headerCount := rfl

/-- A name that is stored. -/
theorem setName_ok {m : Pmsg} {k : ℕ} (hk : k < maxFields) (p : Option ℕ) :
    m.setName k p =
      .ok { m with fields := Function.update m.fields k { m.fields k with name := p } } := by
  simp [setName, hk]

/-- A value that is stored. -/
theorem setValue_ok {m : Pmsg} {k : ℕ} (hk : k < maxFields) (p : Option ℕ) :
    m.setValue k p =
      .ok { m with fields := Function.update m.fields k { m.fields k with value := p } } := by
  simp [setValue, hk]

/-- What a header name at `i` can do to a message. -/
structure HeaderNameStep (m : Pmsg) (len i : ℕ) (m' : Pmsg) (r : Option ℕ) : Prop where
  head : SameHead m m'
  count : m'.headerCount = m.headerCount
  below : ∀ j < i, m'.mem j = m.mem j
  other : ∀ k, k ≠ m.headerCount → m'.fields k = m.fields k
  done : ∀ i', r = some i' → ∃ q c, i ≤ q ∧ q ≤ c ∧ c < len ∧ i' = c + 1 ∧
    (m.mem i ≠ TAB ∧ m.mem i ≠ SP) ∧
    (∀ j, i ≤ j → j < q → m.mem j ≠ SP ∧ m.mem j ≠ COLON ∧ m.mem j ≠ CR ∧ m.mem j ≠ LF) ∧
    (∀ j, q ≤ j → j < c → m.mem j = SP) ∧ m.mem c = COLON ∧
    (m'.fields m.headerCount).name = some i ∧ m'.mem q = 0 ∧ ∀ j, c < j → m'.mem j = m.mem j

/-- What is known when the name of a header has been read. -/
theorem parseHeaderName_spec {m m' : Pmsg} {len i : ℕ} {r : Option ℕ}
    (hk : m.headerCount < maxFields) (h : m.parseHeaderName len i = .ok (m', r)) :
    HeaderNameStep m len i m' r := by
  unfold parseHeaderName at h
  simp only [setName_ok hk, bind, Except.bind, pure, Except.pure] at h
  generalize hq : i + delim m.mem i (len - i) SP COLON = q at h
  have hiq : i ≤ q := by rw [← hq]; exact Nat.le_add_right _ _
  have hname : ∀ j, i ≤ j → j < q →
      m.mem j ≠ SP ∧ m.mem j ≠ COLON ∧ m.mem j ≠ CR ∧ m.mem j ≠ LF :=
    fun j h1 h2 => delim_pass h1 (hq ▸ h2)
  by_cases hb : m.mem i = TAB ∨ m.mem i = SP
  · rw [if_pos hb] at h
    cases h
    exact ⟨.refl m, rfl, fun _ _ => rfl, fun _ _ => rfl, by simp⟩
  rw [if_neg hb] at h
  by_cases hlen : q ≥ len
  · rw [if_pos hlen] at h
    cases h
    exact ⟨⟨rfl, rfl, rfl, rfl, rfl⟩, rfl, fun _ _ => rfl,
      fun k hkne => by simp [Function.update_of_ne hkne], by simp⟩
  rw [if_neg hlen] at h
  by_cases hsp : m.mem q = SP
  · simp only [hsp, if_true] at h
    generalize hc : skipSpaces m.mem (q + 1) len = c at h
    have hqc : q + 1 ≤ c := by rw [← hc]; exact Nat.le_add_right _ _
    split_ifs at h with hcol
    · cases h
      refine ⟨⟨rfl, rfl, rfl, rfl, rfl⟩, rfl, fun j hj => ?_,
        fun k hkne => by simp [Function.update_of_ne hkne], by simp⟩
      simp [Function.update_of_ne (show j ≠ q by omega)]
    · cases h
      obtain ⟨hcl, hcol⟩ : c < len ∧ m.mem c = COLON := by
        simpa [Function.update_of_ne (show c ≠ q by omega)] using hcol
      refine ⟨⟨rfl, rfl, rfl, rfl, rfl⟩, rfl, fun j hj => ?_,
        fun k hkne => by simp [Function.update_of_ne hkne], fun i' hi' => ?_⟩
      · simp [Function.update_of_ne (show j ≠ q by omega),
          Function.update_of_ne (show j ≠ c by omega)]
      · cases hi'
        refine ⟨q, c, hiq, by omega, hcl, rfl, not_or.1 hb, hname, fun j h1 h2 => ?_, hcol,
          by simp, by simp [Function.update_of_ne (show q ≠ c by omega)], fun j hj => ?_⟩
        · rcases h1.eq_or_lt with rfl | h1
          · exact hsp
          · exact skipSpaces_pass (show q + 1 ≤ j by omega) (hc ▸ h2)
        · simp [Function.update_of_ne (show j ≠ q by omega),
            Function.update_of_ne (show j ≠ c by omega)]
  · simp only [hsp, if_false] at h
    by_cases hcol : q ≥ len ∨ m.mem q ≠ COLON
    · rw [if_pos hcol] at h
      cases h
      exact ⟨⟨rfl, rfl, rfl, rfl, rfl⟩, rfl, fun _ _ => rfl,
        fun k hkne => by simp [Function.update_of_ne hkne], by simp⟩
    · rw [if_neg hcol] at h
      cases h
      refine ⟨⟨rfl, rfl, rfl, rfl, rfl⟩, rfl, fun j hj => ?_,
        fun k hkne => by simp [Function.update_of_ne hkne], fun i' hi' => ?_⟩
      · simp [Function.update_of_ne (show j ≠ q by omega)]
      · cases hi'
        exact ⟨q, q, hiq, le_rfl, by omega, rfl, not_or.1 hb, hname, fun j h1 h2 => by omega,
          (by simpa [hlen] using hcol), by simp, by simp,
          fun j hj => by simp [Function.update_of_ne (show j ≠ q by omega)]⟩

/-- What a header value at `i` can do to a message. -/
structure HeaderValueStep (m : Pmsg) (len i : ℕ) (m' : Pmsg) (r : Option ℕ) : Prop where
  head : SameHead m m'
  below : ∀ j < i, m'.mem j = m.mem j
  other : ∀ k, k ≠ m.headerCount → m'.fields k = m.fields k
  fail : r = none → m'.headerCount = m.headerCount
  done : ∀ i', r = some i' → ∃ a b, i ≤ a ∧ a ≤ b ∧ b + 1 < len ∧ i' = b + 2 ∧
    (∀ j, i ≤ j → j < a → m.mem j = SP ∨ m.mem j = TAB) ∧
    (a < b → m.mem a ≠ SP ∧ m.mem a ≠ TAB) ∧ (∀ j, a ≤ j → j < b → ¬ isEol (m.mem j)) ∧
    isEol (m.mem b) ∧ m.mem (b + 1) = LF ∧ m'.headerCount = m.headerCount + 1 ∧
    m'.fields m.headerCount = ⟨(m.fields m.headerCount).name, some a⟩ ∧ m'.mem b = 0 ∧
    ∀ j, j ≠ b → m'.mem j = m.mem j

/-- Specification of `parseHeaderValue`. -/
theorem parseHeaderValue_spec {m m' : Pmsg} {len i : ℕ} {r : Option ℕ}
    (hk : m.headerCount < maxFields) (h : m.parseHeaderValue len i = .ok (m', r)) :
    HeaderValueStep m len i m' r := by
  unfold parseHeaderValue at h
  simp only [setValue_ok hk, bind, Except.bind, pure, Except.pure] at h
  generalize ha : i + run (fun b => b = SP || b = TAB) m.mem i (len - i) = a at h
  generalize hb : a + delim m.mem a (len - a) 0 0 = b at h
  have hia : i ≤ a := ha ▸ Nat.le_add_right _ _
  have hab : a ≤ b := hb ▸ Nat.le_add_right _ _
  split_ifs at h with hend
  · cases h
    exact ⟨⟨rfl, rfl, rfl, rfl, rfl⟩,
      fun j hj => by simp [Function.update_of_ne (show j ≠ b by omega)],
      fun k hkne => by simp [Function.update_of_ne hkne], fun _ => rfl, by simp⟩
  · cases h
    obtain ⟨hlen, hlf⟩ : b + 1 < len ∧ m.mem (b + 1) = LF := by
      simpa [Function.update_of_ne (show b + 1 ≠ b by omega)] using hend
    refine ⟨⟨rfl, rfl, rfl, rfl, rfl⟩,
      fun j hj => by simp [Function.update_of_ne (show j ≠ b by omega)],
      fun k hkne => by simp [Function.update_of_ne hkne], by simp, fun i' hi' => ?_⟩
    cases hi'
    refine ⟨a, b, hia, hab, hlen, rfl, fun j h1 h2 => ?_, fun hlt => ?_, fun j h1 h2 => ?_, ?_,
      hlf, rfl, by simp, by simp, fun j hj => by simp [Function.update_of_ne hj]⟩
    · simpa using run_pass (p := fun b => b = SP || b = TAB) h1 (ha ▸ h2)
    · have hs : run (fun b => b = SP || b = TAB) m.mem i (len - i) < len - i := by omega
      simpa [ha] using run_stop hs
    · exact delim_not_isEol h1 (hb ▸ h2)
    · rw [← hb]
      exact delim_isEol (by omega)

/-- Specification of `parseHeaderLine`: everything that one header line can do to a message. -/
theorem parseHeaderLine_spec {m m' : Pmsg} {len i : ℕ} {r : Option ℕ}
    (hk : m.headerCount < maxFields) (h : m.parseHeaderLine len i = .ok (m', r)) :
    HeaderLineStep m len i m' r := by
  unfold parseHeaderLine at h
  rcases hn : m.parseHeaderName len i with e | ⟨m₁, _ | i₁⟩
  · simp [hn, bind, Except.bind] at h
  · have hs := parseHeaderName_spec hk hn
    simp only [hn, bind, Except.bind, pure, Except.pure] at h
    cases h
    exact ⟨hs.head, hs.below, hs.other, fun _ => hs.count, by simp⟩
  · have hs := parseHeaderName_spec hk hn
    simp only [hn, bind, Except.bind] at h
    obtain ⟨q, c, hiq, hqc, hcl, rfl, hst, hname, hspaces, hcol, hfn, hq0, hab⟩ := hs.done _ rfl
    have hv := parseHeaderValue_spec (hs.count ▸ hk) h
    refine ⟨hs.head.trans hv.head, fun j hj => ?_, fun k hkne => ?_, fun hr => ?_,
      fun i' hi' => ?_⟩
    · rw [hv.below j (by omega), hs.below j hj]
    · rw [hv.other k (hs.count ▸ hkne), hs.other k hkne]
    · rw [hv.fail hr, hs.count]
    · obtain ⟨a, b, hia, hlab, hlen, hi'', hbl, hvs, hval, heol, hlf, hcnt, hfld, hb0, hoth⟩ :=
        hv.done _ hi'
      rw [hs.count] at hcnt hfld
      have hmem : ∀ j, c < j → m₁.mem j = m.mem j := hab
      refine ⟨q, c, a, b, ⟨⟨hiq, hqc, by omega, hlab, hlen, hi''⟩, hst, hname, hspaces, hcol,
        fun j h1 h2 => hmem j h1 ▸ hbl j h1 h2, fun hlt => hmem a (by omega) ▸ hvs hlt,
        fun j h1 h2 => hmem j (by omega) ▸ hval j h1 h2,
        ⟨hmem b (by omega) ▸ heol, hmem (b + 1) (by omega) ▸ hlf⟩⟩, hcnt, ?_, ?_, hb0,
        fun j hj => ?_⟩
      · rw [hfld, hfn]
      · rw [hoth q (by omega), hq0]
      · rw [hoth j (by omega), hmem j (by omega)]

/-! ## The start line -/

/-- Two messages that differ at most in the memory, the type, the protocol name and the union. -/
structure SameTable (m m' : Pmsg) : Prop where
  msgLen : m'.msgLen = m.msgLen
  maxLen : m'.maxLen = m.maxLen
  fields : m'.fields = m.fields
  headerCount : m'.headerCount = m.headerCount

/-- What the words of a start line can do to a message: the line ends at `e`. -/
structure WordsStep (m : Pmsg) (len e : ℕ) (m' : Pmsg) : Prop where
  inner : ∀ j < e, ¬ isEol (m.mem j)
  eol : e < len → isEol (m.mem e)
  above : ∀ j, e < j → m'.mem j = m.mem j

/-- A space ends no line. -/
theorem not_isEol_SP : ¬ isEol SP := by decide


/-- A scan for a delimiter does not see a byte before it change. -/
theorem delim_update {mem : ℕ → UInt8} {w d : ℕ} (h : w < d) (b : UInt8) (len : ℕ)
    (t₁ t₂ : UInt8) :
    delim (Function.update mem w b) d len t₁ t₂ = delim mem d len t₁ t₂ :=
  run_congr fun j hj _ => Function.update_of_ne (by omega) _ _

/-- A scan for spaces does not see a byte before it change. -/
theorem skipSpaces_update {mem : ℕ → UInt8} {w i : ℕ} (h : w < i) (b : UInt8) (len : ℕ) :
    skipSpaces (Function.update mem w b) i len = skipSpaces mem i len :=
  congrArg (i + ·) (run_congr fun j hj _ => Function.update_of_ne (by omega) _ _)

/-- A first line of a request touches neither the table nor the lengths. -/
theorem parseRequestLine_same (m : Pmsg) (len : ℕ) :
    SameTable m (m.parseRequestLine len).1 := by
  unfold parseRequestLine
  dsimp only
  split_ifs <;> exact ⟨rfl, rfl, rfl, rfl⟩

/-- Specification of `parseRequestLine`, which stops behind the line end. -/
theorem parseRequestLine_spec {m m' : Pmsg} {len s i : ℕ} (hs : FirstIsSpace m.mem s)
    (h : m.parseRequestLine len = (m', some i)) :
    ∃ e, i = e + 1 ∧ RequestWords m.mem e ∧ WordsStep m len e m' ∧ m'.type = .req ∧
      (∃ p, m'.slFst = .method p) ∧ ∃ p, m'.slSnd = .uri p := by
  unfold parseRequestLine at h
  dsimp only [poke] at h
  generalize hw : delim m.mem 0 len SP 0 = w at h
  split_ifs at h with hw1 hu1
  · simp at h
  · simp at h
  have hv0 := le_skipSpaces m.mem (w + 1) len
  rw [skipSpaces_update (Nat.lt_succ_self w)] at h hu1
  generalize hv : skipSpaces m.mem (w + 1) len = v at h hv0 hu1
  rw [delim_update (by omega : w < v)] at h hu1
  generalize hu : v + delim m.mem v (len - v) SP 0 = u at h hu1
  have hvu : v ≤ u := hu ▸ Nat.le_add_right _ _
  rw [Function.update_of_ne (show u ≠ w by omega)] at hu1
  simp only [not_or, ge_iff_le, not_le, ne_eq, not_not] at hw1 hu1
  have hp0 := le_skipSpaces m.mem (u + 1) len
  rw [skipSpaces_update (Nat.lt_succ_self u), skipSpaces_update (by omega : w < u + 1)] at h
  generalize hp : skipSpaces m.mem (u + 1) len = p at h hp0
  rw [delim_update (by omega : u < p), delim_update (by omega : w < p)] at h
  generalize he : p + delim m.mem p (len - p) 0 0 = e at h
  have hpe : p ≤ e := he ▸ Nat.le_add_right _ _
  have hvs : m.mem v ≠ SP := hv ▸ skipSpaces_stop (by omega)
  have hsw : s = w := by
    rcases Nat.lt_trichotomy s w with hlt | heq | hlt
    · exact absurd hs.2 (delim_pass (Nat.zero_le s) (by omega : s < 0 + delim m.mem 0 len SP 0)).1
    · exact heq
    · exact absurd hw1.2 (hs.1 w hlt).1
  cases h
  refine ⟨e, rfl, ⟨s, v, u, by omega, ?_, by omega, hs, hvs, hu1.2⟩,
    ⟨fun j hj => ?_, fun hlt => ?_, fun j hj => ?_⟩, rfl, ⟨_, rfl⟩, ⟨_, rfl⟩⟩
  · rcases hvu.eq_or_lt with rfl | hlt
    · exact absurd hu1.2 hvs
    · exact hlt
  · have hsp : m.mem j = SP → ¬ isEol (m.mem j) := fun h => h ▸ not_isEol_SP
    rcases Nat.lt_or_ge j w with h1 | h1
    · exact delim_not_isEol (Nat.zero_le j) (by omega : j < 0 + delim m.mem 0 len SP 0)
    rcases h1.eq_or_lt with rfl | h1
    · exact hsp hw1.2
    rcases Nat.lt_or_ge j v with h2 | h2
    · exact hsp (skipSpaces_pass h1 (hv ▸ h2))
    rcases Nat.lt_or_ge j u with h3 | h3
    · exact delim_not_isEol h2 (hu ▸ h3)
    rcases h3.eq_or_lt with rfl | h3
    · exact hsp hu1.2
    rcases Nat.lt_or_ge j p with h4 | h4
    · exact hsp (skipSpaces_pass h3 (hp ▸ h4))
    · exact delim_not_isEol h4 (he ▸ hj)
  · rw [← he]
    exact delim_isEol (by omega)
  · simp [Function.update_of_ne (show j ≠ e by omega), Function.update_of_ne (show j ≠ u by omega),
      Function.update_of_ne (show j ≠ w by omega)]

/-- A first line of a response touches neither the table nor the lengths. -/
theorem parseResponseLine_same (m : Pmsg) (len : ℕ) :
    SameTable m (m.parseResponseLine len).1 := by
  unfold parseResponseLine
  dsimp only
  split_ifs <;> exact ⟨rfl, rfl, rfl, rfl⟩

/-- Specification of `parseResponseLine`, which stops behind the line end. -/
theorem parseResponseLine_spec {m m' : Pmsg} {len s i : ℕ}
    (hs : ∀ j < s, m.mem j ≠ SP ∧ m.mem j ≠ SLASH) (hsl : m.mem s = SLASH)
    (h : m.parseResponseLine len = (m', some i)) :
    ∃ e, i = e + 1 ∧ (e < len → StatusWords m.mem e) ∧ WordsStep m len e m' ∧
      m'.type = .resp := by
  unfold parseResponseLine at h
  dsimp only [poke] at h
  generalize hw : delim m.mem 0 len SP 0 = w at h
  split_ifs at h with hw1 hd1
  · simp at h
  · simp at h
  rw [not_not] at hw1
  have hd0 := le_skipSpaces m.mem (w + 1) len
  rw [skipSpaces_update (Nat.lt_succ_self w)] at h hd1
  generalize hd : skipSpaces m.mem (w + 1) len = d at h hd0 hd1
  simp only [Function.update_of_ne (show d ≠ w by omega),
    Function.update_of_ne (show d + 1 ≠ w by omega),
    Function.update_of_ne (show d + 2 ≠ w by omega),
    Function.update_of_ne (show d + 3 ≠ w by omega), not_or, not_lt, Bool.not_eq_true',
    Bool.not_eq_false, ne_eq, not_not] at hd1
  have hr0 := le_skipSpaces m.mem (d + 4) len
  rw [skipSpaces_update (by omega : w < d + 4)] at h
  generalize hr : skipSpaces m.mem (d + 4) len = r at h hr0
  rw [delim_update (by omega : w < r)] at h
  generalize he : r + delim m.mem r (len - r) 0 0 = e at h
  have hre : r ≤ e := he ▸ Nat.le_add_right _ _
  have hword : ∀ j < w, m.mem j ≠ SP ∧ ¬ isEol (m.mem j) := fun j hj =>
    have hj : j < 0 + delim m.mem 0 len SP 0 := by omega
    ⟨(delim_pass (Nat.zero_le j) hj).1, delim_not_isEol (Nat.zero_le j) hj⟩
  have hdig : ∀ b, isDigit b = true → ¬ isEol b := by
    intro b hb heol
    rcases heol with rfl | rfl | rfl <;> simp [isDigit, CR, LF] at hb
  have hsp : ∀ j, m.mem j = SP → ¬ isEol (m.mem j) := fun j h => h ▸ not_isEol_SP
  have hgap : ∀ j, w ≤ j → j < d → m.mem j = SP := by
    intro j h1 h2
    rcases h1.eq_or_lt with rfl | h1
    · exact hw1
    · exact skipSpaces_pass h1 (hd ▸ h2)
  have hsw : s < w := by
    rcases Nat.lt_trichotomy s w with hlt | rfl | hlt
    · exact hlt
    · exact absurd (hsl.symm.trans hw1) (by decide)
    · exact absurd hw1 (hs w hlt).1
  obtain ⟨hlen, hd1, hd2, hd3, hd4⟩ := hd1
  cases h
  refine ⟨e, rfl, fun _ => ⟨s, w, d, hsw, by omega, by omega, hs, hsl, fun j hj => (hword j hj).1,
    hgap, hd1, hd2, hd3, hd4⟩, ⟨fun j hj => ?_, fun hlt => ?_, fun j hj => ?_⟩, rfl⟩
  · rcases Nat.lt_or_ge j w with h1 | h1
    · exact (hword j h1).2
    rcases Nat.lt_or_ge j d with h2 | h2
    · exact hsp j (hgap j h1 h2)
    rcases Nat.lt_or_ge j (d + 4) with h3 | h3
    · obtain rfl | rfl | rfl | rfl : j = d ∨ j = d + 1 ∨ j = d + 2 ∨ j = d + 3 := by omega
      · exact hdig _ hd1
      · exact hdig _ hd2
      · exact hdig _ hd3
      · exact hsp _ hd4
    rcases Nat.lt_or_ge j r with h4 | h4
    · exact hsp j (skipSpaces_pass h3 (hr ▸ h4))
    · exact delim_not_isEol h4 (he ▸ hj)
  · rw [← he]
    exact delim_isEol (by omega)
  · simp [Function.update_of_ne (show j ≠ e by omega), Function.update_of_ne (show j ≠ w by omega)]

/-- What the type and the union say once the first space or slash is known. -/
structure StartLineStep (m : Pmsg) (len : ℕ) (m' : Pmsg) (r : Option ℕ) : Prop where
  table : SameTable m m'
  done : ∀ i, r = some i → ∃ e, StartLineAt m.mem len e i ∧ i ≤ len ∧
    (∀ j, i ≤ j → m'.mem j = m.mem j) ∧
    (m'.type = .req ∧ (∃ p, m'.slFst = .method p) ∧ (∃ p, m'.slSnd = .uri p) ∧
      RequestWords m.mem e ∨ m'.type = .resp ∧ StatusWords m.mem e)

/-- Specification of `parseStartWords`: the words of the first line, whichever it is. -/
theorem parseStartWords_spec {m m' : Pmsg} {len i : ℕ}
    (h : m.parseStartWords len = (m', some i)) :
    ∃ e, i = e + 1 ∧ WordsStep m len e m' ∧
      (m'.type = .req ∧ (∃ p, m'.slFst = .method p) ∧ (∃ p, m'.slSnd = .uri p) ∧
        RequestWords m.mem e ∨ m'.type = .resp ∧ (e < len → StatusWords m.mem e)) := by
  unfold parseStartWords at h
  dsimp only at h
  generalize hs : run (fun b => b ≠ SP && b ≠ SLASH) m.mem 0 len = s at h
  have hsle : s ≤ len := hs ▸ run_le 0 len
  have hpass : ∀ j < s, m.mem j ≠ SP ∧ m.mem j ≠ SLASH := by
    intro j hj
    have hjs : j < 0 + run (fun b => b ≠ SP && b ≠ SLASH) m.mem 0 len := by omega
    have hp := run_pass (Nat.zero_le j) hjs
    simpa using hp
  split_ifs at h with hlen hslen hsl
  · simp at h
  · simp at h
  · obtain ⟨e, rfl, hw, hstep, ht⟩ := parseResponseLine_spec hpass hsl h
    exact ⟨e, rfl, hstep, .inr ⟨ht, hw⟩⟩
  · have hsp : m.mem s = SP := by
      by_contra hne
      have hlt : run (fun b => b ≠ SP && b ≠ SLASH) m.mem 0 len < len := by omega
      have := run_stop hlt
      rw [hs, Nat.zero_add] at this
      simp [hne, hsl] at this
    obtain ⟨e, rfl, hw, hstep, ht, h1, h2⟩ := parseRequestLine_spec ⟨hpass, hsp⟩ h
    exact ⟨e, rfl, hstep, .inl ⟨ht, h1, h2, hw⟩⟩

/-- The words of the first line touch neither the table nor the lengths. -/
theorem parseStartWords_same (m : Pmsg) (len : ℕ) : SameTable m (m.parseStartWords len).1 := by
  unfold parseStartWords
  dsimp only
  split_ifs
  · exact ⟨rfl, rfl, rfl, rfl⟩
  · exact ⟨rfl, rfl, rfl, rfl⟩
  · exact parseResponseLine_same m len
  · exact parseRequestLine_same m len

/-- Specification of `closeLine`. -/
theorem closeLine_spec {mem : ℕ → UInt8} {len d i : ℕ} (h : closeLine mem len d = some i) :
    d < i ∧ LineClose mem len d i := by
  unfold closeLine at h
  dsimp only at h
  have hd := le_skipSpaces mem d len
  generalize hs : skipSpaces mem d len = s at h hd
  have hpass : ∀ j, d ≤ j → j < s → mem j = SP := fun j h1 h2 => skipSpaces_pass h1 (hs ▸ h2)
  by_cases hcr : s < len ∧ mem s = CR
  · rw [if_pos hcr] at h
    split_ifs at h with hlf
    simp only [not_or, ge_iff_le, not_le, ne_eq, not_not] at hlf
    cases h
    exact ⟨by omega, s, hd, hpass, by omega, .inr ⟨hcr.2, hlf.2, rfl⟩⟩
  · rw [if_neg hcr] at h
    split_ifs at h with hlf
    simp only [not_or, ge_iff_le, not_le, ne_eq, not_not] at hlf
    cases h
    exact ⟨by omega, s, hd, hpass, by omega, .inl ⟨hlf.2, rfl⟩⟩

/-- The close of a line depends only on the bytes from its start on. -/
theorem lineClose_congr {mem mem' : ℕ → UInt8} {len d i : ℕ} (h : LineClose mem len d i)
    (heq : ∀ j, d ≤ j → mem' j = mem j) : LineClose mem' len d i := by
  obtain ⟨s, hds, hsp, hi, hend⟩ := h
  refine ⟨s, hds, fun j h1 h2 => heq j h1 ▸ hsp j h1 h2, hi, ?_⟩
  rwa [heq s hds, heq (s + 1) (by omega)]

/-- Specification of `parseStartLine`: everything that the first line can do to a message. -/
theorem parseStartLine_spec {m m' : Pmsg} {len : ℕ} {r : Option ℕ}
    (h : m.parseStartLine len = (m', r)) : StartLineStep m len m' r := by
  unfold parseStartLine at h
  have hsame := parseStartWords_same m len
  rcases hw : m.parseStartWords len with ⟨m₁, _ | i₁⟩
  · rw [hw] at h hsame
    cases h
    exact ⟨hsame, by simp⟩
  · rw [hw] at h hsame
    cases h
    refine ⟨hsame, fun i hi => ?_⟩
    obtain ⟨e, rfl, hstep, htype⟩ := parseStartWords_spec hw
    have habove : ∀ j, e + 1 ≤ j → m.mem j = m'.mem j := fun j hj => (hstep.above j hj).symm
    obtain ⟨hei, hclose⟩ := closeLine_spec hi
    obtain ⟨s, hes, -, hil, hend⟩ := id hclose
    have helen : e < len := by omega
    have hwords : RequestWords m.mem e ∨ StatusWords m.mem e :=
      htype.imp (·.2.2.2) (·.2 helen)
    exact ⟨e, ⟨hstep.inner, hstep.eol helen, hwords, lineClose_congr hclose habove⟩, hil,
      fun j hj => hstep.above j (by omega), htype.imp id fun h => ⟨h.1, h.2 helen⟩⟩

end Pmsg

end Spook
