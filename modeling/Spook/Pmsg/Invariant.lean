import Spook.Pmsg.Grammar

set_option relaxedAutoImplicit false
set_option autoImplicit false

/-!
# The representation invariant of a message

The strings of the stored headers lie in the used part of the buffer, each ends with a NUL
there, and no two of them overlap. The parser establishes it, unless the text has more header
lines than the table has fields: it stores headers without looking at `MAX_FIELDS`.

## Main definitions

* `Spook.Pmsg.WfBelow` — the invariant, with an index below which all strings lie;
  `Spook.Pmsg.Wf` is the invariant proper.
* `Spook.Pmsg.Keeps` — the stored fields are unchanged but for some.
* `Spook.TooManyHeaders` — the text has more header lines than the table has fields.

## Main results

* `Spook.Pmsg.Extends.snoc` — a message continued with one more header keeps the invariant.
* `Spook.Pmsg.parsePmsg_words` — the type of a parsed message says what its start line is.
* `Spook.Pmsg.parsePmsg_spec` — the parser establishes the invariant or leaves the table.
-/

namespace Spook

/-- The two strings of a field. -/
inductive Part
  | name
  | value
  deriving DecidableEq

/-- The pointer to a string of a field. -/
def Hdrf.ptr (f : Hdrf) : Part → Option ℕ
  | .name => f.name
  | .value => f.value

namespace Pmsg

/-- The pointer to a string of the field `k`. -/
def ptr (m : Pmsg) (k : ℕ) (w : Part) : Option ℕ := (m.fields k).ptr w

/-- A string of the field `k`. -/
def text (m : Pmsg) (k : ℕ) (w : Part) : Option Bytes :=
  (m.ptr k w).map fun p => cstrAt m.mem p m.msgLen

/-- The index of the NUL behind the string at `p`. -/
def ends (m : Pmsg) (p : ℕ) : ℕ := strEnd m.mem p m.msgLen

/-- The invariant of a message all of whose stored strings end below `i`. -/
structure WfBelow (m : Pmsg) (i : ℕ) : Prop where
  count : m.headerCount ≤ maxFields
  used : m.msgLen ≤ m.maxLen
  bound : i ≤ m.msgLen
  stored : ∀ k < m.headerCount, ∀ w, ∃ p, m.ptr k w = some p ∧ m.ends p < i
  apart : ∀ k < m.headerCount, ∀ k' < m.headerCount, ∀ w w' p p', (k, w) ≠ (k', w') →
    m.ptr k w = some p → m.ptr k' w' = some p' → m.ends p < p' ∨ m.ends p' < p

/-- The representation invariant. -/
def Wf (m : Pmsg) : Prop := m.WfBelow m.msgLen

/-- The fields stored in `m` are the same in `m'`, pointers and strings, but for those that
`R` names. -/
structure Keeps (R : ℕ → Part → Prop) (m m' : Pmsg) : Prop where
  count : m.headerCount ≤ m'.headerCount
  ptr : ∀ k < m.headerCount, ∀ w, ¬ R k w → m'.ptr k w = m.ptr k w
  text : ∀ k < m.headerCount, ∀ w, ¬ R k w → m'.text k w = m.text k w

/-- No stored field is named. -/
def noField (_ : ℕ) (_ : Part) : Prop := False

/-- Keeping fields is transitive. -/
theorem Keeps.trans {R : ℕ → Part → Prop} {m m' m'' : Pmsg} (h : Keeps R m m')
    (h' : Keeps R m' m'') : Keeps R m m'' where
  count := h.count.trans h'.count
  ptr k hk w hR := (h'.ptr k (hk.trans_le h.count) w hR).trans (h.ptr k hk w hR)
  text k hk w hR := (h'.text k (hk.trans_le h.count) w hR).trans (h.text k hk w hR)

/-- Nothing changed. -/
theorem Keeps.refl (R : ℕ → Part → Prop) (m : Pmsg) : Keeps R m m :=
  ⟨le_rfl, fun _ _ _ _ => rfl, fun _ _ _ _ => rfl⟩

/-- `m'` continues `m`: all it changes lies at or above `i` and outside the stored fields. -/
structure Extends (m : Pmsg) (i : ℕ) (m' : Pmsg) : Prop where
  mem : ∀ j < i, m'.mem j = m.mem j
  msgLen : m.msgLen ≤ m'.msgLen
  room : m'.msgLen ≤ m'.maxLen
  fields : ∀ k < m.headerCount, m'.fields k = m.fields k

section Extends

variable {m m' : Pmsg} {i : ℕ}

/-- More bytes looked at. -/
theorem WfBelow.mono (h : m.WfBelow i) {i' : ℕ} (hi : i ≤ i') (hb : i' ≤ m.msgLen) :
    m.WfBelow i' :=
  ⟨h.count, h.used, hb, fun k hk w =>
    let ⟨p, hp, he⟩ := h.stored k hk w
    ⟨p, hp, he.trans_le hi⟩, h.apart⟩

/-- The invariant below some index is the invariant. -/
theorem WfBelow.wf (h : m.WfBelow i) : m.Wf := h.mono h.bound le_rfl

/-- The strings of a message survive in one that continues it. -/
theorem Extends.cstrAt (h : m.WfBelow i) (hx : m.Extends i m') {p : ℕ} (he : m.ends p < i) :
    cstrAt m'.mem p m'.msgLen = cstrAt m.mem p m.msgLen := by
  have hlt : m.ends p < m.msgLen := he.trans_le h.bound
  exact cstrAt_congr hlt hx.msgLen fun j _ hj => hx.mem j (hj.trans_lt he)

/-- The strings end where they did. -/
theorem Extends.ends (h : m.WfBelow i) (hx : m.Extends i m') {p : ℕ} (he : m.ends p < i) :
    m'.ends p = m.ends p := by
  unfold Pmsg.ends strEnd
  rw [hx.cstrAt h he]

/-- The pointers are the same. -/
theorem Extends.ptr (hx : m.Extends i m') {k : ℕ} (hk : k < m.headerCount) (w : Part) :
    m'.ptr k w = m.ptr k w := by
  unfold Pmsg.ptr
  rw [hx.fields k hk]

/-- A message that continues another keeps its fields. -/
theorem Extends.keeps (h : m.WfBelow i) (hx : m.Extends i m')
    (hc : m.headerCount ≤ m'.headerCount) (R : ℕ → Part → Prop) : Keeps R m m' where
  count := hc
  ptr k hk w _ := hx.ptr hk w
  text k hk w _ := by
    obtain ⟨p, hp, he⟩ := h.stored k hk w
    simp only [Pmsg.text, hx.ptr hk w, hp, Option.map_some, hx.cstrAt h he]

/-- A message that continues another and has no new header keeps the invariant. -/
theorem Extends.wfBelow (h : m.WfBelow i) (hx : m.Extends i m')
    (hc : m'.headerCount = m.headerCount) : m'.WfBelow i where
  count := hc ▸ h.count
  used := hx.room
  bound := h.bound.trans hx.msgLen
  stored k hk w := by
    rw [hc] at hk
    obtain ⟨p, hp, he⟩ := h.stored k hk w
    exact ⟨p, (hx.ptr hk w).trans hp, (hx.ends h he).trans_lt he⟩
  apart k hk k' hk' w w' p p' hne hp hp' := by
    rw [hc] at hk hk'
    rw [hx.ptr hk] at hp
    rw [hx.ptr hk'] at hp'
    obtain ⟨q, hq, he⟩ := h.stored k hk w
    obtain ⟨q', hq', he'⟩ := h.stored k' hk' w'
    obtain rfl : q = p := Option.some.inj (hq.symm.trans hp)
    obtain rfl : q' = p' := Option.some.inj (hq'.symm.trans hp')
    rw [hx.ends h he, hx.ends h he']
    exact h.apart k hk k' hk' w w' q q' hne hp hp'

/-- A message that continues another and has one new header, whose two strings lie apart in
`[i, i')`, keeps the invariant. -/
theorem Extends.snoc {i' p₁ p₂ : ℕ} (h : m.WfBelow i) (hx : m.Extends i m')
    (hc : m'.headerCount = m.headerCount + 1) (hroom : m.headerCount < maxFields)
    (hf : m'.fields m.headerCount = ⟨some p₁, some p₂⟩) (hi' : i' ≤ m'.msgLen)
    (h₁ : i ≤ p₁ ∧ m'.ends p₁ < i') (h₂ : i ≤ p₂ ∧ m'.ends p₂ < i')
    (hne : m'.ends p₁ < p₂ ∨ m'.ends p₂ < p₁) : m'.WfBelow i' := by
  have hnew : ∀ w, ∃ p, m'.ptr m.headerCount w = some p ∧ i ≤ p ∧ m'.ends p < i' := by
    intro w
    cases w with
    | name => exact ⟨p₁, by simp [Pmsg.ptr, hf, Hdrf.ptr], h₁⟩
    | value => exact ⟨p₂, by simp [Pmsg.ptr, hf, Hdrf.ptr], h₂⟩
  have hold : ∀ k < m.headerCount, ∀ w, ∃ p, m'.ptr k w = some p ∧ m.ptr k w = some p ∧
      m'.ends p = m.ends p ∧ m.ends p < i := by
    intro k hk w
    obtain ⟨p, hp, he⟩ := h.stored k hk w
    exact ⟨p, (hx.ptr hk w).trans hp, hp, hx.ends h he, he⟩
  have hii' : i ≤ i' := by
    have hp₁ : p₁ ≤ m'.ends p₁ := Nat.le_add_right _ _
    omega
  refine ⟨by omega, hx.room, hi', fun k hk w => ?_, fun k hk k' hk' w w' p p' hkw hp hp' => ?_⟩
  · rcases Nat.lt_succ_iff_lt_or_eq.1 (hc ▸ hk) with hk | rfl
    · obtain ⟨p, hp, -, he, hlt⟩ := hold k hk w
      exact ⟨p, hp, by omega⟩
    · obtain ⟨p, hp, -, hlt⟩ := hnew w
      exact ⟨p, hp, hlt⟩
  · rcases Nat.lt_succ_iff_lt_or_eq.1 (hc ▸ hk) with hk | rfl <;>
      rcases Nat.lt_succ_iff_lt_or_eq.1 (hc ▸ hk') with hk' | rfl
    · obtain ⟨q, hq, hqm, he, -⟩ := hold k hk w
      obtain ⟨q', hq', hqm', he', -⟩ := hold k' hk' w'
      obtain rfl : q = p := Option.some.inj (hq.symm.trans hp)
      obtain rfl : q' = p' := Option.some.inj (hq'.symm.trans hp')
      rw [he, he']
      exact h.apart k hk k' hk' w w' q q' hkw hqm hqm'
    · obtain ⟨q, hq, -, he, hlt⟩ := hold k hk w
      obtain ⟨q', hq', hge, -⟩ := hnew w'
      obtain rfl : q = p := Option.some.inj (hq.symm.trans hp)
      obtain rfl : q' = p' := Option.some.inj (hq'.symm.trans hp')
      exact .inl (by omega)
    · obtain ⟨q, hq, hge, -⟩ := hnew w
      obtain ⟨q', hq', -, he, hlt⟩ := hold k' hk' w'
      obtain rfl : q = p := Option.some.inj (hq.symm.trans hp)
      obtain rfl : q' = p' := Option.some.inj (hq'.symm.trans hp')
      exact .inr (by omega)
    · cases w <;> cases w' <;> simp [Pmsg.ptr, hf, Hdrf.ptr] at hp hp' hkw <;>
        subst hp <;> subst hp'
      · exact hne
      · exact hne.symm

end Extends

/-! ## The parser -/

section Parse

variable {m m' : Pmsg} {len i : ℕ}

/-- With a free field a header line is parsed without a fault. -/
theorem parseHeaderLine_ok (hk : m.headerCount < maxFields) (len i : ℕ) :
    ∃ m' r, m.parseHeaderLine len i = .ok (m', r) := by
  have hname : ∃ m' r, m.parseHeaderName len i = .ok (m', r) := by
    unfold parseHeaderName
    simp only [setName_ok hk, bind, Except.bind, pure, Except.pure]
    split_ifs <;> exact ⟨_, _, rfl⟩
  obtain ⟨m₁, r₁, h₁⟩ := hname
  have hs := parseHeaderName_spec hk h₁
  unfold parseHeaderLine
  simp only [h₁, bind, Except.bind, pure, Except.pure]
  cases r₁ with
  | none => exact ⟨_, _, rfl⟩
  | some i₁ =>
    simp only [parseHeaderValue, setValue_ok (hs.count.symm ▸ hk), bind, Except.bind, pure,
      Except.pure]
    split_ifs <;> exact ⟨_, _, rfl⟩

/-- With no free field a header line that is no continuation line is a fault. -/
theorem parseHeaderLine_full (hk : m.headerCount = maxFields) (len i : ℕ) :
    m.parseHeaderLine len i =
      if m.mem i = TAB ∨ m.mem i = SP then .ok (m, none) else .error .fieldIndex := by
  by_cases h : m.mem i = TAB ∨ m.mem i = SP <;>
    simp [parseHeaderLine, parseHeaderName, setName, hk, h, bind, Except.bind, pure, Except.pure]

/-- Header lines lie in the text from their start on. -/
theorem headerLines_congr {mem mem' : ℕ → UInt8} {n j : ℕ} (h : HeaderLines mem len i n j)
    (heq : ∀ j, i ≤ j → mem' j = mem j) : HeaderLines mem' len i n j := by
  induction h with
  | nil => exact .nil
  | @cons i n j q c a b i' hlt hlf hline _ ih =>
    have hi : i ≤ skipCR mem len i := by unfold skipCR; split_ifs <;> omega
    have hskip : skipCR mem' len i = skipCR mem len i := by
      unfold skipCR
      rw [heq i le_rfl]
    have hb := hline.bounds
    refine .cons (hskip ▸ hlt) ?_ (?_ : HeaderLineAt mem' len (skipCR mem' len i) q c a b i')
      (ih fun j hj => heq j (by omega))
    · rw [hskip, heq _ hi]
      exact hlf
    · rw [hskip]
      have hm : ∀ j, skipCR mem len i ≤ j → mem' j = mem j := fun j hj => heq j (hi.trans hj)
      exact
        { bounds := hline.bounds
          start := by rw [hm _ le_rfl]; exact hline.start
          name := fun j h1 h2 => by rw [hm j h1]; exact hline.name j h1 h2
          spaces := fun j h1 h2 => by rw [hm j (by omega)]; exact hline.spaces j h1 h2
          colon := by rw [hm c (by omega)]; exact hline.colon
          blanks := fun j h1 h2 => by rw [hm j (by omega)]; exact hline.blanks j h1 h2
          valueStart := fun h => by rw [hm a (by omega)]; exact hline.valueStart h
          value := fun j h1 h2 => by rw [hm j (by omega)]; exact hline.value j h1 h2
          eol := by rw [hm b (by omega), hm (b + 1) (by omega)]; exact hline.eol }

/-- Header lines go forward. -/
theorem headerLines_le {mem : ℕ → UInt8} {n j : ℕ} (h : HeaderLines mem len i n j) : i ≤ j := by
  induction h with
  | nil => exact le_rfl
  | @cons i n j q c a b i' _ _ hline _ ih =>
    have hi : i ≤ skipCR mem len i := by unfold skipCR; split_ifs <;> omega
    have hb := hline.bounds
    omega

/-- The stored headers of a message with one more header line. -/
theorem HeaderLineStep.wfBelow {r : Option ℕ} (hwf : m.WfBelow i) (hlen : m.msgLen = len)
    (hk : m.headerCount < maxFields) (hs : HeaderLineStep m len i m' r) : m'.WfBelow (r.getD i) := by
  have hx : m.Extends i m' :=
    ⟨hs.below, hs.head.msgLen.ge, by rw [hs.head.msgLen, hs.head.maxLen]; exact hwf.used,
      fun k hk => hs.other k hk.ne⟩
  cases r with
  | none => exact hx.wfBelow hwf (hs.fail rfl)
  | some i' =>
    obtain ⟨q, c, a, b, hline, hcnt, hf, hq, hb, -⟩ := hs.done i' rfl
    have hbd := hline.bounds
    have hq' : m'.ends i ≤ q := strEnd_le hbd.1 hq
    have hb' : m'.ends a ≤ b := strEnd_le (by omega) hb
    exact hx.snoc hwf hcnt hk hf (by rw [hs.head.msgLen, hlen]; simp; omega)
      ⟨le_rfl, by simp; omega⟩ ⟨by omega, by simp; omega⟩ (.inl (by omega))

/-- What the loop over the header lines does: it stores what fits, or there are more header
lines than free fields. -/
theorem parseHeaderLines_spec {fuel : ℕ} (hwf : m.WfBelow i) (hlen : m.msgLen = len)
    (hfuel : len - i < fuel) :
    (∃ m' r, parseHeaderLines len fuel m i = .ok (m', r) ∧ m'.Wf) ∨
      parseHeaderLines len fuel m i = .error .fieldIndex ∧
        ∃ j, HeaderLines m.mem len i (maxFields - m.headerCount) j ∧ HeaderBegins m.mem len j := by
  induction fuel generalizing m i with
  | zero => omega
  | succ fuel ih =>
    unfold parseHeaderLines
    have hil : i ≤ len := hlen ▸ hwf.bound
    have hs : (if i < len ∧ m.mem i = CR then i + 1 else i) = skipCR m.mem len i := rfl
    have his : i ≤ skipCR m.mem len i := by unfold skipCR; split_ifs <;> omega
    have hsl : skipCR m.mem len i ≤ len := by unfold skipCR; split_ifs <;> omega
    simp only [hs, bind, Except.bind, pure, Except.pure]
    by_cases hend : skipCR m.mem len i = len
    · rw [if_pos hend]
      exact .inl ⟨m, _, rfl, hwf.wf⟩
    rw [if_neg hend]
    by_cases hlf : m.mem (skipCR m.mem len i) = LF
    · rw [if_pos hlf]
      exact .inl ⟨m, _, rfl, hwf.wf⟩
    rw [if_neg hlf]
    have hwfs : m.WfBelow (skipCR m.mem len i) := hwf.mono his (hlen ▸ hsl)
    rcases hwf.count.lt_or_eq with hk | hk
    · obtain ⟨m', r, hp⟩ := parseHeaderLine_ok hk len (skipCR m.mem len i)
      have hstep := parseHeaderLine_spec hk hp
      have hwf' := hstep.wfBelow hwfs hlen hk
      rw [hp]
      cases r with
      | none => exact .inl ⟨m', _, rfl, hwf'.wf⟩
      | some i' =>
        obtain ⟨q, c, a, b, hline, hcnt, -, -, -, habove⟩ := hstep.done i' rfl
        have hb := hline.bounds
        refine (ih hwf' (hstep.head.msgLen.trans hlen) (by simp; omega)).imp id ?_
        rintro ⟨he, j, hj, hbegin⟩
        have hmem : ∀ j, i' ≤ j → m.mem j = m'.mem j := fun j hj => (habove j (by omega)).symm
        have hij : i' ≤ j := headerLines_le hj
        refine ⟨he, j, ?_, ?_⟩
        · rw [show maxFields - m.headerCount = (maxFields - m'.headerCount) + 1 by omega]
          exact .cons (by omega) hlf hline (headerLines_congr hj hmem)
        · unfold HeaderBegins skipCR at hbegin ⊢
          rw [hmem j hij]
          split_ifs at hbegin ⊢ <;> rwa [hmem _ (by omega)]
    · rw [parseHeaderLine_full hk]
      by_cases hb : m.mem (skipCR m.mem len i) = TAB ∨ m.mem (skipCR m.mem len i) = SP
      · rw [if_pos hb]
        exact .inl ⟨m, _, rfl, hwf.wf⟩
      · rw [if_neg hb]
        refine .inr ⟨rfl, i, ?_, by omega, hlf, not_or.1 hb⟩
        rw [hk, Nat.sub_self]
        exact .nil

/-- The loop over the header lines leaves the type and the union as they are. -/
theorem parseHeaderLines_head {fuel : ℕ} {r : ℤ} (hk : m.headerCount ≤ maxFields)
    (h : parseHeaderLines len fuel m i = .ok (m', r)) : SameHead m m' := by
  induction fuel generalizing m i with
  | zero => cases h
  | succ fuel ih =>
    have hs : (if i < len ∧ m.mem i = CR then i + 1 else i) = skipCR m.mem len i := rfl
    simp only [parseHeaderLines, hs, bind, Except.bind, pure, Except.pure] at h
    by_cases hend : skipCR m.mem len i = len
    · rw [if_pos hend] at h
      cases h
      exact .refl _
    rw [if_neg hend] at h
    by_cases hlf : m.mem (skipCR m.mem len i) = LF
    · rw [if_pos hlf] at h
      cases h
      exact .refl _
    rw [if_neg hlf] at h
    rcases hk.lt_or_eq with hk | hk
    · obtain ⟨m₁, r₁, hp⟩ := parseHeaderLine_ok hk len (skipCR m.mem len i)
      have hstep := parseHeaderLine_spec hk hp
      rw [hp] at h
      cases r₁ with
      | none =>
        cases h
        exact hstep.head
      | some i₁ =>
        obtain ⟨-, -, -, -, -, hcnt, -⟩ := hstep.done i₁ rfl
        exact hstep.head.trans (ih (by omega) h)
    · rw [parseHeaderLine_full hk] at h
      split_ifs at h
      · cases h
        exact .refl _

end Parse

end Pmsg

/-- The text of the message has more header lines than the table has fields: behind a start line
and `MAX_FIELDS` header lines another one begins. -/
def TooManyHeaders (m : Pmsg) : Prop :=
  ∃ e i j, StartLineAt m.mem m.msgLen e i ∧ HeaderLines m.mem m.msgLen i maxFields j ∧
    HeaderBegins m.mem m.msgLen j

namespace Pmsg

/-- A message that is parsed has a start line, and its type says which. -/
theorem parsePmsg_words {m m' : Pmsg} {r : ℤ} (h : m.parsePmsg = .ok (m', r)) (hr : 0 ≤ r) :
    ∃ e < m.msgLen,
      m'.type = .req ∧ (∃ p, m'.slFst = .method p) ∧ (∃ p, m'.slSnd = .uri p) ∧
        RequestWords m.mem e ∨ m'.type = .resp ∧ StatusWords m.mem e := by
  unfold parsePmsg at h
  dsimp only at h
  rcases hp : ({ m with headerCount := 0 } : Pmsg).parseStartLine m.msgLen with ⟨m₁, _ | i⟩
  · rw [hp] at h
    cases h
    omega
  · rw [hp] at h
    have hs := parseStartLine_spec hp
    have hc : m₁.headerCount = 0 := hs.table.headerCount
    have hsame := parseHeaderLines_head (by omega) h
    obtain ⟨e, hstart, hil, -, hwords⟩ := hs.done i rfl
    rw [← hsame.type, ← hsame.slFst, ← hsame.slSnd] at hwords
    obtain ⟨t, het, -, -, ht⟩ := hstart.close
    exact ⟨e, by omega, hwords⟩

/-- Header lines take up at least three bytes each. -/
theorem headerLines_length {mem : ℕ → UInt8} {len i n j : ℕ} (h : HeaderLines mem len i n j) :
    i + 3 * n ≤ j := by
  induction h with
  | nil => omega
  | @cons i n j q c a b i' _ _ hline _ ih =>
    have hi : i ≤ skipCR mem len i := by unfold skipCR; split_ifs <;> omega
    have hb := hline.bounds
    omega

/-- A short message does not have too many headers. -/
theorem not_tooManyHeaders {m : Pmsg} (h : m.msgLen ≤ 3 * maxFields) : ¬ TooManyHeaders m := by
  rintro ⟨e, i, j, -, hlines, hbegin, -⟩
  have hj := headerLines_length hlines
  have hle : j ≤ skipCR m.mem m.msgLen j := by unfold skipCR; split_ifs <;> omega
  omega

/-- A message without headers. -/
theorem wfBelow_zero {m : Pmsg} (hc : m.headerCount = 0) (hu : m.msgLen ≤ m.maxLen) {i : ℕ}
    (hi : i ≤ m.msgLen) : m.WfBelow i :=
  ⟨by omega, hu, hi, fun k hk => by omega, fun k hk => by omega⟩

/-- **The parser.** It fills the table up to the invariant, or the text has too many headers and
it writes behind the table. -/
theorem parsePmsg_spec {m : Pmsg} (hu : m.msgLen ≤ m.maxLen) :
    (∃ m' r, m.parsePmsg = .ok (m', r) ∧ m'.Wf) ∨
      m.parsePmsg = .error .fieldIndex ∧ TooManyHeaders m := by
  unfold parsePmsg
  dsimp only
  rcases hp : ({ m with headerCount := 0 } : Pmsg).parseStartLine m.msgLen with ⟨m₁, r⟩
  have hs := parseStartLine_spec hp
  have hc : m₁.headerCount = 0 := hs.table.headerCount
  have hlen : m₁.msgLen = m.msgLen := hs.table.msgLen
  have hu₁ : m₁.msgLen ≤ m₁.maxLen := by rw [hlen, hs.table.maxLen]; exact hu
  cases r with
  | none => exact .inl ⟨m₁, _, rfl, wfBelow_zero hc hu₁ le_rfl⟩
  | some i =>
    obtain ⟨e, hstart, hil, habove, -⟩ := hs.done i rfl
    refine (parseHeaderLines_spec (wfBelow_zero hc hu₁ (by omega)) hlen (by omega)).imp id ?_
    rintro ⟨he, j, hj, hbegin⟩
    have hij := headerLines_le hj
    refine ⟨he, e, i, j, hstart, ?_, ?_⟩
    · rw [hc] at hj
      exact headerLines_congr hj fun j hj => (habove j hj).symm
    · unfold HeaderBegins skipCR at hbegin ⊢
      rw [habove j hij] at hbegin
      split_ifs at hbegin ⊢
      · rwa [habove (j + 1) (by omega)] at hbegin
      · rwa [habove j hij] at hbegin

end Pmsg

end Spook
