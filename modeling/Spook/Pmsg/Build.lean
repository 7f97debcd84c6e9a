import Spook.Lib.Machine
import Spook.Pmsg.Invariant

set_option relaxedAutoImplicit false
set_option autoImplicit false

/-!
# Building messages

The operations that add and replace headers keep the representation invariant and leave every
stored field as it was, but for the value that is replaced. Over whole runs this holds as long
as no message with too many headers is parsed.

## Main definitions

* `Spook.Pmsg.HeaderAdded`, `HeaderReplaced` — what the operations do to a message.
* `Spook.pmsgMachine` — messages and the operations on them.

## Main results

* `Spook.Pmsg.addHeader_spec`, `addHeaderPrintf_spec`, `replaceHeader_spec`, `copyLoop_spec` —
  what each operation does.
* `Spook.pmsg_representation` — the invariant and the frame over whole runs.
-/

namespace Spook

namespace Pmsg

section Build

variable {m m' : Pmsg}

/-- What `add_pmsg_string` does: nothing, or it continues the message with the string. -/
structure StringAdded (m : Pmsg) (s : Bytes) (m' : Pmsg) (r : Option ℕ) : Prop where
  extends' : m.Extends m.msgLen m'
  headerCount : m'.headerCount = m.headerCount
  fields : m'.fields = m.fields
  added : ∀ p, r = some p → p = m.msgLen ∧ m'.msgLen = p + (cstr s).length + 1 ∧
    cstrAt m'.mem p m'.msgLen = cstr s

/-- Specification of `add_pmsg_string`. -/
theorem addPmsgString_spec (hu : m.msgLen ≤ m.maxLen) {s : Bytes} {r : Option ℕ}
    (h : m.addPmsgString s = (m', r)) : StringAdded m s m' r := by
  unfold addPmsgString at h
  dsimp only at h
  split_ifs at h with hlen
  · cases h
    exact ⟨⟨fun _ _ => rfl, le_rfl, hu, fun _ _ => rfl⟩, rfl, rfl, by simp⟩
  · cases h
    refine ⟨⟨fun j hj => strcpy_of_outside (.inl hj), by dsimp only; omega, by dsimp only; omega,
      fun _ _ => rfl⟩, rfl, rfl, fun p hp => ?_⟩
    cases hp
    exact ⟨rfl, by dsimp only; omega, cstrAt_strcpy (cstr_nulFree s) (by dsimp only; omega)⟩

/-- What an operation that adds at most one header does. -/
structure HeaderAdded (m : Pmsg) (name value : Bytes) (m' : Pmsg) (r : ℤ) : Prop where
  wf : m'.Wf
  keeps : Keeps noField m m'
  result : r = 0 ∧ m'.headerCount = m.headerCount + 1 ∧
      m'.text m.headerCount .name = some (cstr name) ∧
      m'.text m.headerCount .value = some (cstr value) ∨
    r = -1 ∧ m'.headerCount = m.headerCount

/-- Continuations compose. -/
theorem Extends.trans {m'' : Pmsg} {i i' : ℕ} (h : m.Extends i m') (h' : m'.Extends i' m'')
    (hi : i ≤ i') (hc : m.headerCount ≤ m'.headerCount) : m.Extends i m'' :=
  ⟨fun j hj => (h'.mem j (by omega)).trans (h.mem j hj), h.msgLen.trans h'.msgLen, h'.room,
    fun k hk => (h'.fields k (hk.trans_le hc)).trans (h.fields k hk)⟩

/-- `m'` is `m` with the field `k` set to `f`. -/
structure FieldSet (m : Pmsg) (k : ℕ) (f : Hdrf) (m' : Pmsg) : Prop where
  mem : m'.mem = m.mem
  msgLen : m'.msgLen = m.msgLen
  maxLen : m'.maxLen = m.maxLen
  headerCount : m'.headerCount = m.headerCount
  fields : m'.fields = Function.update m.fields k f

/-- Specification of a stored name. -/
theorem setName_spec {k : ℕ} (hk : k < maxFields) (m : Pmsg) (p : Option ℕ) :
    ∃ m', m.setName k p = .ok m' ∧ FieldSet m k ⟨p, (m.fields k).value⟩ m' :=
  ⟨_, setName_ok hk p, rfl, rfl, rfl, rfl, rfl⟩

/-- Specification of a stored value. -/
theorem setValue_spec {k : ℕ} (hk : k < maxFields) (m : Pmsg) (p : Option ℕ) :
    ∃ m', m.setValue k p = .ok m' ∧ FieldSet m k ⟨(m.fields k).name, p⟩ m' :=
  ⟨_, setValue_ok hk p, rfl, rfl, rfl, rfl, rfl⟩

/-- The field behind the stored ones may be written. -/
theorem Extends.setField {m'' : Pmsg} {i : ℕ} {f : Hdrf} (h : m.Extends i m')
    (hs : FieldSet m' m.headerCount f m'') : m.Extends i m'' :=
  ⟨fun j hj => by rw [hs.mem, h.mem j hj], by rw [hs.msgLen]; exact h.msgLen,
    by rw [hs.msgLen, hs.maxLen]; exact h.room, fun k hk => by
      rw [hs.fields, Function.update_of_ne hk.ne, h.fields k hk]⟩

/-- A message that was continued without a new header. -/
theorem HeaderAdded.of_extends (name value : Bytes) (hwf : m.Wf) (hx : m.Extends m.msgLen m')
    (hc : m'.headerCount = m.headerCount) : HeaderAdded m name value m' (-1) :=
  ⟨(hx.wfBelow hwf hc).wf, hx.keeps hwf hc.ge _, .inr ⟨rfl, hc⟩⟩

/-- A message that was continued with a new header, whose two strings lie apart. -/
theorem HeaderAdded.of_snoc {name value : Bytes} {p₁ p₂ : ℕ} (hwf : m.Wf)
    (hx : m.Extends m.msgLen m') (hroom : m.headerCount < maxFields)
    (hc : m'.headerCount = m.headerCount + 1)
    (hf : m'.fields m.headerCount = ⟨some p₁, some p₂⟩)
    (hn : cstrAt m'.mem p₁ m'.msgLen = cstr name) (hv : cstrAt m'.mem p₂ m'.msgLen = cstr value)
    (h₁ : m.msgLen ≤ p₁ ∧ p₁ + (cstr name).length < m'.msgLen)
    (h₂ : m.msgLen ≤ p₂ ∧ p₂ + (cstr value).length < m'.msgLen)
    (hne : p₁ + (cstr name).length < p₂ ∨ p₂ + (cstr value).length < p₁) :
    HeaderAdded m name value m' 0 := by
  have he₁ : m'.ends p₁ = p₁ + (cstr name).length := by rw [Pmsg.ends, strEnd, hn]
  have he₂ : m'.ends p₂ = p₂ + (cstr value).length := by rw [Pmsg.ends, strEnd, hv]
  refine ⟨?_, hx.keeps hwf (by omega) _, .inl ⟨rfl, hc, ?_, ?_⟩⟩
  · exact hx.snoc hwf hc hroom hf le_rfl (he₁ ▸ h₁) (he₂ ▸ h₂) (he₁ ▸ he₂ ▸ hne)
  · simp [Pmsg.text, Pmsg.ptr, hf, Hdrf.ptr, hn]
  · simp [Pmsg.text, Pmsg.ptr, hf, Hdrf.ptr, hv]

/-- Specification of `add_header`. -/
theorem addHeader_spec (hwf : m.Wf) (name value : Bytes) :
    ∃ m' r, m.addHeader name value = .ok (m', r) ∧ HeaderAdded m name value m' r := by
  unfold addHeader
  simp only [bind, Except.bind, pure, Except.pure]
  by_cases hk : m.headerCount = maxFields
  · rw [if_pos hk]
    exact ⟨m, _, rfl, .of_extends name value hwf ⟨fun _ _ => rfl, le_rfl, hwf.used, fun _ _ => rfl⟩ rfl⟩
  have hroom : m.headerCount < maxFields := by have := hwf.count; omega
  rw [if_neg hk]
  rcases hp₁ : m.addPmsgString name with ⟨m₁, p₁⟩
  have h₁ := addPmsgString_spec hwf.used hp₁
  obtain ⟨m₂, hset₂, h₂⟩ := setName_spec hroom m₁ p₁
  have hx₂ := h₁.extends'.setField h₂
  have hc₂ : m₂.headerCount = m.headerCount := h₂.headerCount.trans h₁.headerCount
  dsimp only
  rw [h₁.headerCount, hset₂]
  dsimp only
  cases p₁ with
  | none =>
    rw [if_pos rfl]
    exact ⟨m₂, _, rfl, .of_extends name value hwf hx₂ hc₂⟩
  | some p₁ =>
    rw [if_neg (by simp)]
    obtain ⟨rfl, hlen₁, hn₁⟩ := h₁.added p₁ rfl
    have hn₂ : cstrAt m₂.mem m.msgLen m₂.msgLen = cstr name := by rw [h₂.mem, h₂.msgLen, hn₁]
    have hlen₂ := h₂.msgLen
    rcases hp₃ : m₂.addPmsgString value with ⟨m₃, p₃⟩
    have h₃ := addPmsgString_spec hx₂.room hp₃
    obtain ⟨m₄, hset₄, h₄⟩ := setValue_spec hroom m₃ p₃
    have hx₄ := (hx₂.trans h₃.extends' (by omega) hc₂.ge).setField h₄
    have hc₄ : m₄.headerCount = m.headerCount :=
      h₄.headerCount.trans (h₃.headerCount.trans hc₂)
    dsimp only
    rw [h₃.headerCount, hc₂, hset₄]
    dsimp only
    cases p₃ with
    | none =>
      rw [if_pos rfl]
      exact ⟨m₄, _, rfl, .of_extends name value hwf hx₄ hc₄⟩
    | some p₃ =>
      rw [if_neg (by simp)]
      obtain ⟨rfl, hlen₃, hv₃⟩ := h₃.added p₃ rfl
      have hn₃ : cstrAt m₃.mem m.msgLen m₃.msgLen = cstr name := by
        rw [← hn₂]
        have hend : strEnd m₂.mem m.msgLen m₂.msgLen = m.msgLen + (cstr name).length := by
          rw [strEnd, hn₂]
        exact cstrAt_congr (by omega) h₃.extends'.msgLen fun j _ hj => h₃.extends'.mem j (by omega)
      have hlen₄ := h₄.msgLen
      refine ⟨_, _, rfl, .of_snoc hwf ⟨hx₄.mem, hx₄.msgLen, hx₄.room, hx₄.fields⟩ hroom ?_ ?_
        (h₄.mem.symm ▸ hlen₄.symm ▸ hn₃) (h₄.mem.symm ▸ hlen₄.symm ▸ hv₃) ⟨le_rfl, ?_⟩
        ⟨?_, ?_⟩ (.inl ?_)⟩
      · dsimp only
        rw [hc₄]
      · simp [h₄.fields, h₃.fields, h₂.fields]
      · change m.msgLen + _ < m₄.msgLen
        omega
      · omega
      · change m₂.msgLen + _ < m₄.msgLen
        omega
      · omega

/-- Specification of `add_header_printf`.

**Proof sketch.** Along the code. `vsnprintf` writes behind the message, where no string is. If the
table or the buffer is full nothing else changes. Otherwise the value is taken over as the next
field, the name is added behind it, and the count is increased if there was room for the name. -/
theorem addHeaderPrintf_spec (hwf : m.Wf) (name s : Bytes) :
    ∃ m' r, m.addHeaderPrintf name s = .ok (m', r) ∧ HeaderAdded m name s m' r := by
  unfold addHeaderPrintf
  simp only [bind, Except.bind, pure, Except.pure]
  have hx₁ : m.Extends m.msgLen
      { m with mem := vsnprintf m.mem m.msgLen (m.maxLen - m.msgLen) (cstr s) } :=
    ⟨fun j hj => vsnprintf_of_lt _ hj, le_rfl, hwf.used, fun _ _ => rfl⟩
  by_cases hk : m.headerCount = maxFields
  · rw [if_pos hk]
    exact ⟨_, _, rfl, .of_extends name s hwf hx₁ rfl⟩
  have hroom : m.headerCount < maxFields := by have := hwf.count; omega
  rw [if_neg hk]
  by_cases hfit : m.msgLen + (cstr s).length ≥ m.maxLen
  · rw [if_pos hfit]
    exact ⟨_, _, rfl, .of_extends name s hwf hx₁ rfl⟩
  rw [if_neg hfit]
  obtain ⟨m₂, hset₂, h₂⟩ := setValue_spec hroom
    { m with mem := vsnprintf m.mem m.msgLen (m.maxLen - m.msgLen) (cstr s) } (some m.msgLen)
  rw [hset₂]
  dsimp only
  obtain ⟨m₃, hm₃⟩ : ∃ m₃ : Pmsg, m₃ = { m₂ with
    msgLen := m₂.msgLen + ((cstr s).length + 1) } := ⟨_, rfl⟩
  rw [← hm₃]
  have hl₂ := h₂.msgLen
  have hc₃ : m₃.headerCount = m.headerCount := by rw [hm₃]; exact h₂.headerCount
  have hl₃ : m₃.msgLen = m.msgLen + ((cstr s).length + 1) := by rw [hm₃, ← hl₂]
  have hx₂ := hx₁.setField h₂
  have hx₃ : m.Extends m.msgLen m₃ := by
    subst hm₃
    refine ⟨hx₂.mem, by omega, ?_, hx₂.fields⟩
    rw [hl₃]
    change _ ≤ m₂.maxLen
    rw [h₂.maxLen]
    change _ ≤ m.maxLen
    omega
  have hv₃ : cstrAt m₃.mem m.msgLen m₃.msgLen = cstr s := by
    have hmem : m₃.mem = vsnprintf m.mem m.msgLen (m.maxLen - m.msgLen) (cstr s) := by
      rw [hm₃, h₂.mem]
    rw [hmem]
    exact cstrAt_vsnprintf (cstr_nulFree s) (by omega) (by omega)
  rcases hp₄ : m₃.addPmsgString name with ⟨m₄, p₄⟩
  have h₄ := addPmsgString_spec hx₃.room hp₄
  obtain ⟨m₅, hset₅, h₅⟩ := setName_spec hroom m₄ p₄
  have hx₅ := (hx₃.trans h₄.extends' (by omega) hc₃.ge).setField h₅
  have hc₅ : m₅.headerCount = m.headerCount := h₅.headerCount.trans (h₄.headerCount.trans hc₃)
  dsimp only
  rw [h₄.headerCount, hc₃, hset₅]
  dsimp only
  cases p₄ with
  | none =>
    rw [if_pos rfl]
    exact ⟨m₅, _, rfl, .of_extends name s hwf hx₅ hc₅⟩
  | some p₄ =>
    rw [if_neg (by simp)]
    obtain ⟨rfl, hlen₄, hn₄⟩ := h₄.added p₄ rfl
    have hv₄ : cstrAt m₄.mem m.msgLen m₄.msgLen = cstr s := by
      rw [← hv₃]
      have hend : strEnd m₃.mem m.msgLen m₃.msgLen = m.msgLen + (cstr s).length := by
        rw [strEnd, hv₃]
      exact cstrAt_congr (by omega) h₄.extends'.msgLen fun j _ hj => h₄.extends'.mem j (by omega)
    have hlen₅ := h₅.msgLen
    refine ⟨_, _, rfl, .of_snoc hwf ⟨hx₅.mem, hx₅.msgLen, hx₅.room, hx₅.fields⟩ hroom ?_ ?_
      (h₅.mem.symm ▸ hlen₅.symm ▸ hn₄) (h₅.mem.symm ▸ hlen₅.symm ▸ hv₄) ⟨?_, ?_⟩
      ⟨le_rfl, ?_⟩ (.inr ?_)⟩
    · dsimp only
      rw [hc₅]
    · have hfm : m₃.fields = m₂.fields := by rw [hm₃]
      simp [h₅.fields, h₄.fields, hfm, h₂.fields]
    · omega
    · change m₃.msgLen + _ < m₅.msgLen
      omega
    · change m.msgLen + _ < m₅.msgLen
      omega
    · omega

/-- The field `i` is the first whose name is `name` up to case. -/
def FirstNamed (m : Pmsg) (name : Bytes) (i : ℕ) : Prop :=
  i < m.headerCount ∧ (∃ s, m.text i .name = some s ∧ strCaseEq s (cstr name)) ∧
    ∀ j < i, ∀ s, m.text j .name = some s → ¬ strCaseEq s (cstr name)

/-- A stored string is read without a fault. -/
theorem cstring_of_wf (hwf : m.Wf) {k : ℕ} (hk : k < m.headerCount) (w : Part) :
    ∃ s, m.cstring (m.ptr k w) = .ok s ∧ m.text k w = some s := by
  obtain ⟨p, hp, -⟩ := hwf.stored k hk w
  exact ⟨cstrAt m.mem p m.msgLen, by rw [hp]; rfl, by simp [Pmsg.text, hp]⟩

/-- Specification of the search for a header from `i` on. -/
theorem findHeader_spec (hwf : m.Wf) (name : Bytes) {n i : ℕ} (hn : i + n = m.headerCount)
    (hi : ∀ j < i, ∀ s, m.text j .name = some s → ¬ strCaseEq s (cstr name)) :
    (∃ k, m.findHeader name n i = .ok (some k) ∧ m.FirstNamed name k) ∨
      m.findHeader name n i = .ok none ∧ ∀ k, ¬ m.FirstNamed name k := by
  induction n generalizing i with
  | zero =>
    exact .inr ⟨rfl, fun k ⟨hk, ⟨s, hs, heq⟩, _⟩ => hi k (by omega) s hs heq⟩
  | succ n ih =>
    obtain ⟨s, hs, ht⟩ := cstring_of_wf hwf (show i < m.headerCount by omega) .name
    change m.cstring (m.fields i).name = .ok s at hs
    unfold findHeader
    simp only [hs, bind, Except.bind, pure, Except.pure]
    by_cases heq : strCaseEq s (cstr name)
    · rw [if_pos heq]
      exact .inl ⟨i, rfl, by omega, ⟨s, ht, heq⟩, hi⟩
    · rw [if_neg heq]
      refine ih (by omega) fun j hj t htj => ?_
      rcases Nat.lt_succ_iff_lt_or_eq.1 hj with hj | rfl
      · exact hi j hj t htj
      · rwa [← Option.some.inj (ht.symm.trans htj)]

/-- What `replace_header` does: it stores the new value in the first field of that name, or
adds a header, or fails and leaves every field as it is. -/
structure HeaderReplaced (m : Pmsg) (name value : Bytes) (m' : Pmsg) (r : ℤ) : Prop where
  wf : m'.Wf
  keeps : Keeps (fun k w => r = 0 ∧ w = .value ∧ m.FirstNamed name k) m m'
  replaced : ∀ k, r = 0 → m.FirstNamed name k → m'.text k .value = some (cstr value)

/-- Two fields that are both the first of a name are one. -/
theorem FirstNamed.unique {name : Bytes} {i j : ℕ} (hi : m.FirstNamed name i)
    (hj : m.FirstNamed name j) : i = j := by
  obtain ⟨-, ⟨s, hs, hsn⟩, hi'⟩ := hi
  obtain ⟨-, ⟨t, ht, htn⟩, hj'⟩ := hj
  rcases Nat.lt_trichotomy i j with h | h | h
  · exact absurd hsn (hj' i h s hs)
  · exact h
  · exact absurd htn (hi' j h t ht)

/-- A value that fits in the space of the old one is stored there. -/
theorem replace_inPlace (hwf : m.Wf) {i p : ℕ} (hi : i < m.headerCount)
    (hp : m.ptr i .value = some p) {v : Bytes} (hv : NulFree v)
    (hfit : v.length ≤ (cstrAt m.mem p m.msgLen).length) :
    Wf { m with mem := strcpy m.mem p v } ∧
      Keeps (fun k w => k = i ∧ w = .value) m { m with mem := strcpy m.mem p v } ∧
      ({ m with mem := strcpy m.mem p v } : Pmsg).text i .value = some v := by
  obtain ⟨q, hq, hend⟩ := hwf.stored i hi .value
  obtain rfl : q = p := Option.some.inj (hq.symm.trans hp)
  have hend' : m.ends q = q + (cstrAt m.mem q m.msgLen).length := rfl
  have hnew : cstrAt (strcpy m.mem q v) q m.msgLen = v := cstrAt_strcpy hv (by omega)
  have hother : ∀ k < m.headerCount, ∀ w p, (k, w) ≠ (i, .value) → m.ptr k w = some p →
      cstrAt (strcpy m.mem q v) p m.msgLen = cstrAt m.mem p m.msgLen := by
    intro k hk w p hne hkp
    obtain ⟨p', hp', he⟩ := hwf.stored k hk w
    obtain rfl : p' = p := Option.some.inj (hp'.symm.trans hkp)
    have hap := hwf.apart k hk i hi w .value p' q hne hkp hq
    have hle : p' ≤ m.ends p' := Nat.le_add_right _ _
    refine cstrAt_congr he le_rfl fun j hj1 hj2 => strcpy_of_outside ?_
    change j ≤ m.ends p' at hj2
    omega
  have hends : ∀ k < m.headerCount, ∀ w p, m.ptr k w = some p →
      strEnd (strcpy m.mem q v) p m.msgLen ≤ m.ends p := by
    intro k hk w p hkp
    by_cases hkw : (k, w) = (i, .value)
    · obtain ⟨rfl, rfl⟩ := Prod.mk.inj hkw
      obtain rfl : q = p := Option.some.inj (hq.symm.trans hkp)
      rw [strEnd, hnew]
      omega
    · rw [strEnd, hother k hk w p hkw hkp]
      exact le_rfl
  refine ⟨⟨hwf.count, hwf.used, le_rfl, fun k hk w => ?_, ?_⟩, ⟨le_rfl, fun _ _ _ _ => rfl, ?_⟩, ?_⟩
  · obtain ⟨p', hp', he⟩ := hwf.stored k hk w
    exact ⟨p', hp', (hends k hk w p' hp').trans_lt he⟩
  · intro k hk k' hk' w w' p p' hne hkp hkp'
    have h := hwf.apart k hk k' hk' w w' p p' hne hkp hkp'
    have h1 := hends k hk w p hkp
    have h2 := hends k' hk' w' p' hkp'
    unfold Pmsg.ends at h h1 h2 ⊢
    dsimp only
    omega
  · intro k hk w hR
    obtain ⟨p', hp', -⟩ := hwf.stored k hk w
    have hkw : (k, w) ≠ (i, .value) := fun h => hR (by simpa using h)
    have hp'' : ({ m with mem := strcpy m.mem q v } : Pmsg).ptr k w = some p' := hp'
    simp only [Pmsg.text, hp', hp'', Option.map_some, hother k hk w p' hkw hp']
  · have hq' : ({ m with mem := strcpy m.mem q v } : Pmsg).ptr i .value = some q := hq
    simp only [Pmsg.text, hq', Option.map_some, hnew]

/-- A value that does not fit in the space of the old one is stored at the end.

**Proof sketch.** The new value is at the end of the message, behind all other strings, and only the
pointer of the field `i` goes there. All other pointers are to strings that end before it. -/
theorem replace_append (hwf : m.Wf) {i p : ℕ} {v : Bytes} {m₁ m₂ : Pmsg}
    (hi : i < m.headerCount) (h₁ : StringAdded m v m₁ (some p))
    (h₂ : FieldSet m₁ i ⟨(m₁.fields i).name, some p⟩ m₂) :
    m₂.Wf ∧ Keeps (fun k w => k = i ∧ w = .value) m m₂ ∧
      m₂.text i .value = some (cstr v) := by
  have hx₁ := h₁.extends'
  have hwf₁ := hx₁.wfBelow hwf h₁.headerCount
  obtain ⟨hpm, hlen, hstr⟩ := h₁.added p rfl
  have hc : m₂.headerCount = m.headerCount := h₂.headerCount.trans h₁.headerCount
  have hends : ∀ p, m₂.ends p = m₁.ends p := fun p => by
    rw [Pmsg.ends, Pmsg.ends, h₂.mem, h₂.msgLen]
  have hi₁ : i < m₁.headerCount := h₁.headerCount ▸ hi
  have hnew : m₂.ptr i .value = some p := by simp [Pmsg.ptr, h₂.fields, Hdrf.ptr]
  have hptr : ∀ k w, (k, w) ≠ (i, Part.value) → m₂.ptr k w = m₁.ptr k w := by
    intro k w hne
    unfold Pmsg.ptr
    rw [h₂.fields]
    by_cases hk : k = i
    · subst hk
      cases w with
      | name => simp [Hdrf.ptr]
      | value => simp at hne
    · rw [Function.update_of_ne hk]
  have hpe : m₁.ends p = p + (cstr v).length := by rw [Pmsg.ends, strEnd, hstr]
  have hold : ∀ k < m.headerCount, ∀ w, (k, w) ≠ (i, Part.value) →
      ∃ q, m₂.ptr k w = some q ∧ m₁.ptr k w = some q ∧ m₁.ends q < m.msgLen := by
    intro k hk w hne
    obtain ⟨q, hq, he⟩ := hwf₁.stored k (h₁.headerCount ▸ hk) w
    exact ⟨q, (hptr k w hne).trans hq, hq, he⟩
  refine ⟨⟨hc ▸ hwf.count, ?_, le_rfl, fun k hk w => ?_, ?_⟩, ⟨hc.ge, ?_, ?_⟩, ?_⟩
  · rw [h₂.msgLen, h₂.maxLen]
    exact hx₁.room
  · rw [h₂.msgLen]
    by_cases hkw : (k, w) = (i, Part.value)
    · obtain ⟨rfl, rfl⟩ := Prod.mk.inj hkw
      exact ⟨p, hnew, by rw [hends]; omega⟩
    · obtain ⟨q, hq, -, he⟩ := hold k (hc ▸ hk) w hkw
      exact ⟨q, hq, by rw [hends]; have := hx₁.msgLen; omega⟩
  · intro k hk k' hk' w w' q q' hne hq hq'
    rw [hends, hends]
    rw [hc] at hk hk'
    have hle : ∀ q, q ≤ m₁.ends q := fun q => Nat.le_add_right _ _
    by_cases hkw : (k, w) = (i, Part.value)
    · obtain ⟨rfl, rfl⟩ := Prod.mk.inj hkw
      obtain rfl : p = q := Option.some.inj (hnew.symm.trans hq)
      obtain ⟨t, ht, -, he⟩ := hold k' hk' w' (Ne.symm hne)
      obtain rfl : t = q' := Option.some.inj (ht.symm.trans hq')
      exact .inr (by omega)
    · by_cases hkw' : (k', w') = (i, Part.value)
      · obtain ⟨rfl, rfl⟩ := Prod.mk.inj hkw'
        obtain rfl : p = q' := Option.some.inj (hnew.symm.trans hq')
        obtain ⟨t, ht, -, he⟩ := hold k hk w hkw
        obtain rfl : t = q := Option.some.inj (ht.symm.trans hq)
        exact .inl (by omega)
      · exact hwf₁.apart k (h₁.headerCount ▸ hk) k' (h₁.headerCount ▸ hk') w w' q q' hne
          ((hptr k w hkw).symm.trans hq) ((hptr k' w' hkw').symm.trans hq')
  · intro k hk w hR
    have hkw : (k, w) ≠ (i, Part.value) := fun h => hR (by simpa using h)
    rw [hptr k w hkw, hx₁.ptr hk w]
  · intro k hk w hR
    have hkw : (k, w) ≠ (i, Part.value) := fun h => hR (by simpa using h)
    rw [← (hx₁.keeps hwf h₁.headerCount.ge noField).text k hk w id]
    unfold Pmsg.text
    rw [hptr k w hkw, h₂.mem, h₂.msgLen]
  · simp only [Pmsg.text, hnew, Option.map_some, h₂.mem, h₂.msgLen, hstr]

/-- Specification of `replace_header`. -/
theorem replaceHeader_spec (hwf : m.Wf) (name value : Bytes) :
    ∃ m' r, m.replaceHeader name value = .ok (m', r) ∧ HeaderReplaced m name value m' r := by
  unfold replaceHeader
  simp only [bind, Except.bind, pure, Except.pure]
  rcases findHeader_spec hwf name (Nat.zero_add _) (by simp) with ⟨i, hf, hfirst⟩ | ⟨hf, hno⟩
  · have hkeeps : ∀ {m'}, Keeps (fun k w => k = i ∧ w = .value) m m' →
        Keeps (fun k w => (0 : ℤ) = 0 ∧ w = .value ∧ m.FirstNamed name k) m m' := by
      intro m' h
      refine ⟨h.count, fun k hk w hR => h.ptr k hk w ?_, fun k hk w hR => h.text k hk w ?_⟩ <;>
        exact fun ⟨hk, hw⟩ => hR ⟨rfl, hw, hk ▸ hfirst⟩
    have hrep : ∀ {m' : Pmsg}, m'.text i .value = some (cstr value) →
        ∀ k, (0 : ℤ) = 0 → m.FirstNamed name k → m'.text k .value = some (cstr value) :=
      fun h k _ hk => hk.unique hfirst ▸ h
    obtain ⟨p, hp, -⟩ := hwf.stored i hfirst.1 .value
    have hv : m.cstring (m.fields i).value = .ok (cstrAt m.mem p m.msgLen) := by
      change m.cstring (m.ptr i .value) = _
      rw [hp]
      rfl
    rw [hf]
    dsimp only
    rw [hv]
    dsimp only
    by_cases hlt : (cstrAt m.mem p m.msgLen).length < (cstr value).length
    · rw [if_pos hlt]
      rcases ha : m.addPmsgString value with ⟨m₁, q⟩
      have h₁ := addPmsgString_spec hwf.used ha
      dsimp only
      cases q with
      | none =>
        rw [if_pos rfl]
        exact ⟨m₁, _, rfl, (h₁.extends'.wfBelow hwf h₁.headerCount).wf,
          h₁.extends'.keeps hwf h₁.headerCount.ge _, by simp⟩
      | some q =>
        rw [if_neg (by simp)]
        obtain ⟨m₂, hset, h₂⟩ := setValue_spec (hfirst.1.trans_le hwf.count) m₁ (some q)
        rw [hset]
        obtain ⟨hwf₂, hk₂, ht₂⟩ := replace_append hwf hfirst.1 h₁ h₂
        exact ⟨m₂, _, rfl, hwf₂, hkeeps hk₂, hrep ht₂⟩
    · rw [if_neg hlt]
      change m.ptr i .value = some p at hp
      change (m.fields i).value = some p at hp
      rw [hp]
      obtain ⟨hwf₂, hk₂, ht₂⟩ :=
        replace_inPlace hwf hfirst.1 hp (cstr_nulFree value) (Nat.le_of_not_lt hlt)
      exact ⟨_, _, rfl, hwf₂, hkeeps hk₂, hrep ht₂⟩
  · rw [hf]
    obtain ⟨m', r, ha, h⟩ := addHeader_spec hwf name value
    exact ⟨m', r, ha, h.wf, ⟨h.keeps.count, fun k hk w _ => h.keeps.ptr k hk w id,
      fun k hk w _ => h.keeps.text k hk w id⟩, fun k _ hk => absurd hk (hno k)⟩

/-- Specification of the loop of `copy_headers`: the destination keeps what it had. -/
theorem copyLoop_spec {same : Bool} {name : Bytes} {n i : ℕ} {dest src : Pmsg} {count : ℕ}
    (hd : dest.Wf) (hs : src.Wf) (hn : maxFields ≤ i + n) :
    ∃ dest' c, copyLoop same name n i dest src count = .ok (dest', c) ∧ dest'.Wf ∧
      Keeps noField dest dest' := by
  induction n generalizing i dest src count with
  | zero =>
    have hle := hs.count
    exact ⟨dest, count, by rw [copyLoop, if_neg (by omega)], hd, .refl _ _⟩
  | succ n ih =>
    unfold copyLoop
    by_cases hi : i < src.headerCount
    · obtain ⟨s, hs₁, -⟩ := cstring_of_wf hs hi .name
      obtain ⟨v, hv₁, -⟩ := cstring_of_wf hs hi .value
      change src.cstring (src.fields i).name = .ok s at hs₁
      change src.cstring (src.fields i).value = .ok v at hv₁
      simp only [if_pos hi, hs₁, bind, Except.bind]
      by_cases heq : strCaseEq s (cstr name)
      · obtain ⟨d, r, ha, h⟩ := addHeader_spec hd s v
        simp only [if_pos heq, hv₁, ha]
        have hsrc : (if same = true then d else src).Wf := by
          split_ifs
          · exact h.wf
          · exact hs
        obtain ⟨dest', c, hc, hwf, hk⟩ :=
          @ih (i + 1) d (if same = true then d else src) (count + 1) h.wf hsrc (by omega)
        exact ⟨dest', c, hc, hwf, h.keeps.trans hk⟩
      · simp only [if_neg heq]
        exact ih hd hs (by omega)
    · rw [if_neg hi]
      exact ⟨dest, count, rfl, hd, .refl _ _⟩

end Build

end Pmsg

/-! ## Runs -/

/-- A call of one of the operations on the message `k`. -/
inductive PmsgOp
  | parse (k : ℕ)
  | addString (k : ℕ) (s : Bytes)
  | addHeader (k : ℕ) (name value : Bytes)
  | addHeaderPrintf (k : ℕ) (name text : Bytes)
  | replaceHeader (k : ℕ) (name value : Bytes)
  | copyHeaders (dest src : ℕ) (name : Bytes)

/-- A call of `copy_headers`, whose two arguments may be the same message. -/
def copyCall (σ : ℕ → Pmsg) (dest src : ℕ) (name : Bytes) : Except Fault (Pmsg × ℕ) :=
  if dest = src then (σ dest).copyHeadersSelf name else (σ dest).copyHeaders (σ src) name

/-- One call on a family of messages, with the value it returns; a pointer is returned as its
index, the null pointer as `-1`. -/
def pmsgStep (σ : ℕ → Pmsg) : PmsgOp → Except Fault ((ℕ → Pmsg) × List ℤ)
  | .parse k => do
    let (m, r) ← (σ k).parsePmsg
    return (Function.update σ k m, [r])
  | .addString k s =>
    let (m, p) := (σ k).addPmsgString s
    .ok (Function.update σ k m, [(p.map Int.ofNat).getD (-1)])
  | .addHeader k name value => do
    let (m, r) ← (σ k).addHeader name value
    return (Function.update σ k m, [r])
  | .addHeaderPrintf k name text => do
    let (m, r) ← (σ k).addHeaderPrintf name text
    return (Function.update σ k m, [r])
  | .replaceHeader k name value => do
    let (m, r) ← (σ k).replaceHeader name value
    return (Function.update σ k m, [r])
  | .copyHeaders dest src name => do
    let (m, c) ← copyCall σ dest src name
    return (Function.update σ dest m, [(c : ℤ)])

/-- Any number of messages, each with any buffer and no headers yet. -/
def pmsgMachine : Machine (ℕ → Pmsg) PmsgOp ℤ Fault where
  Init σ := ∀ k, (σ k).headerCount = 0 ∧ (σ k).msgLen ≤ (σ k).maxLen
  step := pmsgStep

/-- What is parsed does not have too many headers. -/
def Fits (σ : ℕ → Pmsg) (a : PmsgOp) : Prop := ∀ k, a = .parse k → ¬ TooManyHeaders (σ k)

/-- The counts are in range, and every stored string ends inside the used part of the buffer. -/
structure Represented (m : Pmsg) : Prop where
  headerCount : m.headerCount ≤ maxFields
  msgLen : m.msgLen ≤ m.maxLen
  stored : ∀ k < m.headerCount, ∀ w, ∃ p e, m.ptr k w = some p ∧ p ≤ e ∧ e < m.msgLen ∧
    m.mem e = 0

/-- The field whose string a call with the value `r` replaced. -/
def ReplacedBy (σ : ℕ → Pmsg) (a : PmsgOp) (o : List ℤ) (k i : ℕ) (w : Part) : Prop :=
  ∃ name value, a = .replaceHeader k name value ∧ o = [0] ∧ w = .value ∧
    (σ k).FirstNamed name i

/-- The invariant gives the representation. -/
theorem Pmsg.Wf.represented {m : Pmsg} (h : m.Wf) : Represented m where
  headerCount := h.count
  msgLen := h.used
  stored k hk w := by
    obtain ⟨p, hp, he⟩ := h.stored k hk w
    exact ⟨p, m.ends p, hp, Nat.le_add_right _ _, he, mem_strEnd he⟩

/-- What one call does to the family: it changes at most the message `k`. -/
structure CallStep (σ : ℕ → Pmsg) (a : PmsgOp) (σ' : ℕ → Pmsg) (o : List ℤ) : Prop where
  wf : ∀ k, (σ' k).Wf
  keeps : ∀ k, a ≠ .parse k → Pmsg.Keeps (ReplacedBy σ a o k) (σ k) (σ' k)

/-- A call that turns the message `k` into `m`. -/
theorem CallStep.of_update {σ : ℕ → Pmsg} {a : PmsgOp} {o : List ℤ} {k : ℕ} {m : Pmsg}
    (hwf : ∀ k, (σ k).Wf) (hm : m.Wf)
    (hk : a ≠ .parse k → Pmsg.Keeps (ReplacedBy σ a o k) (σ k) m) :
    CallStep σ a (Function.update σ k m) o := by
  refine ⟨fun j => ?_, fun j hj => ?_⟩ <;> by_cases hjk : j = k
  · subst hjk
    rwa [Function.update_self]
  · rw [Function.update_of_ne hjk]
    exact hwf j
  · subst hjk
    rw [Function.update_self]
    exact hk hj
  · rw [Function.update_of_ne hjk]
    exact .refl _ _

/-- Fields that are all kept. -/
theorem Pmsg.Keeps.mono {R : ℕ → Part → Prop} {m m' : Pmsg} (h : Keeps noField m m') :
    Keeps R m m' :=
  ⟨h.count, fun k hk w _ => h.ptr k hk w id, fun k hk w _ => h.text k hk w id⟩

/-- **One call.** On messages that meet the invariant a call makes no fault and keeps the
invariant and the stored fields, as long as what it parses does not have too many headers. -/
theorem pmsgStep_spec {σ : ℕ → Pmsg} (hwf : ∀ k, (σ k).Wf) {a : PmsgOp} (ha : Fits σ a) :
    ∃ σ' o, pmsgStep σ a = .ok (σ', o) ∧ CallStep σ a σ' o := by
  cases a with
  | parse k =>
    rcases Pmsg.parsePmsg_spec (hwf k).used with ⟨m, r, hp, hm⟩ | ⟨-, hmany⟩
    · refine ⟨Function.update σ k m, [r], ?_, .of_update hwf hm fun h => absurd rfl h⟩
      simp only [pmsgStep, hp, bind, Except.bind, pure, Except.pure]
    · exact absurd hmany (ha k rfl)
  | addString k s =>
    rcases hp : (σ k).addPmsgString s with ⟨m, p⟩
    have h := Pmsg.addPmsgString_spec (hwf k).used hp
    refine ⟨Function.update σ k m, [(p.map Int.ofNat).getD (-1)], by simp only [pmsgStep, hp],
      .of_update hwf (h.extends'.wfBelow (hwf k) h.headerCount).wf fun _ =>
        h.extends'.keeps (hwf k) h.headerCount.ge _⟩
  | addHeader k name value =>
    obtain ⟨m, r, hp, h⟩ := Pmsg.addHeader_spec (hwf k) name value
    refine ⟨Function.update σ k m, [r], ?_, .of_update hwf h.wf fun _ => h.keeps.mono⟩
    simp only [pmsgStep, hp, bind, Except.bind, pure, Except.pure]
  | addHeaderPrintf k name text =>
    obtain ⟨m, r, hp, h⟩ := Pmsg.addHeaderPrintf_spec (hwf k) name text
    refine ⟨Function.update σ k m, [r], ?_, .of_update hwf h.wf fun _ => h.keeps.mono⟩
    simp only [pmsgStep, hp, bind, Except.bind, pure, Except.pure]
  | replaceHeader k name value =>
    obtain ⟨m, r, hp, h⟩ := Pmsg.replaceHeader_spec (hwf k) name value
    refine ⟨Function.update σ k m, [r], ?_, .of_update hwf h.wf fun _ => ?_⟩
    · simp only [pmsgStep, hp, bind, Except.bind, pure, Except.pure]
    · refine ⟨h.keeps.count, fun i hi w hR => h.keeps.ptr i hi w ?_,
        fun i hi w hR => h.keeps.text i hi w ?_⟩ <;>
        exact fun ⟨hr, hw, hfirst⟩ => hR ⟨name, value, rfl, by rw [hr], hw, hfirst⟩
  | copyHeaders dest src name =>
    have h : ∃ m c, copyCall σ dest src name = .ok (m, c) ∧ m.Wf ∧
        Pmsg.Keeps Pmsg.noField (σ dest) m := by
      unfold copyCall
      split_ifs
      · exact Pmsg.copyLoop_spec (hwf dest) (hwf dest) (by omega)
      · exact Pmsg.copyLoop_spec (hwf dest) (hwf src) (by omega)
    obtain ⟨m, c, hp, hm, hk⟩ := h
    refine ⟨Function.update σ dest m, [(c : ℤ)], ?_, .of_update hwf hm fun _ => hk.mono⟩
    simp only [pmsgStep, hp, bind, Except.bind, pure, Except.pure]

/-- In every run whose parsed messages do not have too many headers the invariant holds. -/
theorem pmsgRun_wf {as : List PmsgOp} {os : List ℤ} {σ : ℕ → Pmsg}
    (h : Machine.Run pmsgMachine Fits as os σ) : ∀ k, (σ k).Wf := by
  refine h.invariant (fun σ => ∀ k, (σ k).Wf) (fun σ h0 k => ?_) fun σ a σ' o hwf ha hs => ?_
  · exact Pmsg.wfBelow_zero (h0 k).1 (h0 k).2 le_rfl
  · obtain ⟨σ'', o', hs', hstep⟩ := pmsgStep_spec hwf ha
    cases hs.symm.trans hs'
    exact hstep.wf

/-- **Representation of messages.** In every run whose parsed messages do not have too many
headers, every message is well represented, and the next call writes no field outside the
table and leaves every stored field but the replaced one as it was. -/
theorem pmsg_representation {as : List PmsgOp} {os : List ℤ} {σ : ℕ → Pmsg}
    (h : Machine.Run pmsgMachine Fits as os σ) :
    (∀ k, Represented (σ k)) ∧ ∀ a, Fits σ a → ∃ σ' o, pmsgMachine.step σ a = .ok (σ', o) ∧
      (∀ k, Represented (σ' k)) ∧
      ∀ k, a ≠ .parse k → Pmsg.Keeps (ReplacedBy σ a o k) (σ k) (σ' k) := by
  have hwf := pmsgRun_wf h
  refine ⟨fun k => (hwf k).represented, fun a ha => ?_⟩
  obtain ⟨σ', o, hs, hstep⟩ := pmsgStep_spec hwf ha
  exact ⟨σ', o, hs, fun k => (hstep.wf k).represented, hstep.keeps⟩

/-- A message whose buffer holds the bytes `b`, as a received request is copied into it. -/
def received (b : Bytes) : Pmsg :=
  { Pmsg.newPmsg (fun i => b.getD i 0) (fun _ => ⟨none, none⟩) .req b.length with
    msgLen := b.length }

/-- A request with one header is parsed and its header replaced. -/
theorem pmsg_representation_options :
    ∃ σ os, Machine.Run pmsgMachine Fits
        [.parse 0, .replaceHeader 0 (str "CSeq") (str "2")] os σ ∧ (∀ k, Represented (σ k)) ∧
      ∃ σ' o, pmsgMachine.step σ (.addHeader 0 (str "Session") (str "7")) = .ok (σ', o) := by
  have h0 : Machine.Run pmsgMachine Fits [] []
      (fun _ => received (str "OPTIONS * RTSP/1.0\r\nCSeq: 1\r\n\r\n")) :=
    .init fun _ => ⟨rfl, le_rfl⟩
  have hshort : Fits (fun _ => received (str "OPTIONS * RTSP/1.0\r\nCSeq: 1\r\n\r\n")) (.parse 0) :=
    fun _ _ => Pmsg.not_tooManyHeaders (by change List.length _ ≤ _; decide)
  obtain ⟨σ₁, o₁, hs₁, -⟩ := (pmsg_representation h0).2 _ hshort
  have hfit : Fits σ₁ (.replaceHeader 0 (str "CSeq") (str "2")) := fun k h => by cases h
  obtain ⟨σ₂, o₂, hs₂, -⟩ := (pmsg_representation (h0.step hshort hs₁)).2 _ hfit
  obtain ⟨hrep, hnext⟩ := pmsg_representation ((h0.step hshort hs₁).step hfit hs₂)
  obtain ⟨σ₃, o₃, hs₃, -⟩ := hnext (.addHeader 0 (str "Session") (str "7")) fun k h => by cases h
  exact ⟨σ₂, _, (h0.step hshort hs₁).step hfit hs₂, hrep, σ₃, o₃, hs₃⟩

/-- A request with one header line more than the table has fields: the parser writes behind
the table. -/
theorem parse_overruns_table :
    ∃ σ, pmsgMachine.Init σ ∧ pmsgMachine.step σ (.parse 0) = .error .fieldIndex := by
  refine ⟨fun _ => received (str "OPTIONS * RTSP/1.0\r\n" ++
    (List.replicate (maxFields + 1) (str "a:\r\n")).flatten ++ str "\r\n"),
    fun _ => ⟨rfl, le_rfl⟩, ?_⟩
  have hfault : faultOf (received (str "OPTIONS * RTSP/1.0\r\n" ++
      (List.replicate (maxFields + 1) (str "a:\r\n")).flatten ++ str "\r\n")).parsePmsg =
        some .fieldIndex := by decide +kernel
  simp only [pmsgMachine, pmsgStep, of_faultOf hfault, bind, Except.bind]

end Spook
