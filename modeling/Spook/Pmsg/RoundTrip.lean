import Spook.Pmsg.Invariant

set_option relaxedAutoImplicit false
set_option autoImplicit false

/-!
# Printed messages

A message as what it says, without memory and pointers: a start line and a list of headers.
Printed, with any bytes behind it, it is read by the parser as the same message, which ends
where the print ends.

## Main definitions

* `Spook.MsgText` — what a message says; `Spook.MsgText.print` is its text.
* `Spook.MsgText.Valid` — nothing in it is taken for a delimiter.
* `Spook.Pmsg.Shows` — a message in memory says this.

## Main results

* `Spook.Pmsg.parseHeaderLines_print`, `parseStartLine_print` — the parser on printed lines.
* `Spook.Pmsg.parsePmsg_print` — the parser on a printed message.

## Notes on the design

A printed message is a list of lines, and the parser reads line by line. So it is enough to show
what it makes of one header line, with anything behind it, and of each kind of start line.
-/

namespace Spook

/-! ## What a message says -/

/-- A start line. -/
inductive StartText
  | response (protoId : Bytes) (code : ℕ) (reason : Bytes)
  | request (method uri protoId : Bytes)

/-- What a message says. -/
structure MsgText where
  start : StartText
  headers : List (Bytes × Bytes)

/-- A start line as a text. -/
def StartText.print : StartText → Bytes
  | .response protoId code reason =>
    protoId ++ SP :: (decimal code ++ SP :: (reason ++ [CR, LF]))
  | .request method uri protoId => method ++ SP :: (uri ++ SP :: (protoId ++ [CR, LF]))

/-- A header as a text. -/
def printHeader (h : Bytes × Bytes) : Bytes := h.1 ++ COLON :: SP :: (h.2 ++ [CR, LF])

/-- A message as a text. -/
def MsgText.print (t : MsgText) : Bytes :=
  t.start.print ++ (t.headers.flatMap printHeader ++ [CR, LF])

/-- No blank, no line end and no NUL. -/
def IsWord (b : Bytes) : Prop := ∀ x ∈ b, x ≠ SP ∧ ¬ isEol x

/-- No line end and no NUL, and no blank or tab in front. -/
def IsLine (b : Bytes) : Prop := (∀ x ∈ b, ¬ isEol x) ∧ ∀ x ∈ b.head?, x ≠ SP ∧ x ≠ TAB

/-- A word without a colon, and no tab in front. -/
structure IsName (b : Bytes) : Prop where
  ne_nil : b ≠ []
  word : IsWord b
  colon : COLON ∉ b
  tab : ∀ x ∈ b.head?, x ≠ TAB

/-- A start line whose words are told apart by its blanks. -/
def StartText.Valid : StartText → Prop
  | .response protoId code reason =>
    (IsWord protoId ∧ SLASH ∈ protoId) ∧ (100 ≤ code ∧ code < 1000) ∧ IsLine reason
  | .request method uri protoId =>
    (IsWord method ∧ method ≠ [] ∧ SLASH ∉ method) ∧ (IsWord uri ∧ uri ≠ []) ∧
      IsWord protoId ∧ protoId ≠ []

/-- A message in whose text nothing is taken for a delimiter. -/
structure MsgText.Valid (t : MsgText) : Prop where
  start : t.start.Valid
  headers : ∀ h ∈ t.headers, IsName h.1 ∧ IsLine h.2

/-- The start line of a message in memory says this. -/
def Pmsg.ShowsStart (m : Pmsg) : StartText → Prop
  | .response protoId code reason => ∃ p r, m.type = .resp ∧ m.protoId = some p ∧
    m.slFst = .code code ∧ m.slSnd = .reason (some r) ∧
    cstrAt m.mem p m.msgLen = protoId ∧ cstrAt m.mem r m.msgLen = reason
  | .request method uri protoId => ∃ w u p, m.type = .req ∧ m.protoId = some p ∧
    m.slFst = .method w ∧ m.slSnd = .uri u ∧ cstrAt m.mem w m.msgLen = method ∧
    cstrAt m.mem u m.msgLen = uri ∧ cstrAt m.mem p m.msgLen = protoId

/-- A message in memory says this. -/
structure Pmsg.Shows (m : Pmsg) (t : MsgText) : Prop where
  start : m.ShowsStart t.start
  count : m.headerCount = t.headers.length
  header : ∀ k (h : k < t.headers.length),
    m.text k .name = some t.headers[k].1 ∧ m.text k .value = some t.headers[k].2

/-! ## Bytes in memory -/

/-- The bytes `b` lie in the memory from `i` on. -/
def At (mem : ℕ → UInt8) (i : ℕ) (b : Bytes) : Prop := ∀ j (h : j < b.length), mem (i + j) = b[j]

section At

variable {mem mem' : ℕ → UInt8} {i n : ℕ} {a b : Bytes} {x : UInt8}

/-- Nothing is anywhere. -/
@[simp] theorem at_nil : At mem i [] := by
  intro j h
  simp at h

/-- A text behind a text. -/
@[simp] theorem at_append : At mem i (a ++ b) ↔ At mem i a ∧ At mem (i + a.length) b := by
  constructor
  · intro h
    constructor
    · intro j hj
      rw [h j (by rw [List.length_append]; omega), List.getElem_append_left hj]
    · intro j hj
      rw [Nat.add_assoc, h (a.length + j) (by rw [List.length_append]; omega),
        List.getElem_append_right (by omega)]
      simp
  · rintro ⟨ha, hb⟩ j hj
    rw [List.length_append] at hj
    by_cases hja : j < a.length
    · rw [List.getElem_append_left hja, ha j hja]
    · have hjb := hb (j - a.length) (by omega)
      rw [List.getElem_append_right (by omega), ← hjb]
      congr 1
      omega

/-- A character in front of a text. -/
@[simp] theorem at_cons : At mem i (x :: b) ↔ mem i = x ∧ At mem (i + 1) b := by
  have hsingle : At mem i [x] ↔ mem i = x := by
    constructor
    · intro h
      exact h 0 (by simp)
    · intro h j hj
      rw [List.length_singleton] at hj
      obtain rfl : j = 0 := by omega
      exact h
  rw [← List.singleton_append, at_append, hsingle, List.length_singleton]

/-- Only the bytes themselves matter. -/
theorem At.congr (h : At mem i b) (hm : ∀ j, i ≤ j → j < i + b.length → mem' j = mem j) :
    At mem' i b := by
  intro j hj
  rw [hm (i + j) (by omega) (by omega), h j hj]

/-- A byte changes behind the bytes or before them. -/
theorem At.update (h : At mem i b) {k : ℕ} (hk : k < i ∨ i + b.length ≤ k) (y : UInt8) :
    At (Function.update mem k y) i b := by
  refine h.congr fun j h₁ h₂ => ?_
  exact Function.update_of_ne (by omega) _ _

/-- A scan over bytes that pass to one that does not. -/
theorem At.run_eq {p : UInt8 → Bool} (h : At mem i (a ++ x :: b)) (hp : ∀ y ∈ a, p y = true)
    (hx : p x = false) (hn : a.length < n) : run p mem i n = a.length := by
  rw [at_append, at_cons] at h
  obtain ⟨ha, hs, -⟩ := h
  refine Spook.run_eq hn ?_ (by rw [hs, hx])
  intro j h₁ h₂
  have hj := ha (j - i) (by omega)
  rw [Nat.add_sub_cancel' h₁] at hj
  rw [hj]
  exact hp _ (List.getElem_mem _)

/-- A string with its NUL. -/
theorem At.cstrAt_eq (h : At mem i (b ++ [0])) (hb : NulFree b) (hn : i + b.length < n) :
    cstrAt mem i n = b := by
  rw [at_append, at_cons] at h
  exact Spook.cstrAt_eq hb hn h.1 h.2.1

/-- No spaces are skipped where there is none. -/
theorem skipSpaces_eq {len : ℕ} (h : mem i ≠ SP) : skipSpaces mem i len = i := by
  unfold skipSpaces
  cases hn : len - i with
  | zero => rfl
  | succ k => simp [run, h]

/-- The end of a word. -/
theorem delim_word {t₁ t₂ : UInt8} {len : ℕ} (h : At mem i (a ++ x :: b))
    (ha : ∀ y ∈ a, y ≠ t₁ ∧ y ≠ t₂ ∧ y ≠ CR ∧ y ≠ LF) (hx : x = t₁ ∨ x = t₂ ∨ x = CR ∨ x = LF)
    (hn : a.length < len) : delim mem i len t₁ t₂ = a.length := by
  refine h.run_eq ?_ ?_ hn
  · intro y hy
    obtain ⟨h₁, h₂, h₃, h₄⟩ := ha y hy
    simp [h₁, h₂, h₃, h₄]
  · rcases hx with h | h | h | h <;> simp [h]

end At

/-- A word has no NUL. -/
theorem IsWord.nulFree {b : Bytes} (h : IsWord b) : NulFree b := fun x hx h0 =>
  (h x hx).2 (.inl h0)

/-- A line has no NUL. -/
theorem IsLine.nulFree {b : Bytes} (h : IsLine b) : NulFree b := fun x hx h0 =>
  h.1 x hx (.inl h0)

/-- The bytes of a word do not end it. -/
theorem IsWord.delim {b : Bytes} (h : IsWord b) {y : UInt8} (hy : y ∈ b) :
    y ≠ SP ∧ y ≠ 0 ∧ y ≠ CR ∧ y ≠ LF :=
  ⟨(h y hy).1, fun e => (h y hy).2 (.inl e), fun e => (h y hy).2 (.inr (.inl e)),
    fun e => (h y hy).2 (.inr (.inr e))⟩

/-- The bytes of a line do not end it. -/
theorem IsLine.delim {b : Bytes} (h : IsLine b) {y : UInt8} (hy : y ∈ b) :
    y ≠ 0 ∧ y ≠ 0 ∧ y ≠ CR ∧ y ≠ LF :=
  ⟨fun e => h.1 y hy (.inl e), fun e => h.1 y hy (.inl e), fun e => h.1 y hy (.inr (.inl e)),
    fun e => h.1 y hy (.inr (.inr e))⟩

namespace Pmsg

/-! ## Header lines -/

section HeaderLines

variable {m : Pmsg} {len i : ℕ} {n v rest : Bytes}

/-- The parser on a printed name. -/
theorem parseHeaderName_print (hk : m.headerCount < maxFields) (hn : IsName n)
    (h : At m.mem i (n ++ COLON :: rest)) (hlen : i + n.length < len) :
    m.parseHeaderName len i = .ok ({ m with
      mem := Function.update m.mem (i + n.length) 0
      fields := Function.update m.fields m.headerCount
        { m.fields m.headerCount with name := some i } }, some (i + n.length + 1)) := by
  have hcolon : m.mem (i + n.length) = COLON := (at_cons.1 (at_append.1 h).2).1
  have hfirst : ¬ (m.mem i = TAB ∨ m.mem i = SP) := by
    obtain ⟨x, n', rfl⟩ := List.exists_cons_of_ne_nil hn.ne_nil
    have hx : m.mem i = x := (at_cons.1 (at_append.1 h).1).1
    rw [hx]
    exact not_or.2 ⟨hn.tab x rfl, (hn.word x (by simp)).1⟩
  have hdelim : delim m.mem i (len - i) SP COLON = n.length := by
    refine delim_word h ?_ (.inr (.inl rfl)) (by omega)
    intro y hy
    obtain ⟨h₁, -, h₂, h₃⟩ := hn.word.delim hy
    exact ⟨h₁, fun e => hn.colon (e ▸ hy), h₂, h₃⟩
  have hne : ¬ COLON = SP := by decide
  unfold parseHeaderName
  rw [if_neg hfirst, setName_ok hk, ok_bind]
  dsimp only
  rw [hdelim, if_neg (by omega), hcolon, if_neg hne, if_neg hne]
  dsimp only
  rw [if_neg (by rw [hcolon]; simp; omega)]
  rfl

/-- The parser on a printed value. -/
theorem parseHeaderValue_print (hk : m.headerCount < maxFields) (hv : IsLine v)
    (h : At m.mem i (SP :: (v ++ CR :: LF :: rest))) (hlen : i + v.length + 3 ≤ len) :
    m.parseHeaderValue len i = .ok ({ m with
      mem := Function.update m.mem (i + 1 + v.length) 0
      fields := Function.update m.fields m.headerCount
        { m.fields m.headerCount with value := some (i + 1) }
      headerCount := m.headerCount + 1 }, some (i + v.length + 3)) := by
  have hvalue : At m.mem (i + 1) (v ++ CR :: LF :: rest) := (at_cons.1 h).2
  have hlf : m.mem (i + 1 + v.length + 1) = LF :=
    (at_cons.1 (at_cons.1 (at_append.1 hvalue).2).2).1
  have hblank : run (fun b => b = SP || b = TAB) m.mem i (len - i) = 1 := by
    cases v with
    | nil => exact At.run_eq (a := [SP]) (x := CR) h (by simp) (by decide) (by simp; omega)
    | cons x v =>
      have hx := hv.2 x rfl
      refine At.run_eq (a := [SP]) (x := x) h (by simp) ?_ (by simp at hlen ⊢; omega)
      simp [hx.1, hx.2]
  have hdelim : delim m.mem (i + 1) (len - (i + 1)) 0 0 = v.length :=
    delim_word hvalue (fun y hy => hv.delim hy) (.inr (.inr (.inl rfl))) (by omega)
  unfold parseHeaderValue
  dsimp only
  rw [hblank, setValue_ok hk, ok_bind]
  dsimp only
  rw [hdelim, if_neg]
  · rw [show i + 1 + v.length + 2 = i + v.length + 3 by omega]
    rfl
  · rw [poke_mem, Function.update_of_ne (by omega), hlf]
    simp
    omega

/-- A header is stored in the field `k`, below `e`. -/
def Stores (m : Pmsg) (e k : ℕ) (h : Bytes × Bytes) : Prop :=
  ∃ p q, m.fields k = ⟨some p, some q⟩ ∧ (At m.mem p (h.1 ++ [0]) ∧ p + h.1.length < e) ∧
    At m.mem q (h.2 ++ [0]) ∧ q + h.2.length < e

/-- The message `m'` is `m` with the headers `hs` behind its own, stored between `i` and `e`. -/
structure WithHeaders (m : Pmsg) (i e : ℕ) (hs : List (Bytes × Bytes)) (m' : Pmsg) : Prop where
  head : SameHead m m'
  protoId : m'.protoId = m.protoId
  below : ∀ j < i, m'.mem j = m.mem j
  count : m'.headerCount = m.headerCount + hs.length
  old : ∀ k < m.headerCount, m'.fields k = m.fields k
  new : ∀ k (hk : k < hs.length), m'.Stores e (m.headerCount + k) hs[k]

/-- No headers are stored. -/
theorem WithHeaders.nil (m : Pmsg) (i e : ℕ) : WithHeaders m i e [] m :=
  ⟨.refl m, rfl, fun _ _ => rfl, rfl, fun _ _ => rfl, fun k hk => by simp at hk⟩

/-- Only the field and the bytes below `e` matter. -/
theorem Stores.congr {m' : Pmsg} {e e' k : ℕ} {h : Bytes × Bytes} (hs : m.Stores e k h)
    (he : e ≤ e') (hf : m'.fields k = m.fields k) (hm : ∀ j < e, m'.mem j = m.mem j) :
    m'.Stores e' k h := by
  obtain ⟨p, q, hpq, ⟨hp, hpe⟩, hq, hqe⟩ := hs
  refine ⟨p, q, hf.trans hpq, ⟨hp.congr fun j _ hj => hm j ?_, by omega⟩,
    hq.congr fun j _ hj => hm j ?_, by omega⟩
  · rw [List.length_append, List.length_singleton] at hj
    omega
  · rw [List.length_append, List.length_singleton] at hj
    omega

/-- One more header in front. -/
theorem WithHeaders.cons {m₁ m' : Pmsg} {i' e : ℕ} {h : Bytes × Bytes} {hs : List (Bytes × Bytes)}
    (h₁ : WithHeaders m i i' [h] m₁) (h₂ : WithHeaders m₁ i' e hs m') (hi : i ≤ i')
    (he : i' ≤ e) : WithHeaders m i e (h :: hs) m' where
  head := h₁.head.trans h₂.head
  protoId := h₂.protoId.trans h₁.protoId
  below j hj := (h₂.below j (by omega)).trans (h₁.below j hj)
  count := by
    rw [h₂.count, h₁.count, List.length_singleton, List.length_cons]
    omega
  old k hk := by
    have hc := h₁.count
    exact (h₂.old k (by omega)).trans (h₁.old k hk)
  new k hk := by
    have hc : m₁.headerCount = m.headerCount + 1 := h₁.count
    cases k with
    | zero =>
      have hfirst := h₁.new 0 (by simp)
      exact hfirst.congr he (h₂.old _ (by omega)) h₂.below
    | succ k =>
      rw [List.length_cons] at hk
      have hnext := h₂.new k (by omega)
      rw [hc, Nat.add_assoc, Nat.add_comm 1] at hnext
      exact hnext

/-- A header has a colon, a space and the end of its line. -/
@[simp] theorem length_printHeader (h : Bytes × Bytes) :
    (printHeader h).length = h.1.length + h.2.length + 4 := by
  simp only [printHeader, List.length_append, List.length_cons, List.length_nil]
  omega

/-- A printed header, taken apart. -/
theorem at_printHeader {mem : ℕ → UInt8} {h : Bytes × Bytes} :
    At mem i (printHeader h ++ rest) ↔
      At mem i (h.1 ++ COLON :: SP :: (h.2 ++ CR :: LF :: rest)) := by
  simp only [printHeader, List.append_assoc, List.cons_append, List.nil_append]

/-- The parser on a printed header line. -/
theorem parseHeaderLine_print {h : Bytes × Bytes} (hk : m.headerCount < maxFields)
    (hn : IsName h.1) (hv : IsLine h.2) (hat : At m.mem i (printHeader h ++ rest))
    (hlen : i + (printHeader h).length ≤ len) :
    ∃ m', m.parseHeaderLine len i = .ok (m', some (i + (printHeader h).length)) ∧
      WithHeaders m i (i + (printHeader h).length) [h] m' ∧
      ∀ j, i + (printHeader h).length ≤ j → m'.mem j = m.mem j := by
  obtain ⟨n, v⟩ := h
  rw [length_printHeader] at hlen ⊢
  dsimp only at hn hv hlen ⊢
  rw [at_printHeader] at hat
  have hname := parseHeaderName_print hk hn hat (by omega : i + n.length < len)
  have hrest := (at_append.1 hat).2
  have hvalueAt : At (Function.update m.mem (i + n.length) 0) (i + n.length + 1)
      (SP :: (v ++ CR :: LF :: rest)) :=
    (at_cons.1 hrest).2.update (.inl (Nat.lt_succ_self _)) 0
  have hvalue := parseHeaderValue_print (m := { m with
    mem := Function.update m.mem (i + n.length) 0
    fields := Function.update m.fields m.headerCount
      { m.fields m.headerCount with name := some i } }) hk hv hvalueAt
    (by omega : i + n.length + 1 + v.length + 3 ≤ len)
  unfold parseHeaderLine
  rw [hname, ok_bind]
  dsimp only at hvalue ⊢
  rw [show i + n.length + 1 + v.length + 3 = i + (n.length + v.length + 4) by omega] at hvalue
  refine ⟨_, hvalue, ⟨⟨rfl, rfl, rfl, rfl, rfl⟩, rfl, fun j hj => ?_, rfl, fun k hk => ?_, fun k hk => ?_⟩,
    fun j hj => ?_⟩
  · dsimp only
    rw [Function.update_of_ne (by omega), Function.update_of_ne (by omega)]
  · dsimp only
    rw [Function.update_of_ne hk.ne, Function.update_of_ne hk.ne]
  · obtain rfl : k = 0 := by simpa using hk
    refine ⟨i, i + n.length + 1 + 1, by simp, ⟨?_, ?_⟩, ?_, ?_⟩
    · refine At.update ?_ (.inr ?_) 0
      · rw [at_append]
        refine ⟨((at_append.1 hat).1).update (.inr le_rfl) 0, ?_⟩
        simp
      · simp
        omega
    · simp
      omega
    · rw [List.getElem_singleton, at_append]
      refine ⟨((at_append.1 (at_cons.1 hvalueAt).2).1).update (.inr le_rfl) 0, ?_⟩
      simp
    · simp
      omega
  · dsimp only
    rw [Function.update_of_ne (by omega), Function.update_of_ne (by omega)]

/-- The parser on printed header lines and the empty line behind them. -/
theorem parseHeaderLines_print {hs : List (Bytes × Bytes)} {fuel : ℕ}
    (hk : m.headerCount + hs.length ≤ maxFields) (hfuel : hs.length < fuel)
    (hvalid : ∀ h ∈ hs, IsName h.1 ∧ IsLine h.2)
    (hat : At m.mem i (hs.flatMap printHeader ++ [CR, LF]))
    (hlen : i + (hs.flatMap printHeader).length + 2 ≤ len) :
    ∃ m', parseHeaderLines len fuel m i =
        .ok (m', ((i + (hs.flatMap printHeader).length + 2 : ℕ) : ℤ)) ∧
      WithHeaders m i (i + (hs.flatMap printHeader).length) hs m' := by
  obtain ⟨fuel, rfl⟩ := Nat.exists_eq_succ_of_ne_zero (by omega : fuel ≠ 0)
  induction hs generalizing m i fuel with
  | nil =>
    simp only [List.flatMap_nil, List.nil_append, List.length_nil, Nat.add_zero, at_cons,
      at_nil, and_true] at hat hlen ⊢
    refine ⟨m, ?_, .nil m i i⟩
    have hskip : (if i < len ∧ m.mem i = CR then i + 1 else i) = i + 1 :=
      if_pos ⟨by omega, hat.1⟩
    unfold parseHeaderLines
    dsimp only
    rw [hskip, if_neg (by omega), if_pos hat.2]
    rfl
  | cons h hs ih =>
    simp only [List.flatMap_cons, List.length_append, List.length_cons] at hk hfuel hlen ⊢
    rw [List.flatMap_cons, List.append_assoc] at hat
    obtain ⟨hn, hv⟩ := hvalid h (by simp)
    -- a name begins with neither end of line
    have hfirst : m.mem i ≠ CR ∧ m.mem i ≠ LF := by
      obtain ⟨x, n, hx⟩ := List.exists_cons_of_ne_nil hn.ne_nil
      rw [at_printHeader, hx, List.cons_append, at_cons] at hat
      have hword := hn.word.delim (y := x) (by rw [hx]; simp)
      rw [hat.1]
      exact hword.2.2
    obtain ⟨m₁, hline, h₁, habove⟩ := parseHeaderLine_print (by omega) hn hv hat (by omega : _ ≤ len)
    have hc : m₁.headerCount = m.headerCount + 1 := h₁.count
    have hat₁ : At m₁.mem (i + (printHeader h).length) (hs.flatMap printHeader ++ [CR, LF]) :=
      (at_append.1 hat).2.congr fun j hj _ => habove j hj
    obtain ⟨fuel, rfl⟩ := Nat.exists_eq_succ_of_ne_zero (by omega : fuel ≠ 0)
    obtain ⟨m', hlines, h₂⟩ := ih (by omega) (fun h' hh' => hvalid h' (by simp [hh'])) hat₁ (by omega)
      fuel (by omega)
    rw [Nat.add_assoc i] at hlines h₂
    refine ⟨m', ?_, h₁.cons h₂ (by omega) (by omega)⟩
    have hskip : (if i < len ∧ m.mem i = CR then i + 1 else i) = i := if_neg fun h => hfirst.1 h.2
    unfold parseHeaderLines
    dsimp only
    rw [hskip, if_neg (by omega), if_neg hfirst.2, hline, ok_bind]
    exact hlines

end HeaderLines

/-! ## The start line -/

section StartLine

variable {m : Pmsg} {len : ℕ} {rest : Bytes}

/-- A digit that is printed and read. -/
theorem digit_read {d : ℕ} (hd : d < 10) :
    isDigit (UInt8.ofNat (48 + d)) = true ∧ (UInt8.ofNat (48 + d)).toNat - 48 = d := by
  revert d
  decide

/-- The parser on a printed response line. -/
theorem parseResponseLine_print {protoId reason : Bytes} {code : ℕ} (hp : IsWord protoId)
    (hcode : 100 ≤ code ∧ code < 1000) (hr : IsLine reason)
    (hat : At m.mem 0 (protoId ++ SP :: (decimal code ++ SP :: (reason ++ CR :: rest))))
    (hlen : protoId.length + reason.length + 5 < len) :
    m.parseResponseLine len = ({ m with
      mem := Function.update (Function.update m.mem protoId.length 0)
        (protoId.length + 5 + reason.length) 0
      type := .resp
      protoId := some 0
      slFst := .code code
      slSnd := .reason (some (protoId.length + 5)) },
      some (protoId.length + 5 + reason.length + 1)) := by
  obtain ⟨d₁, hd₁⟩ : ∃ d₁, d₁ = code / 100 := ⟨_, rfl⟩
  obtain ⟨d₂, hd₂⟩ : ∃ d₂, d₂ = code / 10 % 10 := ⟨_, rfl⟩
  obtain ⟨d₃, hd₃⟩ : ∃ d₃, d₃ = code % 10 := ⟨_, rfl⟩
  rw [decimal_three hcode.1 hcode.2, ← hd₁, ← hd₂, ← hd₃] at hat
  obtain ⟨hi₁, hv₁⟩ := digit_read (by omega : d₁ < 10)
  obtain ⟨hi₂, hv₂⟩ := digit_read (by omega : d₂ < 10)
  obtain ⟨hi₃, hv₃⟩ := digit_read (by omega : d₃ < 10)
  have hword : delim m.mem 0 len SP 0 = protoId.length :=
    delim_word hat (fun y hy => hp.delim hy) (.inl rfl) (by omega)
  simp only [List.cons_append, List.nil_append, at_append (a := protoId), at_cons, Nat.zero_add,
    Nat.add_assoc, Nat.reduceAdd] at hat
  obtain ⟨-, hsp, hc₁, hc₂, hc₃, hsp', hreason⟩ := hat
  -- the NUL that ends the protocol name lies before everything that is still read
  have hkeep : ∀ j, Function.update m.mem protoId.length 0 (protoId.length + (j + 1)) =
      m.mem (protoId.length + (j + 1)) := fun j => Function.update_of_ne (by omega) _ _
  have hskip₁ : skipSpaces (Function.update m.mem protoId.length 0) (protoId.length + 1) len =
      protoId.length + 1 := by
    refine skipSpaces_eq ?_
    rw [hkeep 0, hc₁]
    intro hspace
    rw [hspace] at hi₁
    exact absurd hi₁ (by decide)
  have hskip₂ : skipSpaces (Function.update m.mem protoId.length 0) (protoId.length + 5) len =
      protoId.length + 5 := by
    refine skipSpaces_eq ?_
    rw [hkeep 4]
    cases reason with
    | nil =>
      rw [(at_cons.1 hreason).1]
      decide
    | cons x reason =>
      rw [(at_cons.1 hreason).1]
      exact (hr.2 x rfl).1
  have hend : delim (Function.update m.mem protoId.length 0) (protoId.length + 5)
      (len - (protoId.length + 5)) 0 0 = reason.length :=
    delim_word (hreason.update (.inl (by omega)) 0) (fun y hy => hr.delim hy)
      (.inr (.inr (.inl rfl))) (by omega)
  have hok : ¬ (len - (protoId.length + 1) < 4 ∨ !isDigit (UInt8.ofNat (48 + d₁)) ∨
      !isDigit (UInt8.ofNat (48 + d₂)) ∨ !isDigit (UInt8.ofNat (48 + d₃)) ∨ SP ≠ SP) := by
    rw [hi₁, hi₂, hi₃]
    simp
    omega
  have hcode' : d₁ * 100 + (d₂ * 10 + d₃) = code := by omega
  unfold parseResponseLine
  dsimp only [poke]
  rw [hword, if_neg (not_not.2 hsp), hskip₁]
  simp only [Nat.add_assoc, Nat.reduceAdd]
  rw [hkeep 0, hkeep 1, hkeep 2, hkeep 3, hc₁, hc₂, hc₃, hsp', hskip₂, hend, hv₁, hv₂, hv₃, hcode',
    if_neg hok]
  simp only [Nat.add_assoc]

/-- The parser on a printed request line. -/
theorem parseRequestLine_print {method uri protoId : Bytes} (hm : IsWord method) (hu : IsWord uri)
    (hu₀ : uri ≠ []) (hp : IsWord protoId) (hp₀ : protoId ≠ [])
    (hat : At m.mem 0 (method ++ SP :: (uri ++ SP :: (protoId ++ CR :: rest))))
    (hlen : method.length + uri.length + protoId.length + 2 < len) :
    m.parseRequestLine len = ({ m with
      mem := Function.update (Function.update (Function.update m.mem method.length 0)
        (method.length + 1 + uri.length) 0)
        (method.length + 1 + uri.length + 1 + protoId.length) 0
      type := .req
      protoId := some (method.length + 1 + uri.length + 1)
      slFst := .method 0
      slSnd := .uri (method.length + 1) },
      some (method.length + 1 + uri.length + 1 + protoId.length + 1)) := by
  have hword : delim m.mem 0 len SP 0 = method.length :=
    delim_word hat (fun y hy => hm.delim hy) (.inl rfl) (by omega)
  rw [at_append, at_cons, Nat.zero_add] at hat
  obtain ⟨-, hsp, hat⟩ := hat
  replace hat := hat.update (.inl (Nat.lt_succ_self _)) 0
  have hspace : ∀ {mem : ℕ → UInt8} {i : ℕ} {w b : Bytes}, IsWord w → w ≠ [] → At mem i (w ++ b) →
      skipSpaces mem i len = i := by
    intro mem i w b hw hw₀ h
    obtain ⟨x, w', rfl⟩ := List.exists_cons_of_ne_nil hw₀
    refine skipSpaces_eq ?_
    rw [(at_cons.1 h).1]
    exact (hw x (by simp)).1
  have hskip₁ := hspace hu hu₀ hat
  have hword₁ : delim (Function.update m.mem method.length 0) (method.length + 1)
      (len - (method.length + 1)) SP 0 = uri.length :=
    delim_word hat (fun y hy => hu.delim hy) (.inl rfl) (by omega)
  rw [at_append, at_cons] at hat
  obtain ⟨-, hsp', hat⟩ := hat
  replace hat := hat.update (.inl (Nat.lt_succ_self _)) 0
  have hskip₂ := hspace hp hp₀ hat
  have hend : delim (Function.update (Function.update m.mem method.length 0)
      (method.length + 1 + uri.length) 0) (method.length + 1 + uri.length + 1)
      (len - (method.length + 1 + uri.length + 1)) 0 0 = protoId.length :=
    delim_word hat (fun y hy => ⟨(hp.delim hy).2.1, (hp.delim hy).2⟩) (.inr (.inr (.inl rfl)))
      (by omega)
  unfold parseRequestLine
  dsimp only [poke]
  rw [hword, if_neg (by rw [not_or, not_not]; exact ⟨by omega, hsp⟩), hskip₁, hword₁,
    if_neg (by rw [not_or, not_not]; exact ⟨by omega, hsp'⟩), hskip₂, hend]

/-- The words of a start line are stored below `e`. -/
def StoresStart (m : Pmsg) (e : ℕ) : StartText → Prop
  | .response protoId code reason => ∃ p r, m.type = .resp ∧ m.protoId = some p ∧
    m.slFst = .code code ∧ m.slSnd = .reason (some r) ∧
    (At m.mem p (protoId ++ [0]) ∧ p + protoId.length < e) ∧
    At m.mem r (reason ++ [0]) ∧ r + reason.length < e
  | .request method uri protoId => ∃ w u p, m.type = .req ∧ m.protoId = some p ∧
    m.slFst = .method w ∧ m.slSnd = .uri u ∧
    (At m.mem w (method ++ [0]) ∧ w + method.length < e) ∧
    (At m.mem u (uri ++ [0]) ∧ u + uri.length < e) ∧
    At m.mem p (protoId ++ [0]) ∧ p + protoId.length < e

/-- What the parser makes of a printed start line. -/
structure StartPrinted (m : Pmsg) (t : StartText) (m' : Pmsg) : Prop where
  table : SameTable m m'
  above : ∀ j, t.print.length ≤ j → m'.mem j = m.mem j
  stores : m'.StoresStart t.print.length t

/-- A line that has nothing behind its line end but the line feed. -/
theorem closeLine_print {mem : ℕ → UInt8} {i : ℕ} (h : mem i = LF) (hlen : i < len) :
    closeLine mem len i = some (i + 1) := by
  have hsp : ¬ LF = SP := by decide
  have hcr : ¬ LF = CR := by decide
  have hskip : skipSpaces mem i len = i := skipSpaces_eq (by rwa [h])
  have hcr' : ¬ (i < len ∧ mem i = CR) := by
    rw [h]
    exact fun hc => hcr hc.2
  unfold closeLine
  dsimp only
  rw [hskip, if_neg hcr', if_neg (by rw [h]; simp; omega)]

/-- A word and the byte behind it, which is made its NUL. -/
theorem at_word {mem : ℕ → UInt8} {i : ℕ} {w b : Bytes} {x : UInt8} (h : At mem i (w ++ x :: b)) :
    At (Function.update mem (i + w.length) 0) i (w ++ [0]) := by
  rw [at_append] at h ⊢
  exact ⟨h.1.update (.inr le_rfl) 0, by simp⟩

/-- The parser on a printed response. -/
theorem parseStartLine_response {protoId reason : Bytes} {code : ℕ}
    (ht : (StartText.response protoId code reason).Valid)
    (hat : At m.mem 0 ((StartText.response protoId code reason).print ++ rest))
    (hlen : (StartText.response protoId code reason).print.length ≤ len) :
    ∃ m', m.parseStartLine len = (m', some (StartText.response protoId code reason).print.length) ∧
      StartPrinted m (.response protoId code reason) m' := by
  obtain ⟨⟨hp, hslash⟩, hcode, hr⟩ := ht
  have hdec : (decimal code).length = 3 := by rw [decimal_three hcode.1 hcode.2]; rfl
  have hprint : (StartText.response protoId code reason).print.length =
      protoId.length + 5 + reason.length + 2 := by
    simp only [StartText.print, List.length_append, List.length_cons, List.length_nil, hdec]
    omega
  rw [hprint] at hlen ⊢
  simp only [StartText.print, List.append_assoc, List.cons_append, List.nil_append] at hat
  -- the first word has a slash
  have hfirst : ∃ s < len, run (fun b => b ≠ SP && b ≠ SLASH) m.mem 0 len = s ∧ m.mem s = SLASH := by
    obtain ⟨a, b, rfl, ha⟩ := List.eq_append_cons_of_mem hslash
    rw [List.append_assoc, List.cons_append] at hat
    rw [List.length_append, List.length_cons] at hlen
    refine ⟨a.length, by omega, hat.run_eq ?_ (by decide) (by omega), ?_⟩
    · intro y hy
      have hsp := (hp y (by simp [hy])).1
      have hsl : y ≠ SLASH := fun e => ha (e ▸ hy)
      simp [hsp, hsl]
    · have hs := (at_cons.1 (at_append.1 hat).2).1
      rwa [Nat.zero_add] at hs
  obtain ⟨s, hs, hrun, hmem⟩ := hfirst
  have hline : m.parseResponseLine len = _ := parseResponseLine_print hp hcode hr hat (by omega)
  have hlf : m.mem (protoId.length + 5 + reason.length + 1) = LF := by
    have h := (at_append.1 (at_cons.1 (at_append.1 (at_cons.1 (at_append.1 hat).2).2).2).2).2
    rw [hdec] at h
    have h := (at_cons.1 (at_cons.1 h).2).1
    rwa [show 0 + protoId.length + 1 + 3 + 1 + reason.length + 1 =
      protoId.length + 5 + reason.length + 1 by omega] at h
  unfold parseStartLine parseStartWords
  dsimp only
  rw [if_neg (by omega), hrun, if_neg (by omega), if_pos hmem, hline]
  dsimp only
  rw [closeLine_print (by
    rw [Function.update_of_ne (by omega), Function.update_of_ne (by omega), hlf]) (by omega)]
  refine ⟨_, rfl, ⟨rfl, rfl, rfl, rfl⟩, ?_, ?_⟩
  · intro j hj
    rw [hprint] at hj
    dsimp only
    rw [Function.update_of_ne (by omega), Function.update_of_ne (by omega)]
  · rw [hprint]
    refine ⟨0, protoId.length + 5, rfl, rfl, rfl, rfl, ⟨?_, by omega⟩, ?_, by omega⟩
    · have hw := at_word hat
      rw [Nat.zero_add] at hw
      exact hw.update (.inr (by simp; omega)) 0
    · have h := (at_cons.1 (at_append.1 (at_cons.1 (at_append.1 hat).2).2).2).2
      rw [hdec, show 0 + protoId.length + 1 + 3 + 1 = protoId.length + 5 by omega] at h
      exact at_word (h.update (.inl (by omega)) 0)

/-- The parser on a printed request. -/
theorem parseStartLine_request {method uri protoId : Bytes}
    (ht : (StartText.request method uri protoId).Valid)
    (hat : At m.mem 0 ((StartText.request method uri protoId).print ++ rest))
    (hlen : (StartText.request method uri protoId).print.length ≤ len) :
    ∃ m', m.parseStartLine len = (m', some (StartText.request method uri protoId).print.length) ∧
      StartPrinted m (.request method uri protoId) m' := by
  obtain ⟨⟨hm, hm₀, hslash⟩, ⟨hu, hu₀⟩, hp, hp₀⟩ := ht
  have hprint : (StartText.request method uri protoId).print.length =
      method.length + 1 + uri.length + 1 + protoId.length + 2 := by
    simp only [StartText.print, List.length_append, List.length_cons, List.length_nil]
    omega
  rw [hprint] at hlen ⊢
  simp only [StartText.print, List.append_assoc, List.cons_append, List.nil_append] at hat
  have hrun : run (fun b => b ≠ SP && b ≠ SLASH) m.mem 0 len = method.length := by
    refine hat.run_eq ?_ (by decide) (by omega)
    intro y hy
    have hsp := (hm y hy).1
    have hsl : y ≠ SLASH := fun e => hslash (e ▸ hy)
    simp [hsp, hsl]
  have hmem : m.mem method.length = SP := by
    have h := (at_cons.1 (at_append.1 hat).2).1
    rwa [Nat.zero_add] at h
  have hsl : ¬ SP = SLASH := by decide
  have hline : m.parseRequestLine len = _ :=
    parseRequestLine_print hm hu hu₀ hp hp₀ hat (by omega)
  have huri := (at_cons.1 (at_append.1 hat).2).2
  have hproto := (at_cons.1 (at_append.1 huri).2).2
  have hend := (at_append.1 hproto).2
  rw [Nat.zero_add] at huri hproto hend
  have hlf := (at_cons.1 (at_cons.1 hend).2).1
  have hpos := List.length_pos_of_ne_nil hm₀
  unfold parseStartLine parseStartWords
  dsimp only
  rw [if_neg (by omega), hrun, if_neg (by omega), hmem, if_neg hsl, hline]
  dsimp only
  rw [closeLine_print (by
    rw [Function.update_of_ne (by omega), Function.update_of_ne (by omega),
      Function.update_of_ne (by omega), hlf]) (by omega)]
  refine ⟨_, rfl, ⟨rfl, rfl, rfl, rfl⟩, ?_, ?_⟩
  · intro j hj
    rw [hprint] at hj
    dsimp only
    rw [Function.update_of_ne (by omega), Function.update_of_ne (by omega),
      Function.update_of_ne (by omega)]
  · rw [hprint]
    refine ⟨0, method.length + 1, method.length + 1 + uri.length + 1, rfl, rfl, rfl, rfl,
      ⟨?_, by omega⟩, ⟨?_, by omega⟩, ?_, by omega⟩
    · have hw := at_word hat
      rw [Nat.zero_add] at hw
      exact (hw.update (.inr (by simp)) 0).update (.inr (by simp; omega)) 0
    · exact (at_word (huri.update (.inl (by omega)) 0)).update (.inr (by simp; omega)) 0
    · exact at_word ((hproto.update (.inl (by omega)) 0).update (.inl (by omega)) 0)

/-- The parser on a printed start line. -/
theorem parseStartLine_print {t : StartText} (ht : t.Valid) (hat : At m.mem 0 (t.print ++ rest))
    (hlen : t.print.length ≤ len) :
    ∃ m', m.parseStartLine len = (m', some t.print.length) ∧ StartPrinted m t m' := by
  cases t with
  | response protoId code reason => exact parseStartLine_response ht hat hlen
  | request method uri protoId => exact parseStartLine_request ht hat hlen

end StartLine

/-! ## The message -/

section Message

variable {m : Pmsg} {t : MsgText}

/-- Stored words are what the start line shows. -/
theorem StoresStart.shows {e : ℕ} {s : StartText} (h : m.StoresStart e s) (hs : s.Valid)
    (he : e ≤ m.msgLen) : m.ShowsStart s := by
  cases s with
  | response protoId code reason =>
    obtain ⟨p, r, htype, hp, hcode, hr, ⟨hpAt, hpe⟩, hrAt, hre⟩ := h
    exact ⟨p, r, htype, hp, hcode, hr, hpAt.cstrAt_eq hs.1.1.nulFree (by omega),
      hrAt.cstrAt_eq hs.2.2.nulFree (by omega)⟩
  | request method uri protoId =>
    obtain ⟨w, u, p, htype, hp, hw, hu, ⟨hwAt, hwe⟩, ⟨huAt, hue⟩, hpAt, hpe⟩ := h
    exact ⟨w, u, p, htype, hp, hw, hu, hwAt.cstrAt_eq hs.1.1.nulFree (by omega),
      huAt.cstrAt_eq hs.2.1.1.nulFree (by omega), hpAt.cstrAt_eq hs.2.2.1.nulFree (by omega)⟩

/-- The header lines leave the words of the start line as they are. -/
theorem StoresStart.congr {m' : Pmsg} {e : ℕ} {s : StartText} (h : m.StoresStart e s)
    (hhead : SameHead m m') (hproto : m'.protoId = m.protoId)
    (hm : ∀ j < e, m'.mem j = m.mem j) : m'.StoresStart e s := by
  have hAt : ∀ {p : ℕ} {b : Bytes}, At m.mem p (b ++ [0]) → p + b.length < e →
      At m'.mem p (b ++ [0]) := by
    intro p b hat hlt
    refine hat.congr fun j _ hj => hm j ?_
    rw [List.length_append, List.length_singleton] at hj
    omega
  cases s with
  | response protoId code reason =>
    obtain ⟨p, r, htype, hp, hcode, hr, ⟨hpAt, hpe⟩, hrAt, hre⟩ := h
    exact ⟨p, r, hhead.type.trans htype, hproto.trans hp, hhead.slFst.trans hcode,
      hhead.slSnd.trans hr, ⟨hAt hpAt hpe, hpe⟩, hAt hrAt hre, hre⟩
  | request method uri protoId =>
    obtain ⟨w, u, p, htype, hp, hw, hu, ⟨hwAt, hwe⟩, ⟨huAt, hue⟩, hpAt, hpe⟩ := h
    exact ⟨w, u, p, hhead.type.trans htype, hproto.trans hp, hhead.slFst.trans hw,
      hhead.slSnd.trans hu, ⟨hAt hwAt hwe, hwe⟩, ⟨hAt huAt hue, hue⟩, hAt hpAt hpe, hpe⟩

/-- A stored header is shown. -/
theorem Stores.text {e k : ℕ} {h : Bytes × Bytes} (hs : m.Stores e k h) (hn : NulFree h.1)
    (hv : NulFree h.2) (he : e ≤ m.msgLen) :
    m.text k .name = some h.1 ∧ m.text k .value = some h.2 := by
  obtain ⟨p, q, hpq, ⟨hp, hpe⟩, hq, hqe⟩ := hs
  have hpn : cstrAt m.mem p m.msgLen = h.1 := hp.cstrAt_eq hn (by omega)
  have hqn : cstrAt m.mem q m.msgLen = h.2 := hq.cstrAt_eq hv (by omega)
  constructor
  · simp [Pmsg.text, Pmsg.ptr, hpq, Hdrf.ptr, hpn]
  · simp [Pmsg.text, Pmsg.ptr, hpq, Hdrf.ptr, hqn]

/-- **The round trip.** A message whose text begins with a printed message, whatever bytes are
behind it, is parsed up to the end of the print, and says what was printed. -/
theorem parsePmsg_print (ht : t.Valid) (hcount : t.headers.length ≤ maxFields)
    (hat : At m.mem 0 t.print) (hlen : t.print.length ≤ m.msgLen) :
    ∃ m', m.parsePmsg = .ok (m', (t.print.length : ℤ)) ∧ m'.Shows t := by
  have hprint : t.print.length =
      t.start.print.length + (t.headers.flatMap printHeader).length + 2 := by
    simp only [MsgText.print, List.length_append, List.length_cons, List.length_nil]
    omega
  obtain ⟨m₁, hstart, h₁⟩ : ∃ m₁, ({ m with headerCount := 0 } : Pmsg).parseStartLine m.msgLen =
      (m₁, some t.start.print.length) ∧ StartPrinted { m with headerCount := 0 } t.start m₁ :=
    parseStartLine_print ht.start hat (by omega)
  have hcount₁ : m₁.headerCount = 0 := h₁.table.headerCount
  have hat₁ : At m₁.mem t.start.print.length (t.headers.flatMap printHeader ++ [CR, LF]) := by
    have hbehind := (at_append.1 hat).2
    rw [Nat.zero_add] at hbehind
    exact hbehind.congr fun j hj _ => h₁.above j hj
  -- every header line has bytes of its own, so the loop does not run out of steps
  have hfuel : t.headers.length ≤ (t.headers.flatMap printHeader).length := by
    clear * -
    induction t.headers with
    | nil => simp
    | cons h hs ih =>
      rw [List.flatMap_cons, List.length_append, List.length_cons, length_printHeader]
      omega
  obtain ⟨m', hlines, h₂⟩ : ∃ m', parseHeaderLines m.msgLen (m.msgLen + 1) m₁
      t.start.print.length = .ok (m', ((t.start.print.length +
        (t.headers.flatMap printHeader).length + 2 : ℕ) : ℤ)) ∧
      WithHeaders m₁ t.start.print.length
        (t.start.print.length + (t.headers.flatMap printHeader).length) t.headers m' :=
    parseHeaderLines_print (by omega) (by omega) ht.headers hat₁ (by omega)
  have hmsgLen : m'.msgLen = m.msgLen := h₂.head.msgLen.trans h₁.table.msgLen
  refine ⟨m', ?_, ?_, ?_, ?_⟩
  · unfold parsePmsg
    dsimp only
    rw [hstart]
    dsimp only
    rw [hlines, hprint]
  · exact (h₁.stores.congr h₂.head h₂.protoId h₂.below).shows ht.start (by omega)
  · rw [h₂.count, hcount₁, Nat.zero_add]
  · intro k hk
    have hnew := h₂.new k hk
    rw [hcount₁, Nat.zero_add] at hnew
    obtain ⟨hn, hv⟩ := ht.headers _ (List.getElem_mem hk)
    exact hnew.text hn.word.nulFree hv.nulFree (by omega)

end Message

end Pmsg

end Spook
