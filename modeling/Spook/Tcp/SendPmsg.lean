import Mathlib.Algebra.BigOperators.Group.Finset.Basic
import Mathlib.Algebra.BigOperators.Group.Finset.Sigma
import Mathlib.Order.Interval.Finset.Nat
import Spook.Pmsg.Build
import Spook.Pmsg.RoundTrip
import Spook.Tcp.SendBuf

set_option relaxedAutoImplicit false
set_option autoImplicit false

/-!
# Sending a message

`tcp_send_pmsg` of `tcp.c`: the text of a response is printed into an array of 2048 bytes and
queued when there is room for it and for the body that follows. A response is built in a message
of at most 512 bytes, in which its strings do not overlap; so its text fits the array. The parser
reads it as the message that was printed.

## Main definitions

* `Spook.Pmsg.respText`, `Spook.SendBuf.tcpSendPmsg` — the text and the function.
* `Spook.Built` — the responses that the handlers can build.

## Main results

* `Spook.Pmsg.respText_print` — the text of a message is its print.
* `Spook.Built.length_print_lt` — it fits the array.
* `Spook.print_roundTrip` — parser and serializer agree.

## Notes on the design

The length of the text is bounded by the strings of the message, which lie in its buffer without
overlap and so are not longer than the buffer together. This is an invariant of the calls that build
a response, and nothing else is needed of them.
-/

namespace Spook

/-- The size of the array `buf` of `tcp_send_pmsg`. -/
def pmsgBufSize : ℕ := 2048

/-- `sprintf( buf + i, .. )` of a text, the NUL behind it included. -/
def sprintf (buf text : Bytes) : Except Fault Bytes :=
  if buf.length + text.length < pmsgBufSize then .ok (buf ++ text) else .error .overrun

/-- The sum of two `int`s that are not negative. -/
def intAdd (a b : ℤ) : Except Fault ℤ :=
  if a + b < 2 ^ 31 then .ok (a + b) else .error .overflow

namespace Pmsg

/-- The loop of `tcp_send_pmsg` over `n` headers from `f` on. -/
def respHeaders (m : Pmsg) (buf : Bytes) : ℕ → ℕ → Except Fault Bytes
  | 0, _ => .ok buf
  | n + 1, f => do
    let name ← m.cstring (m.fields f).name
    let value ← m.cstring (m.fields f).value
    let buf ← sprintf buf (name ++ str ": " ++ value ++ [CR, LF])
    m.respHeaders buf n (f + 1)

/-- The contents of `buf` in `tcp_send_pmsg`. -/
def respText (m : Pmsg) (len : ℤ) : Except Fault Bytes := do
  let protoId ← m.cstring m.protoId
  match m.slFst, m.slSnd with
  | .code code, .reason reason =>
    let reason ← m.cstring reason
    let buf ← sprintf [] (protoId ++ [SP] ++ decimal code ++ [SP] ++ reason ++ [CR, LF])
    let buf ← m.respHeaders buf m.headerCount 0
    if len ≥ 0 then
      sprintf buf (str "Content-Length: " ++ decimal len.toNat ++ [CR, LF, CR, LF])
    else sprintf buf [CR, LF]
  | _, _ => throw .unionMember

end Pmsg

/-- `totlen` of `tcp_send_pmsg`, for a text of so many bytes. -/
def totalLen (i : ℕ) (len : ℤ) : Except Fault ℤ := if len ≥ 0 then intAdd i len else .ok i

/-- `tcp_send_pmsg`. -/
def SendBuf.tcpSendPmsg (c : SendBuf) (m : Pmsg) (len : ℤ) : Except Fault (SendBuf × ℤ) := do
  if m.type ≠ .resp then return (c, -1)
  let buf ← m.respText len
  let totlen ← totalLen buf.length len
  if c.availSendBuf < totlen then return (c, -1)
  let (c, _) := c.sendData (fun j => buf.getD j 0) buf.length
  return (c, 0)

/-- The responses that the handlers build: a message of at most 512 bytes, the protocol name and
the reason, and any headers. -/
inductive Built : Pmsg → Prop
  | create {mem : ℕ → UInt8} {fields : ℕ → Hdrf} {type : PmsgType} {size code : ℕ}
      {protoId reason : Bytes} {m m' : Pmsg} {p r : ℕ} : size ≤ 512 →
      (Pmsg.newPmsg mem fields type size).addPmsgString protoId = (m, some p) →
      m.addPmsgString reason = (m', some r) →
      Built { m' with type := .resp, protoId := some p, slFst := .code code,
                      slSnd := .reason (some r) }
  | addHeader {m m' : Pmsg} {name value : Bytes} {r : ℤ} : Built m →
      m.addHeader name value = .ok (m', r) → Built m'
  | addHeaderPrintf {m m' : Pmsg} {name text : Bytes} {r : ℤ} : Built m →
      m.addHeaderPrintf name text = .ok (m', r) → Built m'
  | replaceHeader {m m' : Pmsg} {name value : Bytes} {r : ℤ} : Built m →
      m.replaceHeader name value = .ok (m', r) → Built m'
  | copyHeaders {m m' src : Pmsg} {name : Bytes} {n : ℕ} : Built m →
      m.copyHeaders src name = .ok (m', n) → Built m'
  | copyHeadersSelf {m m' : Pmsg} {name : Bytes} {n : ℕ} : Built m →
      m.copyHeadersSelf name = .ok (m', n) → Built m'

/-- `http_create_reply`, in memory that was zero. -/
def httpCreateReply (code : ℕ) (reply : Bytes) : Pmsg :=
  let (m, p) := (Pmsg.newPmsg (fun _ => 0) (fun _ => ⟨none, none⟩) .req 512).addPmsgString
    (str "HTTP/1.0")
  let (m, r) := m.addPmsgString reply
  { m with type := .resp, protoId := p, slFst := .code code, slSnd := .reason r }

/-! ## The text -/

/-- The header that tells the length of the body, if there is one. -/
def lengthHeader (len : ℤ) : List (Bytes × Bytes) :=
  if len ≥ 0 then [(str "Content-Length", decimal len.toNat)] else []

/-- What a message says when it is sent with a body of so many bytes. -/
def MsgText.withLength (t : MsgText) (len : ℤ) : MsgText :=
  { t with headers := t.headers ++ lengthHeader len }

namespace Pmsg

section Text

variable {m : Pmsg} {t : MsgText}

/-- A pointer that was stored is read. -/
theorem cstring_of_text {k : ℕ} {w : Part} {s : Bytes} (h : m.text k w = some s) :
    m.cstring (m.ptr k w) = .ok s := by
  obtain ⟨p, hp, rfl⟩ := Option.map_eq_some_iff.1 h
  rw [hp]
  rfl

/-- The loop over the headers prints them. -/
theorem respHeaders_print {hs : List (Bytes × Bytes)} {buf : Bytes} {f : ℕ}
    (h : ∀ k (hk : k < hs.length), m.text (f + k) .name = some hs[k].1 ∧
      m.text (f + k) .value = some hs[k].2)
    (hlen : buf.length + (hs.flatMap printHeader).length < pmsgBufSize) :
    m.respHeaders buf hs.length f = .ok (buf ++ hs.flatMap printHeader) := by
  induction hs generalizing buf f with
  | nil =>
    rw [List.flatMap_nil, List.append_nil]
    rfl
  | cons hd hs ih =>
    obtain ⟨hname, hvalue⟩ := h 0 (by simp)
    have hn : m.cstring (m.fields f).name = .ok hd.1 := cstring_of_text hname
    have hv : m.cstring (m.fields f).value = .ok hd.2 := cstring_of_text hvalue
    have hline : hd.1 ++ str ": " ++ hd.2 ++ [CR, LF] = printHeader hd := by
      simp only [printHeader, List.append_assoc]
      rfl
    rw [List.flatMap_cons, List.length_append] at hlen
    have hnext : ∀ k (hk : k < hs.length), m.text (f + 1 + k) .name = some hs[k].1 ∧
        m.text (f + 1 + k) .value = some hs[k].2 := by
      intro k hk
      have hk' := h (k + 1) (by rw [List.length_cons]; omega)
      rw [show f + 1 + k = f + (k + 1) by omega]
      exact hk'
    rw [List.length_cons, respHeaders, hn, ok_bind, hv, ok_bind, hline, sprintf,
      if_pos (by omega), ok_bind, ih hnext (by rw [List.length_append]; omega),
      List.flatMap_cons, List.append_assoc]

/-- **The text of a response** is its print, if it fits. -/
theorem respText_print {protoId reason : Bytes} {code : ℕ} {len : ℤ} (h : m.Shows t)
    (ht : t.start = .response protoId code reason)
    (hlen : (t.withLength len).print.length < pmsgBufSize) :
    m.respText len = .ok (t.withLength len).print := by
  have hstart := h.start
  rw [ht] at hstart
  obtain ⟨p, r, -, hp, hcode, hr, hproto, hreason⟩ := hstart
  have hp' : m.cstring m.protoId = .ok protoId := by
    rw [hp, ← hproto]
    rfl
  have hr' : m.cstring (some r) = .ok reason := by
    rw [← hreason]
    rfl
  have hline : protoId ++ [SP] ++ decimal code ++ [SP] ++ reason ++ [CR, LF] = t.start.print := by
    rw [ht]
    simp only [StartText.print, List.append_assoc, List.cons_append, List.nil_append]
  have hprint : (t.withLength len).print = t.start.print ++ (t.headers.flatMap printHeader ++
      ((lengthHeader len).flatMap printHeader ++ [CR, LF])) := by
    simp only [MsgText.print, MsgText.withLength, List.flatMap_append, List.append_assoc]
  have hend : (if len ≥ 0 then str "Content-Length: " ++ decimal len.toNat ++ [CR, LF, CR, LF]
      else [CR, LF]) = (lengthHeader len).flatMap printHeader ++ [CR, LF] := by
    unfold lengthHeader
    split_ifs with h0
    · simp only [printHeader, List.flatMap_cons, List.flatMap_nil, List.append_assoc,
        List.append_nil, List.cons_append, List.nil_append]
      rfl
    · rfl
  rw [hprint] at hlen ⊢
  simp only [List.length_append] at hlen
  unfold respText
  rw [hp', ok_bind, hcode, hr]
  dsimp only
  rw [hr', ok_bind, hline, sprintf, if_pos (by rw [List.length_nil]; omega), ok_bind,
    List.nil_append, h.count,
    respHeaders_print (fun k hk => by rw [Nat.zero_add]; exact h.header k hk) (by omega), ok_bind]
  rw [← List.append_assoc, ← hend]
  split_ifs at hend ⊢ with h0
  · rw [hend, sprintf, if_pos (by simp only [List.length_append]; omega)]
  · rw [hend, sprintf, if_pos (by simp only [List.length_append]; omega)]

end Text

end Pmsg

/-! ## The layout of a response -/

namespace Pmsg

/-- The strings of the headers lie from `b` on. -/
structure Based (b : ℕ) (m : Pmsg) : Prop where
  used : b ≤ m.msgLen
  headers : ∀ k < m.headerCount, ∀ w p, m.ptr k w = some p → b ≤ p

/-- Two messages with the same bytes below `b` and the same start line. -/
structure SameBase (b : ℕ) (m m' : Pmsg) : Prop where
  mem : ∀ j < b, m'.mem j = m.mem j
  maxLen : m'.maxLen = m.maxLen
  type : m'.type = m.type
  protoId : m'.protoId = m.protoId
  slFst : m'.slFst = m.slFst
  slSnd : m'.slSnd = m.slSnd

section Layout

variable {b : ℕ} {m m' : Pmsg}

/-- A message has the base of itself. -/
theorem SameBase.refl (b : ℕ) (m : Pmsg) : SameBase b m m :=
  ⟨fun _ _ => rfl, rfl, rfl, rfl, rfl, rfl⟩

/-- Two steps above the base. -/
theorem SameBase.trans {m'' : Pmsg} (h : SameBase b m m') (h' : SameBase b m' m'') :
    SameBase b m m'' :=
  ⟨fun j hj => (h'.mem j hj).trans (h.mem j hj), h'.2.trans h.2, h'.3.trans h.3, h'.4.trans h.4,
    h'.5.trans h.5, h'.6.trans h.6⟩

/-- A string is added from `b` on. -/
theorem addPmsgString_based (hb : b ≤ m.msgLen) {s : Bytes} {r : Option ℕ}
    (h : m.addPmsgString s = (m', r)) :
    SameBase b m m' ∧ b ≤ m'.msgLen ∧ m'.fields = m.fields ∧ m'.headerCount = m.headerCount ∧
      ∀ p, r = some p → b ≤ p := by
  unfold addPmsgString at h
  dsimp only at h
  split_ifs at h
  · cases h
    exact ⟨.refl b m, hb, rfl, rfl, fun p hp => by cases hp⟩
  · cases h
    refine ⟨⟨fun j hj => strcpy_of_outside (.inl (by omega)), rfl, rfl, rfl, rfl, rfl⟩, ?_, rfl, rfl,
      fun p hp => ?_⟩
    · dsimp only
      omega
    · cases hp
      exact hb

/-- A field behind the stored ones is written. -/
theorem Based.of_same (h : Based b m) (hlen : b ≤ m'.msgLen) (hc : m'.headerCount = m.headerCount)
    (hf : ∀ k < m.headerCount, m'.fields k = m.fields k) : Based b m' := by
  refine ⟨hlen, fun k hk w p hp => ?_⟩
  rw [hc] at hk
  rw [Pmsg.ptr, hf k hk] at hp
  exact h.headers k hk w p hp

/-- A header is stored behind the others. -/
theorem Based.snoc (h : Based b m) {p q : ℕ} (hlen : b ≤ m'.msgLen)
    (hc : m'.headerCount = m.headerCount + 1)
    (hf : m'.fields = Function.update m.fields m.headerCount ⟨some p, some q⟩) (hp : b ≤ p)
    (hq : b ≤ q) : Based b m' := by
  refine ⟨hlen, fun k hk w p' hp' => ?_⟩
  rw [hc] at hk
  rw [Pmsg.ptr, hf] at hp'
  rcases Nat.lt_succ_iff_lt_or_eq.1 hk with hk | rfl
  · rw [Function.update_of_ne hk.ne] at hp'
    exact h.headers k hk w p' hp'
  · rw [Function.update_self] at hp'
    cases w with
    | name =>
      cases hp'
      exact hp
    | value =>
      cases hp'
      exact hq

/-- A field that is stored changes nothing else. -/
theorem setName_based (b : ℕ) {k : ℕ} {p : Option ℕ} (h : m.setName k p = .ok m') :
    SameBase b m m' ∧ FieldSet m k ⟨p, (m.fields k).value⟩ m' := by
  unfold setName at h
  split_ifs at h
  cases h
  exact ⟨⟨fun _ _ => rfl, rfl, rfl, rfl, rfl, rfl⟩, rfl, rfl, rfl, rfl, rfl⟩

/-- A value is set, which touches no byte. -/
theorem setValue_based (b : ℕ) {k : ℕ} {p : Option ℕ} (h : m.setValue k p = .ok m') :
    SameBase b m m' ∧ FieldSet m k ⟨(m.fields k).name, p⟩ m' := by
  unfold setValue at h
  split_ifs at h
  cases h
  exact ⟨⟨fun _ _ => rfl, rfl, rfl, rfl, rfl, rfl⟩, rfl, rfl, rfl, rfl, rfl⟩

/-- A step of a computation that did not fault. -/
theorem of_bind_ok {α β : Type} {x : Except Fault α} {f : α → Except Fault β} {r : β}
    (h : (x >>= f) = .ok r) : ∃ a, x = .ok a ∧ f a = .ok r := by
  cases x with
  | error e => cases h
  | ok a => exact ⟨a, rfl, h⟩

/-- `add_header` stays above `b`. -/
theorem addHeader_based (h : Based b m) {name value : Bytes} {r : ℤ}
    (hm : m.addHeader name value = .ok (m', r)) : Based b m' ∧ SameBase b m m' := by
  unfold addHeader at hm
  by_cases hk : m.headerCount = maxFields
  · rw [if_pos hk] at hm
    cases hm
    exact ⟨h, .refl b m⟩
  rw [if_neg hk] at hm
  rcases h₁ : m.addPmsgString name with ⟨m₁, p⟩
  obtain ⟨hs₁, hu₁, hf₁, hc₁, hp₁⟩ := addPmsgString_based h.used h₁
  rw [h₁] at hm
  obtain ⟨m₂, hset₂, hm₂⟩ := of_bind_ok hm
  obtain ⟨hs₂, h₂⟩ := setName_based b hset₂
  rw [hc₁, hf₁] at h₂
  have hu₂ : b ≤ m₂.msgLen := by
    rw [h₂.msgLen]
    exact hu₁
  have hc₂ : m₂.headerCount = m.headerCount := h₂.headerCount.trans hc₁
  have hf₂ : ∀ k < m.headerCount, m₂.fields k = m.fields k := by
    intro k hk
    rw [h₂.fields, hf₁, Function.update_of_ne hk.ne]
  by_cases hp : p = none
  · rw [if_pos hp] at hm₂
    cases hm₂
    exact ⟨h.of_same hu₂ hc₂ hf₂, hs₁.trans hs₂⟩
  rw [if_neg hp] at hm₂
  obtain ⟨p, rfl⟩ := Option.ne_none_iff_exists'.1 hp
  rcases h₃ : m₂.addPmsgString value with ⟨m₃, q⟩
  obtain ⟨hs₃, hu₃, hf₃, hc₃, hq₃⟩ := addPmsgString_based hu₂ h₃
  rw [h₃] at hm₂
  obtain ⟨m₄, hset₄, hm₄⟩ := of_bind_ok hm₂
  obtain ⟨hs₄, h₄⟩ := setValue_based b hset₄
  rw [hc₃, hc₂, hf₃] at h₄
  have hs := ((hs₁.trans hs₂).trans hs₃).trans hs₄
  have hu₄ : b ≤ m₄.msgLen := by
    rw [h₄.msgLen]
    exact hu₃
  have hc₄ : m₄.headerCount = m.headerCount := h₄.headerCount.trans (hc₃.trans hc₂)
  by_cases hq : q = none
  · rw [if_pos hq] at hm₄
    cases hm₄
    refine ⟨h.of_same hu₄ hc₄ fun k hk => ?_, hs⟩
    rw [h₄.fields, Function.update_of_ne hk.ne, hf₃, hf₂ k hk]
  · rw [if_neg hq] at hm₄
    obtain ⟨q, rfl⟩ := Option.ne_none_iff_exists'.1 hq
    cases hm₄
    refine ⟨h.snoc hu₄ ?_ ?_ (hp₁ p rfl) (hq₃ q rfl), hs.1, hs.2, hs.3, hs.4, hs.5, hs.6⟩
    · dsimp only
      rw [hc₄]
    · dsimp only
      rw [h₄.fields, hf₃, h₂.fields, Function.update_idem, Function.update_self, hf₁]

/-- `add_header_printf` stays above `b`. -/
theorem addHeaderPrintf_based (h : Based b m) {name text : Bytes} {r : ℤ}
    (hm : m.addHeaderPrintf name text = .ok (m', r)) : Based b m' ∧ SameBase b m m' := by
  have hb := h.used
  unfold addHeaderPrintf at hm
  dsimp only at hm
  have hs₁ : SameBase b m { m with
      mem := vsnprintf m.mem m.msgLen (m.maxLen - m.msgLen) (cstr text) } :=
    ⟨fun j hj => vsnprintf_of_lt _ (by omega), rfl, rfl, rfl, rfl, rfl⟩
  have h₁ : Based b { m with
      mem := vsnprintf m.mem m.msgLen (m.maxLen - m.msgLen) (cstr text) } :=
    h.of_same hb rfl fun _ _ => rfl
  by_cases hk : m.headerCount = maxFields
  · rw [if_pos hk] at hm
    cases hm
    exact ⟨h₁, hs₁⟩
  rw [if_neg hk] at hm
  by_cases hfit : m.msgLen + (cstr text).length ≥ m.maxLen
  · rw [if_pos hfit] at hm
    cases hm
    exact ⟨h₁, hs₁⟩
  rw [if_neg hfit] at hm
  obtain ⟨m₂, hset₂, hm₂⟩ := of_bind_ok hm
  obtain ⟨hs₂, h₂⟩ := setValue_based b hset₂
  have hl₂ : m₂.msgLen = m.msgLen := h₂.msgLen
  have hc₂ : m₂.headerCount = m.headerCount := h₂.headerCount
  have hf₂ : m₂.fields = Function.update m.fields m.headerCount _ := h₂.fields
  rcases h₃ : ({ m₂ with msgLen := m₂.msgLen + ((cstr text).length + 1) } : Pmsg).addPmsgString name
    with ⟨m₃, q⟩
  obtain ⟨hs₃, hu₃, hf₃, hc₃, hq₃⟩ := addPmsgString_based (b := b) (by dsimp only; omega) h₃
  rw [h₃] at hm₂
  dsimp only at hf₃ hc₃
  obtain ⟨m₄, hset₄, hm₄⟩ := of_bind_ok hm₂
  obtain ⟨hs₄, h₄⟩ := setName_based b hset₄
  rw [hc₃, hc₂, hf₃] at h₄
  have hs₂' : SameBase b m { m₂ with msgLen := m₂.msgLen + ((cstr text).length + 1) } :=
    have hs := hs₁.trans hs₂
    ⟨hs.1, hs.2, hs.3, hs.4, hs.5, hs.6⟩
  have hs := (hs₂'.trans hs₃).trans hs₄
  have hu₄ : b ≤ m₄.msgLen := by
    rw [h₄.msgLen]
    exact hu₃
  have hc₄ : m₄.headerCount = m.headerCount := h₄.headerCount.trans (hc₃.trans hc₂)
  by_cases hq : q = none
  · rw [if_pos hq] at hm₄
    cases hm₄
    refine ⟨h.of_same hu₄ hc₄ fun k hk => ?_, hs⟩
    rw [h₄.fields, Function.update_of_ne hk.ne, hf₃, hf₂, Function.update_of_ne hk.ne]
  · rw [if_neg hq] at hm₄
    obtain ⟨q, rfl⟩ := Option.ne_none_iff_exists'.1 hq
    cases hm₄
    refine ⟨h.snoc hu₄ ?_ ?_ (hq₃ q rfl) hb, hs.1, hs.2, hs.3, hs.4, hs.5, hs.6⟩
    · dsimp only
      rw [hc₄]
    · dsimp only
      rw [h₄.fields, hf₃, hf₂, Function.update_idem, Function.update_self]

/-- The search for a header ends at one. -/
theorem findHeader_lt {name : Bytes} {n i k : ℕ} (h : m.findHeader name n i = .ok (some k)) :
    k < i + n := by
  induction n generalizing i with
  | zero => cases h
  | succ n ih =>
    obtain ⟨s, -, h⟩ := of_bind_ok h
    split_ifs at h
    · cases h
      omega
    · have hk := ih h
      omega

/-- `replace_header` stays above `b`. -/
theorem replaceHeader_based (h : Based b m) {name value : Bytes} {r : ℤ}
    (hm : m.replaceHeader name value = .ok (m', r)) : Based b m' ∧ SameBase b m m' := by
  unfold replaceHeader at hm
  obtain ⟨found, hfind, hm⟩ := of_bind_ok hm
  cases found with
  | none => exact addHeader_based h hm
  | some i =>
    have hi : i < m.headerCount := by
      have hlt := findHeader_lt hfind
      omega
    obtain ⟨old, -, hm⟩ := of_bind_ok hm
    split_ifs at hm with hlt
    · rcases h₁ : m.addPmsgString value with ⟨m₁, p⟩
      obtain ⟨hs₁, hu₁, hf₁, hc₁, hp₁⟩ := addPmsgString_based h.used h₁
      rw [h₁] at hm
      dsimp only at hm
      by_cases hp : p = none
      · rw [if_pos hp] at hm
        cases hm
        exact ⟨h.of_same hu₁ hc₁ fun k _ => congrFun hf₁ k, hs₁⟩
      · rw [if_neg hp] at hm
        obtain ⟨p, rfl⟩ := Option.ne_none_iff_exists'.1 hp
        obtain ⟨m₂, hset, hm⟩ := of_bind_ok hm
        cases hm
        obtain ⟨hs₂, h₂⟩ := setValue_based b hset
        refine ⟨⟨by rw [h₂.msgLen]; exact hu₁, fun k hk w q hq => ?_⟩, hs₁.trans hs₂⟩
        rw [h₂.headerCount, hc₁] at hk
        rw [Pmsg.ptr, h₂.fields, hf₁] at hq
        by_cases hki : k = i
        · subst hki
          rw [Function.update_self] at hq
          cases w with
          | name => exact h.headers k hk .name q hq
          | value =>
            cases hq
            exact hp₁ p rfl
        · rw [Function.update_of_ne hki] at hq
          exact h.headers k hk w q hq
    · cases hv : (m.fields i).value with
      | none =>
        rw [hv] at hm
        cases hm
      | some p =>
        rw [hv] at hm
        cases hm
        have hbp := h.headers i hi .value p hv
        exact ⟨h.of_same h.used rfl fun _ _ => rfl,
          fun j hj => strcpy_of_outside (.inl (by omega)), rfl, rfl, rfl, rfl, rfl⟩

/-- `copy_headers` stays above `b` and keeps the invariant, whatever the source is. -/
theorem copyLoop_based {same : Bool} {name : Bytes} {n i count : ℕ} {src : Pmsg} {c : ℕ}
    (hwf : m.Wf) (h : Based b m) (hm : copyLoop same name n i m src count = .ok (m', c)) :
    m'.Wf ∧ Based b m' ∧ SameBase b m m' := by
  induction n generalizing m i count src with
  | zero =>
    unfold copyLoop at hm
    split_ifs at hm
    cases hm
    exact ⟨hwf, h, .refl b _⟩
  | succ n ih =>
    unfold copyLoop at hm
    by_cases hi : i < src.headerCount
    · rw [if_pos hi] at hm
      obtain ⟨s, -, hs⟩ := of_bind_ok hm
      by_cases hname : strCaseEq s (cstr name)
      · rw [if_pos hname] at hs
        obtain ⟨v, -, hv⟩ := of_bind_ok hs
        obtain ⟨⟨m₁, r⟩, hadd, hrest⟩ := of_bind_ok hv
        obtain ⟨m₂, r₂, hok, hadded⟩ := addHeader_spec hwf s v
        obtain ⟨rfl, rfl⟩ : m₂ = m₁ ∧ r₂ = r := by simpa using hok.symm.trans hadd
        obtain ⟨h₁, hs₁⟩ := addHeader_based h hadd
        obtain ⟨hwf₂, h₂, hs₂⟩ := ih hadded.wf h₁ hrest
        exact ⟨hwf₂, h₂, hs₁.trans hs₂⟩
      · rw [if_neg hname] at hs
        exact ih hwf h hs
    · rw [if_neg hi] at hm
      cases hm
      exact ⟨hwf, h, .refl b _⟩

end Layout

/-- What is known of a response: its words lie below `b`, the protocol name before the reason, and
its headers above. -/
structure Laid (b p r : ℕ) (m : Pmsg) : Prop where
  wf : m.Wf
  based : m.Based b
  size : m.maxLen ≤ 512
  type : m.type = .resp
  protoId : m.protoId = some p
  code : ∃ n, m.slFst = .code n
  reason : m.slSnd = .reason (some r)
  protoEnd : m.ends p < r
  reasonEnd : m.ends r < b

section Layout

variable {b p r : ℕ} {m m' : Pmsg}

/-- A change above `b` keeps the layout. -/
theorem Laid.of_sameBase (h : Laid b p r m) (hwf : m'.Wf) (hb : m'.Based b)
    (hs : m.SameBase b m') : Laid b p r m' := by
  have hu := h.based.used
  have hends : ∀ q, m.ends q < b → m'.ends q = m.ends q := by
    intro q hq
    have hu' := hb.used
    unfold Pmsg.ends strEnd
    -- the string lies below `b`, wherever the message ends
    have hstr : cstrAt m'.mem q b = cstrAt m.mem q b := by
      unfold cstrAt slice
      congr 1
      refine List.map_congr_left fun j hj => hs.mem j ?_
      rw [List.mem_range'_1] at hj
      omega
    have hlt : strEnd m.mem q b < b := by
      have hz := mem_strEnd (p := q) (n := m.msgLen) (hq.trans_le hu)
      exact (strEnd_le (Nat.le_add_right _ _) hz).trans_lt hq
    have hlt' : strEnd m'.mem q b < b := by rwa [strEnd, hstr]
    rw [cstrAt_congr hlt' hu' fun _ _ _ => rfl, hstr, ← cstrAt_congr hlt hu fun _ _ _ => rfl]
  have hp := hends p (by have := h.protoEnd; have := h.reasonEnd; unfold Pmsg.ends strEnd at *; omega)
  have hr := hends r h.reasonEnd
  obtain ⟨n, hn⟩ := h.code
  exact ⟨hwf, hb, hs.maxLen.trans_le h.size, hs.type.trans h.type, hs.protoId.trans h.protoId,
    ⟨n, hs.slFst.trans hn⟩, hs.slSnd.trans h.reason, hp.trans_lt h.protoEnd,
    hr.trans_lt h.reasonEnd⟩

end Layout

end Pmsg

/-- **Every response is laid out so.**

**Proof sketch.** By induction on the way the response was made. `create_response` adds two strings,
below which nothing else will be stored; every later call keeps the bytes below and the start line,
and adds its strings above. -/
theorem Built.laid {m : Pmsg} (h : Built m) : ∃ b p r, Pmsg.Laid b p r m := by
  induction h with
  | @create mem fields type size code protoId reason m m' p r hsize hp hr =>
    have h₁ := Pmsg.addPmsgString_spec (m := .newPmsg mem fields type size) (Nat.zero_le _) hp
    have h₂ := Pmsg.addPmsgString_spec h₁.extends'.room hr
    obtain ⟨rfl, hlen₁, hstr₁⟩ := h₁.added p rfl
    obtain ⟨rfl, hlen₂, hstr₂⟩ := h₂.added r rfl
    have hc : m'.headerCount = 0 := h₂.headerCount.trans h₁.headerCount
    have hmax : m'.maxLen = size := by
      have hb₁ := (Pmsg.addPmsgString_based (Nat.zero_le _) hp).1.maxLen
      have hb₂ := (Pmsg.addPmsgString_based (Nat.zero_le _) hr).1.maxLen
      exact hb₂.trans hb₁
    have hproto : cstrAt m'.mem 0 m'.msgLen = cstr protoId := by
      rw [← hstr₁]
      have hend : strEnd m.mem 0 m.msgLen = (cstr protoId).length := by
        rw [strEnd, Nat.zero_add]
        exact congrArg List.length hstr₁
      refine cstrAt_congr ?_ h₂.extends'.msgLen fun j _ hj => h₂.extends'.mem j ?_
      · change m.msgLen = 0 + (cstr protoId).length + 1 at hlen₁
        omega
      · change j ≤ strEnd m.mem 0 m.msgLen at hj
        change m.msgLen = 0 + (cstr protoId).length + 1 at hlen₁
        omega
    refine ⟨m'.msgLen, 0, m.msgLen, Pmsg.wfBelow_zero (by exact hc) (by exact h₂.extends'.room) le_rfl,
      ⟨le_rfl, fun k hk => by rw [show _ = 0 from hc] at hk; omega⟩, hmax.trans_le hsize, rfl, rfl,
      ⟨code, rfl⟩, rfl, ?_, ?_⟩
    · change 0 + (cstrAt m'.mem 0 m'.msgLen).length < m.msgLen
      rw [hproto]
      change m.msgLen = 0 + (cstr protoId).length + 1 at hlen₁
      omega
    · change m.msgLen + (cstrAt m'.mem m.msgLen m'.msgLen).length < m'.msgLen
      rw [hstr₂]
      omega
  | @addHeader m m' name value r _ hm ih =>
    obtain ⟨b, p, q, h⟩ := ih
    obtain ⟨m₁, r₁, hok, hadd⟩ := Pmsg.addHeader_spec h.wf name value
    obtain ⟨rfl, rfl⟩ : m₁ = m' ∧ r₁ = r := by simpa using hok.symm.trans hm
    obtain ⟨hb, hs⟩ := Pmsg.addHeader_based h.based hm
    exact ⟨b, p, q, h.of_sameBase hadd.wf hb hs⟩
  | @addHeaderPrintf m m' name text r _ hm ih =>
    obtain ⟨b, p, q, h⟩ := ih
    obtain ⟨m₁, r₁, hok, hadd⟩ := Pmsg.addHeaderPrintf_spec h.wf name text
    obtain ⟨rfl, rfl⟩ : m₁ = m' ∧ r₁ = r := by simpa using hok.symm.trans hm
    obtain ⟨hb, hs⟩ := Pmsg.addHeaderPrintf_based h.based hm
    exact ⟨b, p, q, h.of_sameBase hadd.wf hb hs⟩
  | @replaceHeader m m' name value r _ hm ih =>
    obtain ⟨b, p, q, h⟩ := ih
    obtain ⟨m₁, r₁, hok, hrep⟩ := Pmsg.replaceHeader_spec h.wf name value
    obtain ⟨rfl, rfl⟩ : m₁ = m' ∧ r₁ = r := by simpa using hok.symm.trans hm
    obtain ⟨hb, hs⟩ := Pmsg.replaceHeader_based h.based hm
    exact ⟨b, p, q, h.of_sameBase hrep.wf hb hs⟩
  | @copyHeaders m m' src name n _ hm ih =>
    obtain ⟨b, p, q, h⟩ := ih
    obtain ⟨hwf, hb, hs⟩ := Pmsg.copyLoop_based h.wf h.based hm
    exact ⟨b, p, q, h.of_sameBase hwf hb hs⟩
  | @copyHeadersSelf m m' name n _ hm ih =>
    obtain ⟨b, p, q, h⟩ := ih
    obtain ⟨hwf, hb, hs⟩ := Pmsg.copyLoop_based h.wf h.based hm
    exact ⟨b, p, q, h.of_sameBase hwf hb hs⟩

/-! ## The length of the text -/

/-- Disjoint intervals between two bounds have no more elements than there are between them. -/
theorem sum_intervals_le {ι : Type*} {s : Finset ι} {a e : ι → ℕ} {lo hi : ℕ} (hle : lo ≤ hi)
    (h : ∀ i ∈ s, lo ≤ a i ∧ e i < hi)
    (hd : ∀ i ∈ s, ∀ j ∈ s, i ≠ j → e i < a j ∨ e j < a i) :
    ∑ i ∈ s, (e i + 1 - a i) + lo ≤ hi := by
  classical
  have hcard : (s.biUnion fun i => Finset.Icc (a i) (e i)).card = ∑ i ∈ s, (e i + 1 - a i) := by
    rw [Finset.card_biUnion]
    · simp only [Nat.card_Icc]
    · intro i hi j hj hij
      rw [Function.onFun, Finset.disjoint_left]
      intro x hx hx'
      rw [Finset.mem_Icc] at hx hx'
      have hdis := hd i hi j hj hij
      omega
  have hsub : s.biUnion (fun i => Finset.Icc (a i) (e i)) ⊆ Finset.Ico lo hi := by
    intro x hx
    obtain ⟨i, hi, hx⟩ := Finset.mem_biUnion.1 hx
    rw [Finset.mem_Icc] at hx
    rw [Finset.mem_Ico]
    have hb := h i hi
    omega
  have hle' := Finset.card_le_card hsub
  rw [hcard, Nat.card_Ico] at hle'
  omega

/-- The length of printed headers, from the lengths of their strings. -/
theorem length_printHeaders {hs : List (Bytes × Bytes)} {f : ℕ → ℕ}
    (h : ∀ k (hk : k < hs.length), f k = hs[k].1.length + hs[k].2.length + 2) :
    (hs.flatMap printHeader).length = ∑ k ∈ Finset.range hs.length, f k + 2 * hs.length := by
  induction hs generalizing f with
  | nil => simp
  | cons hd hs ih =>
    have h₀ := h 0 (by simp)
    have hnext : ∀ k (hk : k < hs.length), f (k + 1) = hs[k].1.length + hs[k].2.length + 2 := by
      intro k hk
      exact h (k + 1) (by rw [List.length_cons]; omega)
    rw [List.flatMap_cons, List.length_append, Pmsg.length_printHeader, ih hnext, List.length_cons,
      Finset.sum_range_succ', h₀]
    simp only [List.getElem_cons_zero]
    omega

namespace Pmsg

section Length

variable {b p r : ℕ} {m : Pmsg} {t : MsgText}

/-- The strings of a response take up at most 512 bytes with their NULs. -/
theorem Laid.length_strings (h : Laid b p r m) (hs : m.Shows t) {protoId reason : Bytes} {code : ℕ}
    (ht : t.start = .response protoId code reason) :
    protoId.length + 1 + (reason.length + 1) + (t.headers.flatMap printHeader).length ≤
      512 + 2 * t.headers.length := by
  have hstart := hs.start
  rw [ht] at hstart
  obtain ⟨p', r', -, hp, -, hr, rfl, rfl⟩ := hstart
  obtain rfl : p = p' := Option.some.inj (h.protoId.symm.trans hp)
  obtain rfl : r = r' := by simpa using h.reason.symm.trans hr
  have hsize := h.size
  have hused := h.wf.used
  have hp' := h.protoEnd
  have hr' := h.reasonEnd
  -- the strings of the headers are disjoint intervals from `b` on
  let ptrOf : ℕ × Part → ℕ := fun i => (m.ptr i.1 i.2).getD 0
  have hptr : ∀ i ∈ Finset.range m.headerCount ×ˢ ({.name, .value} : Finset Part),
      m.ptr i.1 i.2 = some (ptrOf i) ∧ m.ends (ptrOf i) < m.msgLen := by
    intro i hi
    obtain ⟨q, hq, he⟩ := h.wf.stored i.1 (Finset.mem_range.1 (Finset.mem_product.1 hi).1) i.2
    have hqi : ptrOf i = q := by simp [ptrOf, hq]
    rw [hqi]
    exact ⟨hq, he⟩
  have hsum := sum_intervals_le (e := fun i => m.ends (ptrOf i)) h.based.used
    (fun i hi => ⟨h.based.headers i.1 (Finset.mem_range.1 (Finset.mem_product.1 hi).1) i.2 _
      (hptr i hi).1, (hptr i hi).2⟩)
    (fun i hi j hj hij => h.wf.apart i.1 (Finset.mem_range.1 (Finset.mem_product.1 hi).1) j.1
      (Finset.mem_range.1 (Finset.mem_product.1 hj).1) i.2 j.2 _ _ hij (hptr i hi).1 (hptr j hj).1)
  rw [Finset.sum_product, hs.count] at hsum
  have hlen : ∀ k (hk : k < t.headers.length),
      ∑ w ∈ ({.name, .value} : Finset Part), (m.ends (ptrOf (k, w)) + 1 - ptrOf (k, w)) =
        t.headers[k].1.length + t.headers[k].2.length + 2 := by
    intro k hk
    have hone : ∀ {w s}, m.text k w = some s → m.ends (ptrOf (k, w)) + 1 - ptrOf (k, w) =
        s.length + 1 := by
      intro w s hw
      obtain ⟨q, hq, rfl⟩ := Option.map_eq_some_iff.1 hw
      have hqi : ptrOf (k, w) = q := by simp [ptrOf, hq]
      rw [hqi, Pmsg.ends, strEnd]
      omega
    obtain ⟨hn, hv⟩ := hs.header k hk
    rw [Finset.sum_pair (by decide), hone hn, hone hv]
    omega
  rw [length_printHeaders hlen]
  unfold Pmsg.ends strEnd at hp' hr'
  omega

end Length

end Pmsg

section Fits

variable {m : Pmsg} {t : MsgText} {len : ℤ}

/-- **The text of a response fits the array.** -/
theorem Built.length_print_lt {protoId reason : Bytes} {code : ℕ} (hm : Built m) (hs : m.Shows t)
    (ht : t.start = .response protoId code reason) (hcode : code < 1000)
    (hcount : t.headers.length ≤ 31) (hlen : len < 2 ^ 31) :
    (t.withLength len).print.length < pmsgBufSize := by
  obtain ⟨b, p, r, hlaid⟩ := hm.laid
  have hstrings := hlaid.length_strings hs ht
  have hcode3 : (decimal code).length ≤ 3 := length_decimal_le (by decide) hcode
  have hlength : ((lengthHeader len).flatMap printHeader).length ≤ 28 := by
    unfold lengthHeader
    split_ifs with h0
    · have hdec : (decimal len.toNat).length ≤ 10 := length_decimal_le (by decide) (by omega)
      have hname : (str "Content-Length").length = 14 := by decide
      rw [List.flatMap_cons, List.flatMap_nil, List.append_nil, Pmsg.length_printHeader]
      dsimp only
      omega
    · exact Nat.zero_le _
  have hsize : pmsgBufSize = 2048 := rfl
  simp only [MsgText.print, MsgText.withLength, ht, StartText.print, List.flatMap_append,
    List.length_append, List.length_cons, List.length_nil]
  omega

/-- A printed number is a line. -/
theorem isLine_decimal (n : ℕ) : IsLine (decimal n) := by
  have hdigit : ∀ x ∈ decimal n, ¬ isEol x ∧ x ≠ SP ∧ x ≠ TAB := by
    intro x hx
    obtain ⟨h₁, h₂⟩ := decimal_digits hx
    have hall : ∀ x : UInt8, 48 ≤ x → ¬ isEol x ∧ x ≠ SP ∧ x ≠ TAB := by
      intro x hx
      refine ⟨?_, ?_, ?_⟩
      · rintro (rfl | rfl | rfl) <;> exact absurd hx (by decide)
      · rintro rfl
        exact absurd hx (by decide)
      · rintro rfl
        exact absurd hx (by decide)
    exact hall x h₁
  exact ⟨fun x hx => (hdigit x hx).1, fun x hx => (hdigit x (List.mem_of_head? hx)).2⟩

/-- A name that headers can have. -/
theorem isName_contentLength : IsName (str "Content-Length") := by
  refine ⟨by decide, ?_, by decide, by decide +kernel⟩
  unfold IsWord
  decide +kernel

/-- The header with the length is as good as any. -/
theorem MsgText.Valid.withLength (ht : t.Valid) (len : ℤ) : (t.withLength len).Valid := by
  refine ⟨ht.start, fun h hh => ?_⟩
  rcases List.mem_append.1 hh with hh | hh
  · exact ht.headers h hh
  · unfold lengthHeader at hh
    split_ifs at hh
    · obtain rfl := List.mem_singleton.1 hh
      exact ⟨isName_contentLength, isLine_decimal _⟩
    · cases hh

/-- The bytes of an array are its contents. -/
@[simp] theorem SendBuf.bytesOf_getD (b : Bytes) :
    SendBuf.bytesOf (fun j => b.getD j 0) (b.length : ℤ) = b := by
  refine List.ext_getElem (by simp [SendBuf.bytesOf]) fun j h₁ h₂ => ?_
  simp [SendBuf.bytesOf, h₂]

/-- **`tcp_send_pmsg`.** It leaves the buffer as it is, or queues the text when there is room for
it and the body. -/
theorem SendBuf.InRange.tcpSendPmsg_spec {c c' : SendBuf} {ret : ℤ} (hc : c.InRange)
    (h : c.tcpSendPmsg m len = .ok (c', ret)) :
    ret = -1 ∧ c' = c ∨ ret = 0 ∧ c'.InRange ∧ ∃ text, m.respText len = .ok text ∧
      c'.queued = c.queued ++ text ∧ c.availSendBuf = c'.availSendBuf + text.length ∧
      (0 ≤ len → len ≤ c'.availSendBuf) := by
  unfold SendBuf.tcpSendPmsg at h
  split_ifs at h with htype
  · cases h
    exact .inl ⟨rfl, rfl⟩
  obtain ⟨text, htext, h⟩ := Pmsg.of_bind_ok h
  obtain ⟨totlen, htot, h⟩ := Pmsg.of_bind_ok h
  split_ifs at h with hfull
  · cases h
    exact .inl ⟨rfl, rfl⟩
  · have hspec := hc.sendData_spec (fun j => text.getD j 0) text.length
    rcases hsend : c.sendData (fun j => text.getD j 0) text.length with ⟨c₁, r₁⟩
    rw [hsend] at h hspec
    cases h
    have htotlen : (text.length : ℤ) + max len 0 = totlen := by
      unfold totalLen intAdd at htot
      split_ifs at htot <;> cases htot <;> omega
    rcases hspec with ⟨-, hlt⟩ | ⟨-, -, hin, hqueued, -⟩
    · omega
    · rw [SendBuf.bytesOf_getD] at hqueued
      have havail := hc.avail_add
      have havail' := hin.avail_add
      rw [← SendBuf.length_queued, hqueued, List.length_append, SendBuf.length_queued] at havail'
      refine .inr ⟨rfl, hin, text, htext, hqueued, ?_, fun h0 => ?_⟩
      · push_cast at havail'
        omega
      · push_cast at havail'
        omega

end Fits

/-- The text of a message begins with these bytes. -/
def Pmsg.Begins (m : Pmsg) (b : Bytes) : Prop := At m.mem 0 b ∧ b.length ≤ m.msgLen

/-- **Parser and serializer agree.** The text that `tcp_send_pmsg` makes of a response fits its
array, and is what a connection queues. The parser finds its end, whatever is behind it, and reads
the response it was made of, with the header that tells the length of the body. A printed request
is read as the request it was made of. -/
theorem print_roundTrip :
    (∀ (m : Pmsg) (t : MsgText) (len : ℤ) (protoId reason : Bytes) (code : ℕ), Built m →
      m.headerCount ≤ 31 → m.Shows t → t.start = .response protoId code reason → t.Valid →
      len < 2 ^ 31 → ∃ text, m.respText len = .ok text ∧ text.length < pmsgBufSize ∧
        (∀ c c' : SendBuf, c.InRange → c.tcpSendPmsg m len = .ok (c', 0) →
          c'.queued = c.queued ++ text) ∧
        ∀ m₀ : Pmsg, m₀.Begins text →
          ∃ m', m₀.parsePmsg = .ok (m', (text.length : ℤ)) ∧ m'.Shows (t.withLength len)) ∧
    ∀ (t : MsgText) (method uri protoId : Bytes), t.start = .request method uri protoId → t.Valid →
      t.headers.length ≤ 31 → ∀ m₀ : Pmsg, m₀.Begins t.print →
        ∃ m', m₀.parsePmsg = .ok (m', (t.print.length : ℤ)) ∧ m'.Shows t := by
  constructor
  · intro m t len protoId reason code hm hcount hs ht hvalid hlen
    rw [hs.count] at hcount
    have hcode : code < 1000 := by
      have hstart := hvalid.start
      rw [ht] at hstart
      exact hstart.2.1.2
    have hfit := hm.length_print_lt hs ht hcode hcount hlen
    have htext := Pmsg.respText_print hs ht hfit
    refine ⟨_, htext, hfit, fun c c' hc hsend => ?_, fun m₀ h₀ => ?_⟩
    · rcases hc.tcpSendPmsg_spec hsend with ⟨hret, -⟩ | ⟨-, -, text, htext', hqueued, -⟩
      · cases hret
      · rw [htext] at htext'
        cases htext'
        exact hqueued
    · refine Pmsg.parsePmsg_print (hvalid.withLength len) ?_ h₀.1 h₀.2
      have hmax : maxFields = 32 := rfl
      simp only [MsgText.withLength, lengthHeader, List.length_append]
      split_ifs <;> simp <;> omega
  · intro t method uri protoId _ hvalid hcount m₀ h₀
    have hmax : maxFields = 32 := rfl
    exact Pmsg.parsePmsg_print hvalid (by omega) h₀.1 h₀.2

/-- The replies of `http.c` are responses. -/
theorem built_httpCreateReply (code : ℕ) {reply : Bytes} (h : (cstr reply).length ≤ 500) :
    Built (httpCreateReply code reply) := by
  have hproto : (cstr (str "HTTP/1.0")).length = 8 := by decide
  have hadd : ∀ {m : Pmsg} {s : Bytes}, m.msgLen + ((cstr s).length + 1) ≤ m.maxLen →
      ∃ m', m.addPmsgString s = (m', some m.msgLen) ∧ m'.maxLen = m.maxLen ∧
        m'.msgLen = m.msgLen + ((cstr s).length + 1) := by
    intro m s hfit
    unfold Pmsg.addPmsgString
    rw [if_neg (by omega)]
    exact ⟨_, rfl, rfl, rfl⟩
  obtain ⟨m₁, h₁, hmax, hlen⟩ := hadd (m := .newPmsg (fun _ => 0) (fun _ => ⟨none, none⟩) .req 512)
    (s := str "HTTP/1.0") (by rw [hproto]; decide)
  obtain ⟨m₂, h₂, -, -⟩ := hadd (m := m₁) (s := reply) (by
    rw [hmax, hlen, hproto]
    change 0 + 9 + _ ≤ 512
    omega)
  unfold httpCreateReply
  rw [h₁]
  dsimp only
  rw [h₂]
  exact .create le_rfl h₁ h₂

/-- A message that was received begins with its text. -/
theorem received_begins (b : Bytes) : (received b).Begins b := by
  refine ⟨?_, le_rfl⟩
  intro j hj
  simp [received, Pmsg.newPmsg, hj]

/-- A response with a header that was added, and a request. -/
theorem print_roundTrip_ok :
    (∃ m r text, (httpCreateReply 200 (str "OK")).addHeader (str "Server") (str "spook") = .ok (m, r) ∧
      m.respText 5 = .ok text ∧ ∃ m', (received text).parsePmsg = .ok (m', (text.length : ℤ)) ∧
        m'.Shows ⟨.response (str "HTTP/1.0") 200 (str "OK"),
          [(str "Server", str "spook"), (str "Content-Length", str "5")]⟩) ∧
    ∃ m', (received (str "GET /a HTTP/1.0\r\nAccept: b\r\n\r\n")).parsePmsg = .ok (m', 30) ∧
      m'.Shows ⟨.request (str "GET") (str "/a") (str "HTTP/1.0"), [(str "Accept", str "b")]⟩ := by
  have hword : ∀ {s : Bytes}, (∀ x ∈ s, x ≠ SP ∧ ¬ isEol x) → IsWord s := id
  constructor
  · -- what the message with the header says
    have hsays : ((httpCreateReply 200 (str "OK")).addHeader (str "Server") (str "spook")).toOption.map
        (fun x => decide ((x.1.type = .resp ∧ x.1.protoId = some 0 ∧ x.1.slFst = .code 200 ∧
          x.1.slSnd = .reason (some 9) ∧ cstrAt x.1.mem 0 x.1.msgLen = str "HTTP/1.0" ∧
          cstrAt x.1.mem 9 x.1.msgLen = str "OK") ∧ x.1.headerCount = 1 ∧
          x.1.text 0 .name = some (str "Server") ∧ x.1.text 0 .value = some (str "spook"))) =
        some true := by decide +kernel
    rcases hadd : (httpCreateReply 200 (str "OK")).addHeader (str "Server") (str "spook")
      with f | ⟨m, r⟩
    · rw [hadd] at hsays
      cases hsays
    rw [hadd] at hsays
    obtain ⟨hstart, hcount, hname, hvalue⟩ := of_decide_eq_true (Option.some.inj hsays)
    have hshows : m.Shows ⟨.response (str "HTTP/1.0") 200 (str "OK"),
        [(str "Server", str "spook")]⟩ := by
      refine ⟨⟨0, 9, hstart⟩, hcount, fun k hk => ?_⟩
      obtain rfl : k = 0 := Nat.lt_one_iff.1 hk
      exact ⟨hname, hvalue⟩
    have hvalid : MsgText.Valid ⟨.response (str "HTTP/1.0") 200 (str "OK"),
        [(str "Server", str "spook")]⟩ := by
      refine ⟨⟨⟨hword (by decide +kernel), by decide⟩, by decide, by decide +kernel,
        by decide +kernel⟩, fun h hh => ?_⟩
      obtain rfl := List.mem_singleton.1 hh
      exact ⟨⟨by decide, hword (by decide +kernel), by decide, by decide +kernel⟩, by decide +kernel,
        by decide +kernel⟩
    obtain ⟨text, htext, -, -, hparse⟩ := print_roundTrip.1 m _ 5 (str "HTTP/1.0") (str "OK") 200
      (.addHeader (built_httpCreateReply 200 (by decide)) hadd) (hcount.trans_le (by decide)) hshows
      rfl hvalid (by decide)
    exact ⟨m, r, text, rfl, htext, hparse _ (received_begins text)⟩
  · refine print_roundTrip.2 ⟨.request (str "GET") (str "/a") (str "HTTP/1.0"),
      [(str "Accept", str "b")]⟩ (str "GET") (str "/a") (str "HTTP/1.0") rfl
      ⟨⟨⟨hword (by decide +kernel), by decide, by decide⟩, ⟨hword (by decide +kernel), by decide⟩,
      hword (by decide +kernel), by decide⟩, ?_⟩ (by decide) _ (received_begins _)
    intro h hh
    obtain rfl := List.mem_singleton.1 hh
    exact ⟨⟨by decide, hword (by decide +kernel), by decide, by decide +kernel⟩, by decide +kernel,
      by decide +kernel⟩

end Spook
