import Spook.Fault
import Spook.Lib.CString

set_option relaxedAutoImplicit false
set_option autoImplicit false

/-!
# Protocol messages

`struct pmsg` of `pmsg.h` and the functions of `pmsg.c` that build a message: a byte buffer
`msg` of `max_len` bytes, the first `msg_len` of which are in use, and up to `MAX_FIELDS`
header fields whose names and values are pointers into the buffer. A pointer is the offset
from `msg`, and `none` is the null pointer.

## Main definitions

* `Spook.Pmsg` — `struct pmsg`; the memory is a total function, so that the bytes behind the
  buffer are the foreign memory that follows it.
* `Spook.Pmsg.addPmsgString`, `addHeader`, `addHeaderPrintf`, `replaceHeader`, `copyHeaders`,
  `getHeader` — the functions of the same names.

## Main results

* `Spook.mem_strEnd`, `strEnd_le` — where the string at an index ends.
* `Spook.cstrAt_strcpy` — the string that `strcpy` leaves behind.
* `Spook.cstrAt_congr` — a string depends only on its own bytes.
-/

namespace Spook

/-- `MAX_FIELDS` of `pmsg.h`. -/
def maxFields : ℕ := 32

/-- Carriage return, line feed, tab, space, colon and slash. -/
def CR : UInt8 := 13
@[inherit_doc CR] def LF : UInt8 := 10
@[inherit_doc CR] def TAB : UInt8 := 9
@[inherit_doc CR] def SP : UInt8 := 32
@[inherit_doc CR] def COLON : UInt8 := 58
@[inherit_doc CR] def SLASH : UInt8 := 47

/-! ## Strings in memory -/

/-- The bytes from `p` up to `n`. -/
def slice (mem : ℕ → UInt8) (p n : ℕ) : Bytes := (List.range' p (n - p)).map mem

/-- The C string at `p`, looked for below `n`. -/
def cstrAt (mem : ℕ → UInt8) (p n : ℕ) : Bytes := cstr (slice mem p n)

/-- `strcpy( p, s )`: the bytes of `s` and a NUL. -/
def strcpy (mem : ℕ → UInt8) (p : ℕ) (s : Bytes) : ℕ → UInt8 := fun i =>
  if i < p then mem i
  else if i < p + s.length then s.getD (i - p) 0
  else if i = p + s.length then 0
  else mem i

/-- `vsnprintf( p, size, .. )` of a text that is `s`: at most `size` bytes with the NUL. -/
def vsnprintf (mem : ℕ → UInt8) (p size : ℕ) (s : Bytes) : ℕ → UInt8 :=
  if size = 0 then mem else strcpy mem p (s.take (size - 1))

/-- The index of the NUL behind the C string at `p`, or `n` when there is none below `n`. -/
def strEnd (mem : ℕ → UInt8) (p n : ℕ) : ℕ := p + (cstrAt mem p n).length

section Strings

variable {mem mem' : ℕ → UInt8} {p n n' : ℕ}

/-- A C string read byte by byte. -/
theorem cstrAt_succ (h : p < n) :
    cstrAt mem p n = if mem p = 0 then [] else mem p :: cstrAt mem (p + 1) n := by
  unfold cstrAt slice cstr
  rw [show n - p = (n - (p + 1)) + 1 by omega, List.range'_succ, List.map_cons,
    List.takeWhile_cons]
  by_cases h0 : mem p = 0 <;> simp [h0]

/-- No byte lies below the bound. -/
theorem cstrAt_of_le (h : n ≤ p) : cstrAt mem p n = [] := by
  simp [cstrAt, slice, cstr, Nat.sub_eq_zero_of_le h]

/-- A C string holds no NUL. -/
theorem cstrAt_nulFree (mem : ℕ → UInt8) (p n : ℕ) : NulFree (cstrAt mem p n) := by
  intro x hx
  simpa using List.mem_takeWhile_imp hx

/-- The bytes of a string without NULs, and a NUL behind them, are that C string. -/
theorem cstrAt_eq {s : Bytes} (hs : NulFree s) (hn : p + s.length < n)
    (hm : ∀ j (h : j < s.length), mem (p + j) = s[j]) (h0 : mem (p + s.length) = 0) :
    cstrAt mem p n = s := by
  induction s generalizing p with
  | nil => rw [cstrAt_succ (by simpa using hn), if_pos (by simpa using h0)]
  | cons x xs ih =>
    rw [List.length_cons] at hn h0
    have hx : mem p = x := hm 0 (by simp)
    rw [cstrAt_succ (by omega), hx, if_neg (hs x (by simp)),
      ih (fun y hy => hs y (by simp [hy])) (by omega) ?_ ?_]
    · intro j hj
      have hj' := hm (j + 1) (by simpa using hj)
      rwa [← Nat.add_assoc, Nat.add_right_comm, List.getElem_cons_succ] at hj'
    · rw [← h0]
      congr 1
      omega

/-- The bytes of a C string. -/
theorem mem_of_cstrAt {j : ℕ} (h : j < (cstrAt mem p n).length) :
    mem (p + j) = (cstrAt mem p n)[j] := by
  have hpre : cstrAt mem p n <+: slice mem p n := cstr_begins _
  rw [hpre.getElem h]
  simp [slice]

/-- A terminated C string has a NUL behind it. -/
theorem mem_strEnd (h : strEnd mem p n < n) : mem (strEnd mem p n) = 0 := by
  have hpn : p < n := Nat.lt_of_le_of_lt (Nat.le_add_right _ _) h
  induction hd : n - p generalizing p with
  | zero => omega
  | succ d ih =>
    unfold strEnd at h ⊢
    rw [cstrAt_succ hpn] at h ⊢
    split_ifs at h ⊢ with h0
    · simpa using h0
    · rw [List.length_cons] at h ⊢
      have hz : mem (strEnd mem (p + 1) n) = 0 :=
        ih (by unfold strEnd; omega) (by omega) (by omega)
      rwa [strEnd, Nat.add_assoc, Nat.add_comm 1] at hz

/-- A NUL ends the C string. -/
theorem strEnd_le {e : ℕ} (hpe : p ≤ e) (h0 : mem e = 0) : strEnd mem p n ≤ e := by
  by_contra hlt
  have hj : e - p < (cstrAt mem p n).length := by unfold strEnd at hlt; omega
  have hb := mem_of_cstrAt hj
  rw [Nat.add_sub_cancel' hpe, h0] at hb
  exact cstrAt_nulFree mem p n _ (List.getElem_mem hj) hb.symm

/-- A C string depends only on its own bytes. -/
theorem cstrAt_congr (h : strEnd mem p n < n) (hn : n ≤ n')
    (hm : ∀ j, p ≤ j → j ≤ strEnd mem p n → mem' j = mem j) :
    cstrAt mem' p n' = cstrAt mem p n := by
  have hz := mem_strEnd h
  unfold strEnd at h hz hm
  refine cstrAt_eq (cstrAt_nulFree mem p n) (by omega) (fun j hj => ?_) ?_
  · rw [hm _ (by omega) (by omega), mem_of_cstrAt hj]
  · rw [hm _ (by omega) le_rfl, hz]

/-- The string that `strcpy` leaves behind. -/
theorem cstrAt_strcpy {s : Bytes} (hs : NulFree s) (h : p + s.length < n) :
    cstrAt (strcpy mem p s) p n = s := by
  refine cstrAt_eq hs h (fun j hj => ?_) ?_
  · rw [strcpy, if_neg (by omega), if_pos (by omega), Nat.add_sub_cancel_left]
    simp [hj]
  · rw [strcpy, if_neg (by omega), if_neg (by omega), if_pos rfl]

/-- `strcpy` writes nothing outside the string and its NUL. -/
theorem strcpy_of_outside {s : Bytes} {j : ℕ} (h : j < p ∨ p + s.length < j) :
    strcpy mem p s j = mem j := by
  unfold strcpy
  rcases h with h | h
  · rw [if_pos h]
  · rw [if_neg (by omega), if_neg (by omega), if_neg (by omega)]

/-- `vsnprintf` writes nothing before its buffer. -/
theorem vsnprintf_of_lt {size j : ℕ} (s : Bytes) (h : j < p) :
    vsnprintf mem p size s j = mem j := by
  unfold vsnprintf
  split_ifs
  · rfl
  · exact strcpy_of_outside (.inl h)

/-- A text that fits the buffer of `vsnprintf` is stored whole. -/
theorem cstrAt_vsnprintf {size : ℕ} {s : Bytes} (hs : NulFree s) (hsize : s.length < size)
    (h : p + s.length < n) : cstrAt (vsnprintf mem p size s) p n = s := by
  unfold vsnprintf
  rw [if_neg (by omega), List.take_of_length_le (by omega)]
  exact cstrAt_strcpy hs h

end Strings

/-! ## The message -/

/-- `struct hdrf`. -/
structure Hdrf where
  name : Option ℕ
  value : Option ℕ

/-- `enum pmsg_type`. -/
inductive PmsgType
  | req
  | resp
  deriving DecidableEq

/-- The first word of the union `sl`: `req.method` or `stat.code`. -/
inductive SlFst
  | undef
  | method (p : ℕ)
  | code (n : ℕ)
  deriving DecidableEq

/-- The second word of the union `sl`: `req.uri` or `stat.reason`. -/
inductive SlSnd
  | undef
  | uri (p : ℕ)
  | reason (p : Option ℕ)
  deriving DecidableEq

/-- `struct pmsg`. -/
structure Pmsg where
  mem : ℕ → UInt8
  maxLen : ℕ
  msgLen : ℕ
  fields : ℕ → Hdrf
  headerCount : ℕ
  type : PmsgType
  protoId : Option ℕ
  slFst : SlFst
  slSnd : SlSnd

namespace Pmsg

/-- `new_pmsg`: an empty message with room for `size` bytes. The memory, the fields, the type
and the union are what `malloc` returned. -/
def newPmsg (mem : ℕ → UInt8) (fields : ℕ → Hdrf) (type : PmsgType) (size : ℕ) : Pmsg :=
  { mem, maxLen := size, msgLen := 0, fields, headerCount := 0, type, protoId := none,
    slFst := .undef, slSnd := .undef }

/-- `msg->msg[i] = b`. -/
def poke (m : Pmsg) (i : ℕ) (b : UInt8) : Pmsg := { m with mem := Function.update m.mem i b }

/-- `msg->fields[k].name = p`. -/
def setName (m : Pmsg) (k : ℕ) (p : Option ℕ) : Except Fault Pmsg :=
  if k < maxFields then
    .ok { m with fields := Function.update m.fields k { m.fields k with name := p } }
  else .error .fieldIndex

/-- `msg->fields[k].value = p`. -/
def setValue (m : Pmsg) (k : ℕ) (p : Option ℕ) : Except Fault Pmsg :=
  if k < maxFields then
    .ok { m with fields := Function.update m.fields k { m.fields k with value := p } }
  else .error .fieldIndex

/-- The C string that a pointer into the message points to. -/
def cstring (m : Pmsg) : Option ℕ → Except Fault Bytes
  | none => .error .nullDeref
  | some p => .ok (cstrAt m.mem p m.msgLen)

/-- `add_pmsg_string`: append a string to the message, or return the null pointer when it does
not fit. -/
def addPmsgString (m : Pmsg) (s : Bytes) : Pmsg × Option ℕ :=
  let len := (cstr s).length + 1
  if m.msgLen + len > m.maxLen then (m, none)
  else ({ m with mem := strcpy m.mem m.msgLen (cstr s), msgLen := m.msgLen + len },
    some m.msgLen)

/-- `add_header`. -/
def addHeader (m : Pmsg) (name value : Bytes) : Except Fault (Pmsg × ℤ) := do
  if m.headerCount = maxFields then return (m, -1)
  -- Put the name and value back-to-back at the end of the message
  let (m, p) := m.addPmsgString name
  let m ← m.setName m.headerCount p
  if p = none then return (m, -1)
  let (m, p) := m.addPmsgString value
  let m ← m.setValue m.headerCount p
  if p = none then return (m, -1)
  return ({ m with headerCount := m.headerCount + 1 }, 0)

/-- `add_header_printf` of a format whose text is `s`. -/
def addHeaderPrintf (m : Pmsg) (name s : Bytes) : Except Fault (Pmsg × ℤ) := do
  -- do the vsnprintf first to clean up the stack
  let len := (cstr s).length
  let m := { m with mem := vsnprintf m.mem m.msgLen (m.maxLen - m.msgLen) (cstr s) }
  -- check for errors
  if m.headerCount = maxFields then return (m, -1)
  if m.msgLen + len ≥ m.maxLen then return (m, -1)
  let m ← m.setValue m.headerCount (some m.msgLen)
  let m := { m with msgLen := m.msgLen + (len + 1) }
  -- add the name
  let (m, p) := m.addPmsgString name
  let m ← m.setName m.headerCount p
  if p = none then return (m, -1)
  return ({ m with headerCount := m.headerCount + 1 }, 0)

/-- The first field from `i` on, of `n` fields, whose name is `name` up to case. -/
def findHeader (m : Pmsg) (name : Bytes) : ℕ → ℕ → Except Fault (Option ℕ)
  | 0, _ => return none
  | n + 1, i => do
    let s ← m.cstring (m.fields i).name
    if strCaseEq s (cstr name) then return some i
    m.findHeader name n (i + 1)

/-- `get_header`: the value of the first header with a name, or the null pointer. -/
def getHeader (m : Pmsg) (name : Bytes) : Except Fault (Option Bytes) := do
  match ← m.findHeader name m.headerCount 0 with
  | none => return none
  | some i => return some (← m.cstring (m.fields i).value)

/-- `replace_header`. -/
def replaceHeader (m : Pmsg) (name value : Bytes) : Except Fault (Pmsg × ℤ) := do
  match ← m.findHeader name m.headerCount 0 with
  | some i =>
    let old ← m.cstring (m.fields i).value
    -- If we can't reuse the space from the original value, we have to allocate space for the
    -- new value at the end of the message
    if old.length < (cstr value).length then
      let (m, p) := m.addPmsgString value
      if p = none then return (m, -1)
      let m ← m.setValue i p
      return (m, 0)
    else
      match (m.fields i).value with
      | none => throw .nullDeref
      | some p => return ({ m with mem := strcpy m.mem p (cstr value) }, 0)
  -- It doesn't exist, so we'll insert it as new
  | none => m.addHeader name value

/-- The loop of `copy_headers` from field `i` on, `n` bounding its iterations. With `same` the
source is the destination itself. -/
def copyLoop (same : Bool) (name : Bytes) :
    ℕ → ℕ → Pmsg → Pmsg → ℕ → Except Fault (Pmsg × ℕ)
  | 0, i, dest, src, count => if i < src.headerCount then .error .loop else .ok (dest, count)
  | n + 1, i, dest, src, count => do
    if i < src.headerCount then
      let s ← src.cstring (src.fields i).name
      if strCaseEq s (cstr name) then
        let v ← src.cstring (src.fields i).value
        let (dest, _) ← dest.addHeader s v
        copyLoop same name n (i + 1) dest (if same then dest else src) (count + 1)
      else copyLoop same name n (i + 1) dest src count
    else return (dest, count)

/-- `copy_headers( dest, src, name )` for two messages. -/
def copyHeaders (dest src : Pmsg) (name : Bytes) : Except Fault (Pmsg × ℕ) :=
  copyLoop false name maxFields 0 dest src 0

/-- `copy_headers( msg, msg, name )`. -/
def copyHeadersSelf (m : Pmsg) (name : Bytes) : Except Fault (Pmsg × ℕ) :=
  copyLoop true name maxFields 0 m m 0

end Pmsg

end Spook
