import Spook.Pmsg.Build

set_option relaxedAutoImplicit false
set_option autoImplicit false

/-!
# The space of a message

The strings of a message compete for one fixed area, and its headers for one table. A header is
stored if both of its strings fit. If only its name does, the name stays in the area and the header
is not stored, so that what a header leaves to the next depends on the exact lengths.

## Main definitions

* `Spook.Space` — how much of the area and of the table is taken; `Space.Fits`, `Space.take`,
  `Space.after` and `Space.kept` say which headers of a list are stored in it.
* `Spook.Pmsg.headers` — the headers of a message.
* `Spook.Pmsg.Takes` — what adding a list of headers does.

## Main results

* `Spook.Pmsg.addHeader_takes`, `copyHeaders_takes` — the operations on messages are those on
  spaces.
* `Spook.Pmsg.getHeader_eq` — the lookup of a header in the list of headers.
* `Spook.Space.kept_fits` — what is stored fits.
-/

namespace Spook

/-! ## Spaces -/

/-- A header: its name and its value. -/
abbrev Header := Bytes × Bytes

/-- The size of an area for strings, how much of it is taken, and the number of headers. -/
structure Space where
  size : ℕ
  used : ℕ
  count : ℕ
  deriving DecidableEq

namespace Space

variable {s : Space} {h : Header} {hs hs' : List Header}

/-- The bytes that a stored header takes up. -/
def cost (h : Header) : ℕ := h.1.length + h.2.length + 2

/-- A header can be stored. -/
def Fits (s : Space) (h : Header) : Prop := s.count < maxFields ∧ s.used + cost h ≤ s.size

instance (s : Space) (h : Header) : Decidable (s.Fits h) := by unfold Fits; infer_instance

/-- What is taken behind an attempt to store a header. -/
def take (s : Space) (h : Header) : Space :=
  if s.Fits h then { s with used := s.used + cost h, count := s.count + 1 }
  else if s.count < maxFields ∧ s.used + (h.1.length + 1) ≤ s.size then
    { s with used := s.used + (h.1.length + 1) }
  else s

/-- What is taken behind a list of headers. -/
def after (s : Space) (hs : List Header) : Space := hs.foldl take s

/-- The headers of a list that are stored. -/
def kept (s : Space) : List Header → List Header
  | [] => []
  | h :: hs => if s.Fits h then h :: (s.take h).kept hs else (s.take h).kept hs

/-- No headers. -/
@[simp] theorem after_nil : s.after [] = s := rfl

/-- One header and then the others. -/
@[simp] theorem after_cons : s.after (h :: hs) = (s.take h).after hs := rfl

/-- No headers. -/
@[simp] theorem kept_nil : s.kept [] = [] := rfl

/-- A header is kept if it fits. -/
theorem kept_cons : s.kept (h :: hs) = (if s.Fits h then [h] else []) ++ (s.take h).kept hs := by
  rw [kept]
  split_ifs <;> rfl

/-- One list of headers behind another. -/
theorem after_append : s.after (hs ++ hs') = (s.after hs).after hs' := List.foldl_append

/-- Headers behind headers. -/
theorem kept_append : s.kept (hs ++ hs') = s.kept hs ++ (s.after hs).kept hs' := by
  induction hs generalizing s with
  | nil => rfl
  | cons h hs ih => rw [List.cons_append, kept_cons, kept_cons, ih, List.append_assoc, after_cons]

/-- The size stays. -/
@[simp] theorem size_take : (s.take h).size = s.size := by
  unfold take
  split_ifs <;> rfl

/-- A header that has no space for its name takes up nothing. -/
theorem take_of_nameless (hn : ¬ (s.count < maxFields ∧ s.used + (h.1.length + 1) ≤ s.size)) :
    s.take h = s ∧ ¬ s.Fits h := by
  have hno : ¬ s.Fits h := fun hf => hn ⟨hf.1, by have := hf.2; unfold cost at this; omega⟩
  exact ⟨by rw [take, if_neg hno, if_neg hn], hno⟩

/-- Nothing becomes free. -/
theorem used_le_take : s.used ≤ (s.take h).used := by
  unfold take
  split_ifs
  · exact Nat.le_add_right _ _
  · exact Nat.le_add_right _ _
  · exact le_rfl

/-- The count does not go down. -/
theorem count_le_take : s.count ≤ (s.take h).count := by
  unfold take
  split_ifs
  · exact Nat.le_add_right _ _
  · exact le_rfl
  · exact le_rfl

/-- What does not fit does not fit behind other headers. -/
theorem Fits.of_take {h' : Header} (hf : (s.take h).Fits h') : s.Fits h' := by
  have hu : s.used ≤ (s.take h).used := used_le_take
  have hc : s.count ≤ (s.take h).count := count_le_take
  obtain ⟨h₁, h₂⟩ := hf
  rw [size_take] at h₂
  exact ⟨by omega, by omega⟩

/-- What is stored of a list is part of it and fits. -/
theorem kept_fits {h' : Header} (hk : h' ∈ s.kept hs) : h' ∈ hs ∧ s.Fits h' := by
  induction hs generalizing s with
  | nil => cases hk
  | cons h hs ih =>
    rw [kept_cons, List.mem_append] at hk
    rcases hk with hk | hk
    · split_ifs at hk with hfit
      · obtain rfl := List.mem_singleton.1 hk
        exact ⟨List.mem_cons_self, hfit⟩
      · cases hk
    · obtain ⟨hmem, hfit⟩ := ih hk
      exact ⟨List.mem_cons_of_mem _ hmem, hfit.of_take⟩

end Space

namespace Pmsg

section Headers

variable {m m' m'' : Pmsg}

/-- How much of a message is taken. -/
def space (m : Pmsg) : Space := ⟨m.maxLen, m.msgLen, m.headerCount⟩

/-- The header in the field `k`. -/
def header (m : Pmsg) (k : ℕ) : Header := ((m.text k .name).getD [], (m.text k .value).getD [])

/-- The headers of a message. -/
def headers (m : Pmsg) : List Header := (List.range m.headerCount).map m.header

/-- The words of the start line are the same. -/
structure SameWords (m m' : Pmsg) : Prop where
  type : m'.type = m.type
  protoId : m'.protoId = m.protoId
  slFst : m'.slFst = m.slFst
  slSnd : m'.slSnd = m.slSnd

/-- What adding headers does: those that find space are stored in their order. -/
structure Takes (m : Pmsg) (hs : List Header) (m' : Pmsg) : Prop where
  wf : m'.Wf
  space : m'.space = m.space.after hs
  headers : m'.headers = m.headers ++ m.space.kept hs
  words : SameWords m m'

/-- No headers. -/
theorem Takes.nil (h : m.Wf) : Takes m [] m :=
  ⟨h, rfl, (List.append_nil _).symm, rfl, rfl, rfl, rfl⟩

/-- One list of headers behind another. -/
theorem Takes.append {hs hs' : List Header} (h : Takes m hs m') (h' : Takes m' hs' m'') :
    Takes m (hs ++ hs') m'' where
  wf := h'.wf
  space := by rw [h'.space, h.space, Space.after_append]
  headers := by rw [h'.headers, h.headers, h.space, Space.kept_append, List.append_assoc]
  words := ⟨h'.words.type.trans h.words.type, h'.words.protoId.trans h.words.protoId,
    h'.words.slFst.trans h.words.slFst, h'.words.slSnd.trans h.words.slSnd⟩

/-- A string that fits is appended. -/
theorem addPmsgString_fits {s : Bytes} (h : m.msgLen + ((cstr s).length + 1) ≤ m.maxLen) :
    m.addPmsgString s =
      ({ m with mem := strcpy m.mem m.msgLen (cstr s), msgLen := m.msgLen + ((cstr s).length + 1) },
        some m.msgLen) := if_neg (not_lt.2 h)

/-- What `add_header` takes, and when it succeeds. -/
theorem addHeader_space {name value : Bytes} {r : ℤ} (hc : m.headerCount ≤ maxFields)
    (h : m.addHeader name value = .ok (m', r)) :
    m'.space = m.space.take (cstr name, cstr value) ∧ SameWords m m' ∧
      (r = 0 ↔ m.space.Fits (cstr name, cstr value)) := by
  unfold addHeader at h
  by_cases hk : m.headerCount = maxFields
  · rw [if_pos hk] at h
    cases h
    obtain ⟨htake, hno⟩ := @Space.take_of_nameless m.space (cstr name, cstr value)
      fun hlt => absurd hlt.1 (not_lt.2 hk.ge)
    exact ⟨htake.symm, ⟨rfl, rfl, rfl, rfl⟩, by simp [hno]⟩
  have hroom : m.headerCount < maxFields := by omega
  rw [if_neg hk] at h
  by_cases hn : m.msgLen + ((cstr name).length + 1) > m.maxLen
  · obtain ⟨htake, hno⟩ := @Space.take_of_nameless m.space (cstr name, cstr value)
      fun hlt => absurd hlt.2 (not_le.2 hn)
    rw [addPmsgString, if_pos hn] at h
    simp only [setName_ok hroom, bind, Except.bind, pure, Except.pure, if_true] at h
    cases h
    exact ⟨htake.symm, ⟨rfl, rfl, rfl, rfl⟩, by simp [hno]⟩
  have hname : m.space.count < maxFields ∧ m.space.used + ((cstr name).length + 1) ≤ m.space.size :=
    ⟨hroom, not_lt.1 hn⟩
  rw [addPmsgString, if_neg hn] at h
  simp only [setName_ok hroom, bind, Except.bind, pure, Except.pure, reduceCtorEq, if_false] at h
  by_cases hv : m.msgLen + ((cstr name).length + 1) + ((cstr value).length + 1) > m.maxLen
  · have hno : ¬ m.space.Fits (cstr name, cstr value) := fun hf => by
      have hcost := hf.2
      simp only [Pmsg.space, Space.cost] at hcost
      omega
    rw [addPmsgString, if_pos hv] at h
    simp only [setValue_ok hroom, if_true] at h
    cases h
    refine ⟨?_, ⟨rfl, rfl, rfl, rfl⟩, by simp [hno]⟩
    rw [Space.take, if_neg hno, if_pos hname]
    rfl
  · have hfit : m.space.Fits (cstr name, cstr value) := by
      refine ⟨hroom, ?_⟩
      simp only [Pmsg.space, Space.cost]
      omega
    rw [addPmsgString, if_neg hv] at h
    simp only [setValue_ok hroom, reduceCtorEq, if_false] at h
    cases h
    refine ⟨?_, ⟨rfl, rfl, rfl, rfl⟩, by simp [hfit]⟩
    rw [Space.take, if_pos hfit]
    simp only [Pmsg.space, Space.cost, Space.mk.injEq, true_and, and_true]
    omega

/-- The headers of a message that keeps its fields. -/
theorem headers_keeps (hk : Keeps noField m m') :
    (List.range m.headerCount).map m'.header = m.headers := by
  refine List.map_congr_left fun k hlt => ?_
  rw [List.mem_range] at hlt
  rw [header, header, hk.text k hlt .name id, hk.text k hlt .value id]

/-- **Adding a header** takes space for it. -/
theorem addHeader_takes (hwf : m.Wf) (name value : Bytes) :
    ∃ m' r, m.addHeader name value = .ok (m', r) ∧ Takes m [(cstr name, cstr value)] m' := by
  obtain ⟨m', r, ha, hadd⟩ := addHeader_spec hwf name value
  obtain ⟨hspace, hwords, hres⟩ := addHeader_space hwf.count ha
  refine ⟨m', r, ha, hadd.wf, hspace, ?_, hwords⟩
  rw [Space.kept_cons, Space.kept_nil, List.append_nil, ← headers_keeps hadd.keeps]
  rcases hadd.result with ⟨rfl, hc, hn, hv⟩ | ⟨rfl, hc⟩
  · rw [if_pos (hres.1 rfl), headers, hc, List.range_succ, List.map_append]
    simp [header, hn, hv]
  · rw [if_neg fun hf => absurd (hres.2 hf) (by decide), List.append_nil, headers, hc]

/-- The strings of a stored header are read without a fault. -/
theorem cstring_header (hwf : m.Wf) {k : ℕ} (hk : k < m.headerCount) :
    m.cstring (m.fields k).name = .ok (m.header k).1 ∧
      m.cstring (m.fields k).value = .ok (m.header k).2 ∧
      NulFree (m.header k).1 ∧ NulFree (m.header k).2 := by
  obtain ⟨p, hp, -⟩ := hwf.stored k hk .name
  obtain ⟨q, hq, -⟩ := hwf.stored k hk .value
  have hn : (m.header k).1 = cstrAt m.mem p m.msgLen := by simp [header, Pmsg.text, hp]
  have hv : (m.header k).2 = cstrAt m.mem q m.msgLen := by simp [header, Pmsg.text, hq]
  rw [hn, hv, show (m.fields k).name = some p from hp, show (m.fields k).value = some q from hq]
  exact ⟨rfl, rfl, cstr_nulFree _, cstr_nulFree _⟩

/-- The headers from the field `k` on. -/
theorem headers_drop {k : ℕ} (hk : k < m.headerCount) :
    m.headers.drop k = m.header k :: m.headers.drop (k + 1) := by
  rw [List.drop_eq_getElem_cons (by simpa [headers] using hk)]
  simp [headers]

/-- The headers of a list whose name is `name` up to case. -/
def named (name : Bytes) (hs : List Header) : List Header :=
  hs.filter fun h => strCaseEq h.1 (cstr name)

/-- Behind the last header there is none. -/
theorem named_drop {k : ℕ} (hk : ¬ k < m.headerCount) (name : Bytes) :
    named name (m.headers.drop k) = [] := by
  rw [List.drop_eq_nil_of_le (by simpa [headers] using hk)]
  rfl

/-- The loop of `copy_headers` between two messages. -/
theorem copyLoop_takes {name : Bytes} {n i count : ℕ} {dest src : Pmsg} (hd : dest.Wf)
    (hs : src.Wf) (hn : maxFields ≤ i + n) :
    ∃ dest' c, copyLoop false name n i dest src count = .ok (dest', c) ∧
      Takes dest (named name (src.headers.drop i)) dest' := by
  induction n generalizing i dest count with
  | zero =>
    have hi : ¬ i < src.headerCount := by have := hs.count; omega
    exact ⟨dest, count, by rw [copyLoop, if_neg hi], named_drop hi name ▸ .nil hd⟩
  | succ n ih =>
    unfold copyLoop
    by_cases hi : i < src.headerCount
    · obtain ⟨hn₁, hv₁, hnul, hnul'⟩ := cstring_header hs hi
      rw [if_pos hi, hn₁, ok_bind, headers_drop hi, named, List.filter_cons]
      by_cases heq : strCaseEq (src.header i).1 (cstr name) = true
      · obtain ⟨d, r, ha, ht⟩ := addHeader_takes hd (src.header i).1 (src.header i).2
        rw [cstr_of_nulFree hnul, cstr_of_nulFree hnul'] at ht
        rw [if_pos heq, if_pos heq, hv₁, ok_bind, ha, ok_bind]
        obtain ⟨dest', c, hc, ht'⟩ := @ih (i + 1) (count + 1) d ht.wf (by omega)
        exact ⟨dest', c, hc, ht.append ht'⟩
      · rw [if_neg heq, if_neg heq]
        exact ih hd (by omega)
    · rw [if_neg hi]
      exact ⟨dest, count, rfl, named_drop hi name ▸ .nil hd⟩

/-- **Copying headers** takes space for those of the name. -/
theorem copyHeaders_takes {dest src : Pmsg} (hd : dest.Wf) (hs : src.Wf) (name : Bytes) :
    ∃ dest' c, dest.copyHeaders src name = .ok (dest', c) ∧
      Takes dest (named name src.headers) dest' :=
  copyLoop_takes hd hs (Nat.le_add_left _ _)

/-- The search for a header from `i` on. -/
theorem findHeader_eq (hwf : m.Wf) (name : Bytes) {n i : ℕ} (hn : i + n = m.headerCount) :
    m.findHeader name n i =
      .ok ((List.range' i n).find? fun k => strCaseEq (m.header k).1 (cstr name)) := by
  induction n generalizing i with
  | zero => rfl
  | succ n ih =>
    rw [findHeader, (cstring_header hwf (by omega)).1, ok_bind, List.range'_succ, List.find?_cons]
    by_cases heq : strCaseEq (m.header i).1 (cstr name) = true
    · rw [if_pos heq, heq]
      rfl
    · rw [if_neg heq, ih (by omega), Bool.not_eq_true] at *
      rw [heq]

/-- **The lookup of a header** in a message is one in the list of its headers. -/
theorem getHeader_eq (hwf : m.Wf) (name : Bytes) :
    m.getHeader name =
      .ok ((m.headers.find? fun h => strCaseEq h.1 (cstr name)).map Prod.snd) := by
  rw [getHeader, findHeader_eq hwf name (by omega), ok_bind, headers, List.find?_map,
    List.range_eq_range', Option.map_map]
  rcases hf : (List.range' 0 m.headerCount).find? fun k => strCaseEq (m.header k).1 (cstr name)
    with _ | k
  · rw [show (fun h : Header => strCaseEq h.1 (cstr name)) ∘ m.header =
      fun k => strCaseEq (m.header k).1 (cstr name) from rfl, hf]
    rfl
  · have hk : k < m.headerCount := by simpa using (List.mem_of_find?_eq_some hf)
    rw [show (fun h : Header => strCaseEq h.1 (cstr name)) ∘ m.header =
      fun k => strCaseEq (m.header k).1 (cstr name) from rfl, hf]
    dsimp only
    rw [(cstring_header hwf hk).2.1]
    rfl

/-- A header is found exactly if there is one of that name. -/
theorem getHeader_some_iff (hwf : m.Wf) (name : Bytes) :
    (∃ v, m.getHeader name = .ok (some v)) ↔
      ∃ h ∈ m.headers, strCaseEq h.1 (cstr name) = true := by
  rw [getHeader_eq hwf]
  constructor
  · rintro ⟨v, hv⟩
    obtain ⟨h, hf, -⟩ := Option.map_eq_some_iff.1 (Except.ok.inj hv)
    have hn := List.find?_some hf
    exact ⟨h, List.mem_of_find?_eq_some hf, hn⟩
  · rintro ⟨h, hmem, hn⟩
    obtain ⟨h', hf⟩ := Option.isSome_iff_exists.1 (List.find?_isSome.2 ⟨h, hmem, hn⟩ :
      (m.headers.find? fun h => strCaseEq h.1 (cstr name)).isSome)
    exact ⟨h'.2, by rw [hf]; rfl⟩

end Headers

end Pmsg

end Spook
