import Spook.Rtp.Mpeg4.Units

set_option relaxedAutoImplicit false
set_option autoImplicit false

/-!
# Reading MPEG-4 frames

Which frames `mpeg4_process_frame` reads within their length. A start code is found inside the frame;
the fields behind it are read wherever they are.

The units of a frame are described by cutting its bytes in front of every start code, without the
search of `find_next_code`. The condition goes over them with what the stream has collected before
each.

## Main definitions

* `Spook.cutUnits` — the units of a frame.
* `Spook.UnitInside`, `UnitsInside` — units that are read inside.
* `Spook.Mpeg4Inside` — a frame that is read inside.

## Main results

* `Spook.cutUnits_first` — the first unit ends where the next one begins.
* `Spook.mpeg4Units_ok_iff` — the loop, from any unit on.
* `Spook.mpeg4Inside_iff` — the frames that are read inside.
-/

namespace Spook

/-! ## The units of a frame -/

/-- Some bytes, cut in front of every start code. -/
def cutUnits : Bytes → List Bytes
  | [] => []
  | b :: bs =>
    match cutUnits bs with
    | [] => [[b]]
    | u :: us => if [0, 0, 1] <+: bs then [b] :: u :: us else (b :: u) :: us

section Cut

variable {bs u : Bytes} {us : List Bytes}

/-- Nothing is left out. -/
theorem flatten_cutUnits (bs : Bytes) : (cutUnits bs).flatten = bs := by
  induction bs with
  | nil => rfl
  | cons b bs ih =>
    rw [cutUnits]
    rcases hcut : cutUnits bs with _ | ⟨u, us⟩
    · rw [hcut] at ih
      rw [← ih]
      rfl
    · rw [hcut] at ih
      dsimp only
      split_ifs
      · rw [List.flatten_cons, ih]
        rfl
      · rw [List.flatten_cons, List.cons_append, ← List.flatten_cons, ih]

/-- A start code is at the front, or behind it. -/
theorem hasStartCode_iff (bs : Bytes) :
    HasStartCode bs ↔ [0, 0, 1] <+: bs ∨ HasStartCode (bs.drop 1) := by
  cases bs with
  | nil => simp [HasStartCode]
  | cons b bs => exact List.infix_cons_iff

/-- **The first unit** is not empty and has no start code behind its first byte; behind it is nothing
or a start code, and the other units are those of what is behind it.

**Proof sketch.** By induction on the bytes. The first byte is a unit of its own if a start code is
behind it, and is added to the unit behind it if not; that unit then begins with no start code, and
has none further on by induction. -/
theorem cutUnits_first (h : cutUnits bs = u :: us) :
    u ≠ [] ∧ ¬ HasStartCode (u.drop 1) ∧ (us.flatten = [] ∨ [0, 0, 1] <+: us.flatten) ∧
      cutUnits us.flatten = us := by
  induction bs generalizing u us with
  | nil => cases h
  | cons b bs ih =>
    have hflatten := flatten_cutUnits bs
    rw [cutUnits] at h
    rcases hcut : cutUnits bs with _ | ⟨v, vs⟩
    · rw [hcut] at h
      obtain ⟨rfl, rfl⟩ := List.cons.inj h
      exact ⟨List.cons_ne_nil _ _, by simp [HasStartCode], .inl rfl, rfl⟩
    rw [hcut] at h hflatten
    dsimp only at h
    obtain ⟨hne, hcode, hbehind, hrest⟩ := ih hcut
    by_cases hfront : [0, 0, 1] <+: bs
    · rw [if_pos hfront] at h
      obtain ⟨rfl, rfl⟩ := List.cons.inj h
      refine ⟨List.cons_ne_nil _ _, by simp [HasStartCode], ?_, ?_⟩
      · rw [hflatten]
        exact .inr hfront
      · rw [hflatten, hcut]
    · rw [if_neg hfront] at h
      obtain ⟨rfl, rfl⟩ := List.cons.inj h
      refine ⟨List.cons_ne_nil _ _, ?_, hbehind, hrest⟩
      rw [List.drop_succ_cons, List.drop_zero, hasStartCode_iff]
      rintro (hbegin | hinside)
      · rw [← hflatten, List.flatten_cons] at hfront
        exact hfront (hbegin.trans (List.prefix_append _ _))
      · exact hcode hinside

end Cut

/-! ## Units that are read inside -/

/-- The start code at `d`, with zeros behind the frame. -/
def MediaFrame.startCode (f : MediaFrame) (d : ℕ) : ℕ := f.pad16 d * 65536 + f.pad16 (d + 2)

/-- The unit of `len` bytes at `d` has its start code inside the frame, and what is looked at of its
header, by its kind, is inside as well; `f.byte` reads the bytes of the frame and no others. -/
def UnitInside (f : MediaFrame) (h : Mpeg4Head) (d len : ℕ) : Prop :=
  d + 3 < f.d.length ∧ UnitRuns f.byte d len (mpeg4Unit (f.startCode d)) h

/-- The units `us`, of which the first is at `d`, are read inside, with `h` collected before them. -/
def UnitsInside (f : MediaFrame) (h : Mpeg4Head) (d : ℕ) : List Bytes → Prop
  | [] => True
  | u :: us => UnitInside f h d u.length ∧
    UnitsInside f (h.after f.byte d (mpeg4Unit (f.startCode d)) u) (d + u.length) us

/-- The frame is read inside, in finitely many steps, and what is queued lies inside. -/
def Mpeg4Inside (f : MediaFrame) (out : RtpMpeg4) : Prop :=
  ∃ r, mpeg4ProcessFrame f.byte f out = .ok r ∧ ∀ e ∈ r.1.iov, e.base + e.len ≤ f.d.length

section Units

variable {f : MediaFrame} {mem : FrameMemory} {out out' : RtpMpeg4} {d len n start : ℕ}
  {kind : Mpeg4Unit} {u pre : Bytes} {us : List Bytes}

/-- A start code that is inside the frame. -/
theorem get32_byte (h : d + 3 < f.d.length) : FrameMemory.get32 f.byte d = .ok (f.startCode d) := by
  have hread : ∀ i, i < f.d.length → f.byte i = .ok (f.pad i) := by
    intro i hi
    simp [MediaFrame.byte, MediaFrame.pad, hi]
  simp only [FrameMemory.get32, FrameMemory.get16, hread d (by omega), hread (d + 1) (by omega),
    hread (d + 2) (by omega), hread (d + 2 + 1) (by omega), ok_bind]
  rfl

/-- A start code that is not inside the frame is not read. -/
theorem get32_byte_fault (h : ¬ d + 3 < f.d.length) :
    ¬ ∃ code, FrameMemory.get32 f.byte d = .ok code := by
  rintro ⟨code, hcode⟩
  obtain ⟨high, -, hcode⟩ := bind_eq_ok.1 hcode
  obtain ⟨low, hlow, -⟩ := bind_eq_ok.1 hcode
  obtain ⟨first, -, hlow⟩ := bind_eq_ok.1 hlow
  obtain ⟨b, hb, -⟩ := bind_eq_ok.1 hlow
  have hbehind : f.d.length ≤ d + 2 + 1 := by omega
  unfold MediaFrame.byte at hb
  rw [List.getElem?_eq_none hbehind] at hb
  cases hb

/-- A unit is gone through without a fault exactly if what is looked at can be read and what was
collected fits. -/
theorem parseUnit_ok_iff (hu : mem.bytes d len = .ok u) :
    (∃ out', parseUnit mem out d len kind = .ok out') ↔ UnitRuns mem d len kind out.head := by
  have hresult := parseUnit_result out hu kind
  generalize parseUnit mem out d len kind = result at hresult ⊢
  cases hresult with
  | fault e hnot => exact iff_of_false (fun ⟨_, h⟩ => by cases h) hnot
  | dropped out' hruns _ _ => exact iff_of_true ⟨out', rfl⟩ hruns
  | queued out' hruns _ _ => exact iff_of_true ⟨out', rfl⟩ hruns

/-- An element that is queued is the unit. -/
theorem parseUnit_iov (hu : mem.bytes d len = .ok u) (h : parseUnit mem out d len kind = .ok out') :
    ∀ e ∈ out'.iov, e ∈ out.iov ∨ e = ⟨d, len⟩ := by
  intro e he
  have hresult := parseUnit_result out hu kind
  rw [h] at hresult
  cases hresult with
  | dropped _ _ _ hiov =>
    rw [hiov] at he
    exact .inl he
  | queued _ _ _ hiov =>
    rw [hiov] at he
    unfold addToRtpBuf at he
    split_ifs at he
    · exact .inl he
    · simpa using he

/-- The bytes of a unit can be read. -/
theorem bytes_slice (hmem : mem.Holds f) (hf : f.d = pre ++ (u ++ us.flatten)) :
    mem.bytes pre.length u.length = .ok u := by
  rw [hmem.bytes]
  · rw [hf, List.drop_left, List.take_left]
  · simp [hf]

/-- **The loop of `mpeg4_process_frame`**, from the units `us` on, has a result exactly if they are
read inside.

**Proof sketch.** By induction on the units. The loop finds the end of the first one by
`cutUnits_first`, goes through it exactly if it is inside, and goes on with what it changed of what is
collected. -/
theorem mpeg4Units_ok_iff (pre : Bytes) (hf : f.d = pre ++ us.flatten)
    (hus : cutUnits us.flatten = us) (hn : us.length < n) :
    (∃ out', mpeg4Units f.byte f.d.length n out pre.length = .ok out') ↔
      UnitsInside f out.head pre.length us := by
  induction us generalizing pre out n with
  | nil =>
    cases n with
    | zero => cases hn
    | succ n =>
      have hend : f.d = pre := by simpa using hf
      rw [mpeg4Units, hend, if_neg (Nat.lt_irrefl _)]
      exact iff_of_true ⟨out, rfl⟩ trivial
  | cons u us ih =>
    cases n with
    | zero => cases hn
    | succ n =>
      obtain ⟨hne, hcode, hbehind, hrest⟩ := cutUnits_first hus
      rw [List.flatten_cons] at hf
      have hpos := List.length_pos_of_ne_nil hne
      have hlt : pre.length < f.d.length := by
        rw [hf, List.length_append, List.length_append]
        omega
      have hbytes := bytes_slice f.holds_byte hf
      have hlen := unitLength_next f.holds_byte hf hne hcode hbehind
      rw [UnitsInside, UnitInside]
      by_cases hinside : pre.length + 3 < f.d.length
      swap
      · refine iff_of_false ?_ fun h => hinside h.1.1
        rintro ⟨out', h⟩
        rw [mpeg4Units_succ out n hlt, hlen, ok_bind, parseMpeg4Frame_eq] at h
        obtain ⟨r, hr, -⟩ := bind_eq_ok.1 h
        obtain ⟨code, hget, -⟩ := bind_eq_ok.1 hr
        exact get32_byte_fault hinside ⟨code, hget⟩
      rw [mpeg4Units_unit hlt hlen (get32_byte hinside), ← parseUnit_ok_iff hbytes]
      generalize hkind : mpeg4Unit (f.startCode pre.length) = kind
      rcases hunit : parseUnit f.byte out pre.length u.length kind with e | out₁
      · refine iff_of_false ?_ ?_
        · rintro ⟨_, h⟩
          cases h
        · rintro ⟨⟨_, _, h⟩, _⟩
          cases h
      · have hf' : f.d = (pre ++ u) ++ us.flatten := by rw [hf, List.append_assoc]
        have hnext := @ih out₁ n (pre ++ u) hf' hrest (Nat.lt_of_succ_lt_succ hn)
        rw [parseUnit_collects hbytes hunit, List.length_append] at hnext
        rw [ok_bind, hnext]
        exact ⟨fun h => ⟨⟨hinside, out₁, rfl⟩, h⟩, fun h => h.2⟩

/-- The elements lie in the frame. -/
theorem mpeg4Units_iov (hmem : mem.Holds f)
    (h : mpeg4Units mem f.d.length n out start = .ok out')
    (hiov : ∀ e ∈ out.iov, e.base + e.len ≤ f.d.length) :
    ∀ e ∈ out'.iov, e.base + e.len ≤ f.d.length := by
  induction n generalizing out start with
  | zero => cases h
  | succ n ih =>
    by_cases hstart : start < f.d.length
    · rw [mpeg4Units_succ out n hstart] at h
      obtain ⟨len, hlen, h⟩ := bind_eq_ok.1 h
      obtain ⟨⟨out₁, ret⟩, hparse, h⟩ := bind_eq_ok.1 h
      obtain ⟨-, hin⟩ := unitLength_bounds hstart hlen
      refine ih h fun e he => ?_
      rw [parseMpeg4Frame_eq] at hparse
      obtain ⟨code, -, hparse⟩ := bind_eq_ok.1 hparse
      obtain ⟨out₂, hunit, hparse⟩ := bind_eq_ok.1 hparse
      obtain ⟨rfl, -⟩ := Prod.mk.inj (Except.ok.inj hparse)
      rcases parseUnit_iov (hmem.bytes hin) hunit e he with hold | rfl
      · exact hiov e hold
      · exact hin
    · rw [mpeg4Units, if_neg hstart] at h
      obtain rfl := Except.ok.inj h
      exact hiov

/-- There are no more units than bytes. -/
theorem length_cutUnits_le (bs : Bytes) : (cutUnits bs).length ≤ bs.length := by
  induction bs with
  | nil => exact Nat.le_refl _
  | cons b bs ih =>
    rw [cutUnits]
    rcases hcut : cutUnits bs with _ | ⟨u, us⟩
    · simp
    · rw [hcut] at ih
      dsimp only
      split_ifs
      · simpa using ih
      · rw [List.length_cons] at ih ⊢
        exact Nat.le_succ_of_le ih

end Units

/-- **Reading MPEG-4 frames.** A frame is read inside exactly if its units are: their start codes and
what is looked at of their headers. -/
theorem mpeg4Inside_iff (f : MediaFrame) (out : RtpMpeg4) :
    Mpeg4Inside f out ↔ UnitsInside f out.head 0 (cutUnits f.d) := by
  have hhead : (out.newFrame f).head = out.head := rfl
  have hflatten := flatten_cutUnits f.d
  have hunits : (∃ out', mpeg4Units f.byte f.d.length (f.d.length + 1) (out.newFrame f) 0 =
      .ok out') ↔ UnitsInside f (out.newFrame f).head 0 (cutUnits f.d) :=
    mpeg4Units_ok_iff [] hflatten.symm (by rw [hflatten])
      (Nat.lt_succ_of_le (length_cutUnits_le f.d))
  rw [← hhead, ← hunits]
  constructor
  · rintro ⟨r, hr, -⟩
    obtain ⟨out', hloop, -⟩ := bind_eq_ok.1 hr
    exact ⟨out', hloop⟩
  · rintro ⟨out', hloop⟩
    refine ⟨(out', if out'.initDone then 1 else 0), bind_eq_ok.2 ⟨out', hloop, rfl⟩, ?_⟩
    refine mpeg4Units_iov f.holds_byte hloop fun e he => ?_
    cases he

end Spook
