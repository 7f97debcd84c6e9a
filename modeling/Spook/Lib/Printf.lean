import Spook.Lib.CString
import Mathlib.Algebra.Order.Ring.Int
import Mathlib.Tactic.SplitIfs

set_option relaxedAutoImplicit false
set_option autoImplicit false

/-!
# Formatted text

What `printf` and its relatives make of a format and its arguments, for the conversions of integers
and strings, with their flags, widths, precisions and length modifiers. A format that the C language
leaves undefined, or an argument that is missing or of the wrong type, has no text.

## Main definitions

* `Printf.parse` — the pieces of a format.
* `Printf.render` — the text of the pieces with their arguments.
* `Printf.format` — both.
* `Printf.Plain` — the arguments and pieces that print neither a percent sign nor a NUL.

## Main results

* `Printf.parse_append`, `Printf.render_append` — formats one behind the other.
* `Printf.quiet_render_iff` — when a text has no percent sign and no NUL.
* `Printf.format_self_iff` — a text that is used as a format prints itself if and only if it has no
  percent sign.
-/

namespace Printf

/-! ## Formats -/

/-- A width or a precision: written in the format, or the next argument. -/
inductive Count
  | num (n : ℕ)
  | star

/-- A conversion specification. -/
structure Spec where
  flags : Bytes
  width : Count
  precision : Option Count
  length : Bytes
  conv : UInt8

/-- Specifications are read from here on. -/
def Spec.start : Spec := ⟨[], .num 0, none, [], 0⟩

/-- What was read last of a specification. -/
inductive Phase
  | start
  | flags
  | width
  | widthEnd
  | dot
  | precision
  | precisionEnd
  | length
  deriving DecidableEq

/-- A part of a format: a byte that stands for itself, `%%`, or a conversion. -/
inductive Piece
  | lit (c : UInt8)
  | percent
  | spec (s : Spec)

/-- Another digit of a number. -/
def Count.digit (c : UInt8) : Count → Count
  | .num n => .num (10 * n + (c.toNat - 48))
  | .star => .star

/-- The flags `-`, `+`, blank, `#` and `0`. -/
def isFlag (c : UInt8) : Bool := c == 45 || c == 43 || c == 32 || c == 35 || c == 48

/-- The length modifiers `h`, `l`, `z`, `t` and `j`. -/
def isLength (c : UInt8) : Bool := c == 104 || c == 108 || c == 122 || c == 116 || c == 106

/-- The conversions `d`, `i`, `u`, `x`, `X`, `o`, `c` and `s`. -/
def isConv (c : UInt8) : Bool :=
  c == 100 || c == 105 || c == 117 || c == 120 || c == 88 || c == 111 || c == 99 || c == 115

/-- The next byte of a specification, before the conversion. -/
def Spec.next (p : Phase) (s : Spec) (c : UInt8) : Option (Phase × Spec) :=
  let digit := 48 ≤ c ∧ c ≤ 57
  let first := p = .start ∨ p = .flags
  if first ∧ isFlag c then some (.flags, { s with flags := s.flags ++ [c] })
  else if (first ∨ p = .width) ∧ digit then some (.width, { s with width := s.width.digit c })
  else if first ∧ c = 42 then some (.widthEnd, { s with width := .star })
  else if (first ∨ p = .width ∨ p = .widthEnd) ∧ c = 46 then
    some (.dot, { s with precision := some (.num 0) })
  else if (p = .dot ∨ p = .precision) ∧ digit then
    some (.precision, { s with precision := s.precision.map (·.digit c) })
  else if p = .dot ∧ c = 42 then some (.precisionEnd, { s with precision := some .star })
  else if isLength c then some (.length, { s with length := s.length ++ [c] })
  else none

/-- The pieces of the rest of a format, behind what was read of a specification. -/
def parseFrom : Option (Phase × Spec) → Bytes → Option (List Piece)
  | none, [] => some []
  | some _, [] => none
  | none, c :: cs =>
    if c = 37 then parseFrom (some (.start, .start)) cs
    else (parseFrom none cs).map (.lit c :: ·)
  | some (p, s), c :: cs =>
    if p = .start ∧ c = 37 then (parseFrom none cs).map (.percent :: ·)
    else if isConv c then (parseFrom none cs).map (.spec { s with conv := c } :: ·)
    else match s.next p c with
      | some st => parseFrom (some st) cs
      | none => none

/-- The pieces of a format. -/
def parse (fmt : Bytes) : Option (List Piece) := parseFrom none fmt

/-! ## Text -/

/-- An argument: an integer, or the address of a string. -/
inductive Arg
  | int (v : ℤ)
  | str (b : Bytes)

/-- How the text of a conversion is laid out. -/
structure Layout where
  flags : Bytes
  width : ℕ
  precision : Option ℕ

/-- The value of a width or precision. -/
def Count.value : Count → List Arg → Option (ℤ × List Arg)
  | .num n, as => some (n, as)
  | .star, .int v :: as => some (v, as)
  | .star, _ => none

/-- The layout of a specification, and the arguments behind those for the width and the
precision. -/
def Spec.layout (s : Spec) (as : List Arg) : Option (Layout × List Arg) := do
  let (w, as) ← s.width.value as
  let flags := if w < 0 then s.flags ++ [45] else s.flags
  match s.precision with
  | none => some (⟨flags, w.natAbs, none⟩, as)
  | some p => do
    let (p, as) ← p.value as
    some (⟨flags, w.natAbs, if p < 0 then none else some p.natAbs⟩, as)

/-- The text with blanks. -/
def Layout.pad (l : Layout) (text : Bytes) : Bytes :=
  if l.flags.contains 45 then text ++ List.replicate (l.width - text.length) 32
  else List.replicate (l.width - text.length) 32 ++ text

/-- A number behind its sign, with zeros or blanks. -/
def Layout.number (l : Layout) (sign digits : Bytes) : Bytes :=
  match l.precision with
  | some p => l.pad (sign ++ (List.replicate (p - digits.length) 48 ++ digits))
  | none =>
    if l.flags.contains 48 && !l.flags.contains 45 then
      sign ++ (List.replicate (l.width - (sign ++ digits).length) 48 ++ digits)
    else l.pad (sign ++ digits)

/-- The digits of a number; none for zero with a precision of zero. -/
def Layout.digits (l : Layout) (base n : ℕ) : Bytes :=
  if n = 0 ∧ l.precision = some 0 then []
  else (Nat.toDigits base n).map fun d => UInt8.ofNat d.toNat

/-- The sign of a number. -/
def Layout.sign (l : Layout) (v : ℤ) : Bytes :=
  if v < 0 then [45]
  else if l.flags.contains 43 then [43]
  else if l.flags.contains 32 then [32]
  else []

/-- Letters in upper case. -/
def upper (b : Bytes) : Bytes := b.map fun c => if 97 ≤ c ∧ c ≤ 122 then c - 32 else c

/-- The bits of an integer with a length modifier, where `int` and `long` have 32. -/
def bits (length : Bytes) : Option ℕ :=
  if length = [] ∨ length = [108] ∨ length = [122] ∨ length = [116] then some 32
  else if length = [108, 108] ∨ length = [106] then some 64
  else if length = [104] then some 16
  else if length = [104, 104] then some 8
  else none

/-- The zero that `#` puts before octal digits, unless one stands there or the precision puts it there. -/
def Layout.octalZero (l : Layout) (digits : Bytes) : Bytes :=
  if l.flags.contains 35 ∧ digits.head? ≠ some 48 ∧ l.precision.getD 0 ≤ digits.length then [48]
  else []

/-- An integer of `n` bits. -/
def Layout.integer (l : Layout) (conv : UInt8) (n : ℕ) (v : ℤ) : Option Bytes :=
  let signed := Int.bmod v (2 ^ n)
  let u := (v % 2 ^ n).toNat
  let alt := l.flags.contains 35 && u != 0
  if conv = 100 ∨ conv = 105 then some (l.number (l.sign signed) (l.digits 10 signed.natAbs))
  else if conv = 117 then some (l.number [] (l.digits 10 u))
  else if conv = 120 then some (l.number (if alt then [48, 120] else []) (l.digits 16 u))
  else if conv = 88 then some (l.number (if alt then [48, 88] else []) (upper (l.digits 16 u)))
  else if conv = 111 then some (l.number (l.octalZero (l.digits 8 u)) (l.digits 8 u))
  else none

/-- The string that a conversion prints. -/
def Layout.string (l : Layout) (b : Bytes) : Bytes :=
  match l.precision with
  | none => cstr b
  | some p => (cstr b).take p

/-- The text of a conversion. -/
def Spec.convert (s : Spec) (l : Layout) : Arg → Option Bytes
  | .str b => if s.conv = 115 ∧ s.length = [] then some (l.pad (l.string b)) else none
  | .int v =>
    if s.conv = 99 ∧ s.length = [] then some (l.pad [UInt8.ofNat (v % 256).toNat])
    else (bits s.length).bind fun n => l.integer s.conv n v

/-- The text of pieces with their arguments. -/
def render : List Piece → List Arg → Option Bytes
  | [], _ => some []
  | .lit c :: ps, as => (render ps as).map (c :: ·)
  | .percent :: ps, as => (render ps as).map (37 :: ·)
  | .spec s :: ps, as =>
    match s.layout as with
    | some (l, a :: as) => (s.convert l a).bind fun t => (render ps as).map (t ++ ·)
    | some (_, []) | none => none

/-- The text of a format with its arguments. -/
def format (fmt : Bytes) (as : List Arg) : Option Bytes := (parse fmt).bind fun ps => render ps as

/-- `%d` without flags. -/
theorem integer_plain (n : ℕ) (v : ℤ) :
    Layout.integer ⟨[], 0, none⟩ 100 n v = some (decimalInt (Int.bmod v (2 ^ n))) := by
  have hsome : Layout.integer ⟨[], 0, none⟩ 100 n v =
      some (Layout.number ⟨[], 0, none⟩ (Layout.sign ⟨[], 0, none⟩ (Int.bmod v (2 ^ n)))
        (Layout.digits ⟨[], 0, none⟩ 10 (Int.bmod v (2 ^ n)).natAbs)) := rfl
  rw [hsome]
  generalize Int.bmod v (2 ^ n) = x
  have hdigits : Layout.digits ⟨[], 0, none⟩ 10 x.natAbs = decimal x.natAbs :=
    if_neg fun h => nomatch h.2
  rw [hdigits]
  by_cases hneg : x < 0
  · simp [Layout.number, Layout.sign, Layout.pad, decimalInt, hneg]
  · simp [Layout.number, Layout.sign, Layout.pad, decimalInt, hneg]

/-! ## One behind the other -/

section Append

variable {st : Option (Phase × Spec)} {a b t : Bytes} {ps qs : List Piece} {as : List Arg}

/-- **Formats one behind the other**, the first of which is complete. -/
theorem parseFrom_append (h : parseFrom st a = some ps) (b : Bytes) :
    parseFrom st (a ++ b) = (parse b).map (ps ++ ·) := by
  induction a generalizing st ps with
  | nil =>
    cases st with
    | none =>
      obtain rfl := Option.some.inj h
      rw [List.nil_append]
      cases hb : parse b with
      | none => exact hb
      | some qs => exact hb
    | some st => cases h
  | cons c a ih =>
    have hmap : ∀ p : Piece, ∀ {ps : List Piece}, (parseFrom none a).map (p :: ·) = some ps →
        (parseFrom none (a ++ b)).map (p :: ·) = (parse b).map (ps ++ ·) := by
      intro p ps h
      obtain ⟨qs, hqs, rfl⟩ := Option.map_eq_some_iff.1 h
      rw [ih hqs, Option.map_map]
      rfl
    rw [List.cons_append]
    cases st with
    | none =>
      by_cases hc : c = 37
      · rw [parseFrom, if_pos hc] at h ⊢
        exact ih h
      · rw [parseFrom, if_neg hc] at h ⊢
        exact hmap _ h
    | some st =>
      obtain ⟨p, s⟩ := st
      rw [parseFrom] at h ⊢
      by_cases hp : p = .start ∧ c = 37
      · rw [if_pos hp] at h ⊢
        exact hmap _ h
      rw [if_neg hp] at h ⊢
      by_cases hc : isConv c = true
      · rw [if_pos hc] at h ⊢
        exact hmap _ h
      rw [if_neg hc] at h ⊢
      cases hnext : s.next p c with
      | none =>
        rw [hnext] at h
        cases h
      | some st =>
        rw [hnext] at h
        exact ih h

/-- A format that consists of two. -/
theorem parse_append (h : parse a = some ps) (b : Bytes) :
    parse (a ++ b) = (parse b).map (ps ++ ·) :=
  parseFrom_append h b

/-- A text without percent signs consists of bytes that stand for themselves. -/
theorem parse_of_not_mem (h : (37 : UInt8) ∉ a) : parse a = some (a.map .lit) := by
  induction a with
  | nil => rfl
  | cons c a ih =>
    rw [List.mem_cons, not_or] at h
    have hc : ¬ c = 37 := fun heq => h.1 heq.symm
    have ih := ih h.2
    rw [parse] at ih
    rw [parse, parseFrom, if_neg hc, ih]
    rfl

/-- Plain text in front of a format. -/
theorem render_lit (a : Bytes) (ps : List Piece) (as : List Arg) :
    render (a.map .lit ++ ps) as = (render ps as).map (a ++ ·) := by
  induction a with
  | nil =>
    cases h : render ps as with
    | none => exact h
    | some t => exact h
  | cons c a ih =>
    rw [List.map_cons, List.cons_append, render, ih, Option.map_map]
    rfl

/-- Bytes that stand for themselves behind pieces with all their arguments. -/
theorem render_append (h : render ps as = some t) (b : Bytes) :
    render (ps ++ b.map .lit) as = some (t ++ b) := by
  induction ps generalizing as t with
  | nil =>
    obtain rfl := Option.some.inj h
    have hlit := render_lit b [] as
    rw [List.append_nil] at hlit
    rw [List.nil_append, hlit]
    simp [render]
  | cons p ps ih =>
    rw [List.cons_append]
    cases p with
    | lit c | percent =>
      rw [render] at h ⊢
      obtain ⟨u, hu, rfl⟩ := Option.map_eq_some_iff.1 h
      rw [ih hu]
      rfl
    | spec s =>
      rw [render] at h ⊢
      split at h
      · obtain ⟨v, hv, h⟩ := Option.bind_eq_some_iff.1 h
        obtain ⟨u, hu, rfl⟩ := Option.map_eq_some_iff.1 h
        rw [hv, Option.bind_some, ih hu, Option.map_some, List.append_assoc]
      · cases h
      · cases h

end Append

/-! ## Texts without percent signs -/

/-- Neither percent signs nor NULs. -/
def Quiet (b : Bytes) : Prop := ∀ x ∈ b, x ≠ 37 ∧ x ≠ 0

/-- What a conversion prints has no percent sign and no NUL. -/
def Spec.Plain (s : Spec) (l : Layout) : Arg → Prop
  | .str b => (37 : UInt8) ∉ l.string b
  | .int v => s.conv = 99 → v % 256 ≠ 37 ∧ v % 256 ≠ 0

/-- No `%%` is there, no string with a percent sign is printed, and no character that is a percent
sign or a NUL. -/
def Plain : List Piece → List Arg → Prop
  | [], _ => True
  | .lit _ :: ps, as => Plain ps as
  | .percent :: _, _ => False
  | .spec s :: ps, as =>
    match s.layout as with
    | some (l, a :: as) => s.Plain l a ∧ Plain ps as
    | some (_, []) | none => True

section Quiet

variable {a b t : Bytes} {l : Layout} {s : Spec} {ps : List Piece} {as : List Arg} {c : UInt8}
  {base n : ℕ} {v : ℤ}

/-- No text. -/
@[simp] theorem quiet_nil : Quiet [] := fun _ hx => absurd hx List.not_mem_nil

/-- A character in front of a text. -/
@[simp] theorem quiet_cons : Quiet (c :: b) ↔ (c ≠ 37 ∧ c ≠ 0) ∧ Quiet b := List.forall_mem_cons

/-- A text behind a text. -/
@[simp] theorem quiet_append : Quiet (a ++ b) ↔ Quiet a ∧ Quiet b := List.forall_mem_append

/-- One character, many times. -/
theorem quiet_replicate (h : c ≠ 37 ∧ c ≠ 0) : Quiet (List.replicate n c) := by
  intro x hx
  rw [List.eq_of_mem_replicate hx]
  exact h

/-- Blanks do not matter. -/
@[simp] theorem quiet_pad : Quiet (l.pad t) ↔ Quiet t := by
  have hblanks : Quiet (List.replicate (l.width - t.length) 32) := quiet_replicate (by decide)
  unfold Layout.pad
  split_ifs
  · simp [hblanks]
  · simp [hblanks]

/-- A number with its sign and padding. -/
theorem quiet_number (ha : Quiet a) (hb : Quiet b) : Quiet (l.number a b) := by
  have hzeros : ∀ n, Quiet (List.replicate n 48) := fun n => quiet_replicate (by decide)
  unfold Layout.number
  cases l.precision with
  | some p => simp [ha, hb, hzeros]
  | none =>
    dsimp only
    split_ifs
    · simp [ha, hb, hzeros]
    · simp [ha, hb]

/-- The characters of a number. -/
theorem mem_toDigits (hbase : 1 < base) {c : Char} (hc : c ∈ Nat.toDigits base n) :
    ∃ k < base, c = Nat.digitChar k := by
  induction n using Nat.strongRecOn with
  | ind n ih =>
    by_cases hn : n < base
    · rw [Nat.toDigits_of_lt_base hn, List.mem_singleton] at hc
      exact ⟨n, hn, hc⟩
    · rw [Nat.toDigits_of_base_le hbase (Nat.le_of_not_lt hn), List.mem_append,
        List.mem_singleton] at hc
      rcases hc with hc | hc
      · exact ih _ (Nat.div_lt_self (by omega) hbase) hc
      · exact ⟨n % base, Nat.mod_lt _ (by omega), hc⟩

/-- The digits of a number. -/
theorem quiet_digits (hbase : 1 < base) (hle : base ≤ 16) : Quiet (l.digits base n) := by
  have hdigit : ∀ k < 16, UInt8.ofNat (Nat.digitChar k).toNat ≠ 37 ∧
      UInt8.ofNat (Nat.digitChar k).toNat ≠ 0 := by decide
  unfold Layout.digits
  split_ifs
  · exact quiet_nil
  · intro x hx
    obtain ⟨d, hd, rfl⟩ := List.mem_map.1 hx
    obtain ⟨k, hk, rfl⟩ := mem_toDigits hbase hd
    exact hdigit k (by omega)

/-- Capital letters in place of small ones. -/
theorem quiet_upper (hb : Quiet b) : Quiet (upper b) := by
  intro x hx
  obtain ⟨c, hc, rfl⟩ := List.mem_map.1 hx
  split_ifs with hletter
  · rw [UInt8.le_iff_toNat_le, UInt8.le_iff_toNat_le] at hletter
    have hlow : 97 ≤ c.toNat := hletter.1
    have hhigh : c.toNat ≤ 122 := hletter.2
    have hsub : (c - 32).toNat = c.toNat - 32 :=
      UInt8.toNat_sub_of_le _ _ (UInt8.le_iff_toNat_le.2 (show 32 ≤ c.toNat by omega))
    constructor
    · intro heq
      rw [heq] at hsub
      have hvalue : (37 : UInt8).toNat = 37 := rfl
      omega
    · intro heq
      rw [heq] at hsub
      have hvalue : (0 : UInt8).toNat = 0 := rfl
      omega
  · exact hb c hc

/-- A printed integer. -/
theorem quiet_integer (h : l.integer c n v = some t) : Quiet t := by
  have hsign : Quiet (l.sign (Int.bmod v (2 ^ n))) := by
    unfold Layout.sign
    split_ifs <;> simp
  have hdec : ∀ n, Quiet (l.digits 10 n) := fun n => quiet_digits (by decide) (by decide)
  have hhex : ∀ n, Quiet (l.digits 16 n) := fun n => quiet_digits (by decide) (by decide)
  have hoct : ∀ n, Quiet (l.digits 8 n) := fun n => quiet_digits (by decide) (by decide)
  have halt : ∀ (p : Bool) {b : Bytes}, Quiet b → Quiet (if p then b else []) := by
    intro p b hb
    split_ifs
    · exact hb
    · exact quiet_nil
  unfold Layout.integer at h
  dsimp only at h
  split at h
  · obtain rfl := Option.some.inj h
    exact quiet_number hsign (hdec _)
  · split at h
    · obtain rfl := Option.some.inj h
      exact quiet_number quiet_nil (hdec _)
    · split at h
      · obtain rfl := Option.some.inj h
        exact quiet_number (halt _ (by simp)) (hhex _)
      · split at h
        · obtain rfl := Option.some.inj h
          exact quiet_number (halt _ (by simp)) (quiet_upper (hhex _))
        · split at h
          · obtain rfl := Option.some.inj h
            refine quiet_number ?_ (hoct _)
            unfold Layout.octalZero
            split_ifs <;> simp
          · cases h

/-- A printed string has no NUL. -/
theorem quiet_string_iff : Quiet (l.string b) ↔ (37 : UInt8) ∉ l.string b := by
  have hnul : NulFree (l.string b) := by
    unfold Layout.string
    cases l.precision with
    | none => exact cstr_nulFree b
    | some p => exact fun x hx => cstr_nulFree b x (List.mem_of_mem_take hx)
  constructor
  · intro h hmem
    exact (h 37 hmem).1 rfl
  · intro h x hx
    exact ⟨fun heq => h (heq ▸ hx), hnul x hx⟩

/-- A printed character. -/
theorem quiet_char_iff :
    Quiet [UInt8.ofNat (v % 256).toNat] ↔ v % 256 ≠ 37 ∧ v % 256 ≠ 0 := by
  have hlt : (v % 256).toNat < 256 := by omega
  have hvalue : (UInt8.ofNat (v % 256).toNat).toNat = (v % 256).toNat := by
    rw [UInt8.toNat_ofNat', Nat.mod_eq_of_lt hlt]
  have hne : ∀ d : ℕ, d < 256 → (UInt8.ofNat (v % 256).toNat ≠ UInt8.ofNat d ↔ v % 256 ≠ d) := by
    intro d hd
    rw [Ne, ← UInt8.toNat_inj, hvalue, UInt8.toNat_ofNat', Nat.mod_eq_of_lt hd]
    omega
  simp only [quiet_cons, quiet_nil, and_true]
  exact and_congr (hne 37 (by decide)) (hne 0 (by decide))

/-- Which arguments print percent signs. -/
theorem quiet_convert_iff {a : Arg} (h : s.convert l a = some t) : Quiet t ↔ s.Plain l a := by
  cases a with
  | str b =>
    rw [Spec.convert] at h
    split_ifs at h
    obtain rfl := Option.some.inj h
    rw [quiet_pad]
    exact quiet_string_iff
  | int v =>
    rw [Spec.convert] at h
    split_ifs at h with hchar
    · obtain rfl := Option.some.inj h
      rw [quiet_pad, quiet_char_iff]
      exact ⟨fun hv _ => hv, fun hv => hv hchar.1⟩
    · obtain ⟨n, -, h⟩ := Option.bind_eq_some_iff.1 h
      refine iff_of_true (quiet_integer h) fun hconv => ?_
      -- an integer is not printed by `c`
      rw [hconv] at h
      cases h

/-- **When a text is quiet.** Only what is printed of the arguments counts, if the bytes that stand
for themselves are quiet. -/
theorem quiet_render_iff (h : render ps as = some t)
    (hlit : ∀ c, .lit c ∈ ps → c ≠ 37 ∧ c ≠ 0) : Quiet t ↔ Plain ps as := by
  induction ps generalizing as t with
  | nil =>
    obtain rfl := Option.some.inj h
    exact iff_of_true quiet_nil trivial
  | cons p ps ih =>
    have hlit' : ∀ c, .lit c ∈ ps → c ≠ 37 ∧ c ≠ 0 :=
      fun c hc => hlit c (List.mem_cons_of_mem p hc)
    rw [render.eq_def] at h
    cases p with
    | lit c =>
      obtain ⟨u, hu, rfl⟩ := Option.map_eq_some_iff.1 h
      rw [quiet_cons, and_iff_right (hlit c List.mem_cons_self)]
      exact ih hu hlit'
    | percent =>
      obtain ⟨u, hu, rfl⟩ := Option.map_eq_some_iff.1 h
      refine iff_of_false (fun hquiet => ?_) id
      exact (hquiet 37 List.mem_cons_self).1 rfl
    | spec s =>
      dsimp only at h
      rw [Plain]
      split at h
      · rename_i l a as hlayout
        obtain ⟨v, hv, h⟩ := Option.bind_eq_some_iff.1 h
        obtain ⟨u, hu, rfl⟩ := Option.map_eq_some_iff.1 h
        rw [quiet_append]
        exact and_congr (quiet_convert_iff hv) (ih hu hlit')
      · cases h
      · cases h

/-- The bytes of a format that stand for themselves. -/
theorem lit_of_parseFrom {st : Option (Phase × Spec)} (h : parseFrom st a = some ps)
    (hc : .lit c ∈ ps) : c ≠ 37 ∧ c ∈ a := by
  induction a generalizing st ps with
  | nil =>
    cases st with
    | none =>
      obtain rfl := Option.some.inj h
      cases hc
    | some st => cases h
  | cons x a ih =>
    have hrest : ∀ p : Piece, p ≠ .lit c → (parseFrom none a).map (p :: ·) = some ps →
        c ≠ 37 ∧ c ∈ x :: a := by
      intro p hp h
      obtain ⟨qs, hqs, rfl⟩ := Option.map_eq_some_iff.1 h
      have hmem := (List.mem_cons.1 hc).resolve_left hp.symm
      exact ⟨(ih hqs hmem).1, List.mem_cons_of_mem x (ih hqs hmem).2⟩
    rw [parseFrom.eq_def] at h
    cases st with
    | none =>
      dsimp only at h
      split_ifs at h with hx
      · exact ⟨(ih h hc).1, List.mem_cons_of_mem x (ih h hc).2⟩
      · by_cases heq : x = c
        · subst heq
          exact ⟨hx, List.mem_cons_self⟩
        · exact hrest (.lit x) (fun hp => heq (Piece.lit.inj hp)) h
    | some st =>
      obtain ⟨p, s⟩ := st
      dsimp only at h
      split_ifs at h
      · exact hrest .percent nofun h
      · exact hrest (.spec { s with conv := x }) nofun h
      · split at h
        · exact ⟨(ih h hc).1, List.mem_cons_of_mem x (ih h hc).2⟩
        · cases h

end Quiet

/-! ## A text as a format -/

section Self

variable {a t : Bytes} {ps : List Piece}

/-- Without arguments there are no conversions. -/
theorem layout_nil {s : Spec} {l : Layout} {as : List Arg} (h : s.layout [] = some (l, as)) :
    as = [] := by
  have hvalue : ∀ c : Count, ∀ {v as}, c.value [] = some (v, as) → as = [] := by
    intro c v as hc
    cases c with
    | num n => exact (Prod.mk.inj (Option.some.inj hc)).2.symm
    | star => cases hc
  obtain ⟨⟨w, as₁⟩, hw, h⟩ := Option.bind_eq_some_iff.1 h
  obtain rfl := hvalue _ hw
  dsimp only at h
  split at h
  · exact (Prod.mk.inj (Option.some.inj h)).2.symm
  · obtain ⟨⟨p, as₂⟩, hp, h⟩ := Option.bind_eq_some_iff.1 h
    obtain rfl := hvalue _ hp
    exact (Prod.mk.inj (Option.some.inj h)).2.symm

/-- Without arguments a text is not longer than its format, and shorter if there is a percent
sign. -/
theorem length_render_nil {st : Option (Phase × Spec)} (h : parseFrom st a = some ps)
    (ht : render ps [] = some t) :
    t.length ≤ a.length ∧ (st = none → t.length = a.length → (37 : UInt8) ∉ a) := by
  induction a generalizing st ps t with
  | nil =>
    cases st with
    | none =>
      obtain rfl := Option.some.inj h
      obtain rfl := Option.some.inj ht
      exact ⟨le_rfl, fun _ _ => List.not_mem_nil⟩
    | some st => cases h
  | cons c a ih =>
    rw [parseFrom.eq_def] at h
    rw [List.length_cons]
    cases st with
    | none =>
      dsimp only at h
      split_ifs at h with hc
      · have hle := (ih h ht).1
        refine ⟨by omega, fun _ heq => ?_⟩
        omega
      · obtain ⟨qs, hqs, rfl⟩ := Option.map_eq_some_iff.1 h
        obtain ⟨u, hu, rfl⟩ := Option.map_eq_some_iff.1 ht
        obtain ⟨hle, hmem⟩ := ih hqs hu
        rw [List.length_cons]
        refine ⟨by omega, fun _ heq => ?_⟩
        rw [List.mem_cons, not_or]
        exact ⟨fun h => hc h.symm, hmem rfl (by omega)⟩
    | some st =>
      obtain ⟨p, s⟩ := st
      refine ⟨?_, nofun⟩
      dsimp only at h
      split_ifs at h
      · obtain ⟨qs, hqs, rfl⟩ := Option.map_eq_some_iff.1 h
        obtain ⟨u, hu, rfl⟩ := Option.map_eq_some_iff.1 ht
        have hle := (ih hqs hu).1
        rw [List.length_cons]
        omega
      · -- a conversion has no argument
        obtain ⟨qs, hqs, rfl⟩ := Option.map_eq_some_iff.1 h
        rw [render] at ht
        split at ht
        · rename_i hlayout
          cases layout_nil hlayout
        · cases ht
        · cases ht
      · split at h
        · have hle := (ih h ht).1
          omega
        · cases h

/-- **A text as a format**, without arguments, prints itself if and only if it is quiet. -/
theorem format_self_iff (a : Bytes) : format (cstr a) [] = some a ↔ Quiet a := by
  constructor
  · intro h
    obtain ⟨ps, hps, hrender⟩ := Option.bind_eq_some_iff.1 h
    obtain ⟨hle, hmem⟩ := length_render_nil hps hrender
    have hcstr : cstr a = a := (cstr_begins a).eq_of_length_le hle
    have hnul := cstr_nulFree a
    rw [hcstr] at hmem hnul
    exact fun x hx => ⟨fun heq => hmem rfl rfl (heq ▸ hx), hnul x hx⟩
  · intro h
    have hcstr : cstr a = a := cstr_of_nulFree fun x hx => (h x hx).2
    have hparse := parse_of_not_mem fun hmem => (h 37 hmem).1 rfl
    have hlit := render_lit a [] []
    rw [List.append_nil] at hlit
    rw [hcstr, format, hparse, Option.bind_some, hlit]
    simp [render]

end Self

end Printf
