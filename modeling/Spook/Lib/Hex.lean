import Spook.Lib.CString

set_option relaxedAutoImplicit false
set_option autoImplicit false

/-!
# Hexadecimal text

Bytes printed with `%02X`, and read back.

## Main definitions

* `hexDump` — what `%02X` prints of some bytes.
* `hexRead` — the bytes that a text of hexadecimal digits stands for.

## Main results

* `hexRead_hexDump` — what is printed can be read.
-/

/-- A digit that `%X` prints. -/
def upperDigit (n : ℕ) : UInt8 := UInt8.ofNat (if n < 10 then 48 + n else 55 + n)

/-- `%02X` of some bytes, one after the other. -/
def hexDump (b : Bytes) : Bytes :=
  b.flatMap fun x => [upperDigit (x.toNat / 16), upperDigit (x.toNat % 16)]

/-- The value of a hexadecimal digit. -/
def digitOf (c : UInt8) : Option ℕ :=
  if 48 ≤ c ∧ c ≤ 57 then some (c.toNat - 48)
  else if 65 ≤ c ∧ c ≤ 70 then some (c.toNat - 55)
  else if 97 ≤ c ∧ c ≤ 102 then some (c.toNat - 87)
  else none

/-- The bytes that the pairs of digits of a text stand for. -/
def hexRead : Bytes → Option Bytes
  | [] => some []
  | [_] => none
  | h :: l :: rest =>
    match digitOf h, digitOf l with
    | some h, some l => (hexRead rest).map (UInt8.ofNat (16 * h + l) :: ·)
    | _, _ => none

/-- Two digits to a byte. -/
@[simp] theorem length_hexDump (b : Bytes) : (hexDump b).length = 2 * b.length := by
  induction b with
  | nil => rfl
  | cons x xs ih =>
    rw [hexDump, List.flatMap_cons, List.length_append, ← hexDump, ih]
    simp only [List.length_cons, List.length_nil]
    omega

/-- A printed digit has its value. -/
theorem digitOf_upperDigit {n : ℕ} (h : n < 16) : digitOf (upperDigit n) = some n := by
  revert n
  decide

/-- What is printed can be read. -/
theorem hexRead_hexDump (b : Bytes) : hexRead (hexDump b) = some b := by
  induction b with
  | nil => rfl
  | cons x xs ih =>
    have hx := x.toNat_lt
    have hsum : 16 * (x.toNat / 16) + x.toNat % 16 = x.toNat := Nat.div_add_mod _ _
    show hexRead (upperDigit (x.toNat / 16) :: upperDigit (x.toNat % 16) :: hexDump xs) = _
    rw [hexRead, digitOf_upperDigit (by omega), digitOf_upperDigit (by omega)]
    simp [ih, hsum]
