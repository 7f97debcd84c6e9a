import Mathlib.Data.Nat.Digits.Defs
import Mathlib.Data.Nat.Digits.Lemmas
import Mathlib.Tactic.IntervalCases
import Spook.Pmsg.Build
import Spook.Tcp.Conn

set_option relaxedAutoImplicit false
set_option autoImplicit false

/-!
# Digest authentication

`http-auth.c`. MD5 is any function into 16 bytes. The nonces carry the time at which they were made,
as eight hexadecimal digits that `get_hex_u32` reads back.

## Main definitions

* `Spook.createNonce`, `createResponse`, `parseAuthHeader`, `checkDigestResponse` — the functions
  of the same names.
* `Spook.getHexU32` — the hexadecimal decoder.
* `Spook.DigitsKept` — the numbers that the decoder gives back.

## Main results

* `Spook.getHexU32_digits` — what the decoder makes of eight digits.
* `Spook.nonce_fresh_iff` — which nonces live for 15 seconds.
-/

namespace Spook

/-! ## The functions of the source -/

/-- `struct digest_auth_info`. -/
structure DigestAuthInfo where
  realm : Bytes
  uri : Bytes
  nonce : Bytes
  opaqueStr : Bytes
  username : Bytes
  response : Bytes
  deriving DecidableEq

/-- `MD5Init`, `MD5Update` of a text and `MD5Final`. -/
abbrev Md5 := Bytes → Fin 16 → UInt8

/-- A digit of `%x`. -/
def hexDigit (n : ℕ) : UInt8 := UInt8.ofNat (if n < 10 then 48 + n else 87 + n)

/-- `%02x` of each of the bytes. -/
def hexText (b : Bytes) : Bytes := b.flatMap fun x => [hexDigit (x.toNat / 16), hexDigit (x.toNat % 16)]

/-- `PUT_32`. -/
def put32 (v : ℕ) : Bytes :=
  [UInt8.ofNat (v / 2 ^ 24), UInt8.ofNat (v / 2 ^ 16), UInt8.ofNat (v / 2 ^ 8), UInt8.ofNat v]

section Digest

variable (md5 : Md5)

/-- `md5_hash`. -/
def md5Hash (v : List Bytes) : Bytes := hexText (List.ofFn (md5 ([COLON].intercalate v)))

/-- `create_nonce` at the time `now`, with the random bytes that it gets. -/
def createNonce (secret : Bytes) (now : ℕ) (random : Fin 12 → UInt8) : Bytes :=
  let token := hexText (put32 now ++ List.ofFn random)
  token ++ md5Hash md5 [token, secret]

/-- `create_response`. -/
def createResponse (auth : DigestAuthInfo) (method password : Bytes) : Bytes :=
  let ha1 := md5Hash md5 [auth.username, auth.realm, password]
  let ha2 := md5Hash md5 [method, auth.uri]
  md5Hash md5 [ha1, auth.nonce, ha2]

/-- What `parse_auth_header` does with the directive that starts at `n` and whose value is the first
`len` bytes at `v`. -/
def storeDirective (auth : DigestAuthInfo) (n v : Bytes) (len : ℕ) : Option DigestAuthInfo :=
  let value := v.take len
  if strnCaseEq n (str "realm=") 6 then
    if len ≥ 128 then none else some { auth with realm := value }
  else if strnCaseEq n (str "uri=") 4 then
    if len ≥ 512 then none else some { auth with uri := value }
  else if strnCaseEq n (str "nonce=") 6 then
    if len ≥ 128 then none else some { auth with nonce := value }
  else if strnCaseEq n (str "opaque=") 7 then
    if len ≥ 128 then none else some { auth with opaqueStr := value }
  else if strnCaseEq n (str "username=") 9 then
    if len ≥ 128 then none else some { auth with username := value }
  else if strnCaseEq n (str "response=") 9 then
    if len ≥ 33 then none else some { auth with response := value }
  else if strnCaseEq n (str "algorithm=") 10 then
    -- If this is included, just make sure it is "MD5"
    if strnCaseEq v (str "md5") 3 then some auth else none
  else some auth

/-- Where the value behind the `=` at `v` begins and how long it is. -/
def directiveValue (v : Bytes) : Option (Bytes × ℕ) :=
  if v.head? = some 34 then (strchr 34 v.tail).map fun len => (v.tail, len)
  else some (v, (v.takeWhile fun b => b ≠ 44 && b ≠ SP).length)

/-- The loop of `parse_auth_header` from `n` on, the first argument bounding its iterations. -/
def parseDirectives : ℕ → Bytes → DigestAuthInfo → Except Fault (Option DigestAuthInfo)
  | _, [], auth => .ok (some auth)
  | 0, _ :: _, _ => .error .loop
  | fuel + 1, n, auth =>
    match strchr 61 n with
    | none => .ok none
    | some k =>
      if n.drop (k + 1) = [] then .ok none
      else
        match directiveValue (n.drop (k + 1)) with
        | none => .ok none
        | some (v, len) =>
          match storeDirective auth n v len with
          | none => .ok none
          | some auth =>
            parseDirectives fuel ((v.drop len).dropWhile fun b => b = 34 || b = 44 || b = SP) auth

/-- `parse_auth_header`: what it found, or `none` for `return -1`. -/
def parseAuthHeader (header : Bytes) : Except Fault (Option DigestAuthInfo) :=
  if strnCaseEq header (str "digest ") 7 then
    parseDirectives header.length (header.drop 7)
      { realm := [], uri := [], nonce := [], opaqueStr := [], username := [], response := [] }
  else .ok none

/-- The number of a hexadecimal digit, as `get_hex_u32` sees it. -/
def hexValue (c : UInt8) : Option ℕ :=
  if 48 ≤ c ∧ c ≤ 57 then some (c.toNat - 0)
  else if 65 ≤ c ∧ c ≤ 70 then some (c.toNat - 65 + 10)
  else if 97 ≤ c ∧ c ≤ 102 then some (c.toNat - 97 + 10)
  else none

/-- The loop of `get_hex_u32` over the characters that are left, on an `unsigned int`. -/
def hexLoop : Bytes → ℕ → ℕ
  | [], val => val
  | c :: hex, val =>
    match hexValue c with
    | some x => hexLoop hex ((val * 16 % 2 ^ 32) ||| x)
    | none => val

/-- `get_hex_u32`. -/
def getHexU32 (hex : Bytes) : ℕ := hexLoop (hex.take 8) 0

/-- The URI that the response is about, or `none` when it is too long. -/
def digestUri (auth : DigestAuthInfo) (m : Pmsg) : Except Fault (Option Bytes) := do
  -- The client may or may not have included the digest-uri directive
  if auth.uri = [] then
    let uri ← m.uri
    return if uri.length ≥ 512 then none else some uri
  else return some auth.uri

/-- `check_digest_response` at the time `now`, with the secret if one was created. -/
def checkDigestResponse (secret : Option Bytes) (now : ℕ) (m : Pmsg)
    (realm username password : Bytes) : Except Fault ℤ := do
  match ← m.getHeader (str "authorization") with
  | none => return -1
  | some hdr =>
    match ← parseAuthHeader hdr with
    | none => return -1
    | some auth =>
      -- Case-sensitive realm (should just be parroted back by the client)
      if auth.realm ≠ realm then return -1
      -- Case-insensitive usernames
      else if ¬ strCaseEq auth.username username then return -1
      else
        match ← digestUri auth m with
        | none => return -1
        | some uri =>
          let method ← m.method
          if ¬ strCaseEq auth.response (createResponse md5 { auth with uri } method password) then
            return -1
          else
            match secret with
            | none => return 0
            | some secret =>
              if auth.nonce.length ≠ 64 then return 0
              -- Check that the nonce validates against our secret
              else if auth.nonce.drop 32 ≠ md5Hash md5 [auth.nonce.take 32, secret] then return 0
              -- Check that the nonce is not more than 15 seconds old
              else if now > (getHexU32 (auth.nonce.take 32) + 15) % 2 ^ 32 then return 0
              else return 1

end Digest

/-! ## Hexadecimal digits -/

/-- The number with these digits, the first of them the highest. -/
def ofHexDigits (ds : List ℕ) : ℕ := Nat.ofDigits 16 ds.reverse

/-- The eight digits of a number. -/
def hexDigits (v : ℕ) : List ℕ := (List.range 8).map fun i => v / 16 ^ (7 - i) % 16

/-- What the character of a digit adds to the digit before it. -/
def smearOf (d : ℕ) : ℕ := if d < 10 then 3 else 0

/-- The digits as the decoder sees them. -/
def smear : List ℕ → List ℕ
  | d :: d' :: ds => (d ||| smearOf d') :: smear (d' :: ds)
  | ds => ds

/-- Every decimal digit but the first stands behind a digit whose two low bits are set. -/
def DigitsKept (v : ℕ) : Prop := (hexDigits v).IsChain fun d d' => d' < 10 → d % 4 = 3

instance (v : ℕ) : Decidable (DigitsKept v) := inferInstanceAs (Decidable (List.IsChain _ _))

section Hex

variable {d x : ℕ} {ds : List ℕ}

/-- No digits. -/
@[simp] theorem ofHexDigits_nil : ofHexDigits [] = 0 := rfl

/-- One digit in front. -/
@[simp] theorem ofHexDigits_cons (d : ℕ) (ds : List ℕ) :
    ofHexDigits (d :: ds) = d * 16 ^ ds.length + ofHexDigits ds := by
  unfold ofHexDigits
  rw [List.reverse_cons, Nat.ofDigits_append, Nat.ofDigits_singleton, List.length_reverse]
  ring

/-- What the decoder reads of a digit. -/
theorem hexValue_hexDigit (hd : d < 16) : hexValue (hexDigit d) = some (16 * smearOf d + d) := by
  revert hd
  revert d
  decide

/-- The decoder keeps to an `unsigned int`. -/
theorem hexLoop_lt (hex : Bytes) {val : ℕ} (h : val < 2 ^ 32) : hexLoop hex val < 2 ^ 32 := by
  induction hex generalizing val with
  | nil => exact h
  | cons c hex ih =>
    have hc : c.toNat < 256 := c.toNat_lt
    unfold hexLoop
    cases hx : hexValue c with
    | none => exact h
    | some x =>
      have hx' : x < 2 ^ 32 := by
        unfold hexValue at hx
        split_ifs at hx <;> cases hx <;> omega
      exact ih (Nat.or_lt_two_pow (Nat.mod_lt _ (by decide)) hx')

/-- A number with a digit behind it. -/
theorem add_digit_eq_lor (A : ℕ) (hd : d < 16) : A * 16 + d = A * 16 ||| d := by
  simpa only [Nat.shiftLeft_eq] using Nat.shiftLeft_add_eq_or_of_lt (show d < 2 ^ 4 from hd) A

/-- What a digit adds to the one before it has four bits. -/
theorem smearOf_lt (d : ℕ) : smearOf d < 16 := by
  unfold smearOf
  split_ifs <;> decide

/-- A digit shifted in behind the digit `x`. -/
theorem shift_lor (A : ℕ) (hx : x < 16) (hd : d < 16) :
    (16 * A + x) * 16 ||| (16 * smearOf d + d) = 16 * (16 * A + (x ||| smearOf d)) + d := by
  have hxs : x ||| smearOf d < 16 := Nat.or_lt_two_pow (n := 4) hx (smearOf_lt d)
  have hmul : ∀ a b : ℕ, a * 16 ||| b * 16 = (a ||| b) * 16 := by
    intro a b
    simpa only [Nat.shiftLeft_eq] using (Nat.shiftLeft_or_distrib (a := a) (b := b) (i := 4)).symm
  calc (16 * A + x) * 16 ||| (16 * smearOf d + d)
      = (A * 16 + x) * 16 ||| (smearOf d * 16 + d) := by simp only [Nat.mul_comm 16]
    _ = ((A * 16 + x) ||| smearOf d) * 16 ||| d := by
      rw [add_digit_eq_lor (smearOf d) hd, ← Nat.or_assoc, hmul]
    _ = (A * 16 + (x ||| smearOf d)) * 16 + d := by
      rw [add_digit_eq_lor A hx, Nat.or_assoc, ← add_digit_eq_lor A hxs, add_digit_eq_lor _ hd]
    _ = 16 * (16 * A + (x ||| smearOf d)) + d := by ring

/-- As many digits are read as are written. -/
@[simp] theorem length_smear (ds : List ℕ) : (smear ds).length = ds.length := by
  fun_induction smear ds with
  | case1 d d' ds ih => simp [ih]
  | case2 => rfl

/-- What the decoder makes of digits behind the digit `x`. -/
theorem hexLoop_digits (hds : ∀ d ∈ ds, d < 16) (hx : x < 16) {A val : ℕ}
    (hval : val % 2 ^ 32 = (16 * A + x) % 2 ^ 32) :
    hexLoop (ds.map hexDigit) val % 2 ^ 32 =
      (A * 16 ^ (ds.length + 1) + ofHexDigits (smear (x :: ds))) % 2 ^ 32 := by
  induction ds generalizing x A val with
  | nil =>
    simp only [List.map_nil, hexLoop, smear, ofHexDigits_cons, ofHexDigits_nil, List.length_nil]
    rw [hval]
    ring_nf
  | cons d ds ih =>
    have hd : d < 16 := hds d List.mem_cons_self
    rw [List.map_cons, hexLoop, hexValue_hexDigit hd]
    dsimp only
    have hstep : ((val * 16 % 2 ^ 32) ||| (16 * smearOf d + d)) % 2 ^ 32 =
        (16 * (16 * A + (x ||| smearOf d)) + d) % 2 ^ 32 := by
      rw [Nat.or_mod_two_pow, Nat.mod_mod, Nat.mul_mod, hval, ← Nat.mul_mod, ← Nat.or_mod_two_pow,
        shift_lor A hx hd]
    rw [ih (fun d' hd' => hds d' (List.mem_cons_of_mem _ hd')) hd hstep]
    rw [smear, ofHexDigits_cons, length_smear, List.length_cons]
    ring_nf

/-- What is read are digits. -/
theorem smear_lt (hds : ∀ d ∈ ds, d < 16) : ∀ d ∈ smear ds, d < 16 := by
  fun_induction smear ds with
  | case1 d d' ds ih =>
    intro e he
    rcases List.mem_cons.1 he with rfl | he
    · exact Nat.or_lt_two_pow (n := 4) (hds d List.mem_cons_self) (smearOf_lt d')
    · exact ih (fun e he => hds e (List.mem_cons_of_mem _ he)) e he
  | case2 => exact hds

/-- The digits that the decoder sees as they are. -/
theorem smear_eq_self_iff (hds : ∀ d ∈ ds, d < 16) :
    smear ds = ds ↔ ds.IsChain fun d d' => d' < 10 → d % 4 = 3 := by
  fun_induction smear ds with
  | case1 d d' ds ih =>
    have hkept : ∀ d < 16, ∀ d' < 16, (d ||| smearOf d' = d ↔ (d' < 10 → d % 4 = 3)) := by decide
    rw [List.cons.injEq, List.isChain_cons_cons, ih fun e he => hds e (List.mem_cons_of_mem _ he),
      hkept d (hds d (by simp)) d' (hds d' (by simp))]
  | case2 ds hshort =>
    refine iff_of_true rfl ?_
    match ds, hshort with
    | [], _ => exact .nil
    | [d], _ => exact .singleton d
    | d :: d' :: ds, h => exact absurd rfl (h d d' ds)

/-- The value of some digits. -/
theorem ofHexDigits_lt (hds : ∀ d ∈ ds, d < 16) : ofHexDigits ds < 16 ^ ds.length := by
  have h := Nat.ofDigits_lt_base_pow_length (b := 16) (l := ds.reverse) (by decide)
    fun d hd => hds d (List.mem_reverse.1 hd)
  rwa [List.length_reverse] at h

/-- Different digits make different numbers. -/
theorem ofHexDigits_inj {ds' : List ℕ} (hlen : ds.length = ds'.length) (hds : ∀ d ∈ ds, d < 16)
    (hds' : ∀ d ∈ ds', d < 16) (h : ofHexDigits ds = ofHexDigits ds') : ds = ds' := by
  have hrev := Nat.ofDigits_inj_of_len_eq (b := 16) (by decide) (by simpa using hlen)
    (fun d hd => hds d (List.mem_reverse.1 hd)) (fun d hd => hds' d (List.mem_reverse.1 hd)) h
  exact List.reverse_injective hrev

/-- The digits of a value. -/
theorem hexDigits_lt (v : ℕ) : ∀ d ∈ hexDigits v, d < 16 := by
  intro d hd
  obtain ⟨i, -, rfl⟩ := List.mem_map.1 hd
  exact Nat.mod_lt _ (by decide)

/-- A number of 32 bits has eight digits. -/
theorem ofHexDigits_hexDigits {v : ℕ} (hv : v < 2 ^ 32) : ofHexDigits (hexDigits v) = v := by
  simp only [hexDigits, List.range, List.range.loop, List.map_cons, List.map_nil, ofHexDigits_cons,
    ofHexDigits_nil, List.length_cons, List.length_nil]
  omega

/-- What `PUT_32` and `%02x` print are the digits. -/
theorem hexText_put32 (v : ℕ) : hexText (put32 v) = (hexDigits v).map hexDigit := by
  simp only [hexText, put32, hexDigits, List.flatMap_cons, List.flatMap_nil, List.range,
    List.range.loop, List.map_cons, List.map_nil, UInt8.toNat_ofNat', List.cons_append,
    List.nil_append]
  simp only [List.cons.injEq, and_true]
  refine ⟨?_, ?_, ?_, ?_, ?_, ?_, ?_, ?_⟩ <;> congr 1 <;> omega

/-- **The decoder.** It sees every digit but the last changed by the character of the next one. -/
theorem getHexU32_digits (hlen : ds.length = 8) (hds : ∀ d ∈ ds, d < 16) (rest : Bytes) :
    getHexU32 (ds.map hexDigit ++ rest) = ofHexDigits (smear ds) := by
  unfold getHexU32
  rw [List.take_left' (by simpa using hlen)]
  have hzero : 0 % 2 ^ 32 = (16 * 0 + 0) % 2 ^ 32 := rfl
  have hloop := hexLoop_digits hds (x := 0) (by decide) (A := 0) hzero
  obtain ⟨d, ds, rfl⟩ := List.exists_cons_of_length_pos (l := ds) (by omega)
  have hlt := ofHexDigits_lt (smear_lt hds)
  rw [smear, ofHexDigits_cons, length_smear, hlen] at hloop
  rw [length_smear, hlen] at hlt
  have hsmall : hexLoop ((d :: ds).map hexDigit) 0 < 2 ^ 32 := hexLoop_lt _ (by decide)
  omega

/-- The decoder gives a number back when its digits are kept. -/
theorem getHexU32_eq_iff {v : ℕ} (hv : v < 2 ^ 32) (rest : Bytes) :
    getHexU32 (hexText (put32 v) ++ rest) = v ↔ DigitsKept v := by
  rw [hexText_put32, getHexU32_digits rfl (hexDigits_lt v), DigitsKept,
    ← smear_eq_self_iff (hexDigits_lt v)]
  constructor
  · intro h
    refine ofHexDigits_inj (length_smear _) (smear_lt (hexDigits_lt v)) (hexDigits_lt v) ?_
    rw [h, ofHexDigits_hexDigits hv]
  · intro h
    rw [h, ofHexDigits_hexDigits hv]

end Hex

/-! ## Nonces -/

section Nonce

variable {md5 : Md5} {secret : Bytes} {random : Fin 12 → UInt8} {T : ℕ}

/-- Two characters to a byte. -/
@[simp] theorem length_hexText (b : Bytes) : (hexText b).length = 2 * b.length := by
  induction b with
  | nil => rfl
  | cons x b ih =>
    simp only [hexText, List.flatMap_cons, List.length_append, List.length_cons,
      List.length_nil] at ih ⊢
    omega

/-- The two halves of a nonce. -/
theorem createNonce_halves (md5 : Md5) (secret : Bytes) (random : Fin 12 → UInt8) (T : ℕ) :
    (createNonce md5 secret T random).length = 64 ∧
    (createNonce md5 secret T random).take 32 = hexText (put32 T) ++ hexText (List.ofFn random) ∧
    (createNonce md5 secret T random).drop 32 =
      md5Hash md5 [(createNonce md5 secret T random).take 32, secret] := by
  have htoken : (hexText (put32 T ++ List.ofFn random)).length = 32 := by
    simp [put32]
  have htake : (createNonce md5 secret T random).take 32 =
      hexText (put32 T ++ List.ofFn random) := List.take_left' htoken
  refine ⟨?_, ?_, ?_⟩
  · simp [createNonce, md5Hash, put32]
  · rw [htake]
    exact List.flatMap_append
  · rw [htake]
    exact List.drop_left' htoken

/-- A response that is correct but for the age of its nonce. -/
structure OtherwiseCorrect (md5 : Md5) (nonce : Bytes) (m : Pmsg) (realm username password : Bytes) :
    Prop where
  correct : ∃ hdr auth uri method, m.getHeader (str "authorization") = .ok (some hdr) ∧
    parseAuthHeader hdr = .ok (some auth) ∧ auth.realm = realm ∧
    strCaseEq auth.username username = true ∧
    digestUri auth m = .ok (some uri) ∧ m.method = .ok method ∧
    strCaseEq auth.response (createResponse md5 { auth with uri } method password) = true ∧
    auth.nonce = nonce

/-- Such a response is accepted as long as its time as `get_hex_u32` reads it is not over. -/
theorem OtherwiseCorrect.accepted {m : Pmsg} {realm username password : Bytes}
    (h : OtherwiseCorrect md5 (createNonce md5 secret T random) m realm username password) (now : ℕ) :
    checkDigestResponse md5 (some secret) now m realm username password = .ok 1 ↔
      now ≤ (getHexU32 ((createNonce md5 secret T random).take 32) + 15) % 2 ^ 32 := by
  obtain ⟨hdr, auth, uri, method, hhdr, hparse, hrealm, huser, huri, hmethod, hresponse, hnonce⟩ :=
    h.correct
  obtain ⟨h64, -, hdrop⟩ := createNonce_halves md5 secret random T
  unfold checkDigestResponse
  rw [hhdr, ok_bind]
  dsimp only
  rw [hparse, ok_bind]
  dsimp only
  rw [if_neg (not_not.2 hrealm), if_neg (not_not.2 huser), huri, ok_bind]
  dsimp only
  rw [hmethod, ok_bind, if_neg (not_not.2 hresponse)]
  rw [hnonce, if_neg (not_not.2 h64), if_neg (not_not.2 hdrop)]
  by_cases hold : now > (getHexU32 ((createNonce md5 secret T random).take 32) + 15) % 2 ^ 32
  · rw [if_pos hold]
    exact iff_of_false (fun h => by cases h) (by omega)
  · rw [if_neg hold]
    exact iff_of_true rfl (by omega)

/-- A bound that agrees with `T + 15` on every later time is it, unless `T + 15` is out of range. -/
theorem bound_agrees_iff {L : ℕ} (hT : T < 2 ^ 32) (hL : L < 2 ^ 32) :
    (∀ now, T ≤ now → now < 2 ^ 32 → (now ≤ L ↔ now ≤ T + 15)) ↔
      L = T + 15 ∨ 2 ^ 32 ≤ T + 15 ∧ L = 2 ^ 32 - 1 := by
  constructor
  · intro h
    by_cases hT15 : T + 15 < 2 ^ 32
    · have h₁ := h (T + 15) (by omega) hT15
      by_cases hmax : T + 16 < 2 ^ 32
      · have h₂ := h (T + 16) (by omega) hmax
        omega
      · omega
    · have h₁ := h (2 ^ 32 - 1) (by omega) (by omega)
      omega
  · omega

/-- The last times of 32 bits are read as they are. -/
theorem getHexU32_last (hT : T < 2 ^ 32) (hlast : 2 ^ 32 ≤ T + 15) (rest : Bytes) :
    getHexU32 (hexText (put32 T) ++ rest) = T := by
  rw [getHexU32_eq_iff hT]
  obtain ⟨k, hk, rfl⟩ : ∃ k < 15, T = 4294967281 + k := ⟨T - 4294967281, by omega, by omega⟩
  revert hk
  clear hT hlast
  revert k
  decide

/-- **Nonces.** A nonce made at the time `T` lives for 15 seconds, no more and no less, if and only
if every decimal digit but the first of the eight hexadecimal digits of `T` stands behind a `3`, a
`7`, a `b` or an `f`, and `T + 15` has 32 bits. For these digits, and no others, `get_hex_u32` gives
`T` back. -/
theorem nonce_fresh_iff {m : Pmsg} {realm username password : Bytes} (hT : T < 2 ^ 32)
    (h : OtherwiseCorrect md5 (createNonce md5 secret T random) m realm username password) :
    ((∀ now, T ≤ now → now < 2 ^ 32 →
        (checkDigestResponse md5 (some secret) now m realm username password = .ok 1 ↔
          now ≤ T + 15)) ↔
      DigitsKept T ∧ T + 15 < 2 ^ 32) ∧
    (getHexU32 (createNonce md5 secret T random) = T ↔ DigitsKept T) := by
  have hdecode : getHexU32 ((createNonce md5 secret T random).take 32) =
      getHexU32 (createNonce md5 secret T random) := by
    unfold getHexU32
    rw [List.take_take]
    rfl
  have hkept : getHexU32 (createNonce md5 secret T random) = T ↔ DigitsKept T := by
    rw [← hdecode, (createNonce_halves md5 secret random T).2.1]
    exact getHexU32_eq_iff hT _
  refine ⟨?_, hkept⟩
  have hlt : getHexU32 (createNonce md5 secret T random) < 2 ^ 32 := hexLoop_lt _ (by decide)
  have hlast : 2 ^ 32 ≤ T + 15 → getHexU32 (createNonce md5 secret T random) = T := by
    intro hle
    rw [← hdecode, (createNonce_halves md5 secret random T).2.1]
    exact getHexU32_last hT hle _
  simp only [h.accepted, hdecode]
  rw [bound_agrees_iff hT (Nat.mod_lt _ (by decide)), ← hkept]
  generalize getHexU32 (createNonce md5 secret T random) = v at hlt hlast
  omega

end Nonce

/-- A hash that is always zero. -/
def zeroMd5 : Md5 := fun _ _ => 0

/-- A request with the right response for the nonce that was made at the time `T`, when the random
bytes and the hash are zero. -/
def digestRequest (T : ℕ) : Pmsg :=
  match (received (str "PLAY / RTSP/1.0\r\nAuthorization: Digest username=\"u\", realm=\"r\", nonce=\"" ++
    createNonce zeroMd5 (str "s") T (fun _ => 0) ++ str "\", uri=\"/\", response=\"" ++
    List.replicate 32 48 ++ str "\"\r\n\r\n")).parsePmsg with
  | .ok (m, _) => m
  | .error _ => received []

/-- The digits of this time are kept. -/
theorem nonce_fresh_iff_kept :
    (∀ now, 0x77777777 ≤ now → now < 2 ^ 32 →
      (checkDigestResponse zeroMd5 (some (str "s")) now (digestRequest 0x77777777) (str "r") (str "u")
        (str "p") = .ok 1 ↔ now ≤ 0x77777777 + 15)) ∧
    getHexU32 (createNonce zeroMd5 (str "s") 0x77777777 (fun _ => 0)) = 0x77777777 := by
  have hkept : DigitsKept 0x77777777 := by decide
  refine and_imp.2 (fun hfresh hdecode => ⟨hfresh.2 ⟨hkept, by decide⟩, hdecode.2 hkept⟩)
    (@nonce_fresh_iff zeroMd5 (str "s") (fun _ => 0) _ (digestRequest 0x77777777) _ _ _ (by decide)
      ⟨?_⟩)
  refine ⟨str "Digest username=\"u\", realm=\"r\", nonce=\"" ++
    createNonce zeroMd5 (str "s") 0x77777777 (fun _ => 0) ++ str "\", uri=\"/\", response=\"" ++
    List.replicate 32 48 ++ str "\"",
    { realm := str "r", uri := str "/",
      nonce := createNonce zeroMd5 (str "s") 0x77777777 (fun _ => 0), opaqueStr := [],
      username := str "u", response := List.replicate 32 48 }, str "/", str "PLAY", ?_⟩
  decide +kernel

/-- A nonce made on the 13th of September 2020 is accepted an hour later. -/
theorem nonce_outlives :
    ¬ 1600000000 + 3600 ≤ 1600000000 + 15 ∧
      checkDigestResponse zeroMd5 (some (str "s")) (1600000000 + 3600) (digestRequest 1600000000)
        (str "r") (str "u") (str "p") = .ok 1 := by
  decide +kernel

end Spook
