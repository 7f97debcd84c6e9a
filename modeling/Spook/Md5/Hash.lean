import Spook.HttpAuth
import Spook.Md5.Stream

set_option relaxedAutoImplicit false
set_option autoImplicit false

/-!
# The digests of `http-auth.c`

`md5_hash` with its calls of `md5.c`. What is proved of digest authentication for any function in
the place of MD5 holds of it.

## Main definitions

* `Spook.md5HashCalls`, `createNonceCalls`, `createResponseCalls` — `md5_hash`, `create_nonce` and
  `create_response` with the calls that they make.
* `Spook.md5Function` — MD5 as a function into 16 bytes.

## Main results

* `Spook.md5HashCalls_eq` — `md5_hash` is the hash of its strings with colons between them.
* `Spook.digest_refines` — the calls compute what digest authentication needs.
-/

namespace Spook

/-- The loop of `md5_hash` over the strings that are left; `first` holds of the string `v[0]`. -/
def md5HashStrings (first : Bool) (ctx : MD5Context) : List Bytes → Except Fault MD5Context
  | [] => .ok ctx
  | v :: vs => do
    let ctx ← if first then .ok ctx else md5Update ctx [COLON] 1
    let ctx ← md5Update ctx v (UInt32.ofNat v.length)
    md5HashStrings false ctx vs

/-- `md5_hash`, whose context holds anything in the beginning. -/
def md5HashCalls (ctx : MD5Context) (v : List Bytes) : Except Fault Bytes := do
  let ctx ← md5HashStrings true (md5Init ctx) v
  let (bin, _) ← md5Final ctx
  return hexText bin

/-- `create_nonce`. -/
def createNonceCalls (ctx : MD5Context) (secret : Bytes) (now : ℕ) (random : Fin 12 → UInt8) :
    Except Fault Bytes := do
  let token := hexText (put32 now ++ List.ofFn random)
  let hash ← md5HashCalls ctx [token, secret]
  return token ++ hash

/-- `create_response`. -/
def createResponseCalls (ctx : MD5Context) (auth : DigestAuthInfo) (method password : Bytes) :
    Except Fault Bytes := do
  let ha1 ← md5HashCalls ctx [auth.username, auth.realm, password]
  let ha2 ← md5HashCalls ctx [method, auth.uri]
  md5HashCalls ctx [ha1, auth.nonce, ha2]

/-- MD5 as a function into 16 bytes. -/
noncomputable def md5Function : Md5 := fun m i => (md5Digest m).getD i 0

section Hash

variable {ctx : MD5Context} {m : Bytes} {v : List Bytes}

/-- A digest has 16 bytes. -/
theorem ofFn_md5Function (m : Bytes) : List.ofFn (md5Function m) = md5Digest m := by
  rw [List.ofFn_eq_map]
  rfl

/-- Strings with colons between them, by the first of them. -/
theorem intercalate_colon (s : Bytes) (v : List Bytes) :
    [COLON].intercalate (s :: v) = s ++ (v.map fun s => COLON :: s).flatten := by
  induction v generalizing s with
  | nil => simp [List.intercalate]
  | cons s' v ih => rw [List.intercalate_cons_cons, ih]; simp

/-- The strings behind the first one: a colon stands before each. -/
theorem md5HashStrings_rest (h : ctx.Absorbed m) (hlen : ∀ s ∈ v, s.length < 2 ^ 32) :
    ∃ ctx', md5HashStrings false ctx v = .ok ctx' ∧
      ctx'.Absorbed (m ++ (v.map fun s => COLON :: s).flatten) := by
  induction v generalizing ctx m with
  | nil => exact ⟨ctx, rfl, by simpa using h⟩
  | cons s v ih =>
    have hone : [COLON].length < 2 ^ 32 := by decide
    obtain ⟨ctx₁, hcolon, h₁⟩ := md5Update_absorbed h hone
    obtain ⟨ctx₂, hstring, h₂⟩ := md5Update_absorbed h₁ (hlen s List.mem_cons_self)
    obtain ⟨ctx₃, hrest, h₃⟩ := ih h₂ fun s hs => hlen s (List.mem_cons_of_mem _ hs)
    refine ⟨ctx₃, ?_, ?_⟩
    · have hcolon' : md5Update ctx [COLON] 1 = .ok ctx₁ := hcolon
      simp only [md5HashStrings, Bool.false_eq_true, if_false, hcolon', ok_bind, hstring, hrest]
    · simpa using h₃

/-- The strings of `md5_hash`. -/
theorem md5HashStrings_absorbed (h : ctx.Absorbed []) (hlen : ∀ s ∈ v, s.length < 2 ^ 32) :
    ∃ ctx', md5HashStrings true ctx v = .ok ctx' ∧ ctx'.Absorbed ([COLON].intercalate v) := by
  cases v with
  | nil => exact ⟨ctx, rfl, h⟩
  | cons s v =>
    obtain ⟨ctx₁, hstring, h₁⟩ := md5Update_absorbed h (hlen s List.mem_cons_self)
    obtain ⟨ctx₂, hrest, h₂⟩ := md5HashStrings_rest h₁ fun s hs => hlen s (List.mem_cons_of_mem _ hs)
    refine ⟨ctx₂, ?_, ?_⟩
    · simp only [md5HashStrings, if_true, ok_bind, hstring, hrest]
    · rwa [List.nil_append, ← intercalate_colon] at h₂

/-- **`md5_hash` is the hash of its strings with colons between them.** -/
theorem md5HashCalls_eq (hin : ctx.inBytes.length = 64) (hlen : ∀ s ∈ v, s.length < 2 ^ 32) :
    md5HashCalls ctx v = .ok (md5Hash md5Function v) := by
  obtain ⟨ctx₁, hstrings, habsorbed⟩ := md5HashStrings_absorbed (md5Init_absorbed hin) hlen
  obtain ⟨ctx₂, hfinal⟩ := md5Final_absorbed habsorbed
  rw [md5HashCalls, hstrings, ok_bind, hfinal, ok_bind, md5Hash, ofFn_md5Function]
  rfl

/-- `md5_hash` of two texts. -/
theorem md5HashCalls_two {a b : Bytes} (hin : ctx.inBytes.length = 64) (ha : a.length < 2 ^ 32)
    (hb : b.length < 2 ^ 32) : md5HashCalls ctx [a, b] = .ok (md5Hash md5Function [a, b]) := by
  refine md5HashCalls_eq hin ?_
  simp only [List.forall_mem_cons]
  exact ⟨ha, hb, by simp⟩

/-- `md5_hash` of three texts. -/
theorem md5HashCalls_three {a b c : Bytes} (hin : ctx.inBytes.length = 64)
    (ha : a.length < 2 ^ 32) (hb : b.length < 2 ^ 32) (hc : c.length < 2 ^ 32) :
    md5HashCalls ctx [a, b, c] = .ok (md5Hash md5Function [a, b, c]) := by
  refine md5HashCalls_eq hin ?_
  simp only [List.forall_mem_cons]
  exact ⟨ha, hb, hc, by simp⟩

/-- The text of a hash is short. -/
theorem length_md5Hash (md5 : Md5) (v : List Bytes) : (md5Hash md5 v).length = 32 := by
  simp [md5Hash, hexText]

/-- **The calls compute what digest authentication needs.** Whatever the context holds when it is
declared, the response is that of the definition with the MD5 digest for its hash, and so is the
nonce. -/
theorem digest_refines (ctx : MD5Context) (auth : DigestAuthInfo) (method password secret : Bytes)
    (now : ℕ) (random : Fin 12 → UInt8) (hin : ctx.inBytes.length = 64)
    (hlen : ∀ s ∈ [auth.username, auth.realm, auth.uri, auth.nonce, method, password, secret],
      s.length < 2 ^ 32) :
    createResponseCalls ctx auth method password =
        .ok (createResponse md5Function auth method password) ∧
      createNonceCalls ctx secret now random = .ok (createNonce md5Function secret now random) := by
  simp only [List.forall_mem_cons] at hlen
  obtain ⟨huser, hrealm, huri, hnonce, hmethod, hpassword, hsecret, -⟩ := hlen
  have hhash : ∀ v, (md5Hash md5Function v).length < 2 ^ 32 := by
    intro v
    rw [length_md5Hash]
    decide
  constructor
  · unfold createResponseCalls
    rw [md5HashCalls_three hin huser hrealm hpassword, ok_bind, md5HashCalls_two hin hmethod huri,
      ok_bind, md5HashCalls_three hin (hhash _) hnonce (hhash _)]
    rfl
  · have htoken : (hexText (put32 now ++ List.ofFn random)).length < 2 ^ 32 := by
      simp [hexText, put32]
    unfold createNonceCalls
    dsimp only
    rw [md5HashCalls_two hin htoken hsecret]
    rfl

/-- The authorization of a user, and a nonce. -/
theorem digest_refines_user :
    createResponseCalls anyContext ⟨str "r", str "/a", str "00", [], str "u", []⟩ (str "GET") (str "p") =
        .ok (createResponse md5Function ⟨str "r", str "/a", str "00", [], str "u", []⟩ (str "GET")
          (str "p")) ∧
      createNonceCalls anyContext (str "s") 100 (fun _ => 7) =
        .ok (createNonce md5Function (str "s") 100 fun _ => 7) :=
  digest_refines anyContext ⟨str "r", str "/a", str "00", [], str "u", []⟩ (str "GET") (str "p")
    (str "s") 100 (fun _ => 7) (by decide) (by decide)

end Hash

end Spook
