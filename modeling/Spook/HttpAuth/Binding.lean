import Mathlib.Data.Set.Function
import Mathlib.Data.List.OfFn
import Spook.HttpAuth

set_option relaxedAutoImplicit false
set_option autoImplicit false

/-!
# What a digest response is bound to

A response that `check_digest_response` accepts is a digest of the user, the nonce, the method and a
URI. The URI is the one of the `uri` directive if there is one, which nobody compares with the URI
of the request.

MD5 is injective on the texts that are hashed, and the hash of a text with the secret is known to
clients from a nonce only.

## Main definitions

* `Spook.responseTexts` — what is hashed for a response.
* `Spook.IdealMd5` — what is assumed of MD5.
* `Spook.BoundResponse` — a response that is bound to its request.

## Main results

* `Spook.response_bound_iff` — which accepted responses are bound to their requests.

## Notes on the design

What is assumed of MD5 are hypotheses of the theorem and no axioms: that it is injective on the
texts that occur, and that a hash with the secret is not known without a nonce.
-/

namespace Spook

/-! ## Hashes in hexadecimal -/

section Hash

variable {md5 : Md5} {T : Set Bytes} {v v' : List Bytes}

/-- Different bytes have different digits, in lower case. -/
theorem hexText_caseInj {b b' : Bytes} (h : (hexText b).map toLower = (hexText b').map toLower) :
    b = b' := by
  have hdigit : ∀ d < 16, ∀ d' < 16, toLower (hexDigit d) = toLower (hexDigit d') → d = d' := by
    decide
  induction b generalizing b' with
  | nil =>
    cases b' with
    | nil => rfl
    | cons y b' => simp [hexText] at h
  | cons x b ih =>
    cases b' with
    | nil => simp [hexText] at h
    | cons y b' =>
      simp only [hexText, List.flatMap_cons, List.cons_append, List.nil_append, List.map_cons,
        List.cons.injEq] at h
      obtain ⟨hhigh, hlow, hrest⟩ := h
      have hx := x.toNat_lt
      have hy := y.toNat_lt
      have h₁ := hdigit _ (by omega) _ (by omega) hhigh
      have h₂ := hdigit _ (by omega) _ (by omega) hlow
      obtain rfl : x = y := UInt8.toNat_inj.1 (by omega)
      rw [ih hrest]

/-- Texts with one hash up to case are one text. -/
theorem md5Hash_caseInj (hinj : Set.InjOn md5 T) (hv : [COLON].intercalate v ∈ T)
    (hv' : [COLON].intercalate v' ∈ T)
    (h : (md5Hash md5 v).map toLower = (md5Hash md5 v').map toLower) :
    [COLON].intercalate v = [COLON].intercalate v' :=
  hinj hv hv' (List.ofFn_injective (hexText_caseInj h))

end Hash

/-! ## Responses -/

section Responses

variable (md5 : Md5)

/-- The text of the request in a response. -/
def uriText (method uri : Bytes) : Bytes := [COLON].intercalate [method, uri]

/-- The text that a response is the hash of. -/
def responseText (auth : DigestAuthInfo) (method uri password : Bytes) : Bytes :=
  [COLON].intercalate [md5Hash md5 [auth.username, auth.realm, password], auth.nonce,
    md5Hash md5 [method, uri]]

/-- The texts about the URI that are hashed for a response. -/
def responseTexts (auth : DigestAuthInfo) (method uri password : Bytes) : Set Bytes :=
  {uriText method uri, responseText md5 auth method uri password}

/-- The response is the digest for this URI, up to case. -/
def IsResponse (auth : DigestAuthInfo) (method uri password : Bytes) : Prop :=
  strCaseEq auth.response (createResponse md5 { auth with uri } method password) = true

/-- The text that a nonce is checked with. -/
def nonceText (secret nonce : Bytes) : Bytes := [COLON].intercalate [nonce.take 32, secret]

/-- The server with this secret has issued the nonces `issued`, and clients send the nonces `sent`.
No two of the texts `T` have one hash; and a client that sends the hash of a text with the secret
has got it from a nonce. -/
structure IdealMd5 (secret : Bytes) (T issued sent : Set Bytes) : Prop where
  inj : Set.InjOn md5 T
  made : ∀ n ∈ issued, ∃ now random, n = createNonce md5 secret now random
  hashed : ∀ n ∈ issued ∪ sent, nonceText secret n ∈ T
  known : ∀ n ∈ sent, n.drop 32 = md5Hash md5 [n.take 32, secret] →
    ∃ n' ∈ issued, n'.drop 32 = n.drop 32

/-- The response to a request for `uri` is the digest of the user, an issued nonce and the request,
and of no request for another URI. -/
structure BoundResponse (T issued : Set Bytes) (auth : DigestAuthInfo)
    (method uri realm username password : Bytes) : Prop where
  realm : auth.realm = realm
  username : strCaseEq auth.username username = true
  nonce : auth.nonce ∈ issued
  response : IsResponse md5 auth method uri password
  other : ∀ uri', responseTexts md5 auth method uri' password ⊆ T → uri' ≠ uri →
    ¬ IsResponse md5 auth method uri' password

end Responses

section Accepted

variable {md5 : Md5} {T issued sent : Set Bytes} {secret : Option Bytes} {now : ℕ} {m : Pmsg}
  {hdr realm username password method uri uri' : Bytes} {auth : DigestAuthInfo}

/-- A response is for one URI only. -/
theorem isResponse_inj (hinj : Set.InjOn md5 T)
    (hT : responseTexts md5 auth method uri password ⊆ T)
    (hT' : responseTexts md5 auth method uri' password ⊆ T)
    (h : IsResponse md5 auth method uri password) (h' : IsResponse md5 auth method uri' password) :
    uri = uri' := by
  have hcase : (createResponse md5 { auth with uri } method password).map toLower =
      (createResponse md5 { auth with uri := uri' } method password).map toLower := by
    unfold IsResponse strCaseEq at h h'
    rw [← beq_iff_eq.1 h, ← beq_iff_eq.1 h']
  have htext := md5Hash_caseInj hinj (hT (.inr rfl)) (hT' (.inr rfl)) hcase
  have hrequest : md5Hash md5 [method, uri] = md5Hash md5 [method, uri'] := by
    simpa [List.intercalate] using htext
  have huri := md5Hash_caseInj hinj (hT (.inl rfl)) (hT' (.inl rfl)) (congrArg _ hrequest)
  simpa [List.intercalate] using huri

/-- A nonce that validates was issued. -/
theorem IdealMd5.issued_of_valid {key nonce : Bytes} (h : IdealMd5 md5 key T issued sent)
    (hsent : nonce ∈ sent) (hvalid : nonce.drop 32 = md5Hash md5 [nonce.take 32, key]) :
    nonce ∈ issued := by
  obtain ⟨n, hn, hdrop⟩ := h.known nonce hsent hvalid
  obtain ⟨now, random, hmade⟩ := h.made n hn
  have hhash : n.drop 32 = md5Hash md5 [n.take 32, key] := by
    rw [hmade]
    exact (createNonce_halves md5 key random now).2.2
  have htext := md5Hash_caseInj h.inj (h.hashed n (.inl hn)) (h.hashed nonce (.inr hsent))
    (congrArg (List.map toLower) (hhash.symm.trans (hdrop.trans hvalid)))
  have htake : n.take 32 = nonce.take 32 := by
    simpa [List.intercalate] using htext
  have heq : n = nonce := by
    rw [← List.take_append_drop 32 n, htake, hdrop, List.take_append_drop]
  exact heq ▸ hn

/-- What is known of a request that is accepted. -/
theorem accepted_cases (hhdr : m.getHeader (str "authorization") = .ok (some hdr))
    (hparse : parseAuthHeader hdr = .ok (some auth)) (hmethod : m.method = .ok method)
    (hacc : checkDigestResponse md5 secret now m realm username password = .ok 1) :
    auth.realm = realm ∧ strCaseEq auth.username username = true ∧
      (∃ uri, digestUri auth m = .ok (some uri) ∧ IsResponse md5 auth method uri password) ∧
      ∃ key, secret = some key ∧ auth.nonce.drop 32 = md5Hash md5 [auth.nonce.take 32, key] := by
  unfold checkDigestResponse at hacc
  rw [hhdr, ok_bind] at hacc
  dsimp only at hacc
  rw [hparse, ok_bind] at hacc
  dsimp only at hacc
  by_cases hrealm : auth.realm = realm
  · rw [if_neg (not_not.2 hrealm)] at hacc
    by_cases huser : strCaseEq auth.username username = true
    · rw [if_neg (not_not.2 huser)] at hacc
      obtain ⟨u, hu, hacc⟩ := bind_eq_ok.1 hacc
      cases u with
      | none => cases hacc
      | some uri =>
        dsimp only at hacc
        rw [hmethod, ok_bind] at hacc
        by_cases hresponse : strCaseEq auth.response
            (createResponse md5 { auth with uri } method password) = true
        · rw [if_neg (not_not.2 hresponse)] at hacc
          cases secret with
          | none => cases hacc
          | some key =>
            dsimp only at hacc
            split_ifs at hacc with hlen hvalid
            all_goals try cases hacc
            exact ⟨hrealm, huser, ⟨uri, hu, hresponse⟩, key, rfl, not_not.1 hvalid⟩
        · rw [if_pos hresponse] at hacc
          cases hacc
    · rw [if_pos huser] at hacc
      cases hacc
  · rw [if_pos hrealm] at hacc
    cases hacc

/-- **Responses.** A response that is accepted is bound to its request if and only if the header has
no `uri` directive, or has the URI of the request in it. -/
theorem response_bound_iff (hhdr : m.getHeader (str "authorization") = .ok (some hdr))
    (hparse : parseAuthHeader hdr = .ok (some auth)) (hmethod : m.method = .ok method)
    (huri : m.uri = .ok uri) (hmd5 : ∀ key, secret = some key → IdealMd5 md5 key T issued sent)
    (hsent : auth.nonce ∈ sent) (htexts : responseTexts md5 auth method uri password ⊆ T)
    (htexts' : responseTexts md5 auth method auth.uri password ⊆ T)
    (hacc : checkDigestResponse md5 secret now m realm username password = .ok 1) :
    BoundResponse md5 T issued auth method uri realm username password ↔
      auth.uri = [] ∨ auth.uri = uri := by
  obtain ⟨hrealm, huser, ⟨u, hu, hresponse⟩, key, hkey, hvalid⟩ :=
    accepted_cases hhdr hparse hmethod hacc
  have hideal := hmd5 key hkey
  have hused : auth.uri = [] ∧ u = uri ∨ auth.uri ≠ [] ∧ u = auth.uri := by
    unfold digestUri at hu
    by_cases hnone : auth.uri = []
    · rw [if_pos hnone, huri, ok_bind] at hu
      split_ifs at hu
      · cases hu
      · cases hu
        exact .inl ⟨hnone, rfl⟩
    · rw [if_neg hnone] at hu
      cases hu
      exact .inr ⟨hnone, rfl⟩
  constructor
  · intro hbound
    obtain ⟨hnone, -⟩ | ⟨-, rfl⟩ := hused
    · exact .inl hnone
    · exact .inr (isResponse_inj hideal.inj htexts' htexts hresponse hbound.response)
  · intro hcond
    obtain rfl : u = uri := by
      obtain ⟨-, rfl⟩ | ⟨hsome, rfl⟩ := hused
      · rfl
      · exact hcond.resolve_left hsome
    refine ⟨hrealm, huser, hideal.issued_of_valid hsent hvalid, hresponse, fun uri' hT hne h => ?_⟩
    exact hne (isResponse_inj hideal.inj hT htexts h hresponse)

end Accepted

/-- A hash that is the last 16 bytes of the text. -/
def tailMd5 : Md5 := fun text i => ((List.replicate 16 0 ++ text).drop text.length).getD i 0

/-- A nonce of the server with the secret `s`. -/
def tailNonce : Bytes := createNonce tailMd5 (str "s") 0x77777777 fun _ => 0

/-- What a client sends that knows the password: the response for the URI `uri`, with a `uri`
directive for it. -/
def tailAuth (uri : Bytes) : DigestAuthInfo :=
  let auth : DigestAuthInfo :=
    { realm := str "r", uri, nonce := tailNonce, opaqueStr := [], username := str "u",
      response := [] }
  { auth with response := createResponse tailMd5 auth (str "PLAY") (str "p") }

/-- The header. -/
def tailHeader (uri : Bytes) : Bytes :=
  str "Digest username=\"u\", realm=\"r\", nonce=\"" ++ tailNonce ++ str "\", uri=\"" ++ uri ++
    str "\", response=\"" ++ (tailAuth uri).response ++ str "\""

/-- A request for `/b` with a header. -/
def tailRequest (header : Bytes) : Pmsg :=
  match (received (str "PLAY /b RTSP/1.0\r\nAuthorization: " ++ header ++
    str "\r\n\r\n")).parsePmsg with
  | .ok (m, _) => m
  | .error _ => received []

/-- The texts that are hashed for responses to requests for `/a` and for `/b`. -/
def tailTexts : List Bytes :=
  [nonceText (str "s") tailNonce, uriText (str "PLAY") (str "/a"),
    uriText (str "PLAY") (str "/b"),
    responseText tailMd5 (tailAuth (str "/a")) (str "PLAY") (str "/a") (str "p"),
    responseText tailMd5 (tailAuth (str "/b")) (str "PLAY") (str "/b") (str "p")]

/-- No two of the texts have the same hash. -/
theorem tailTexts_ideal :
    IdealMd5 tailMd5 (str "s") {x | x ∈ tailTexts} {tailNonce} {tailNonce} where
  inj := by
    intro x hx y hy
    have hall : ∀ x ∈ tailTexts, ∀ y ∈ tailTexts, tailMd5 x = tailMd5 y → x = y := by
      decide +kernel
    exact hall x hx y hy
  made := by
    rintro n rfl
    exact ⟨_, _, rfl⟩
  hashed := by
    rintro n (rfl | rfl) <;> exact List.mem_cons_self
  known := by
    rintro n rfl -
    exact ⟨tailNonce, rfl, rfl⟩

/-- A response for the URI of the request. -/
theorem response_bound_iff_own :
    BoundResponse tailMd5 {x | x ∈ tailTexts} {tailNonce} (tailAuth (str "/b")) (str "PLAY")
      (str "/b") (str "r") (str "U") (str "p") := by
  have hb : responseTexts tailMd5 (tailAuth (str "/b")) (str "PLAY") (str "/b") (str "p") ⊆
      {x | x ∈ tailTexts} := by
    rintro x (rfl | rfl) <;> decide +kernel
  refine (@response_bound_iff tailMd5 {x | x ∈ tailTexts} {tailNonce} {tailNonce} (some (str "s"))
    0x77777777 (tailRequest (tailHeader (str "/b"))) (tailHeader (str "/b")) (str "r") (str "U")
    (str "p") (str "PLAY") (str "/b") (tailAuth (str "/b")) (by decide +kernel) (by decide +kernel)
    (by decide +kernel) (by decide +kernel) ?_ rfl hb hb (by decide +kernel)).2 (.inr rfl)
  rintro key hkey
  obtain rfl := Option.some.inj hkey
  exact tailTexts_ideal

/-- The response for `/a` is accepted in a request for `/b`. -/
theorem response_unbound :
    checkDigestResponse tailMd5 (some (str "s")) 0x77777777
        (tailRequest (tailHeader (str "/a"))) (str "r") (str "u") (str "p") = .ok 1 ∧
      (tailRequest (tailHeader (str "/a"))).uri = .ok (str "/b") ∧
      parseAuthHeader (tailHeader (str "/a")) = .ok (some (tailAuth (str "/a"))) ∧
      ¬ IsResponse tailMd5 (tailAuth (str "/a")) (str "PLAY") (str "/b") (str "p") := by
  unfold IsResponse
  decide +kernel

end Spook
