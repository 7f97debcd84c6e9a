import Spook.HttpAuth
import Spook.Lib.Scan

set_option relaxedAutoImplicit false
set_option autoImplicit false

/-!
# The directives of an Authorization header

`parse_auth_header` once more, as it goes through the header by pointer, and the lists of directives
that it is made for.

## Main definitions

* `Spook.scanAuthHeader` — `parse_auth_header` in memory.
* `Spook.Directive`, `Spook.Joined` — a directive, and directives that are joined by marks.
* `Spook.AuthField` — the fields of `struct digest_auth_info`.

## Main results

* `Spook.scanAuthHeader_eq` — it reads nothing but the header and its NUL.
* `Spook.directives_parsed` — what it finds in a list of directives.
-/

namespace Spook

/-! ## In memory -/

section Memory

variable (mem : ℕ → Except Fault UInt8)

/-- Where the value behind the `=` at `v` begins and how long it is. -/
def valueAt (size v : ℕ) : Except Fault (Option (ℕ × ℕ)) := do
  let quote ← mem v
  if quote = 34 then
    match ← scanFor mem .loop 34 size (v + 1) with
    | none => .ok none
    | some last => .ok (some (v + 1, last - (v + 1)))
  else
    let last ← scanWhile mem .loop (fun b => b ≠ 44 && b ≠ SP && b ≠ 0) size v
    .ok (some (v, last - v))

/-- A value of `len` characters at `v` for a field of `size` bytes. -/
def copyField (v len size : ℕ) (set : Bytes → DigestAuthInfo) :
    Except Fault (Option DigestAuthInfo) :=
  if len ≥ size then .ok none
  else do
    let value ← copyAt mem v len
    .ok (some (set value))

/-- What is done with the directive at `n`. -/
def storeAt (auth : DigestAuthInfo) (n v len : ℕ) : Except Fault (Option DigestAuthInfo) := do
  if ← matchesAt mem n (str "realm=") then
    copyField mem v len 128 fun value => { auth with realm := value }
  else if ← matchesAt mem n (str "uri=") then
    copyField mem v len 512 fun value => { auth with uri := value }
  else if ← matchesAt mem n (str "nonce=") then
    copyField mem v len 128 fun value => { auth with nonce := value }
  else if ← matchesAt mem n (str "opaque=") then
    copyField mem v len 128 fun value => { auth with opaqueStr := value }
  else if ← matchesAt mem n (str "username=") then
    copyField mem v len 128 fun value => { auth with username := value }
  else if ← matchesAt mem n (str "response=") then
    copyField mem v len 33 fun value => { auth with response := value }
  else if ← matchesAt mem n (str "algorithm=") then
    if ← matchesAt mem v (str "md5") then .ok (some auth) else .ok none
  else .ok (some auth)

/-- The loop from `n` on, the second argument bounding its iterations and `size` those of the loops
in it. -/
def scanDirectives (size : ℕ) : ℕ → ℕ → DigestAuthInfo → Except Fault (Option DigestAuthInfo)
  | 0, _, _ => .error .loop
  | fuel + 1, n, auth => do
    let c ← mem n
    if c = 0 then .ok (some auth)
    else
      match ← scanFor mem .loop 61 size n with
      | none => .ok none
      | some v =>
        let c ← mem (v + 1)
        if c = 0 then .ok none
        else
          match ← valueAt mem size (v + 1) with
          | none => .ok none
          | some (v, len) =>
            match ← storeAt mem auth n v len with
            | none => .ok none
            | some auth =>
              let n ← scanWhile mem .loop (fun b => b = 34 || b = 44 || b = SP) size (v + len)
              scanDirectives size fuel n auth

/-- `parse_auth_header` of the header at the beginning of the memory. -/
def scanAuthHeader (size : ℕ) : Except Fault (Option DigestAuthInfo) := do
  if ← matchesAt mem 0 (str "digest ") then
    scanDirectives mem size size 7
      { realm := [], uri := [], nonce := [], opaqueStr := [], username := [], response := [] }
  else .ok none

end Memory

section Reads

variable {mem : ℕ → Except Fault UInt8} {n v len size fuel : ℕ} {b : Bytes}
  {auth : DigestAuthInfo}

/-- A value is copied if there is room for it. -/
theorem copyField_eq (h : CStringAt mem v b) (len size : ℕ) (set : Bytes → DigestAuthInfo) :
    copyField mem v len size set =
      .ok (if len ≥ size then none else some (set (b.take len))) := by
  unfold copyField
  split_ifs
  · rfl
  · rw [copyAt_eq h]
    rfl

/-- A prefix that is looked for by its length. -/
theorem matchesAt_str (h : CStringAt mem n b) (s : String)
    (hs : NulFree (str s) := by decide +kernel) :
    matchesAt mem n (str s) = .ok (strnCaseEq b (str s) (str s).length) :=
  matchesAt_eq h hs

/-- A directive that is read from the header is stored as its text says. -/
theorem storeAt_eq (hn : CStringAt mem n b) {b' : Bytes} (hv : CStringAt mem v b')
    (auth : DigestAuthInfo) (len : ℕ) :
    storeAt mem auth n v len = .ok (storeDirective auth b b' len) := by
  unfold storeAt storeDirective
  simp only [matchesAt_str hn "realm=", matchesAt_str hn "uri=", matchesAt_str hn "nonce=",
    matchesAt_str hn "opaque=", matchesAt_str hn "username=", matchesAt_str hn "response=",
    matchesAt_str hn "algorithm=", matchesAt_str hv "md5", copyField_eq hv, ok_bind]
  simp only [apply_ite (Except.ok (ε := Fault) (α := Option DigestAuthInfo))]
  rfl

/-- The value of a directive is a part of the string. -/
theorem valueAt_eq (h : CStringAt mem v b) (hsize : b.length < size) :
    directiveValue b = none ∧ valueAt mem size v = .ok none ∨
      ∃ b' v' len, directiveValue b = some (b', len) ∧
        valueAt mem size v = .ok (some (v', len)) ∧ CStringAt mem v' b' ∧ len ≤ b'.length ∧
        b'.length ≤ b.length := by
  have hplain : ∀ b : Bytes, NulFree b → (b.takeWhile fun x => x ≠ 44 && x ≠ SP && x ≠ 0) =
      b.takeWhile fun x => x ≠ 44 && x ≠ SP := by
    intro b hb
    refine takeWhile_congr fun x hx => ?_
    simp [hb x hx]
  unfold valueAt directiveValue
  rw [h.head, ok_bind]
  by_cases hquote : b.head? = some 34
  · obtain ⟨c, rfl⟩ := List.head?_eq_some_iff.1 hquote
    simp only [List.headD_cons, if_true, List.head?_cons, List.tail_cons]
    rw [scanFor_eq h.2.2 (by decide) (by simp at hsize; omega), ok_bind]
    rcases hc : strchr 34 c with _ | len
    · exact .inl ⟨rfl, rfl⟩
    · refine .inr ⟨c, v + 1, len, rfl, ?_, h.2.2, (strchr_lt hc).le, by simp⟩
      simp
  · have hhead : b.headD 0 ≠ 34 := by
      cases b with
      | nil => decide
      | cons c b => simpa using hquote
    rw [if_neg hhead, if_neg hquote]
    refine .inr ⟨b, v, _, rfl, ?_, h, List.takeWhile_prefix _ |>.length_le, le_rfl⟩
    rw [scanWhile_eq h (by decide) hsize, ok_bind, hplain b h.nulFree]
    simp

/-- The loop ends, and reads the string and no more. -/
theorem scanDirectives_eq (h : CStringAt mem n b) (hsize : b.length < size)
    (hfuel : b.length ≤ fuel) (auth : DigestAuthInfo) :
    ∃ r, scanDirectives mem size (fuel + 1) n auth = .ok r ∧
      parseDirectives fuel b auth = .ok r := by
  induction fuel generalizing n b auth with
  | zero =>
    obtain rfl := List.eq_nil_of_length_eq_zero (Nat.le_zero.1 hfuel)
    exact ⟨some auth, by simp [scanDirectives, h.head], by simp [parseDirectives]⟩
  | succ fuel ih =>
    cases b with
    | nil => exact ⟨some auth, by simp [scanDirectives, h.head], by simp [parseDirectives]⟩
    | cons c b =>
      simp only [scanDirectives, parseDirectives, h.head, ok_bind, List.headD_cons, h.2.1, if_false,
        scanFor_eq h (show (61 : UInt8) ≠ 0 by decide) hsize]
      rcases hk : strchr 61 (c :: b) with _ | k
      · exact ⟨none, rfl, rfl⟩
      · have hlt := strchr_lt hk
        have hrest := h.drop (k := k + 1) hlt
        rw [← Nat.add_assoc] at hrest
        have hlen : ((c :: b).drop (k + 1)).length < (c :: b).length := by
          rw [List.length_drop]
          omega
        dsimp only [Option.map_some]
        rw [hrest.head, ok_bind]
        generalize (c :: b).drop (k + 1) = d at hrest hlen
        cases d with
        | nil => exact ⟨none, rfl, rfl⟩
        | cons x d =>
          rw [List.headD_cons, if_neg hrest.2.1, if_neg (List.cons_ne_nil x d)]
          obtain ⟨hnone, hat⟩ | ⟨b', v', len, hsome, hat, hv, hle, hle'⟩ :=
            @valueAt_eq _ _ size _ hrest (by omega)
          · rw [hat, hnone]
            exact ⟨none, rfl, rfl⟩
          · rw [hat, hsome, ok_bind]
            dsimp only
            rw [storeAt_eq h hv, ok_bind]
            rcases storeDirective auth (c :: b) b' len with _ | auth
            · exact ⟨none, rfl, rfl⟩
            · have hskip := hv.drop hle
              have hshort : (b'.drop len).length ≤ b'.length := by simp
              dsimp only
              rw [scanWhile_eq hskip (by decide) (by omega), ok_bind]
              have hnext := hskip.dropWhile fun x => x = 34 || x = 44 || x = SP
              have hdrop := (List.dropWhile_suffix (l := b'.drop len)
                (fun x => x = 34 || x = 44 || x = SP)).length_le
              exact ih hnext (by omega) (by omega) auth

/-- **In memory.** `parse_auth_header` terminates on every header, and reads nothing but the header
and its NUL. -/
theorem scanAuthHeader_eq {header : Bytes} (h : NulFree header) :
    ∃ r, scanAuthHeader (readIn (header ++ [0]) .overread) (header.length + 1) = .ok r ∧
      parseAuthHeader header = .ok r := by
  have hstr := cstringAt_readIn h Fault.overread
  unfold scanAuthHeader parseAuthHeader
  rw [matchesAt_str hstr "digest ", ok_bind, show (str "digest ").length = 7 from rfl]
  by_cases hdigest : strnCaseEq header (str "digest ") 7 = true
  · have hlen : 7 ≤ header.length := @length_tag_le header (str "digest ") hdigest
    have hseven := hstr.drop hlen
    rw [Nat.zero_add] at hseven
    rw [if_pos hdigest, if_pos hdigest]
    refine scanDirectives_eq hseven ?_ ?_ _
    all_goals
      rw [List.length_drop]
      omega
  · rw [if_neg hdigest, if_neg hdigest]
    exact ⟨none, rfl, rfl⟩

end Reads

/-! ## Lists of directives -/

/-- The fields of `struct digest_auth_info`. -/
inductive AuthField
  | realm
  | uri
  | nonce
  | opaqueStr
  | username
  | response
  deriving DecidableEq

/-- The directive that a field is for. -/
def AuthField.directive : AuthField → Bytes
  | .realm => str "realm"
  | .uri => str "uri"
  | .nonce => str "nonce"
  | .opaqueStr => str "opaque"
  | .username => str "username"
  | .response => str "response"

/-- The `sizeof` of a field. -/
def AuthField.size : AuthField → ℕ
  | .uri => 512
  | .response => 33
  | _ => 128

/-- A field of what was found. -/
def DigestAuthInfo.get (auth : DigestAuthInfo) : AuthField → Bytes
  | .realm => auth.realm
  | .uri => auth.uri
  | .nonce => auth.nonce
  | .opaqueStr => auth.opaqueStr
  | .username => auth.username
  | .response => auth.response

/-- Store in a field. -/
def DigestAuthInfo.set (auth : DigestAuthInfo) (value : Bytes) : AuthField → DigestAuthInfo
  | .realm => { auth with realm := value }
  | .uri => { auth with uri := value }
  | .nonce => { auth with nonce := value }
  | .opaqueStr => { auth with opaqueStr := value }
  | .username => { auth with username := value }
  | .response => { auth with response := value }

/-- The field that was set, and the others. -/
@[simp] theorem DigestAuthInfo.get_set (auth : DigestAuthInfo) (value : Bytes) (f g : AuthField) :
    (auth.set value f).get g = if g = f then value else auth.get g := by
  cases f <;> cases g <;> rfl

/-- A directive `name=value`, with or without quotes. -/
structure Directive where
  name : Bytes
  value : Bytes
  quoted : Bool
  deriving DecidableEq

namespace Directive

/-- The value as it is written. -/
def valueText (d : Directive) : Bytes := if d.quoted then 34 :: (d.value ++ [34]) else d.value

/-- The directive as it is written. -/
def text (d : Directive) : Bytes := d.name ++ 61 :: d.valueText

/-- The characters are such that the directive can be read back. -/
structure WellFormed (d : Directive) : Prop where
  name : 61 ∉ d.name ∧ 34 ∉ d.name ∧ 44 ∉ d.name ∧ SP ∉ d.name
  quoted : d.quoted = true → 34 ∉ d.value
  plain : d.quoted = false →
    d.value ≠ [] ∧ d.value.head? ≠ some 34 ∧ 44 ∉ d.value ∧ SP ∉ d.value

/-- A value is never empty: it is a token, or has its quotes. -/
theorem WellFormed.valueText_ne_nil {d : Directive} (hd : d.WellFormed) : d.valueText ≠ [] := by
  unfold valueText
  cases hquoted : d.quoted with
  | true => simp
  | false => simpa using (hd.plain hquoted).1

/-- The field that a directive is for. -/
def field? (d : Directive) : Option AuthField :=
  [.realm, .uri, .nonce, .opaqueStr, .username, .response].find? fun f =>
    strCaseEq d.name f.directive

/-- The value fits its field; an algorithm starts with `md5`. -/
def Fits (d : Directive) : Prop :=
  (∀ f, d.field? = some f → d.value.length < f.size) ∧
    (strCaseEq d.name (str "algorithm") = true → strnCaseEq d.value (str "md5") 3 = true)

/-- What a directive changes. -/
def store (d : Directive) (auth : DigestAuthInfo) : DigestAuthInfo :=
  match d.field? with
  | some f => auth.set d.value f
  | none => auth

end Directive

/-- A mark that stands between directives. -/
def IsMark (c : UInt8) : Prop := c = 44 ∨ c = SP

/-- Directives, each with the commas and blanks behind it. -/
def directivesText (l : List (Directive × Bytes)) : Bytes := l.flatMap fun p => p.1.text ++ p.2

/-- The directives are well formed, and joined by commas and blanks. -/
def Joined : List (Directive × Bytes) → Prop
  | [] => True
  | p :: l => p.1.WellFormed ∧ (∀ c ∈ p.2, IsMark c) ∧ (l ≠ [] → p.2 ≠ []) ∧ Joined l

/-- The last value that is given for a field. -/
def lastValue (l : List (Directive × Bytes)) (f : AuthField) : Option Bytes :=
  (l.reverse.find? fun p => p.1.field? = some f).map fun p => p.1.value

section Lists

variable {d : Directive} {l : List (Directive × Bytes)} {auth : DigestAuthInfo} {t : Bytes}

/-- A name is compared with all of a directive. -/
theorem strnCaseEq_name {name key : Bytes} (hname : 61 ∉ name) (hkey : 61 ∉ key) (rest : Bytes) :
    strnCaseEq (name ++ 61 :: rest) (key ++ [61]) (key.length + 1) = strCaseEq name key := by
  induction name generalizing key with
  | nil =>
    cases key with
    | nil => simp [strnCaseEq, strCaseEq]
    | cons c key =>
      have hc : toLower 61 ≠ toLower c := by
        rw [(toLower_eq_iff (by decide) 61).2 rfl]
        exact fun heq => hkey (by simp [(toLower_eq_iff (by decide) c).1 heq.symm])
      simp [strnCaseEq, strCaseEq, hc]
  | cons x name ih =>
    have hx : toLower x ≠ toLower 61 := by
      rw [(toLower_eq_iff (by decide) 61).2 rfl]
      exact fun heq => hname (by simp [(toLower_eq_iff (by decide) x).1 heq])
    cases key with
    | nil => simp [strnCaseEq, strCaseEq, hx]
    | cons c key =>
      have hrest := @ih key (fun h => hname (List.mem_cons_of_mem x h))
        fun h => hkey (List.mem_cons_of_mem c h)
      simp only [strnCaseEq, strCaseEq, List.cons_append, List.length_cons, List.take_succ_cons,
        List.map_cons, List.cons_beq_cons] at hrest ⊢
      rw [hrest]

/-- The algorithm is compared with the value, whatever stands behind it. -/
theorem strnCaseEq_value {value t key : Bytes} (ht : ∀ c ∈ t.head?, toLower c ∉ key.map toLower) :
    strnCaseEq (value ++ t) key key.length = strnCaseEq value key key.length := by
  induction value generalizing key with
  | nil =>
    cases key with
    | nil => simp [strnCaseEq, strCaseEq]
    | cons c key =>
      cases t with
      | nil => rfl
      | cons x t =>
        have hx : toLower x ≠ toLower c := fun heq => ht x rfl (by simp [heq])
        simp [strnCaseEq, strCaseEq, hx]
  | cons x value ih =>
    cases key with
    | nil => simp [strnCaseEq, strCaseEq]
    | cons c key =>
      have hrest := @ih key fun y hy h => ht y hy (List.mem_cons_of_mem _ h)
      simp only [strnCaseEq, strCaseEq, List.cons_append, List.length_cons, List.take_succ_cons,
        List.map_cons, List.cons_beq_cons] at hrest ⊢
      rw [hrest]

/-- A directive for a field is no algorithm. -/
theorem Directive.fits_iff {f : AuthField} (hf : d.field? = some f) :
    d.Fits ↔ d.value.length < f.size := by
  have hname : strCaseEq d.name f.directive = true := by
    unfold Directive.field? at hf
    have hfound := List.find?_some hf
    exact hfound
  have hno : ¬ strCaseEq d.name (str "algorithm") = true := by
    intro halgorithm
    have hlen := (length_of_strCaseEq hname).symm.trans (length_of_strCaseEq halgorithm)
    cases f <;> exact absurd hlen (by decide)
  constructor
  · intro h
    exact h.1 f hf
  · intro h
    refine ⟨fun g hg => ?_, fun halgorithm => absurd halgorithm hno⟩
    obtain rfl := Option.some.inj (hf.symm.trans hg)
    exact h

open Classical in
/-- A value for a field. -/
theorem Directive.stored {f : AuthField} (hf : d.field? = some f) :
    (if d.value.length ≥ f.size then none
      else some (auth.set ((d.value ++ t).take d.value.length) f)) =
      if d.Fits then some (d.store auth) else none := by
  have hstore : d.store auth = auth.set d.value f := by
    rw [Directive.store, hf]
  rw [List.take_left, hstore]
  by_cases hfits : d.Fits
  · rw [if_pos hfits, if_neg (Nat.not_le.2 ((Directive.fits_iff hf).1 hfits))]
  · rw [if_neg hfits, if_pos (Nat.not_lt.1 fun h => hfits ((Directive.fits_iff hf).2 h))]

open Classical in
/-- What is done with a directive. -/
theorem storeDirective_text (hd : d.WellFormed) (auth : DigestAuthInfo) (rest : Bytes)
    (ht : t.head? = none ∨ t.head? = some 34 ∨ t.head? = some 44 ∨ t.head? = some SP) :
    storeDirective auth (d.text ++ rest) (d.value ++ t) d.value.length =
      if d.Fits then some (d.store auth) else none := by
  have hname : ∀ key : Bytes, 61 ∉ key →
      strnCaseEq (d.text ++ rest) (key ++ [61]) (key.length + 1) = strCaseEq d.name key := by
    intro key hkey
    rw [Directive.text, List.append_assoc, List.cons_append]
    exact strnCaseEq_name hd.name.1 hkey _
  have hmd5 : strnCaseEq (d.value ++ t) (str "md5") 3 = strnCaseEq d.value (str "md5") 3 := by
    refine @strnCaseEq_value d.value t (str "md5") fun c hc => ?_
    rcases ht with ht | ht | ht | ht <;> rw [ht] at hc <;> cases hc <;> decide
  unfold storeDirective
  rw [show strnCaseEq _ (str "realm=") 6 = _ from hname (str "realm") (by decide),
    show strnCaseEq _ (str "uri=") 4 = _ from hname (str "uri") (by decide),
    show strnCaseEq _ (str "nonce=") 6 = _ from hname (str "nonce") (by decide),
    show strnCaseEq _ (str "opaque=") 7 = _ from hname (str "opaque") (by decide),
    show strnCaseEq _ (str "username=") 9 = _ from hname (str "username") (by decide),
    show strnCaseEq _ (str "response=") 9 = _ from hname (str "response") (by decide),
    show strnCaseEq _ (str "algorithm=") 10 = _ from hname (str "algorithm") (by decide), hmd5]
  by_cases hrealm : strCaseEq d.name (str "realm") = true
  · rw [if_pos hrealm]
    exact Directive.stored (f := .realm) (by simp [Directive.field?, AuthField.directive, hrealm])
  by_cases huri : strCaseEq d.name (str "uri") = true
  · rw [if_neg hrealm, if_pos huri]
    exact Directive.stored (f := .uri)
      (by simp [Directive.field?, AuthField.directive, hrealm, huri])
  by_cases hnonce : strCaseEq d.name (str "nonce") = true
  · rw [if_neg hrealm, if_neg huri, if_pos hnonce]
    exact Directive.stored (f := .nonce)
      (by simp [Directive.field?, AuthField.directive, hrealm, huri, hnonce])
  by_cases hopaque : strCaseEq d.name (str "opaque") = true
  · rw [if_neg hrealm, if_neg huri, if_neg hnonce, if_pos hopaque]
    exact Directive.stored (f := .opaqueStr)
      (by simp [Directive.field?, AuthField.directive, hrealm, huri, hnonce, hopaque])
  by_cases huser : strCaseEq d.name (str "username") = true
  · rw [if_neg hrealm, if_neg huri, if_neg hnonce, if_neg hopaque, if_pos huser]
    exact Directive.stored (f := .username)
      (by simp [Directive.field?, AuthField.directive, hrealm, huri, hnonce, hopaque, huser])
  by_cases hresponse : strCaseEq d.name (str "response") = true
  · rw [if_neg hrealm, if_neg huri, if_neg hnonce, if_neg hopaque, if_neg huser, if_pos hresponse]
    exact Directive.stored (f := .response) (by
      simp [Directive.field?, AuthField.directive, hrealm, huri, hnonce, hopaque, huser, hresponse])
  have hnone : d.field? = none := by
    simp [Directive.field?, AuthField.directive, hrealm, huri, hnonce, hopaque, huser, hresponse]
  have hfits : d.Fits ↔ (strCaseEq d.name (str "algorithm") = true →
      strnCaseEq d.value (str "md5") 3 = true) := by
    simp [Directive.Fits, hnone]
  have hstore : d.store auth = auth := by
    rw [Directive.store, hnone]
  rw [if_neg hrealm, if_neg huri, if_neg hnonce, if_neg hopaque, if_neg huser, if_neg hresponse,
    hstore]
  simp only [hfits]
  by_cases halgorithm : strCaseEq d.name (str "algorithm") = true
  · simp [halgorithm]
  · simp [halgorithm]

/-- Marks are skipped up to the next directive. -/
theorem skip_marks {sep : Bytes} (hsep : ∀ c ∈ sep, IsMark c) (hl : Joined l) :
    (sep ++ directivesText l).dropWhile (fun b => b = 34 || b = 44 || b = SP) =
      directivesText l := by
  rw [List.dropWhile_append_of_pos fun c hc => by rcases hsep c hc with rfl | rfl <;> rfl]
  cases l with
  | nil => rfl
  | cons p l =>
    obtain ⟨⟨-, hquote, hcomma, hblank⟩, -, -⟩ := hl.1
    simp only [directivesText, List.flatMap_cons, Directive.text, List.append_assoc,
      List.cons_append]
    cases hname : p.1.name with
    | nil => rfl
    | cons c name =>
      rw [hname] at hquote hcomma hblank
      simp only [List.mem_cons, not_or] at hquote hcomma hblank
      simp [Ne.symm hquote.1, Ne.symm hcomma.1, Ne.symm hblank.1]

/-- The value of a directive is found, with what stands behind it. -/
theorem directiveValue_text (hd : d.WellFormed) {rest : Bytes}
    (hrest : ∀ c ∈ rest.head?, IsMark c) :
    ∃ t, directiveValue (d.valueText ++ rest) = some (d.value ++ t, d.value.length) ∧
      (t.head? = none ∨ t.head? = some 34 ∨ t.head? = some 44 ∨ t.head? = some SP) ∧
      (t = rest ∨ t = 34 :: rest) := by
  unfold directiveValue Directive.valueText
  cases hquoted : d.quoted with
  | true =>
    refine ⟨34 :: rest, ?_, .inr (.inl rfl), .inr rfl⟩
    simp [strchr_append_cons (hd.quoted hquoted)]
  | false =>
    obtain ⟨hne, hhead, hcomma, hblank⟩ := hd.plain hquoted
    refine ⟨rest, ?_, ?_, .inl rfl⟩
    · have hfirst : (d.value ++ rest).head? ≠ some 34 := by
        rwa [List.head?_append_of_ne_nil _ hne]
      have hvalue : ∀ c ∈ d.value, (c ≠ 44 && c ≠ SP) = true := by
        intro c hc
        simp only [ne_eq, decide_not, Bool.and_eq_true, Bool.not_eq_true', decide_eq_false_iff_not]
        exact ⟨fun h => hcomma (h ▸ hc), fun h => hblank (h ▸ hc)⟩
      have hstop : rest.takeWhile (fun b => b ≠ 44 && b ≠ SP) = [] := by
        cases rest with
        | nil => rfl
        | cons c rest => rcases hrest c rfl with rfl | rfl <;> rfl
      simp only [Bool.false_eq_true, if_false, hfirst, List.takeWhile_append_of_pos hvalue, hstop,
        List.append_nil]
    · cases rest with
      | nil => exact .inl rfl
      | cons c rest => rcases hrest c rfl with rfl | rfl <;> simp

open Classical in
/-- The loop goes from directive to directive.

**Proof sketch.** By induction on the directives. The name ends at the first equals sign, and the
value is read to its quotation mark or to the separator (`directiveValue_text`); then it is stored,
or does not fit and the loop is over, and the separators behind it are skipped. -/
theorem parseDirectives_text {fuel : ℕ} (hl : Joined l) (hfuel : (directivesText l).length ≤ fuel)
    (auth : DigestAuthInfo) :
    parseDirectives fuel (directivesText l) auth =
      .ok (if ∀ p ∈ l, p.1.Fits then some (l.foldl (fun auth p => p.1.store auth) auth)
        else none) := by
  induction l generalizing fuel auth with
  | nil => simp [directivesText, parseDirectives]
  | cons p l ih =>
    obtain ⟨d, sep⟩ := p
    obtain ⟨hd, hsep, hne, hl⟩ := hl
    have htext : directivesText ((d, sep) :: l) =
        d.name ++ 61 :: (d.valueText ++ (sep ++ directivesText l)) := by
      simp [directivesText, Directive.text]
    have hmark : ∀ c ∈ (sep ++ directivesText l).head?, IsMark c := by
      intro c hc
      cases sep with
      | cons x sep => exact hsep c (by simp_all)
      | nil =>
        cases l with
        | nil => cases hc
        | cons p l => exact absurd rfl (hne (List.cons_ne_nil p l))
    obtain ⟨t, hvalue, ht, hbehind⟩ := directiveValue_text hd hmark
    have hnonempty : d.valueText ++ (sep ++ directivesText l) ≠ [] := by
      exact fun hnil => hd.valueText_ne_nil (List.append_eq_nil_iff.1 hnil).1
    have hskip : ((d.value ++ t).drop d.value.length).dropWhile
        (fun b => b = 34 || b = 44 || b = SP) = directivesText l := by
      rw [List.drop_left]
      rcases hbehind with rfl | rfl
      · exact skip_marks hsep hl
      · exact skip_marks hsep hl
    rw [htext] at hfuel ⊢
    obtain ⟨c, b, hcons⟩ : ∃ c b, d.name ++ 61 :: (d.valueText ++ (sep ++ directivesText l)) =
        c :: b := by
      cases d.name <;> simp
    obtain ⟨fuel, rfl⟩ : ∃ n, fuel = n + 1 := by
      cases fuel with
      | zero => simp at hfuel
      | succ n => exact ⟨n, rfl⟩
    have hstep := storeDirective_text hd auth (sep ++ directivesText l) ht
    rw [Directive.text, List.append_assoc, List.cons_append] at hstep
    rw [hcons]
    simp only [parseDirectives]
    rw [← hcons, strchr_append_cons hd.name.1]
    have hdrop : (d.name ++ 61 :: (d.valueText ++ (sep ++ directivesText l))).drop
        (d.name.length + 1) = d.valueText ++ (sep ++ directivesText l) := by
      simp [List.drop_append]
    dsimp only
    rw [hdrop, if_neg hnonempty, hvalue]
    dsimp only
    rw [hstep]
    by_cases hfits : d.Fits
    · have hlen := congrArg List.length htext
      rw [if_pos hfits]
      dsimp only
      rw [hskip, ih hl ?_ (d.store auth)]
      · simp [hfits]
      · simp only [List.length_append, List.length_cons] at hfuel
        omega
    · simp [hfits]

/-- What the directives leave in a field. -/
theorem get_foldl_store (l : List (Directive × Bytes)) (auth : DigestAuthInfo) (f : AuthField) :
    (l.foldl (fun auth p => p.1.store auth) auth).get f = (lastValue l f).getD (auth.get f) := by
  induction l generalizing auth with
  | nil => rfl
  | cons p l ih =>
    have hget : (p.1.store auth).get f =
        if p.1.field? = some f then p.1.value else auth.get f := by
      unfold Directive.store
      cases p.1.field? with
      | none => simp
      | some g => simp [eq_comm]
    rw [List.foldl_cons, ih, hget, lastValue, lastValue, List.reverse_cons, List.find?_append]
    cases hl : l.reverse.find? fun p => p.1.field? = some f with
    | some q => simp
    | none => by_cases hp : p.1.field? = some f <;> simp [hp]

end Lists

/-- **Directives.** `parse_auth_header` terminates on every header and reads nothing behind its
NUL. Of directives that are joined by commas and blanks, in any order, it returns 0 if and only if
all values fit, and then every field holds the last value that is given for it. -/
theorem directives_parsed :
    (∀ header, NulFree header →
      ∃ r, scanAuthHeader (readIn (header ++ [0]) .overread) (header.length + 1) = .ok r) ∧
    ∀ (scheme : Bytes) (l : List (Directive × Bytes)), strCaseEq scheme (str "digest ") = true →
      Joined l → NulFree (scheme ++ directivesText l) →
      ∃ r, scanAuthHeader (readIn (scheme ++ directivesText l ++ [0]) .overread)
          ((scheme ++ directivesText l).length + 1) = .ok r ∧
        (r.isSome ↔ ∀ p ∈ l, p.1.Fits) ∧
        ∀ auth, r = some auth → ∀ f, auth.get f = (lastValue l f).getD [] := by
  refine ⟨fun header h => ?_, fun scheme l hscheme hl hnul => ?_⟩
  · obtain ⟨r, hr, -⟩ := scanAuthHeader_eq h
    exact ⟨r, hr⟩
  · obtain ⟨r, hr, hparse⟩ := scanAuthHeader_eq hnul
    refine ⟨r, hr, ?_⟩
    have hlen : scheme.length = 7 := length_of_strCaseEq hscheme
    have hdigest : strnCaseEq (scheme ++ directivesText l) (str "digest ") 7 = true := by
      rw [strnCaseEq, List.take_left' hlen]
      exact hscheme
    unfold parseAuthHeader at hparse
    rw [if_pos hdigest, List.drop_left' hlen, parseDirectives_text hl (by simp)] at hparse
    by_cases hfits : ∀ p ∈ l, p.1.Fits
    · rw [if_pos hfits] at hparse
      obtain rfl := Except.ok.inj hparse
      refine ⟨iff_of_true rfl hfits, fun auth hauth f => ?_⟩
      obtain rfl := Option.some.inj hauth
      rw [get_foldl_store]
      cases f <;> rfl
    · rw [if_neg hfits] at hparse
      obtain rfl := Except.ok.inj hparse
      exact ⟨iff_of_false Bool.false_ne_true hfits, fun auth hauth => by cases hauth⟩

/-- An unknown directive, and two for the realm. -/
def realmDirectives : List (Directive × Bytes) :=
  [(⟨str "Realm", str "a, b", true⟩, str ", "), (⟨str "qop", str "auth", false⟩, str " "),
    (⟨str "realm", str "c", true⟩, [])]

/-- How the directives stand in the header. -/
theorem realmDirectives_joined : Joined realmDirectives := by
  refine ⟨⟨by decide, fun _ => by decide, nofun⟩, ?_, fun _ => by decide,
    ⟨by decide, nofun, fun _ => by decide⟩, ?_, fun _ => by decide,
    ⟨by decide, fun _ => by decide, nofun⟩, by simp, fun h => absurd rfl h, trivial⟩
  · intro c hc
    rcases List.mem_cons.1 hc with rfl | hc
    · exact .inl rfl
    · exact .inr (List.mem_singleton.1 hc)
  · intro c hc
    exact .inr (List.mem_singleton.1 hc)

/-- There is room for the values. -/
theorem realmDirectives_fit : ∀ p ∈ realmDirectives, p.1.Fits := by
  intro p hp
  simp only [realmDirectives, List.mem_cons, List.not_mem_nil, or_false] at hp
  rcases hp with rfl | rfl | rfl
  all_goals
    refine ⟨fun f _ => ?_, by decide⟩
    cases f <;> decide

/-- The later one is kept, and a field that no directive is for is empty. -/
theorem directives_parsed_realm : ∃ auth,
    scanAuthHeader (readIn (str "DIGEST Realm=\"a, b\", qop=auth realm=\"c\"" ++ [0]) .overread) 40 =
      .ok (some auth) ∧ auth.get .realm = str "c" ∧ auth.get .nonce = [] := by
  obtain ⟨r, hscan, hsome, hget⟩ := directives_parsed.2 (str "DIGEST ") realmDirectives (by decide)
    realmDirectives_joined (by decide +kernel)
  obtain ⟨auth, rfl⟩ := Option.isSome_iff_exists.1 (hsome.2 realmDirectives_fit)
  have htext : str "DIGEST " ++ directivesText realmDirectives =
      str "DIGEST Realm=\"a, b\", qop=auth realm=\"c\"" := by decide +kernel
  have hlength : (str "DIGEST Realm=\"a, b\", qop=auth realm=\"c\"").length = 39 := by
    decide +kernel
  rw [htext, hlength] at hscan
  refine ⟨auth, hscan, (hget auth rfl .realm).trans ?_, (hget auth rfl .nonce).trans ?_⟩
  · decide +kernel
  · decide +kernel

end Spook
