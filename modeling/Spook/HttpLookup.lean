import Spook.Tcp.Server

set_option relaxedAutoImplicit false
set_option autoImplicit false

/-!
# The locations of `http.c`

`find_http_location` with its accesses to the arrays. A location whose path is a beginning of the
URI matches if the byte at the end of the URI, which may be behind the NUL of the path, is a NUL or
a slash; the first one that matches is taken, and `handle_GET` rejects it if its path is shorter.

## Main definitions

* `Spook.httpNodeFindLocation`, `httpFindLocation`, `httpSelect` — the lookup and the test behind
  it.
* `Spook.FoundByPath` — a URI leads to the location with that path.

## Main results

* `Spook.httpFindLocation_eq` — the lookup without its accesses.
* `Spook.foundByPath_iff` — the URIs that lead to the location with their path.
-/

namespace Spook

/-! ## The lookup -/

/-- The size of the array `path` of a location. -/
def httpPathSize : ℕ := 256

/-- The path of a location. -/
def HttpLocation.own (L : HttpLocation) : Bytes := cstrAt L.path 0 httpPathSize

/-- A byte of the array `path`. -/
def HttpLocation.pathByte (L : HttpLocation) (k : ℕ) : Except Fault UInt8 :=
  if k < httpPathSize then .ok (L.path k) else .error .overread

/-- `strlen( loc->path )`. -/
def HttpLocation.pathLen (L : HttpLocation) : Except Fault ℕ :=
  if L.own.length < httpPathSize then .ok L.own.length else .error .unterminated

/-- `node_find_location` over the locations that are left. -/
def httpNodeFindLocation (s : Server) (path : Bytes) (len : ℕ) : List ℕ → Except Fault (Option ℕ)
  | [] => .ok none
  | l :: rest => do
    let n ← (s.httpLocs l).pathLen
    if strnEq path (s.httpLocs l).own n then
      let c ← (s.httpLocs l).pathByte len
      if c = SLASH ∨ c = 0 then return some l
      else httpNodeFindLocation s path len rest
    else httpNodeFindLocation s path len rest

/-- The length that `find_http_location` passes on. The last byte of an empty path would be before
its array. -/
def httpPathLength (path : Bytes) : Except Fault ℕ :=
  match path.getLast? with
  | none => .error .overread
  | some c => .ok (if c = SLASH then path.length - 1 else path.length)

/-- `find_http_location`. -/
def httpFindLocation (s : Server) (path : Bytes) : Except Fault (Option ℕ) := do
  let len ← httpPathLength path
  httpNodeFindLocation s path len s.httpLocList

/-- The location that `handle_GET` goes on with; `none` where it answers `File not found`. -/
def httpSelect (s : Server) (uri : Bytes) : Except Fault (Option ℕ) := do
  match ← httpFindLocation s uri with
  | none => return none
  | some l => return if (s.httpLocs l).own.length < uri.length then none else some l

/-! ## The lookup without its accesses -/

section Lookup

variable {s : Server} {uri : Bytes} {len : ℕ} {ls : List ℕ} {o : Option ℕ}

/-- A lookup that stays inside the arrays finds the first location that matches. -/
theorem httpNodeFindLocation_eq (h : httpNodeFindLocation s uri len ls = .ok o) :
    ls.find? (fun l => httpLocMatches (s.httpLocs l) uri len) = o := by
  induction ls with
  | nil => exact Except.ok.inj h
  | cons l rest ih =>
    obtain ⟨n, hn, h⟩ := bind_eq_ok.1 h
    have hlen : n = (s.httpLocs l).own.length := by
      unfold HttpLocation.pathLen at hn
      split_ifs at hn
      exact (Except.ok.inj hn).symm
    subst hlen
    by_cases hmatch : strnEq uri (s.httpLocs l).own (s.httpLocs l).own.length = true
    · rw [if_pos hmatch] at h
      obtain ⟨c, hc, h⟩ := bind_eq_ok.1 h
      obtain rfl : (s.httpLocs l).path len = c := by
        unfold HttpLocation.pathByte at hc
        split_ifs at hc
        exact Except.ok.inj hc
      by_cases hend : (s.httpLocs l).path len = SLASH ∨ (s.httpLocs l).path len = 0
      · rw [if_pos hend] at h
        rw [List.find?_cons_of_pos]
        · exact Except.ok.inj h
        · simpa [httpLocMatches, HttpLocation.own, httpPathSize, SLASH] using ⟨hmatch, hend⟩
      · rw [if_neg hend] at h
        rw [List.find?_cons_of_neg]
        · exact ih h
        · simpa [httpLocMatches, HttpLocation.own, httpPathSize, SLASH] using fun _ => hend
    · rw [if_neg hmatch] at h
      rw [List.find?_cons_of_neg]
      · exact ih h
      · simp only [httpLocMatches, Bool.and_eq_true, not_and]
        exact fun hmatch' => absurd hmatch' hmatch

/-- A lookup that stays inside the arrays is the one of the server. -/
theorem httpFindLocation_eq (h : httpFindLocation s uri = .ok o) : findHttpLocation s uri = o := by
  obtain ⟨len, hlen, h⟩ := bind_eq_ok.1 h
  rw [← httpNodeFindLocation_eq h]
  unfold findHttpLocation
  unfold httpPathLength at hlen
  rcases hlast : uri.getLast? with _ | c
  · rw [hlast] at hlen
    cases hlen
  · rw [hlast] at hlen
    obtain rfl := Except.ok.inj hlen
    by_cases hc : c = SLASH
    · simp [hc, SLASH]
    · have hc' : ¬ c = 47 := hc
      simp [hc, hc']

/-- What `handle_GET` answers. -/
theorem getAnswer_select (h : httpSelect s uri = .ok o) (avail : ℕ) :
    (o = none → getAnswer s avail uri = .fileNotFound) ∧
      ∀ l, o = some l → getAnswer s avail uri = .imageNotAvailable ∨
        getAnswer s avail uri = .stream l ∨ getAnswer s avail uri = .single l := by
  obtain ⟨o', hfind, h⟩ := bind_eq_ok.1 h
  unfold getAnswer
  rw [httpFindLocation_eq hfind]
  cases o' with
  | none =>
    obtain rfl := Except.ok.inj h
    simp
  | some l =>
    dsimp only at h ⊢
    obtain rfl := Except.ok.inj h
    by_cases hlong : (s.httpLocs l).own.length < uri.length
    · rw [if_pos hlong]
      have hlong' : uri.length > (cstrAt (s.httpLocs l).path 0 256).length := hlong
      simp [hlong']
    · rw [if_neg hlong]
      have hlong' : ¬ uri.length > (cstrAt (s.httpLocs l).path 0 256).length := hlong
      simp only [reduceCtorEq, false_implies, Option.some.injEq, forall_eq', true_and, hlong', if_false]
      rcases (s.httpLocs l).frame with _ | frame
      · exact .inl rfl
      · dsimp only
        split_ifs <;> simp

end Lookup

/-! ## Paths -/

/-- The locations have distinct paths, none of them empty, that end inside their arrays. What is
behind the NUL of a path is left open. -/
structure HttpLocationsOk (s : Server) : Prop where
  nodup : s.httpLocList.Nodup
  terminated : ∀ l ∈ s.httpLocList, (s.httpLocs l).own.length < httpPathSize
  nonempty : ∀ l ∈ s.httpLocList, (s.httpLocs l).own ≠ []
  distinct : ∀ l ∈ s.httpLocList, ∀ l' ∈ s.httpLocList,
    (s.httpLocs l).own = (s.httpLocs l').own → l = l'

/-- A request for the path of a location gets to that location, and a request for another path to
none; the lookup stays inside the arrays. -/
structure FoundByPath (s : Server) (uri : Bytes) : Prop where
  own : ∀ l ∈ s.httpLocList, (s.httpLocs l).own = uri → httpSelect s uri = .ok (some l)
  other : (∀ l ∈ s.httpLocList, (s.httpLocs l).own ≠ uri) → httpSelect s uri = .ok none

/-- The length of a path without a slash at its end. -/
def httpLen (uri : Bytes) : ℕ := if uri.getLast? = some SLASH then uri.length - 1 else uri.length

/-- The URI is not empty; its length is inside the arrays, unless no path is a beginning of it; and
no location before the one with this path has a path that is a beginning of it, and a NUL or a slash
at its length. -/
structure LookupSafe (s : Server) (uri : Bytes) : Prop where
  nonempty : uri ≠ []
  short : httpLen uri < httpPathSize ∨ ∀ l ∈ s.httpLocList, ¬ (s.httpLocs l).own <+: uri
  before : ∀ l as bs, s.httpLocList = as ++ l :: bs → (s.httpLocs l).own = uri →
    ∀ l' ∈ as, (s.httpLocs l').own <+: uri →
      (s.httpLocs l').path (httpLen uri) ≠ SLASH ∧ (s.httpLocs l').path (httpLen uri) ≠ 0

section Paths

variable {s : Server} {uri : Bytes} {len l : ℕ} {ls : List ℕ}

/-- The length of the path, for a URI that is not empty. -/
theorem httpPathLength_eq (h : uri ≠ []) : httpPathLength uri = .ok (httpLen uri) := by
  unfold httpPathLength httpLen
  rw [List.getLast?_eq_some_getLast h]
  simp

/-- A beginning of the URI is found by `strncmp`. -/
theorem strnEq_own (own uri : Bytes) : strnEq uri own own.length = true ↔ own <+: uri := by
  unfold strnEq
  rw [beq_iff_eq, List.take_length, List.prefix_iff_eq_take]
  exact eq_comm

/-- The test of a location. -/
theorem httpLocMatches_iff (L : HttpLocation) :
    httpLocMatches L uri len = true ↔ L.own <+: uri ∧ (L.path len = SLASH ∨ L.path len = 0) := by
  rw [← strnEq_own]
  simp [httpLocMatches, HttpLocation.own, httpPathSize, SLASH]

/-- Inside the arrays the first location that matches is found. -/
theorem httpNodeFindLocation_inside (hlen : len < httpPathSize)
    (hterm : ∀ l ∈ ls, (s.httpLocs l).own.length < httpPathSize) :
    httpNodeFindLocation s uri len ls =
      .ok (ls.find? fun l => httpLocMatches (s.httpLocs l) uri len) := by
  suffices h : ∃ o, httpNodeFindLocation s uri len ls = .ok o by
    obtain ⟨o, ho⟩ := h
    rw [ho, httpNodeFindLocation_eq ho]
  induction ls with
  | nil => exact ⟨none, rfl⟩
  | cons l rest ih =>
    obtain ⟨o, ho⟩ := ih fun l' hl' => hterm l' (List.mem_cons_of_mem _ hl')
    have hn : (s.httpLocs l).pathLen = .ok (s.httpLocs l).own.length :=
      if_pos (hterm l List.mem_cons_self)
    have hc : (s.httpLocs l).pathByte len = .ok ((s.httpLocs l).path len) := if_pos hlen
    simp only [httpNodeFindLocation, hn, hc, ok_bind, ho]
    split_ifs
    · exact ⟨_, rfl⟩
    · exact ⟨_, rfl⟩
    · exact ⟨_, rfl⟩

/-- Outside the arrays the lookup is correct only if no path is a beginning of the URI. -/
theorem httpNodeFindLocation_outside (hlen : ¬ len < httpPathSize)
    (hterm : ∀ l ∈ ls, (s.httpLocs l).own.length < httpPathSize) :
    httpNodeFindLocation s uri len ls =
      if ∃ l ∈ ls, (s.httpLocs l).own <+: uri then .error .overread else .ok none := by
  classical
  induction ls with
  | nil => simp [httpNodeFindLocation]
  | cons l rest ih =>
    have hn : (s.httpLocs l).pathLen = .ok (s.httpLocs l).own.length :=
      if_pos (hterm l List.mem_cons_self)
    have hc : (s.httpLocs l).pathByte len = .error .overread := if_neg hlen
    simp only [httpNodeFindLocation, hn, hc, ok_bind, error_bind, strnEq_own, List.mem_cons,
      exists_eq_or_imp]
    by_cases hown : (s.httpLocs l).own <+: uri
    · rw [if_pos hown, if_pos (.inl hown)]
    · rw [if_neg hown, ih fun l' hl' => hterm l' (List.mem_cons_of_mem _ hl')]
      simp only [hown, false_or]

/-- What `handle_GET` goes on with, inside the arrays. -/
theorem httpSelect_inside (h : HttpLocationsOk s) (hne : uri ≠ []) (hlen : httpLen uri < httpPathSize) :
    httpSelect s uri = .ok
      (match s.httpLocList.find? fun l => httpLocMatches (s.httpLocs l) uri (httpLen uri) with
        | none => none
        | some l => if (s.httpLocs l).own.length < uri.length then none else some l) := by
  simp only [httpSelect, httpFindLocation, httpPathLength_eq hne, ok_bind,
    httpNodeFindLocation_inside hlen h.terminated]
  rcases s.httpLocList.find? fun l => httpLocMatches (s.httpLocs l) uri (httpLen uri) with _ | l
  · rfl
  · rfl

/-- The byte at the length of its own path ends the comparison. -/
theorem httpLocMatches_own (hterm : (s.httpLocs l).own.length < httpPathSize)
    (hown : (s.httpLocs l).own = uri) :
    httpLocMatches (s.httpLocs l) uri (httpLen uri) = true := by
  rw [httpLocMatches_iff, ← hown]
  refine ⟨List.prefix_rfl, ?_⟩
  unfold httpLen
  split_ifs with hlast
  · -- The slash at the end of the path itself.
    left
    rw [List.getLast?_eq_getElem?] at hlast
    obtain ⟨hlt, hslash⟩ := List.getElem?_eq_some_iff.1 hlast
    have hbyte := mem_of_cstrAt hlt
    rw [Nat.zero_add] at hbyte
    exact hbyte.trans hslash
  · right
    have hend : strEnd (s.httpLocs l).path 0 httpPathSize = (s.httpLocs l).own.length :=
      Nat.zero_add _
    rw [← hend]
    exact mem_strEnd (hend ▸ hterm)

/-- A path that is a beginning of the URI, and not the URI, is shorter. -/
theorem own_length_lt (hpre : (s.httpLocs l).own <+: uri) (hne : (s.httpLocs l).own ≠ uri) :
    (s.httpLocs l).own.length < uri.length := by
  refine Nat.lt_of_le_of_ne hpre.length_le fun hlen => hne ?_
  exact hpre.eq_of_length hlen

/-- A URI without a location is not found, inside the arrays. -/
theorem httpSelect_other (h : HttpLocationsOk s) (hne : uri ≠ [])
    (hlen : httpLen uri < httpPathSize) (hother : ∀ l ∈ s.httpLocList, (s.httpLocs l).own ≠ uri) :
    httpSelect s uri = .ok none := by
  rw [httpSelect_inside h hne hlen]
  rcases hfind : s.httpLocList.find? fun l => httpLocMatches (s.httpLocs l) uri (httpLen uri) with
    _ | l
  · rfl
  · have hmatch := List.find?_some hfind
    rw [httpLocMatches_iff] at hmatch
    have hshort := own_length_lt hmatch.1 (hother l (List.mem_of_find?_eq_some hfind))
    exact congrArg Except.ok (if_pos hshort)

/-- The location with the path of the URI is found if no location before it matches. -/
theorem httpSelect_own_iff (h : HttpLocationsOk s) (hne : uri ≠ [])
    (hlen : httpLen uri < httpPathSize) {as bs : List ℕ} (hlist : s.httpLocList = as ++ l :: bs)
    (hown : (s.httpLocs l).own = uri) :
    httpSelect s uri = .ok (some l) ↔
      ∀ l' ∈ as, httpLocMatches (s.httpLocs l') uri (httpLen uri) = false := by
  have hl : l ∈ s.httpLocList := by simp [hlist]
  have hmatch := httpLocMatches_own (h.terminated l hl) hown
  rw [httpSelect_inside h hne hlen]
  constructor
  · intro hsel l' hl'
    -- A match before `l` is found first, and it is not `l`.
    by_contra hmatch'
    have hsome : (as.find? fun l => httpLocMatches (s.httpLocs l) uri (httpLen uri)).isSome := by
      rw [List.find?_isSome]
      exact ⟨l', hl', by simpa using hmatch'⟩
    obtain ⟨l₀, hfind⟩ := Option.isSome_iff_exists.1 hsome
    rw [hlist, List.find?_append, hfind, Option.some_or] at hsel
    have hsel' := Except.ok.inj hsel
    dsimp only at hsel'
    split_ifs at hsel' with hshort
    obtain rfl := Option.some.inj hsel'
    have hnodup := h.nodup
    rw [hlist, List.nodup_append] at hnodup
    exact hnodup.2.2 l₀ (List.mem_of_find?_eq_some hfind) l₀ List.mem_cons_self rfl
  · intro hbefore
    have hfind : (s.httpLocList.find? fun l => httpLocMatches (s.httpLocs l) uri (httpLen uri)) =
        some l := by
      rw [List.find?_eq_some_iff_append]
      exact ⟨hmatch, as, bs, hlist, fun l' hl' => by simp [hbefore l' hl']⟩
    rw [hfind]
    dsimp only
    rw [hown, if_neg (Nat.lt_irrefl _)]

end Paths

/-- **HTTP locations.** Every URI leads to the location with that path, and to none without one,
exactly if the lookup is safe for it. -/
theorem foundByPath_iff {s : Server} (h : HttpLocationsOk s) (uri : Bytes) :
    FoundByPath s uri ↔ LookupSafe s uri := by
  by_cases hne : uri = []
  · -- The byte before an empty URI is read.
    subst hne
    refine iff_of_false (fun hfound => ?_) fun hsafe => hsafe.nonempty rfl
    have hnone := hfound.other h.nonempty
    cases hnone
  have hmid : ∀ l ∈ s.httpLocList, (s.httpLocs l).own = uri → httpLen uri < httpPathSize := by
    rintro l hl rfl
    have hshort := h.terminated l hl
    unfold httpLen
    split_ifs <;> omega
  by_cases hlen : httpLen uri < httpPathSize
  · constructor
    · intro hfound
      refine ⟨hne, .inl hlen, fun l as bs hlist hown l' hl' hpre => ?_⟩
      have hsel := hfound.own l (by simp [hlist]) hown
      have hmatch := (httpSelect_own_iff h hne hlen hlist hown).1 hsel l' hl'
      have hmatch' : ¬ httpLocMatches (s.httpLocs l') uri (httpLen uri) = true := by simp [hmatch]
      rw [httpLocMatches_iff, not_and, not_or] at hmatch'
      exact hmatch' hpre
    · intro hsafe
      refine ⟨fun l hl hown => ?_, httpSelect_other h hne hlen⟩
      obtain ⟨as, bs, hlist⟩ := List.append_of_mem hl
      rw [httpSelect_own_iff h hne hlen hlist hown]
      intro l' hl'
      rw [← Bool.not_eq_true, httpLocMatches_iff, not_and, not_or]
      exact hsafe.before l as bs hlist hown l' hl'
  · -- No path is as long as the URI.
    have hother : ∀ l ∈ s.httpLocList, (s.httpLocs l).own ≠ uri :=
      fun l hl hown => hlen (hmid l hl hown)
    have hsel : httpSelect s uri = .ok none ↔
        ∀ l ∈ s.httpLocList, ¬ (s.httpLocs l).own <+: uri := by
      simp only [httpSelect, httpFindLocation, httpPathLength_eq hne, ok_bind,
        httpNodeFindLocation_outside hlen h.terminated]
      split_ifs with hpre
      · simpa using hpre
      · simpa [pure, Except.pure] using hpre
    constructor
    · intro hfound
      refine ⟨hne, .inr (hsel.1 (hfound.other hother)), fun l as bs hlist hown => ?_⟩
      exact absurd hown (hother l (by simp [hlist]))
    · intro hsafe
      refine ⟨fun l hl hown => absurd hown (hother l hl), fun _ => hsel.2 ?_⟩
      exact hsafe.short.resolve_left hlen

/-- A server with locations of these paths, with NULs behind them. -/
def httpServer (paths : List Bytes) : Server :=
  { bareServer with
    httpLocs := fun l =>
      { bareServer.httpLocs l with path := strcpy (fun _ => 0) 0 (paths.getD l []) }
    httpLocList := List.range paths.length }

/-- The location `/cam1` listed before `/cam`. -/
theorem foundByPath_iff_cam :
    FoundByPath (httpServer [str "/cam1", str "/cam"]) (str "/cam1") ↔
      LookupSafe (httpServer [str "/cam1", str "/cam"]) (str "/cam1") := by
  refine foundByPath_iff ⟨List.nodup_range, ?_, ?_, ?_⟩ (str "/cam1")
  · decide +kernel
  · decide +kernel
  · decide +kernel

/-- Behind `/cam`, with a NUL at its index 5, the location `/cam1` is not found. -/
theorem httpSelect_hidden :
    httpSelect (httpServer [str "/cam", str "/cam1"]) (str "/cam1") = .ok none ∧
      ¬ ∀ (s : Server) (uri : Bytes), HttpLocationsOk s → FoundByPath s uri := by
  have hsel : httpSelect (httpServer [str "/cam", str "/cam1"]) (str "/cam1") = .ok none := by
    decide +kernel
  refine ⟨hsel, fun h => ?_⟩
  have hfound := h (httpServer [str "/cam", str "/cam1"]) (str "/cam1")
    ⟨List.nodup_range, by decide +kernel, by decide +kernel, by decide +kernel⟩
  have hown := hfound.own 1 (by decide) (by decide +kernel)
  rw [hsel] at hown
  cases hown

end Spook
