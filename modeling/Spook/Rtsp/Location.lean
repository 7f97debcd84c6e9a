import Spook.Pmsg.Parse
import Spook.Server

set_option relaxedAutoImplicit false
set_option autoImplicit false

/-!
# Locations

`find_rtsp_location` of `rtsp.c`, the lookup of the location that a request URI names. The
handlers of `DESCRIBE` and `ANNOUNCE` look up the whole path; those of `SETUP` and `TEARDOWN`
take a track number off its end. A location path is a C string; its NUL is the end of the list.

`handle_DESCRIBE` answers with the URI it was asked for and a slash as the base of the control
names `track0`, `track1`, … in the description, so that a client sets up a track at the URI
followed by `/track0`. The longer of two lengths is compared there, which lets a location whose
path goes on into the control name match as well.

## Main definitions

* `Spook.findRtspLocation` — `find_rtsp_location`; `getLocalPath`, `stripTrack`, `stripSlash` and
  `nodeFindLocation` are its parts.
* `Spook.uriPath` — the text of a URI from the first slash behind the host on.
* `Spook.controlUrl` — where a client sets up a track of what it described.

## Main results

* `Spook.findRtspLocation_control` — the lookup at a control URL.
* `Spook.locationMatches_iff` — the location paths that match: those between two prefixes.
* `Spook.control_resolves_iff` — when a control URL leads back to the location described.
-/

namespace Spook

/-! ## The lookup -/

/-- `get_local_path`. -/
def getLocalPath (uri : Bytes) : Option Bytes :=
  if strnCaseEq uri (str "rtsp://") 7 then
    match strchr SLASH (uri.drop 7) with
    | some k => some ((uri.drop 7).drop k)
    | none => some [SLASH]
  else none

/-- `isspace` in the C locale. -/
def isSpace (c : UInt8) : Bool := c = 32 || (9 ≤ c && c ≤ 13)

/-- `strtol` with base ten and a `long` of 32 bits: the number, and what follows it. -/
def strtol10 (s : Bytes) : ℤ × Bytes :=
  let t := s.dropWhile isSpace
  let u := if t.head? = some 45 ∨ t.head? = some 43 then t.tail else t
  let ds := u.takeWhile isDigit
  if ds = [] then (0, s)
  else
    let v : ℤ := digitsValue ds
    (if t.head? = some 45 then max (-2147483648) (-v) else min 2147483647 v, u.drop ds.length)

/-- The track that the end of a path names, and the length of the path without it. -/
def stripTrack (path : Bytes) : ℤ × ℕ :=
  match strrchr SLASH path with
  | none => (-1, path.length)
  | some c =>
    if strnEq (path.drop c) (str "/track") 6 then
      let (track, rest) := strtol10 (path.drop (c + 6))
      (track, if rest = [] then path.length - (path.drop c).length else path.length)
    else (-1, path.length)

/-- The length of a path without a slash at its end. -/
def stripSlash (path : Bytes) (len : ℕ) : ℕ :=
  if 1 < len ∧ path[len - 1]? = some SLASH then len - 1 else len

/-- Whether a location with the path `loc` serves the first `len` bytes of `path`. -/
def locationMatches (path : Bytes) (len : ℕ) (loc : Bytes) : Bool :=
  strnEq path loc (max len loc.length) && (loc[len]? == some SLASH || loc[len]? == none)

/-- `node_find_location` in a list of locations: the index of the first that matches. -/
def nodeFindLocation (locs : List Bytes) (path : Bytes) (len : ℕ) : Option ℕ :=
  locs.findIdx? (locationMatches path len)

/-- `strncpy( base, path, len ); base[len] = 0` with an array of the given size, if there is
one. -/
def copyBase (base : Option ℕ) (path : Bytes) (len : ℕ) : Except Fault (Option Bytes) :=
  match base with
  | none => .ok none
  | some size => if len < size then .ok (some (path.take len)) else .error .overrun

/-- What `find_rtsp_location` returns: the index of the location, and what it stored in `*track`
and in `base`. -/
structure Lookup where
  loc : Option ℕ
  track : Option ℤ
  base : Option Bytes
  deriving DecidableEq

/-- `find_rtsp_location`. -/
def findRtspLocation (locs : List Bytes) (uri : Bytes) (base : Option ℕ) (track : Bool) :
    Except Fault Lookup :=
  match getLocalPath uri with
  | none => .ok ⟨none, none, none⟩
  | some path => do
    let (t, len) := if track then (some (stripTrack path).1, (stripTrack path).2)
      else (none, path.length)
    let len := stripSlash path len
    let text ← copyBase base path len
    return ⟨nodeFindLocation locs path len, t, text⟩

/-- The length of the part of a local path that is looked up and stored in `base`. -/
def servedLength (track : Bool) (path : Bytes) : ℕ :=
  stripSlash path (if track then (stripTrack path).2 else path.length)

/-- Specification of the lookup. -/
theorem findRtspLocation_spec {uri path : Bytes} (h : getLocalPath uri = some path)
    (locs : List Bytes) (base : Option ℕ) (track : Bool) :
    findRtspLocation locs uri base track =
      (copyBase base path (servedLength track path)).map fun text =>
        ⟨nodeFindLocation locs path (servedLength track path),
          if track then some (stripTrack path).1 else none, text⟩ := by
  rw [findRtspLocation, h]
  cases track with
  | false => rcases hc : copyBase base path (servedLength false path) with e | text <;>
      simp [servedLength] at hc <;> simp [hc, servedLength, Except.map, pure, Except.pure]
  | true => rcases hc : copyBase base path (servedLength true path) with e | text <;>
      simp [servedLength] at hc <;> simp [hc, servedLength, Except.map, pure, Except.pure]

/-- The lookup with an array that is long enough. -/
theorem findRtspLocation_fits {uri path : Bytes} (h : getLocalPath uri = some path)
    (locs : List Bytes) {size : ℕ} {track : Bool} (hlt : servedLength track path < size) :
    findRtspLocation locs uri (some size) track =
      .ok ⟨nodeFindLocation locs path (servedLength track path),
        if track then some (stripTrack path).1 else none,
        some (path.take (servedLength track path))⟩ := by
  rw [findRtspLocation_spec h, copyBase, if_pos hlt]
  rfl

/-- The lookup with an array that is too short. -/
theorem findRtspLocation_long {uri path : Bytes} (h : getLocalPath uri = some path)
    (locs : List Bytes) {size : ℕ} {track : Bool} (hlt : ¬ servedLength track path < size) :
    findRtspLocation locs uri (some size) track = .error .overrun := by
  rw [findRtspLocation_spec h, copyBase, if_neg hlt]
  rfl

/-- The size of the array `path` of the handlers. -/
def pathSize : ℕ := 256

/-! ## Paths -/

section Paths

variable {uri path loc : Bytes} {len : ℕ}

/-- The text of a URI from the first slash behind the host on. -/
def uriPath (uri : Bytes) : Bytes := (uri.drop 7).dropWhile (· ≠ SLASH)

/-- The text behind the first slash, if there is one. -/
theorem dropWhile_slash (b : Bytes) : b.dropWhile (· ≠ SLASH) =
    match strchr SLASH b with
    | some k => b.drop k
    | none => [] := by
  rcases h : strchr SLASH b with _ | k
  · rw [List.dropWhile_eq_nil_iff]
    intro x hx
    have hne : x ≠ SLASH := by
      rintro rfl
      obtain ⟨k, hk⟩ := strchr_isSome hx
      rw [h] at hk
      cases hk
    simpa using hne
  · obtain ⟨heq, hn⟩ := strchr_split h
    have hlen : (b.take k).length = k := List.length_take_of_le (strchr_lt h).le
    have hpass : ∀ x ∈ b.take k, decide (x ≠ SLASH) = true := fun x hx => by
      simpa using fun e : x = SLASH => hn (e ▸ hx)
    have hdrop : b.drop k = SLASH :: b.drop (k + 1) := by
      conv_lhs => rw [heq]
      exact List.drop_left' hlen
    calc b.dropWhile (· ≠ SLASH) = (b.take k ++ SLASH :: b.drop (k + 1)).dropWhile (· ≠ SLASH) := by
          rw [← heq]
      _ = SLASH :: b.drop (k + 1) := by
          rw [List.dropWhile_append_of_pos hpass]
          simp
      _ = b.drop k := hdrop.symm

/-- The local path is the path in the URI, or the root. -/
theorem getLocalPath_eq (h : strnCaseEq uri (str "rtsp://") 7 = true) :
    getLocalPath uri = some (if uriPath uri = [] then [SLASH] else uriPath uri) := by
  rw [getLocalPath, if_pos h, uriPath, dropWhile_slash]
  rcases hk : strchr SLASH (uri.drop 7) with _ | k
  · rfl
  · have hne : (uri.drop 7).drop k ≠ [] := by
      rw [Ne, List.drop_eq_nil_iff, not_le]
      exact strchr_lt hk
    dsimp only
    rw [if_neg hne]

/-- The scheme of a URI takes up seven bytes. -/
theorem length_of_scheme (h : strnCaseEq uri (str "rtsp://") 7 = true) : 7 ≤ uri.length := by
  have hlen := congrArg List.length (beq_iff_eq.1 h)
  simp only [List.length_map, List.length_take] at hlen
  have : (str "rtsp://").length = 7 := rfl
  omega

/-- Where a URI is followed by a slash, its path goes on behind that slash. -/
theorem uriPath_append (h : 7 ≤ uri.length) (b : Bytes) :
    uriPath (uri ++ SLASH :: b) = uriPath uri ++ SLASH :: b := by
  rw [uriPath, uriPath, List.drop_append_of_le_length h]
  by_cases hmem : SLASH ∈ uri.drop 7
  · obtain ⟨k, hk⟩ := strchr_isSome hmem
    rw [dropWhile_slash, dropWhile_slash, strchr_append hk, hk]
    exact List.drop_append_of_le_length (strchr_lt hk).le
  · have hpass : ∀ x ∈ uri.drop 7, decide (x ≠ SLASH) = true := fun x hx => by
      simpa using fun e : x = SLASH => hmem (e ▸ hx)
    rw [List.dropWhile_append_of_pos hpass, List.dropWhile_eq_nil_iff.2 hpass]
    simp

/-- The local path of a URI that is followed by a slash. -/
theorem getLocalPath_append (h : strnCaseEq uri (str "rtsp://") 7 = true) (b : Bytes) :
    getLocalPath (uri ++ SLASH :: b) = some (uriPath uri ++ SLASH :: b) := by
  have hlen := length_of_scheme h
  have h' : strnCaseEq (uri ++ SLASH :: b) (str "rtsp://") 7 = true := by
    rwa [strnCaseEq, List.take_append_of_le_length hlen]
  rw [getLocalPath_eq h', uriPath_append hlen]
  simp

/-- A path is stripped to one of its prefixes. -/
theorem stripSlash_le : stripSlash path len ≤ len := by
  unfold stripSlash
  split_ifs <;> omega

/-- The bytes served end before a slash, or where the path does. -/
def Boundary (path : Bytes) (len : ℕ) : Prop := path[len]? = some SLASH ∨ path[len]? = none

/-- A path without its last slash ends at a boundary. -/
theorem boundary_stripSlash (path : Bytes) : Boundary path (stripSlash path path.length) := by
  unfold stripSlash
  split_ifs with h
  · exact .inl h.2
  · exact .inr (List.getElem?_eq_none le_rfl)

/-- So does a path that goes on with a slash. -/
theorem boundary_append (path b : Bytes) :
    Boundary (path ++ SLASH :: b) (stripSlash path path.length) := by
  unfold stripSlash
  split_ifs with h
  · left
    rw [List.getElem?_append_left (by omega)]
    exact h.2
  · exact .inl (by simp)

/-- A slash at the end of a path is found in a longer one as well. -/
theorem stripSlash_append (path b : Bytes) :
    stripSlash (path ++ b) path.length = stripSlash path path.length := by
  unfold stripSlash
  by_cases h : 1 < path.length
  · rw [List.getElem?_append_left (by omega)]
  · simp [h]

/-- The location paths that match: those that begin with the bytes served, go on with a slash
or end there, and are a prefix of the whole path. -/
theorem locationMatches_iff (hlen : len ≤ path.length) :
    locationMatches path len loc = true ↔
      path.take len <+: loc ∧ loc <+: path ∧ (loc[len]? = some SLASH ∨ loc[len]? = none) := by
  simp only [locationMatches, strnEq, Bool.and_eq_true, Bool.or_eq_true, beq_iff_eq]
  rw [← and_assoc]
  refine and_congr_left fun _ => ⟨fun h => ?_, fun ⟨h₁, h₂⟩ => ?_⟩
  · have hall : loc.take (max len loc.length) = loc := List.take_of_length_le (le_max_right _ _)
    rw [hall] at h
    have hle : len ≤ loc.length := by
      have := congrArg List.length h
      rw [List.length_take] at this
      omega
    refine ⟨?_, h ▸ List.take_prefix _ _⟩
    rw [← h, List.prefix_take_iff]
    exact ⟨List.take_prefix _ _, by rw [List.length_take]; omega⟩
  · have hle : len ≤ loc.length := by
      have := h₁.length_le
      rwa [List.length_take, min_eq_left hlen] at this
    rw [max_eq_right hle, List.take_length]
    exact (List.prefix_iff_eq_take.1 h₂).symm

/-- At a boundary these are the paths between two prefixes. -/
theorem locationMatches_at (hlen : len ≤ path.length) (hb : Boundary path len) :
    locationMatches path len loc = true ↔ path.take len <+: loc ∧ loc <+: path := by
  rw [locationMatches_iff hlen, ← and_assoc, and_iff_left_iff_imp]
  rintro ⟨-, w, rfl⟩
  by_cases h : len < loc.length
  · rwa [Boundary, List.getElem?_append_left h] at hb
  · exact .inr (List.getElem?_eq_none (by omega))

end Paths

/-! ## Control URLs -/

section Control

variable {locs : List Bytes} {uri loc : Bytes} {l t : ℕ}

/-- The control name of a track, as `live_get_sdp` writes it. -/
def controlName (t : ℕ) : Bytes := str "track" ++ decimal t

/-- Where a client sets up a track of what it described: the base, which is the URI and a slash,
and the control name. -/
def controlUrl (uri : Bytes) (t : ℕ) : Bytes := (uri ++ str "/") ++ controlName t

/-- A string of digits is read to its end. -/
theorem strtol10_digits {ds : Bytes} (hne : ds ≠ []) (hds : ∀ x ∈ ds, isDigit x = true) :
    strtol10 ds = (min 2147483647 (digitsValue ds : ℤ), []) := by
  obtain ⟨x, xs, rfl⟩ := List.exists_cons_of_ne_nil hne
  have hx : 48 ≤ x ∧ x ≤ 57 := by simpa [isDigit] using hds x List.mem_cons_self
  have hspace : isSpace x = false := by
    simp only [isSpace, Bool.or_eq_false_iff, Bool.and_eq_false_iff, decide_eq_false_iff_not]
    simp only [UInt8.le_iff_toNat_le, ← UInt8.toNat_inj] at hx ⊢
    have h₄₈ : (48 : UInt8).toNat = 48 := rfl
    have h₃₂ : (32 : UInt8).toNat = 32 := rfl
    have h₁₃ : (13 : UInt8).toNat = 13 := rfl
    omega
  have hminus : x ≠ 45 := by rintro rfl; exact absurd hx.1 (by decide)
  have hplus : x ≠ 43 := by rintro rfl; exact absurd hx.1 (by decide)
  have htake : (x :: xs).takeWhile isDigit = x :: xs := List.takeWhile_eq_self_iff.2 hds
  have hdrop : (x :: xs).dropWhile isSpace = x :: xs := by simp [hspace]
  simp only [strtol10, hdrop, List.head?_cons, Option.some.injEq, hminus, hplus, or_self, if_false,
    htake, reduceCtorEq, List.drop_length]

/-- The track and the rest of a path that ends in a slash and a control name. -/
theorem stripTrack_control (path : Bytes) (t : ℕ) :
    stripTrack (path ++ SLASH :: controlName t) = (min 2147483647 (t : ℤ), path.length) := by
  have hdigits : ∀ x ∈ decimal t, isDigit x = true := fun x hx => by
    simpa [isDigit] using decimal_digits hx
  have hslash : SLASH ∉ controlName t := by
    intro hmem
    rcases List.mem_append.1 hmem with hmem | hmem
    · exact absurd hmem (by decide)
    · exact absurd (hdigits _ hmem) (by decide)
  have hdrop : (path ++ SLASH :: controlName t).drop (path.length + 6) = decimal t := by
    rw [List.drop_length_add_append]
    rfl
  have hprefix :
      strnEq ((path ++ SLASH :: controlName t).drop path.length) (str "/track") 6 = true := by
    rw [List.drop_left]
    rfl
  rw [stripTrack, strrchr_append_cons path hslash]
  dsimp only
  rw [if_pos hprefix, hdrop, strtol10_digits (decimal_ne_nil t) hdigits, digitsValue_decimal]
  simp

/-- The lookup at a control URL compares with the path of the URI described, without a slash at
its end. -/
theorem findRtspLocation_control (h : strnCaseEq uri (str "rtsp://") 7 = true)
    (locs : List Bytes) (base : Option ℕ) (t : ℕ) :
    findRtspLocation locs (controlUrl uri t) base true =
      (copyBase base (uriPath uri ++ SLASH :: controlName t)
        (stripSlash (uriPath uri) (uriPath uri).length)).map fun text =>
          ⟨nodeFindLocation locs (uriPath uri ++ SLASH :: controlName t)
            (stripSlash (uriPath uri) (uriPath uri).length), some (min 2147483647 (t : ℤ)), text⟩ := by
  have hurl : controlUrl uri t = uri ++ SLASH :: controlName t := by
    rw [controlUrl, List.append_assoc]
    rfl
  rw [hurl, findRtspLocation_spec (getLocalPath_append h _)]
  simp only [servedLength, if_true, stripTrack_control, stripSlash_append]

/-- A search for the first element with a weaker property finds the same element if no earlier
one has that property. -/
theorem findIdx?_weaken {p q : Bytes → Bool} (hpq : ∀ x, p x = true → q x = true)
    (h : locs.findIdx? p = some l) :
    (∀ x ∈ locs.take l, p x = false) ∧
      (locs.findIdx? q = some l ↔ ∀ x ∈ locs.take l, q x = false) := by
  obtain ⟨hl, hp, hbefore⟩ := List.findIdx?_eq_some_iff_getElem.1 h
  have hget : ∀ (f : Bytes → Bool), (∀ x ∈ locs.take l, f x = false) ↔
      ∀ j (hj : j < l), ¬ f (locs.get ⟨j, hj.trans hl⟩) = true := by
    intro f
    simp only [Bool.not_eq_true, List.mem_take_iff_getElem]
    constructor
    · intro hf j hj
      exact hf _ ⟨j, by omega, rfl⟩
    · rintro hf x ⟨j, hj, rfl⟩
      exact hf j (by omega)
  refine ⟨(hget p).2 hbefore, ?_⟩
  rw [hget q, List.findIdx?_eq_some_iff_getElem]
  exact ⟨fun ⟨_, _, hq⟩ => hq, fun hq => ⟨hl, hpq _ hp, hq⟩⟩

/-- A location that is found is the first that matches the local path, which fits. -/
theorem lookup_found {size : ℕ}
    (h : (findRtspLocation locs uri (some size) false).map Lookup.loc = .ok (some l)) :
    strnCaseEq uri (str "rtsp://") 7 = true ∧ ∃ path, getLocalPath uri = some path ∧
      stripSlash path path.length < size ∧
      locs.findIdx? (locationMatches path (stripSlash path path.length)) = some l := by
  by_cases hs : strnCaseEq uri (str "rtsp://") 7 = true
  · refine ⟨hs, _, getLocalPath_eq hs, ?_⟩
    have hpath := getLocalPath_eq hs
    generalize (if uriPath uri = [] then [SLASH] else uriPath uri) = path at hpath ⊢
    by_cases hfit : servedLength false path < size
    · rw [findRtspLocation_fits hpath locs hfit] at h
      exact ⟨hfit, Except.ok.inj h⟩
    · rw [findRtspLocation_long hpath locs hfit] at h
      cases h
  · rw [findRtspLocation, getLocalPath, if_neg hs] at h
    cases h

/-- A location that serves a URI also matches at its control URLs; the others that match there
have a path that goes on from the path of the URI into the control name. -/
theorem matches_control (uri : Bytes) (t : ℕ) {path : Bytes}
    (hpath : path = if uriPath uri = [] then [SLASH] else uriPath uri) :
    let p := uriPath uri ++ SLASH :: controlName t
    let len := stripSlash (uriPath uri) (uriPath uri).length
    (locationMatches path (stripSlash path path.length) loc = true →
      locationMatches p len loc = true) ∧
    (locationMatches path (stripSlash path path.length) loc = false →
      (locationMatches p len loc = true ↔ uriPath uri <+: loc ∧ loc <+: p)) := by
  intro p len
  have hle : len ≤ (uriPath uri).length := stripSlash_le
  have htake : p.take len = (uriPath uri).take len := List.take_append_of_le_length hle
  have hnew : locationMatches p len loc = true ↔ (uriPath uri).take len <+: loc ∧ loc <+: p := by
    rw [locationMatches_at (by simp only [List.length_append]; omega) (boundary_append _ _), htake]
  by_cases hnil : uriPath uri = []
  · -- the local path is the root, and the control URL has the control name for its path
    rw [if_pos hnil] at hpath
    have hlen : len = 0 := by simp only [len, hnil]; rfl
    rw [hnew, hlen, hnil]
    refine ⟨fun h => ⟨List.nil_prefix, ?_⟩, fun _ => Iff.rfl⟩
    rw [hpath, locationMatches_at stripSlash_le (boundary_stripSlash _)] at h
    exact h.2.trans ⟨controlName t, by simp [p, hnil]⟩
  · rw [if_neg hnil] at hpath
    subst hpath
    rw [hnew, ← Bool.not_eq_true, locationMatches_at stripSlash_le (boundary_stripSlash _)]
    refine ⟨fun h => ⟨h.1, h.2.trans (List.prefix_append _ _)⟩, fun hno => ⟨fun h => ⟨?_, h.2⟩,
      fun h => ⟨(List.take_prefix _ _).trans h.1, h.2⟩⟩⟩
    -- of two prefixes of one path the one that is no prefix of the other is the longer
    rcases List.prefix_or_prefix_of_prefix h.2 (List.prefix_append (uriPath uri) _) with hp | hp
    · exact absurd ⟨h.1, hp⟩ hno
    · exact hp

/-- **Control URLs resolve back.** Where `DESCRIBE` finds a location, the lookup at a control URL
finds it again, with the number of the track, exactly if no location listed before it has a
path that is the path of the URI followed by some of the slash and the control name. -/
theorem control_resolves_iff {base : Option ℕ} (hbase : ∀ size ∈ base, pathSize ≤ size)
    (hdescribe : (findRtspLocation locs uri (some pathSize) false).map Lookup.loc = .ok (some l))
    (ht : t < maxTracks) :
    (∃ text, findRtspLocation locs (controlUrl uri t) base true = .ok ⟨some l, some (t : ℤ), text⟩) ↔
      ∀ loc ∈ locs.take l,
        ¬ (uriPath uri <+: loc ∧ loc <+: uriPath uri ++ SLASH :: controlName t) := by
  obtain ⟨hs, path, hpath, hfit, hfound⟩ := lookup_found hdescribe
  rw [getLocalPath_eq hs, Option.some.injEq] at hpath
  have hmatch := fun loc => @matches_control loc uri t _ hpath.symm
  obtain ⟨hbefore, hsame⟩ := findIdx?_weaken (fun loc => (hmatch loc).1) hfound
  have htrack : min 2147483647 (t : ℤ) = t := by
    rw [maxTracks] at ht
    omega
  have hlen : stripSlash (uriPath uri) (uriPath uri).length < pathSize := by
    by_cases hnil : uriPath uri = []
    · rw [hnil]
      decide
    · rw [if_neg hnil] at hpath
      rwa [hpath]
  obtain ⟨text, htext⟩ : ∃ text, copyBase base (uriPath uri ++ SLASH :: controlName t)
      (stripSlash (uriPath uri) (uriPath uri).length) = .ok text := by
    rcases base with _ | size
    · exact ⟨_, rfl⟩
    · exact ⟨_, if_pos (hlen.trans_le (hbase size rfl))⟩
  have hback : (∃ text, findRtspLocation locs (controlUrl uri t) base true =
      .ok ⟨some l, some (t : ℤ), text⟩) ↔
        nodeFindLocation locs (uriPath uri ++ SLASH :: controlName t)
          (stripSlash (uriPath uri) (uriPath uri).length) = some l := by
    rw [findRtspLocation_control hs, htext, htrack]
    simp [Except.map]
  rw [hback, nodeFindLocation, hsame]
  refine forall₂_congr fun loc hloc => ?_
  rw [← Bool.not_eq_true, (hmatch loc).2 (hbefore loc hloc)]

/-- The second of two locations is found again. -/
theorem control_resolves_second :
    ∃ text, findRtspLocation [str "/a", str "/cam"] (controlUrl (str "rtsp://h/cam") 1)
      (some pathSize) true = .ok ⟨some 1, some (1 : ℕ), text⟩ := by
  refine (control_resolves_iff (fun size h => ?_) (by decide +kernel) (by decide)).2
    (by decide +kernel)
  obtain rfl := Option.some.inj h
  exact le_rfl

/-- A location with the path of a control URL that is listed first: the track is looked up
there, and not in the location described. -/
theorem control_resolves_elsewhere :
    [str "/cam/track1", str "/cam"].Nodup ∧
    (findRtspLocation [str "/cam/track1", str "/cam"] (str "rtsp://h/cam") (some pathSize) false).map
      Lookup.loc = .ok (some 1) ∧
    findRtspLocation [str "/cam/track1", str "/cam"] (controlUrl (str "rtsp://h/cam") 1)
      (some pathSize) true = .ok ⟨some 0, some 1, some (str "/cam")⟩ := by
  refine ⟨by decide, by decide +kernel, by decide +kernel⟩

end Control

end Spook
