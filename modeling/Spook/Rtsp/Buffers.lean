import Spook.Rtsp.Location
import Spook.Rtsp.Reply

set_option relaxedAutoImplicit false
set_option autoImplicit false

/-!
# The buffers of the RTSP handlers

Three handlers look up a location with an array of 256 bytes for its path, and `handle_DESCRIBE`
prints the URI into an array of 512 bytes. The URI comes from a request buffer of 4096 bytes, and
nothing on the way compares its length with either array.

## Main definitions

* `Spook.describeRequest`, `announceRequest`, `setupRequest` — the handlers up to the point behind
  the arrays.
* `Spook.WithoutTrack` — a path without the track at its end.
* `Spook.PathFits` — the texts that the array for the path holds.

## Main results

* `Spook.lookup_fits_iff` — when the lookup stays within its array.
* `Spook.buffers_hold_iff` — the URIs for which each handler stays within its arrays.
-/

namespace Spook

/-! ## The handlers -/

section Handlers

variable (locs : List Bytes) (req : Pmsg)

/-- `handle_DESCRIBE` up to its reply. Whether the location that is found opens, lets the client
in and has a description is `described`. -/
def describeRequest (described : Bool) : Except Fault (Option Pmsg) := do
  let uri ← req.uri
  match (← findRtspLocation locs uri (some pathSize) false).loc with
  | none => return none
  | some _ => if described then return some (← describeReply req uri) else return none

/-- `handle_ANNOUNCE` up to the location. -/
def announceRequest : Except Fault (Option ℕ) := do
  let uri ← req.uri
  return (← findRtspLocation locs uri (some pathSize) false).loc

/-- `handle_SETUP` up to the location and the track. -/
def setupRequest : Except Fault (Option (ℕ × ℕ)) := do
  let uri ← req.uri
  let found ← findRtspLocation locs uri (some pathSize) true
  match found.loc, found.track with
  | some l, some track =>
    if track < 0 ∨ track ≥ maxTracks then return none else return some (l, track.toNat)
  | _, _ => return none

end Handlers

/-! ## What fits -/

section Fits

variable {path rest text uri : Bytes}

/-- The URI of a request names the scheme that the lookup asks for. -/
def IsRtsp (uri : Bytes) : Prop := strnCaseEq uri (str "rtsp://") 7 = true

/-- `rest` is the path without the track at its end, if it has one: `/track` and a number that is
read to its end. -/
inductive WithoutTrack (path : Bytes) : Bytes → Prop
  | track {rest n : Bytes} : path = rest ++ (str "/track" ++ n) → SLASH ∉ n →
      (strtol10 n).2 = [] → WithoutTrack path rest
  | plain : (∀ rest n, path = rest ++ (str "/track" ++ n) → SLASH ∉ n → (strtol10 n).2 ≠ []) →
      WithoutTrack path path

/-- A text that the array for the path holds: it is shorter than the array, or as long and ends in a
slash. -/
def PathFits (text : Bytes) : Prop :=
  text.length < pathSize ∨ text.length = pathSize ∧ text.getLast? = some SLASH

/-- The location with the path `loc` serves a whole path, up to a slash at its end. -/
def Serves (path loc : Bytes) : Prop := loc = path ∨ loc ≠ [] ∧ path = loc ++ [SLASH]

/-- Every path has a rest. -/
theorem exists_withoutTrack (path : Bytes) : ∃ rest, WithoutTrack path rest := by
  by_cases h : ∃ rest n, path = rest ++ (str "/track" ++ n) ∧ SLASH ∉ n ∧ (strtol10 n).2 = []
  · obtain ⟨rest, n, hpath, hn, hread⟩ := h
    exact ⟨rest, .track hpath hn hread⟩
  · exact ⟨path, .plain fun rest n hpath hn hread => h ⟨rest, n, hpath, hn, hread⟩⟩

/-- The rest is what the lookup leaves of a path. -/
theorem WithoutTrack.stripTrack (h : WithoutTrack path rest) :
    (stripTrack path).2 = rest.length ∧ rest <+: path := by
  have hsix : (str "/track").length = 6 := rfl
  cases h with
  | @track _ n hpath hn hread =>
    have hslash : SLASH ∉ str "track" ++ n := by
      rw [List.mem_append, not_or]
      exact ⟨by decide, hn⟩
    have hsplit : path = rest ++ SLASH :: (str "track" ++ n) := hpath
    have hdrop : path.drop (rest.length + 6) = n := by
      rw [hpath, List.drop_length_add_append, List.drop_left' hsix]
    have hprefix : strnEq (path.drop rest.length) (str "/track") 6 = true := by
      rw [hpath, List.drop_left, strnEq, List.take_left' hsix]
      rfl
    refine ⟨?_, hpath ▸ List.prefix_append _ _⟩
    rw [Spook.stripTrack, hsplit, strrchr_append_cons rest hslash, ← hsplit]
    dsimp only
    rw [if_pos hprefix, hdrop, if_pos hread, List.length_drop]
    have hle : rest.length ≤ path.length := by
      rw [hsplit, List.length_append]
      exact Nat.le_add_right _ _
    omega
  | plain hno =>
    refine ⟨?_, List.prefix_rfl⟩
    unfold Spook.stripTrack
    rcases hc : strrchr SLASH path with _ | c
    · rfl
    · dsimp only
      by_cases hprefix : strnEq (path.drop c) (str "/track") 6 = true
      · rw [if_pos hprefix, if_neg]
        obtain ⟨-, hlast⟩ := strrchr_split hc
        have htake : (path.drop c).take 6 = str "/track" := beq_iff_eq.1 hprefix
        have hpath : path = path.take c ++ (str "/track" ++ path.drop (c + 6)) := by
          rw [← htake, ← List.drop_drop, List.take_append_drop, List.take_append_drop]
        refine hno _ _ hpath fun hmem => hlast ?_
        rw [show c + 6 = (c + 1) + 5 from rfl, ← List.drop_drop] at hmem
        exact List.mem_of_mem_drop hmem
      · rw [if_neg hprefix]

/-- A text fits if it is short enough without a slash at its end. -/
theorem pathFits_iff : PathFits text ↔ stripSlash text text.length < pathSize := by
  rw [PathFits, stripSlash, List.getLast?_eq_getElem?]
  have hsize : pathSize = 256 := rfl
  split_ifs with h
  · rw [h.2]
    simp only [and_true]
    omega
  · refine ⟨fun hfit => hfit.elim id fun ⟨hlen, hlast⟩ => absurd ⟨by omega, hlast⟩ h, .inl⟩

/-- The locations that match a whole path. -/
theorem locationMatches_whole {loc : Bytes} :
    locationMatches path (stripSlash path path.length) loc = true ↔ Serves path loc := by
  rw [locationMatches_at stripSlash_le (boundary_stripSlash path), Serves, stripSlash]
  by_cases h : 1 < path.length ∧ path[path.length - 1]? = some SLASH
  · obtain ⟨init, rfl⟩ : ∃ init, path = init ++ [SLASH] := by
      rw [← List.getLast?_eq_getElem?] at h
      exact ⟨_, (List.dropLast_append_getLast? SLASH h.2).symm⟩
    have hne : init ≠ [] := by
      rintro rfl
      exact absurd h.1 (by simp)
    rw [if_pos h, show (init ++ [SLASH]).length - 1 = init.length by simp, List.take_left,
      List.prefix_concat_iff]
    constructor
    · rintro ⟨hle, rfl | hge⟩
      · exact .inl rfl
      · obtain rfl := hge.eq_of_length (le_antisymm hge.length_le hle.length_le)
        exact .inr ⟨hne, rfl⟩
    · rintro (rfl | ⟨-, heq⟩)
      · exact ⟨List.prefix_append _ _, .inl rfl⟩
      · obtain rfl := List.append_cancel_right heq
        exact ⟨List.prefix_rfl, .inr List.prefix_rfl⟩
  · rw [if_neg h, List.take_length]
    constructor
    · rintro ⟨hle, hge⟩
      exact .inl (hge.eq_of_length (le_antisymm hge.length_le hle.length_le))
    · rintro (rfl | ⟨hne, rfl⟩)
      · exact ⟨List.prefix_rfl, List.prefix_rfl⟩
      · refine absurd ⟨?_, ?_⟩ h
        · have := List.length_pos_iff.2 hne
          simp only [List.length_append, List.length_singleton]
          omega
        · simp

/-- What is left of a path, of which the track may be taken off. -/
def Rest (track : Bool) (path rest : Bytes) : Prop :=
  if track then WithoutTrack path rest else rest = path

/-- The part of a path that is looked up fits if the rest does. -/
theorem servedLength_fits (track : Bool) (path : Bytes) :
    servedLength track path < pathSize ↔ ∀ rest, Rest track path rest → PathFits rest := by
  have hrest : ∀ rest, Rest track path rest →
      servedLength track path = stripSlash rest rest.length := by
    intro rest h
    cases track with
    | false =>
      obtain rfl : rest = path := h
      rfl
    | true =>
      obtain ⟨hlen, b, rfl⟩ := WithoutTrack.stripTrack h
      rw [servedLength, if_pos rfl, hlen, stripSlash_append]
  obtain ⟨rest, h⟩ : ∃ rest, Rest track path rest := by
    cases track with
    | false => exact ⟨path, rfl⟩
    | true => exact exists_withoutTrack path
  constructor
  · intro hlt rest' h'
    rwa [pathFits_iff, ← hrest rest' h']
  · intro hfit
    rw [hrest rest h, ← pathFits_iff]
    exact hfit rest h

/-- **The lookup** stays within its array exactly if the text that is left of the path in the URI
fits. -/
theorem lookup_fits_iff (h : IsRtsp uri) (locs : List Bytes) (track : Bool) :
    findRtspLocation locs uri (some pathSize) track ≠ .error .overrun ↔
      ∀ rest, Rest track (uriPath uri) rest → PathFits rest := by
  have hlookup : ∀ path, getLocalPath uri = some path →
      (findRtspLocation locs uri (some pathSize) track ≠ .error .overrun ↔
        servedLength track path < pathSize) := by
    intro path hpath
    by_cases hlt : servedLength track path < pathSize
    · simp [findRtspLocation_fits hpath locs hlt, hlt]
    · simp [findRtspLocation_long hpath locs hlt, hlt]
  rw [hlookup _ (getLocalPath_eq h)]
  by_cases hnil : uriPath uri = []
  · -- the root is short, and so is what is left of no path at all
    rw [if_pos hnil, hnil, ← servedLength_fits]
    cases track <;> decide +kernel
  · rw [if_neg hnil, servedLength_fits]

/-- A URI of another scheme is not looked up. -/
theorem lookup_other (h : ¬ IsRtsp uri) (locs : List Bytes) (base : Option ℕ) (track : Bool) :
    findRtspLocation locs uri base track = .ok ⟨none, none, none⟩ := by
  have hs : ¬ strnCaseEq uri (str "rtsp://") 7 = true := h
  rw [findRtspLocation, getLocalPath, if_neg hs]

end Fits

/-! ## The requests -/

section Requests

variable {locs : List Bytes} {req : Pmsg} {uri : Bytes} {described : Bool}

/-- The path that a URI names, which is the root if it names none. -/
def localPath (uri : Bytes) : Bytes := if uriPath uri = [] then [SLASH] else uriPath uri

/-- The URI has a path that the arrays of the handlers hold: of all of it for `DESCRIBE` and
`ANNOUNCE`, of what is left without the track for `SETUP`. -/
def LookupFits (track : Bool) (uri : Bytes) : Prop :=
  IsRtsp uri → ∀ rest, Rest track (uriPath uri) rest → PathFits rest

/-- The URI and a slash fit the array for the base if a description is sent. -/
def BaseFits (locs : List Bytes) (described : Bool) (uri : Bytes) : Prop :=
  IsRtsp uri → described = true → (∃ loc ∈ locs, Serves (localPath uri) loc) → uri.length + 1 < 512

/-- A result is no fault. -/
theorem pure_ne_error {α : Type} (a : α) (e : Fault) : (pure a : Except Fault α) ≠ .error e :=
  show Except.ok a ≠ Except.error e from nofun

/-- The lookup of any request. -/
theorem lookup_fits (locs : List Bytes) (uri : Bytes) (track : Bool) :
    findRtspLocation locs uri (some pathSize) track ≠ .error .overrun ↔ LookupFits track uri := by
  by_cases h : IsRtsp uri
  · rw [lookup_fits_iff h, LookupFits, forall_prop_of_true h]
  · rw [lookup_other h]
    exact ⟨fun _ hs => absurd hs h, fun _ => by simp⟩

/-- The lookup of a whole path, where it fits, finds a location if one serves the path. -/
theorem lookup_whole (hfit : LookupFits false uri) :
    ∃ found, findRtspLocation locs uri (some pathSize) false = .ok found ∧
      (found.loc.isSome = true ↔ IsRtsp uri ∧ ∃ loc ∈ locs, Serves (localPath uri) loc) := by
  by_cases h : IsRtsp uri
  · have hpath : getLocalPath uri = some (localPath uri) := getLocalPath_eq h
    have hlt : servedLength false (localPath uri) < pathSize := by
      by_contra hlt
      exact (lookup_fits locs uri false).2 hfit (findRtspLocation_long hpath locs hlt)
    refine ⟨_, findRtspLocation_fits hpath locs hlt, ?_⟩
    rw [nodeFindLocation, List.findIdx?_isSome, List.any_eq_true]
    simp only [h, true_and]
    exact exists_congr fun loc => and_congr_right fun _ => locationMatches_whole
  · rw [lookup_other h]
    exact ⟨_, rfl, by simp [h]⟩

/-- The reply of `handle_DESCRIBE` stays within its array if the URI and a slash fit. -/
theorem describeReply_fits (hreq : req.Wf) :
    describeReply req uri ≠ .error .overrun ↔ uri.length + 1 < 512 := by
  obtain ⟨m, hm, hwf, -⟩ := rtspCreateReply_takes hreq 200
    (show NulFree (str "OK") by decide +kernel) (by decide)
  rw [describeReply, hm, ok_bind]
  by_cases hlen : uri.length + 1 < 512
  · obtain ⟨m', hm', -⟩ := addHeaders_takes hwf
      [(str "Content-Base", uri ++ str "/"), (str "Content-Type", str "application/sdp")]
    rw [if_pos hlen, hm']
    simp [hlen]
  · rw [if_neg hlen]
    simp [hlen, throw, throwThe, MonadExceptOf.throw]

/-- The URI of a request that was parsed. -/
theorem parsePmsg_uri {m : Pmsg} {r : ℤ} (hp : req.parsePmsg = .ok (m, r)) (hr : 0 ≤ r)
    (htype : m.type = .req) : ∃ uri, m.uri = .ok uri := by
  obtain ⟨e, -, ⟨-, -, ⟨p, hp⟩, -⟩ | ⟨hresp, -⟩⟩ := Pmsg.parsePmsg_words hp hr
  · exact ⟨_, by rw [Pmsg.uri, hp]⟩
  · rw [hresp] at htype
    cases htype

/-- **The buffers of the handlers.** For every request that is parsed, `ANNOUNCE` stays within
its array for the path exactly if the path of the URI fits, `SETUP` exactly if it fits without the
track, and `DESCRIBE` within both of its arrays exactly if the path fits and, where it sends a
description, the URI and a slash do. -/
theorem buffers_hold_iff {b : Bytes} {m : Pmsg} {r : ℤ}
    (hp : (received b).parsePmsg = .ok (m, r)) (hr : 0 ≤ r) (htype : m.type = .req)
    (locs : List Bytes) (described : Bool) :
    ∃ uri, m.uri = .ok uri ∧
      (describeRequest locs m described ≠ .error .overrun ↔
        LookupFits false uri ∧ BaseFits locs described uri) ∧
      (announceRequest locs m ≠ .error .overrun ↔ LookupFits false uri) ∧
      (setupRequest locs m ≠ .error .overrun ↔ LookupFits true uri) := by
  obtain ⟨uri, huri⟩ := parsePmsg_uri hp hr htype
  have hwf : m.Wf := wf_of_parsed hp
  refine ⟨uri, huri, ?_, ?_, ?_⟩
  · rw [describeRequest, huri, ok_bind]
    by_cases hfit : LookupFits false uri
    · obtain ⟨found, hfound, hsome⟩ := @lookup_whole locs uri hfit
      rw [hfound, ok_bind]
      rcases hloc : found.loc with _ | l
      · rw [hloc] at hsome
        have hno : ¬ (IsRtsp uri ∧ ∃ loc ∈ locs, Serves (localPath uri) loc) := by simp [← hsome]
        exact ⟨fun _ => ⟨hfit, fun h _ hs => absurd ⟨h, hs⟩ hno⟩, fun _ => pure_ne_error _ _⟩
      · rw [hloc] at hsome
        obtain ⟨hs, hserved⟩ := hsome.1 rfl
        cases described with
        | false => exact ⟨fun _ => ⟨hfit, fun _ h => by cases h⟩, fun _ => pure_ne_error _ _⟩
        | true =>
          have hbase : BaseFits locs true uri ↔ uri.length + 1 < 512 :=
            ⟨fun h => h hs rfl hserved, fun h _ _ _ => h⟩
          rw [hbase, ← describeReply_fits hwf, and_iff_right hfit]
          rcases describeReply m uri with e | m' <;> simp
    · have hover : findRtspLocation locs uri (some pathSize) false = .error .overrun :=
        not_not.1 fun h => hfit ((lookup_fits locs uri false).1 h)
      rw [hover]
      exact ⟨fun h => absurd rfl h, fun h => absurd h.1 hfit⟩
  · rw [announceRequest, huri, ok_bind, ← lookup_fits locs uri false]
    rcases findRtspLocation locs uri (some pathSize) false with e | found
    · simp
    · exact ⟨fun _ => by simp, fun _ => pure_ne_error _ _⟩
  · rw [setupRequest, huri, ok_bind, ← lookup_fits locs uri true]
    rcases findRtspLocation locs uri (some pathSize) true with e | ⟨_ | l, _ | track, base⟩
    · simp
    · exact ⟨fun _ => by simp, fun _ => pure_ne_error _ _⟩
    · exact ⟨fun _ => by simp, fun _ => pure_ne_error _ _⟩
    · exact ⟨fun _ => by simp, fun _ => pure_ne_error _ _⟩
    · refine ⟨fun _ => by simp, fun _ => ?_⟩
      rw [ok_bind]
      dsimp only
      split_ifs
      · exact pure_ne_error _ _
      · exact pure_ne_error _ _

/-- A request whose URI has a path of `n` more bytes. -/
def pathRequest (n : ℕ) : Bytes :=
  str "DESCRIBE rtsp://h/" ++ List.replicate n 97 ++ str " RTSP/1.0\r\n\r\n"

/-- A request that is accepted, and what is asked of it. -/
def acceptedWith (b : Bytes) (p : Pmsg → Bool) : Bool :=
  match (received b).parsePmsg with
  | .ok (m, r) => decide (0 ≤ r) && decide (m.type = .req) && p m
  | .error _ => false

/-- What is asked of an accepted request holds of the message. -/
theorem of_acceptedWith {b : Bytes} {p : Pmsg → Bool} (h : acceptedWith b p = true) :
    ∃ m r, (received b).parsePmsg = .ok (m, r) ∧ 0 ≤ r ∧ m.type = .req ∧ p m = true := by
  unfold acceptedWith at h
  rcases hp : (received b).parsePmsg with e | ⟨m, r⟩
  · rw [hp] at h
    cases h
  · rw [hp] at h
    simp only [Bool.and_eq_true, decide_eq_true_eq] at h
    exact ⟨m, r, rfl, h.1.1, h.1.2, h.2⟩

/-- A request with a short path. -/
theorem buffers_hold_short :
    ∃ m uri, m.uri = .ok uri ∧
      (describeRequest [str "/aaa"] m true ≠ .error .overrun ↔
        LookupFits false uri ∧ BaseFits [str "/aaa"] true uri) := by
  obtain ⟨m, r, hp, hr, htype, -⟩ := of_acceptedWith
    (show acceptedWith (pathRequest 3) (fun _ => true) = true by decide +kernel)
  obtain ⟨uri, huri, hd, -⟩ := buffers_hold_iff hp hr htype [str "/aaa"] true
  exact ⟨m, uri, huri, hd⟩

/-- A request that fits the request buffer and whose path is a byte longer than the array for it:
each of the three handlers writes behind the array. -/
theorem buffers_overrun :
    (pathRequest 256).length < 4096 ∧
      ∃ m r, (received (pathRequest 256)).parsePmsg = .ok (m, r) ∧ 0 ≤ r ∧ m.type = .req ∧
        describeRequest [] m false = .error .overrun ∧ announceRequest [] m = .error .overrun ∧
          setupRequest [] m = .error .overrun := by
  refine ⟨by decide +kernel, ?_⟩
  obtain ⟨m, r, hp, hr, htype, hfault⟩ := of_acceptedWith
    (show acceptedWith (pathRequest 256) (fun m =>
      decide (faultOf (describeRequest [] m false) = some .overrun) &&
        decide (faultOf (announceRequest [] m) = some .overrun) &&
          decide (faultOf (setupRequest [] m) = some .overrun)) = true by decide +kernel)
  simp only [Bool.and_eq_true, decide_eq_true_eq] at hfault
  exact ⟨m, r, hp, hr, htype, of_faultOf hfault.1.1, of_faultOf hfault.1.2, of_faultOf hfault.2⟩

end Requests

end Spook
