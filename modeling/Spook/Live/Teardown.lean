import Spook.Live.Play

set_option relaxedAutoImplicit false
set_option autoImplicit false

/-!
# TEARDOWN of a track

`handle_TEARDOWN` looks the endpoint of the track up in the session and hands it to `live_teardown`,
for which a null pointer stands for all tracks. A track that the session has no endpoint on gives a
null pointer too, so that its TEARDOWN takes the other tracks along.

## Main definitions

* `Spook.Server.OfTrack`, `Server.Frees` — the endpoints of a track, and the one that goes with it.
* `Spook.OthersKept` — a request removes at most the endpoint of one track.
* `Spook.FramesTeardown` — the session has an endpoint on the track, and on no other track the same.

## Main results

* `Spook.Emptied.single` — `live_teardown` of an endpoint that the session has once.
* `Spook.teardown_frame_iff` — which TEARDOWN of a track leaves the others alone.
-/

namespace Spook

/-- The endpoint `e` is one of the track number `j`: the session holds it, or the track shares
it. -/
def Server.OfTrack (s : Server) (S : Session) (j e : ℕ) : Prop :=
  S.ep j = some e ∨
    ∃ t, (s.entries S.liventry).tracklist j = some t ∧ (s.tracks t).rtp = some (.endpoint e)

/-- The endpoint `e` is deleted when the slot `j` of the session `p` is freed: a unicast endpoint
with its slot, and the endpoint of a multicast track when the track does not play any more. -/
def Server.Frees (mc : Bool) (s : Server) (p j : ℕ) (S : Session) (e : ℕ) : Prop :=
  mc = false ∧ S.ep j = some e ∨
    mc = true ∧ ∃ t, (s.entries S.liventry).tracklist j = some t ∧
      (s.tracks t).rtp = some (.endpoint e) ∧ ¬ (s.setSlot p j S none).Plays t

/-- From `s` to `s'` the session loses at most the endpoint of its track number `j`. The other
endpoints and sessions are as they were, and so is what else there is of the session, if it has an
endpoint on another track. -/
structure OthersKept (j : ℕ) (rs : RtspSession) (S : Session) (s s' : Server) : Prop where
  sessions : ∀ p, p ≠ rs.sess → s'.sessions p = s.sessions p
  endpoints : ∀ e, ¬ s.OfTrack S j e → s'.endpoints e = s.endpoints e
  slots : ∀ i e, i ≠ j → S.ep i = some e → s'.endpoints e = s.endpoints e
  session : ∀ i, i ≠ j → S.ep i ≠ none → rs ∈ s'.rtspSessList ∧
    ∃ S', s'.sessions rs.sess = some S' ∧ S'.liventry = S.liventry ∧ S'.playing = S.playing ∧
      ∀ i, i ≠ j → S'.ep i = S.ep i

/-- The session `p` has an endpoint on its track number `j`, or none at all, and none of its other
tracks has that endpoint or the one that goes with the track. -/
structure FramesTeardown (mc : Bool) (s : Server) (p j : ℕ) (S : Session) : Prop where
  present : S.ep j = none → ∀ i, S.ep i = none
  spared : ∀ i e, i ≠ j → S.ep i = some e → S.ep j ≠ some e ∧ ¬ s.Frees mc p j S e

section Teardown

variable {mc : Bool} {p j : ℕ} {s s' : Server} {S S' : Session}

/-! ## One slot -/

/-- What goes with a slot depends on sessions, entries and tracks only. -/
theorem Server.frees_congr (hsessions : s'.sessions = s.sessions) (hentries : s'.entries = s.entries)
    (htracks : s'.tracks = s.tracks) (e : ℕ) : s'.Frees mc p j S e ↔ s.Frees mc p j S e := by
  unfold Frees Plays setSlot
  rw [hsessions, hentries, htracks]

/-- What goes with a track is of the track. -/
theorem Server.Frees.ofTrack {e : ℕ} (h : s.Frees mc p j S e) : s.OfTrack S j e := by
  rcases h with ⟨-, he⟩ | ⟨-, t, ht, hrtp, -⟩
  · exact .inl he
  · exact .inr ⟨t, ht, hrtp⟩

/-- What is deleted with a slot is gone, and everything else is as it was. -/
def Freed (mc : Bool) (p j : ℕ) (S : Session) (s s' : Server) : Prop :=
  ∀ e, s.Frees mc p j S e ∧ s.endpoints e ≠ none ∧ s'.endpoints e = none ∨
    ¬ s.Frees mc p j S e ∧ s'.endpoints e = s.endpoints e

/-- An endpoint goes with a slot. -/
theorem freed_of_delete {e : ℕ} {E : Endpoint} (hE : s.endpoints e = some E)
    (hendpoints : s'.endpoints = Function.update s.endpoints e none)
    (h : ∀ e', s.Frees mc p j S e' ↔ e' = e) : Freed mc p j S s s' := by
  intro e'
  by_cases he : e' = e
  · refine .inl ⟨(h e').2 he, ?_, ?_⟩
    · simp [he, hE]
    · rw [hendpoints, he, Function.update_self]
  · refine .inr ⟨fun hfree => he ((h e').1 hfree), ?_⟩
    rw [hendpoints, Function.update_of_ne he]

/-- The endpoint of a unicast slot. -/
theorem Server.frees_unicast {x : ℕ} (hmc : mc = false) (hx : S.ep j = some x) (e : ℕ) :
    s.Frees mc p j S e ↔ e = x := by
  unfold Frees
  rw [hmc, hx]
  simp [eq_comm]

/-- The removal of an endpoint that the session has on one track only. -/
theorem Change.removed_only {x : ℕ} (h : Change mc (.removed p x) s s')
    (hS : s.sessions p = some S) (honly : ∀ i, S.ep i = some x → i = j) :
    s'.sessions = Function.update s.sessions p (some { S with ep := Function.update S.ep j none }) ∧
      Freed mc p j S s s' := by
  cases h with
  | @removed _ _ i t _ S₁ E hmc hS₁ hx _ hE =>
    obtain rfl : S₁ = S := Option.some.inj (hS₁.symm.trans hS)
    obtain rfl := honly i hx
    exact ⟨rfl, freed_of_delete hE rfl (Server.frees_unicast hmc hx)⟩
  | @removedLast _ _ i t _ S₁ E hmc hS₁ hx _ hE =>
    obtain rfl : S₁ = S := Option.some.inj (hS₁.symm.trans hS)
    obtain rfl := honly i hx
    exact ⟨rfl, freed_of_delete hE rfl (Server.frees_unicast hmc hx)⟩
  | @left _ _ i t _ S₁ hmc hS₁ hx ht hplays =>
    obtain rfl : S₁ = S := Option.some.inj (hS₁.symm.trans hS)
    obtain rfl := honly i hx
    refine ⟨rfl, fun e => .inr ⟨?_, rfl⟩⟩
    rintro (⟨hmc', -⟩ | ⟨-, t', ht', -, hno⟩)
    · exact absurd (hmc.symm.trans hmc') (by simp)
    · obtain rfl := Option.some.inj (ht.symm.trans ht')
      exact hno hplays
  | @leftLast _ _ i t _ e' S₁ E hmc hS₁ hx ht hplays hrtp hE =>
    obtain rfl : S₁ = S := Option.some.inj (hS₁.symm.trans hS)
    obtain rfl := honly i hx
    refine ⟨rfl, freed_of_delete hE rfl fun e => ⟨?_, ?_⟩⟩
    · rintro (⟨hmc', -⟩ | ⟨-, t', ht', hrtp', -⟩)
      · exact absurd (hmc.symm.trans hmc') (by simp)
      · obtain rfl := Option.some.inj (ht.symm.trans ht')
        simpa using hrtp'.symm.trans hrtp
    · rintro rfl
      exact .inr ⟨hmc, t, ht, hrtp, hplays⟩

/-! ## `live_teardown` -/

/-- Nothing is removed from a session that has no endpoints. -/
theorem Emptied.nothing {ep : Option ℕ} (h : Emptied mc p ep S S' s s')
    (hnone : ∀ i, S.ep i = none) : Alike s s' := by
  refine h.steps.keeps (I := Alike s) (refl s) (fun _ _ hs ha => Trans.trans hs ha)
    fun k hk s₁ s₂ hs hc => ?_
  obtain ⟨e, rfl, -⟩ := hk
  obtain ⟨S₁, i, hS₁, hi, -⟩ := hc.removed_slot
  rw [hs.sessions] at hS₁
  obtain rfl := Option.some.inj (h.before.symm.trans hS₁)
  rw [hnone] at hi
  cases hi

/-- **One endpoint.** `live_teardown` of an endpoint that the session has on the track number `j`
only frees its slot, and nothing else. -/
theorem Emptied.single {x : ℕ} (h : Emptied mc p (some x) S S' s s') (hs : Playable s)
    (hx : S.ep j = some x) (honly : ∀ i, S.ep i = some x → i = j) :
    S' = { S with ep := Function.update S.ep j none } ∧ Freed mc p j S s s' := by
  -- the slot is as it was, or it is free and cannot be removed again
  have hend : Alike s s' ∨ s'.sessions p = some { S with ep := Function.update S.ep j none } ∧
      Freed mc p j S s s' := by
    refine h.steps.keeps (I := fun s₁ => Alike s s₁ ∨
      s₁.sessions p = some { S with ep := Function.update S.ep j none } ∧ Freed mc p j S s s₁)
      (.inl (refl s)) (fun s₁ s₂ hs₁ ha => ?_) fun k hk s₁ s₂ hs₁ hc => ?_
    · rcases hs₁ with hs₁ | ⟨hfree, hfreed⟩
      · exact .inl (Trans.trans hs₁ ha)
      · refine .inr ⟨?_, fun e => ?_⟩
        · rw [ha.sessions]
          exact hfree
        · rw [ha.endpoints]
          exact hfreed e
    · obtain ⟨e, rfl, he | he⟩ := hk
      · cases he
      obtain rfl := Option.some.inj he
      rcases hs₁ with hs₁ | ⟨hfree, -⟩
      · have hS₁ : s₁.sessions p = some S := by
          rw [hs₁.sessions]
          exact h.before
        obtain ⟨hsessions, hfreed⟩ := hc.removed_only hS₁ honly
        refine .inr ⟨?_, fun e => ?_⟩
        · rw [hsessions, Function.update_self]
        · have hone := hfreed e
          rwa [Server.frees_congr hs₁.sessions hs₁.entries hs₁.tracks, hs₁.endpoints] at hone
      · obtain ⟨S₁, i, hS₁, hi, -⟩ := hc.removed_slot
        obtain rfl := Option.some.inj (hfree.symm.trans hS₁)
        dsimp only at hi
        rw [Function.update_apply] at hi
        split_ifs at hi with hij
        exact absurd (honly i hi) hij
  rcases hend with halike | ⟨hfree, hfreed⟩
  · obtain ⟨hj, hreach⟩ := hs.reaches h.before (j := j) (by simp [hx])
    have hclear := h.cleared j hj hreach (.inr hx)
    have hafter := h.after
    rw [halike.sessions] at hafter
    obtain rfl := Option.some.inj (h.before.symm.trans hafter)
    rw [hx] at hclear
    cases hclear
  · exact ⟨Option.some.inj (h.after.symm.trans hfree), hfreed⟩

/-- What `live_teardown` leaves of the endpoints and of the other sessions. -/
theorem TornDown.emptied {ep : Option ℕ} (h : TornDown mc p ep s s')
    (hS : s.sessions p = some S) : ∃ S' s₁, Emptied mc p ep S S' s s₁ ∧
      s'.endpoints = s₁.endpoints ∧ (∀ p', p' ≠ p → s'.sessions p' = s.sessions p') ∧
      (s' = s₁ ∧ ep ≠ none ∨ s'.sessions p = none ∧
        ∀ i < maxTracks, s₁.Reaches S'.liventry i → S'.ep i = none) := by
  cases h with
  | @kept S₁ S' _ hempty hmore =>
    obtain rfl := Option.some.inj (hS.symm.trans hempty.before)
    exact ⟨S', s', hempty, rfl, fun p' hp => hempty.others hp, .inl ⟨rfl, fun h => hmore (.inl h)⟩⟩
  | @closed S₁ S' s₁ hempty hend =>
    obtain rfl := Option.some.inj (hS.symm.trans hempty.before)
    refine ⟨S', s₁, hempty, rfl, fun p' hp => ?_, .inr ⟨Function.update_self .., hend⟩⟩
    rw [← hempty.others hp]
    exact Function.update_of_ne hp ..

variable {rs : RtspSession}

/-- The TEARDOWN of a track that the session has an endpoint on. -/
theorem FramesTeardown.othersKept (h : FramesTeardown mc s rs.sess j S) (hs : Playable s)
    (hrs : rs ∈ s.rtspSessList) (hS : s.sessions rs.sess = some S)
    (hdown : TornDown mc rs.sess (S.ep j) s s') : OthersKept j rs S s s' := by
  obtain ⟨S', s₁, hempty, hendpoints, hothers, hend⟩ := hdown.emptied hS
  cases hx : S.ep j with
  | none =>
    have hnone := h.present hx
    have halike := hempty.nothing hnone
    refine ⟨hothers, fun e _ => ?_, fun i e _ he => ?_, fun i _ hi => absurd (hnone i) hi⟩
    · rw [hendpoints, halike.endpoints]
    · rw [hnone] at he
      cases he
  | some x =>
    rw [hx] at hempty
    have honly : ∀ i, S.ep i = some x → i = j := by
      intro i hi
      by_contra hij
      exact (h.spared i x hij hi).1 hx
    obtain ⟨hS', hfreed⟩ := hempty.single hs hx honly
    have hkept : ∀ e, ¬ s.Frees mc rs.sess j S e → s'.endpoints e = s.endpoints e := by
      intro e he
      rw [hendpoints]
      rcases hfreed e with hone | hone
      · exact absurd hone.1 he
      · exact hone.2
    have hslot : ∀ i, i ≠ j → S'.ep i = S.ep i := by
      intro i hij
      rw [hS']
      exact Function.update_of_ne hij ..
    refine ⟨hothers, fun e he => hkept e fun hfree => he hfree.ofTrack,
      fun i e hij he => hkept e (h.spared i e hij he).2, fun i hij hi => ?_⟩
    rcases hend with ⟨rfl, -⟩ | ⟨-, hend⟩
    · refine ⟨?_, S', hempty.after, ?_, ?_, hslot⟩
      · rw [hempty.fewer.rtspSessList]
        exact hrs
      · rw [hS']
      · rw [hS']
    · -- the session would not be closed with an endpoint on the track `i`
      obtain ⟨hrange, hreach⟩ := hs.reaches hS hi
      have hgone := hend i hrange <| by
        rw [hempty.sessionFewer.liventry]
        exact (hempty.fewer.reaches _ _).2 hreach
      rw [hslot i hij] at hgone
      exact absurd hgone hi

/-- A TEARDOWN that leaves the other tracks alone. -/
theorem OthersKept.framesTeardown (h : OthersKept j rs S s s') (hs : Playable s)
    (hS : s.sessions rs.sess = some S) (hdown : TornDown mc rs.sess (S.ep j) s s') :
    FramesTeardown mc s rs.sess j S := by
  obtain ⟨S', s₁, hempty, hendpoints, -, hend⟩ := hdown.emptied hS
  -- with an endpoint on another track the session stays
  have hstays : ∀ i, i ≠ j → S.ep i ≠ none → s' = s₁ ∧ S.ep j ≠ none ∧ S'.ep i = S.ep i := by
    intro i hij hi
    obtain ⟨-, S₂, hS₂, -, -, hslots⟩ := h.session i hij hi
    rcases hend with ⟨rfl, hne⟩ | ⟨hgone, -⟩
    · obtain rfl := Option.some.inj (hempty.after.symm.trans hS₂)
      exact ⟨rfl, hne, hslots i hij⟩
    · rw [hgone] at hS₂
      cases hS₂
  have hne : ∀ i e, i ≠ j → S.ep i = some e → S.ep j ≠ some e := by
    intro i e hij hi hj
    have hi' : S.ep i ≠ none := by simp [hi]
    obtain ⟨-, -, hslot⟩ := hstays i hij hi'
    obtain ⟨hrange, hreach⟩ := hs.reaches hS hi'
    have hclear := hempty.cleared i hrange hreach (.inr (hi.trans hj.symm))
    exact hi' (hslot.symm.trans hclear)
  refine ⟨fun hj i => ?_, fun i e hij hi => ⟨hne i e hij hi, fun hfree => ?_⟩⟩
  · by_contra hi
    have hij : i ≠ j := by
      rintro rfl
      exact hi hj
    exact (hstays i hij hi).2.1 hj
  · obtain ⟨-, hj, -⟩ := hstays i hij (by simp [hi])
    obtain ⟨x, hx⟩ := Option.ne_none_iff_exists'.1 hj
    rw [hx] at hempty
    have honly : ∀ i, S.ep i = some x → i = j := by
      intro i hi
      by_contra hij
      exact hne i x hij hi hx
    have hsame : s₁.endpoints e = s.endpoints e := by
      rw [← hendpoints]
      exact h.slots i e hij hi
    rcases (hempty.single hs hx honly).2 e with ⟨-, hthere, hgone⟩ | ⟨hno, -⟩
    · exact hthere (hsame.symm.trans hgone)
    · exact hno hfree

/-- What is done besides does not matter. -/
theorem OthersKept.congr {s₁ : Server} (ha : Alike s₁ s') :
    OthersKept j rs S s s' ↔ OthersKept j rs S s s₁ := by
  refine ⟨fun h => ?_, fun h => ?_⟩
  · exact ⟨fun p => ha.sessions ▸ h.sessions p, fun e => ha.endpoints ▸ h.endpoints e,
      fun i => ha.endpoints ▸ h.slots i, fun i => ha.sessions ▸ ha.rtspSessList ▸ h.session i⟩
  · exact ⟨fun p => ha.sessions.symm ▸ h.sessions p, fun e => ha.endpoints.symm ▸ h.endpoints e,
      fun i => ha.endpoints.symm ▸ h.slots i,
      fun i => ha.sessions.symm ▸ ha.rtspSessList.symm ▸ h.session i⟩

/-! ## The request -/

variable {c : ℕ} {r : Reply} {loc : Option ℕ} {track : ℤ} {id : Option Bytes}

/-- `handle_TEARDOWN` of a track, of a session that is there. -/
theorem wp_handleTeardown_track (hloc : (s.location loc).isSome) (hlow : 0 ≤ track)
    (hhigh : track < maxTracks) (hrs : s.rtspSession id = some rs)
    (hS : s.sessions rs.sess = some S) :
    wp (handleTeardown mc c r loc track id)
      (fun _ s' => ∃ s₁, TornDown mc rs.sess (S.ep track.toNat) s s₁ ∧ Alike s₁ s')
      (fun _ => True) s := by
  obtain ⟨l, hl⟩ := Option.isSome_iff_exists.1 hloc
  unfold handleTeardown
  rw [wp_bind, wp_findLocation, hl]
  dsimp only
  rw [wp_ite]
  refine ⟨fun hover => ?_, fun _ => ?_⟩
  · omega
  rw [wp_bind, wp_getRtspSession, hrs]
  dsimp only
  rw [wp_bind, wp_getSession]
  refine ⟨fun S₁ hS₁ => ?_, fun _ => trivial⟩
  obtain rfl := Option.some.inj (hS.symm.trans hS₁)
  rw [if_neg (by omega)]
  refine (wp_liveTeardown rs.sess _).seq fun _ s₁ h => ?_
  exact (wp_rtspAnswer c r 200 s₁).imp fun code s' h' => ⟨s₁, h, h'.2⟩

/-- Without a location nothing is done. -/
theorem wp_handleTeardown_unlocated (hloc : s.location loc = none) :
    wp (handleTeardown mc c r loc track id) (fun _ s' => Alike s s') (fun _ => True) s := by
  unfold handleTeardown
  rw [wp_bind, wp_findLocation, hloc]
  exact (wp_rtspAnswer c r 404 s).imp fun _ _ h => h.2

/-- **A TEARDOWN of one track** of a session removes at most the endpoint of that track if and only
if its URI names no location, or the session has an endpoint on the track and on no other track the
same, or has no endpoint at all. -/
theorem teardown_frame_iff {blocks : List (List ConfigLine)} {G : Server → ServerAct → Prop}
    {d : Bytes} {env : ReadEnv} {code : Option ℕ} (hs : (liveMachine mc blocks).Reachable G s)
    (h : Handles mc s c d env (.teardown loc track id) code s') (hlow : 0 ≤ track)
    (hhigh : track < maxTracks) (hrs : s.rtspSession id = some rs)
    (hS : s.sessions rs.sess = some S) :
    OthersKept track.toNat rs S s s' ↔
      ((s.location loc).isSome → FramesTeardown mc s rs.sess track.toNat S) := by
  obtain ⟨C, -, -, hrun⟩ := h
  have hplay := playable_run hs
  have hmem : rs ∈ s.rtspSessList := by
    obtain ⟨id', -, hfind⟩ := Option.bind_eq_some_iff.1 hrs
    exact List.mem_of_find?_eq_some hfind
  -- the connection has only received the request
  have hplay' : Playable (s.setConn c (C.settled d)) := hplay.of_same rfl rfl rfl rfl
  cases hloc : s.location loc with
  | none =>
    have halike := (wp_handleTeardown_unlocated (s := s.setConn c (C.settled d)) hloc).ok hrun
    refine iff_of_true ((OthersKept.congr halike).2 ?_) fun hl => by simp at hl
    exact ⟨fun _ _ => rfl, fun _ _ => rfl, fun _ _ _ _ => rfl,
      fun i _ _ => ⟨hmem, S, hS, rfl, rfl, fun _ _ => rfl⟩⟩
  | some l =>
    have hl : ((s.setConn c (C.settled d)).location loc).isSome := Option.isSome_iff_exists.2 ⟨l, hloc⟩
    obtain ⟨s₁, hdown, halike⟩ := (wp_handleTeardown_track hl hlow hhigh hrs hS).ok hrun
    have hframe : FramesTeardown mc s rs.sess track.toNat S ↔
        FramesTeardown mc (s.setConn c (C.settled d)) rs.sess track.toNat S :=
      ⟨fun h => ⟨h.present, h.spared⟩, fun h => ⟨h.present, h.spared⟩⟩
    have hkept : OthersKept track.toNat rs S s s₁ ↔
        OthersKept track.toNat rs S (s.setConn c (C.settled d)) s₁ :=
      ⟨fun h => ⟨h.sessions, h.endpoints, h.slots, h.session⟩,
        fun h => ⟨h.sessions, h.endpoints, h.slots, h.session⟩⟩
    rw [OthersKept.congr halike, hframe, hkept]
    refine ⟨fun hkept _ => hkept.framesTeardown hplay' hS hdown, fun hframe => ?_⟩
    exact (hframe (by simp)).othersKept hplay' hmem hS hdown

end Teardown

/-! ## The door and the bell -/

/-- A SETUP of the bell, without a session. -/
def setupBellAlone : RtspRequest :=
  .setup (some 0) 1 true (some (.tcp .any)) none (setupEnv "s")

def setupBellAloneText : Bytes :=
  str "SETUP rtsp://h/door/track1 RTSP/1.0\r\nTransport: RTP/AVP/TCP\r\n\r\n"

/-- A SETUP of the bell in the session of the door. -/
def setupBellToo : RtspRequest :=
  .setup (some 0) 1 true (some (.tcp .any)) (some (str "s")) (setupEnv "")

def setupBellTooText : Bytes :=
  str "SETUP rtsp://h/door/track1 RTSP/1.0\r\nTransport: RTP/AVP/TCP\r\nSession: s\r\n\r\n"

/-- A TEARDOWN of the door. -/
def teardownDoor : RtspRequest := .teardown (some 0) 0 (some (str "s"))

def teardownDoorText : Bytes := str "TEARDOWN rtsp://h/door/track0 RTSP/1.0\r\nSession: s\r\n\r\n"

/-- The session of an id, with its endpoints. -/
def sessionSlots (id : Bytes) (s : Server) : Option (List (Option ℕ)) :=
  (s.rtspSession (some id)).bind fun rs =>
    (s.sessions rs.sess).map fun S => [some rs.sess, S.ep 0, S.ep 1]

/-- What the observation of a run says of the session. -/
theorem of_sessionSlots {id : Bytes} {s : Server} {p : ℕ} {o o' : Option ℕ}
    (h : sessionSlots id s = some [some p, o, o']) : ∃ rs S, rs.sess = p ∧
      s.rtspSession (some id) = some rs ∧ s.sessions rs.sess = some S ∧ S.ep 0 = o ∧
      S.ep 1 = o' := by
  obtain ⟨rs, hrs, h⟩ := Option.bind_eq_some_iff.1 h
  obtain ⟨S, hS, h⟩ := Option.map_eq_some_iff.1 h
  simp only [List.cons.injEq, Option.some.injEq, and_true] at h
  obtain ⟨hp, h₀, h₁⟩ := h
  exact ⟨rs, S, hp, hrs, hS, h₀, h₁⟩

/-- With both of them set up the bell stays. -/
theorem teardown_frame_both : ∃ s code s' rs S, (liveMachine false doorBlocks).Run Machine.anyStep
    [.accept 3, .read 0 setupDoorText (askEnv setupDoor),
      .read 0 setupBellTooText (askEnv setupBellToo)] [] s ∧
    Handles false s 0 teardownDoorText (askEnv teardownDoor) teardownDoor code s' ∧
    s.rtspSession (some (str "s")) = some rs ∧ s.sessions rs.sess = some S ∧ S.ep 0 = some 2 ∧
    S.ep 1 = some 3 ∧ OthersKept 0 rs S s s' := by
  obtain ⟨s, hrun, hs⟩ := Machine.Run.of_exec (M := liveMachine false doorBlocks)
    (G := Machine.anyStep) (fun s : Server => (sessionSlots (str "s") s,
      handleOf (fun code _ => code) false s 0 teardownDoorText teardownDoor)) doorServer_init
    (show ((liveMachine false doorBlocks).exec _ (configured doorBlocks)
      [.accept 3, .read 0 setupDoorText (askEnv setupDoor),
        .read 0 setupBellTooText (askEnv setupBellToo)]).map _ =
      some ([], some [some 1, some 2, some 3], some (some 200)) by decide +kernel)
  rw [Prod.mk.injEq] at hs
  obtain ⟨rs, S, -, hrs, hS, hdoor, hbell⟩ := of_sessionSlots hs.1
  obtain ⟨code, s', hhandles, -⟩ := Handles.of_handleOf hs.2
  refine ⟨s, code, s', _, S, hrun, hhandles, hrs, hS, hdoor, hbell,
    (teardown_frame_iff ⟨_, _, hrun⟩ hhandles (by decide) (by decide) hrs hS).2 fun _ => ?_⟩
  refine ⟨fun hnone => ?_, fun i e hi he => ?_⟩
  · exact absurd (hdoor.symm.trans hnone) (by simp)
  · have hrange := ((playable_run ⟨_, _, hrun⟩).reaches hS (j := i) (by simp [he])).1
    obtain rfl : i = 1 := by
      have hi : i ≠ 0 := hi
      simp only [maxTracks] at hrange
      omega
    obtain rfl := Option.some.inj (hbell.symm.trans he)
    refine ⟨fun h => ?_, fun hfree => ?_⟩
    · exact absurd (hdoor.symm.trans h) (by simp)
    · exact absurd ((Server.frees_unicast rfl hdoor 3).1 hfree) (by simp)

/-- With the bell alone set up it goes with the door. -/
theorem teardown_takes_all : ∃ s code s' rs S,
    (liveMachine false doorBlocks).Run Machine.anyStep
      [.accept 3, .read 0 setupBellAloneText (askEnv setupBellAlone)] [] s ∧
    Handles false s 0 teardownDoorText (askEnv teardownDoor) teardownDoor code s' ∧
    code = some 200 ∧ s.rtspSession (some (str "s")) = some rs ∧ s.sessions rs.sess = some S ∧
    S.ep 0 = none ∧ S.ep 1 = some 2 ∧ s'.sessions rs.sess = none ∧ s'.endpoints 2 = none ∧
    ¬ OthersKept 0 rs S s s' := by
  obtain ⟨s, hrun, hs⟩ := Machine.Run.of_exec (M := liveMachine false doorBlocks)
    (G := Machine.anyStep) (fun s : Server => (sessionSlots (str "s") s,
      handleOf (fun code s' =>
        [code, (s'.sessions 1).map (·.liventry), (s'.endpoints 2).map (·.seqnum)]) false s 0
        teardownDoorText teardownDoor)) doorServer_init
    (show ((liveMachine false doorBlocks).exec _ (configured doorBlocks)
      [.accept 3, .read 0 setupBellAloneText (askEnv setupBellAlone)]).map _ =
      some ([], some [some 1, none, some 2], some [some 200, none, none]) by
        decide +kernel)
  rw [Prod.mk.injEq] at hs
  obtain ⟨rs, S, hp, hrs, hS, hdoor, hbell⟩ := of_sessionSlots hs.1
  obtain ⟨code, s', hhandles, hf⟩ := Handles.of_handleOf hs.2
  simp only [List.cons.injEq, Option.map_eq_none_iff, and_true] at hf
  obtain ⟨hcode, hsession, hendpoint⟩ := hf
  rw [← hp] at hsession
  refine ⟨s, code, s', _, S, hrun, hhandles, hcode, hrs, hS, hdoor, hbell, hsession, hendpoint,
    fun hkept => ?_⟩
  obtain ⟨-, S', hS', -⟩ := hkept.session 1 (by decide) (by simp [hbell])
  rw [hsession] at hS'
  cases hS'

end Spook
