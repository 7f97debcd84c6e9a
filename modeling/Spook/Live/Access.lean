import Spook.Live.Config
import Spook.Live.Events

set_option relaxedAutoImplicit false
set_option autoImplicit false

/-!
# Who may set up a track

The credentials that a SETUP must show are those of the location that its URI names. The track that
it sets up is one of the entry of its session, and the two are linked by the client alone.

## Main definitions

* `Spook.RtspRequest.Verified` — a request has passed `rtsp_verify_auth` for a location.
* `Spook.AddsSlot` — a session gets an endpoint on a track.
* `Spook.RtspRequest.target` — the track that a SETUP asks for.

## Main results

* `Spook.verified_iff` — when every location with the track has been asked for.
-/

namespace Spook

/-- The location `L` has the track `t`. -/
def Server.HasTrack (s : Server) (L : RtspLocation) (t : ℕ) : Prop :=
  ∃ j, (s.entries L.entry).tracklist j = some t

/-- Two locations ask for the same credentials. -/
structure RtspLocation.SameCredentials (l L : RtspLocation) : Prop where
  realm : l.realm = L.realm
  username : l.username = L.username
  password : l.password = L.password

/-- The location that the URI of a SETUP names. -/
def RtspRequest.uriLocation (s : Server) : RtspRequest → Option RtspLocation
  | .setup loc .. => s.location loc
  | .options | .announce .. | .describe .. | .play .. | .pause _ | .teardown .. | .unknown => none

/-- The request is a SETUP that passed `rtsp_verify_auth` with the realm, the user and the password
of the location `L`. -/
def RtspRequest.Verified (s : Server) (L : RtspLocation) : RtspRequest → Prop
  | .setup loc _ auth .. =>
    auth = true ∧ ∃ l, s.location loc = some l ∧ l.realm ≠ [] ∧ l.SameCredentials L
  | .options | .announce .. | .describe .. | .play .. | .pause _ | .teardown .. | .unknown => False

/-- A SETUP with a `Session` header. -/
def RtspRequest.NamesSession : RtspRequest → Prop
  | .setup _ _ _ _ session _ => session.isSome
  | .options | .announce .. | .describe .. | .play .. | .pause _ | .teardown .. | .unknown => False

/-- The track that a SETUP asks for: one of the entry of the session that it names, or of the
location. -/
def RtspRequest.target (s : Server) : RtspRequest → Option ℕ
  | .setup loc track _ _ none _ => do
    let l ← s.location loc
    (s.entries l.entry).tracklist track.toNat
  | .setup _ track _ _ (some id) _ => do
    let rs ← s.rtspSession (some id)
    let S ← s.sessions rs.sess
    (s.entries S.liventry).tracklist track.toNat
  | .options | .announce .. | .describe .. | .play .. | .pause _ | .teardown .. | .unknown => none

/-- Every location with the track that a SETUP asks for, and a realm, asks for the credentials of
the location of the URI; and if the SETUP names a session, that location has the track. -/
def RtspRequest.Guarded (s : Server) (q : RtspRequest) : Prop :=
  ∃ l t, q.uriLocation s = some l ∧ q.target s = some t ∧
    (∀ L ∈ s.rtspLocList, L.realm ≠ [] → s.HasTrack L t → l.SameCredentials L) ∧
    (q.NamesSession → s.HasTrack l t)

/-- The session `p` gets an endpoint on the track `t`, in its slot `j`. -/
def AddsSlot (s s' : Server) (p j t : ℕ) : Prop :=
  ∃ S' e, s'.sessions p = some S' ∧ S'.ep j = some e ∧
    (s'.entries S'.liventry).tracklist j = some t ∧ ∀ S, s.sessions p = some S → S.ep j = none

/-! ## What fills no slot -/

/-- No slot is filled. -/
structure NoNewSlot (s s' : Server) : Prop where
  slot : ∀ p S' j e, s'.sessions p = some S' → S'.ep j = some e →
    ∃ S, s.sessions p = some S ∧ S.liventry = S'.liventry ∧ S.ep j = some e
  tracklist : ∀ n, (s'.entries n).tracklist = (s.entries n).tracklist

section NoNewSlot

variable {mc : Bool} {s s' s'' : Server}

/-- No slot is filled in two steps. -/
theorem NoNewSlot.trans (h : NoNewSlot s s') (h' : NoNewSlot s' s'') : NoNewSlot s s'' := by
  refine ⟨fun p S'' j e hS'' he => ?_, fun n => (h'.tracklist n).trans (h.tracklist n)⟩
  obtain ⟨S', hS', hn', he'⟩ := h'.slot p S'' j e hS'' he
  obtain ⟨S, hS, hn, he⟩ := h.slot p S' j e hS' he'
  exact ⟨S, hS, hn.trans hn', he⟩

/-- The sessions are the same. -/
theorem NoNewSlot.of_sessions (hs : s'.sessions = s.sessions)
    (ht : ∀ n, (s'.entries n).tracklist = (s.entries n).tracklist) : NoNewSlot s s' :=
  ⟨fun _ S' _ _ hS' he => ⟨S', hs ▸ hS', rfl, he⟩, ht⟩

/-- One session changes, and loses slots at most. -/
theorem NoNewSlot.of_update {p : ℕ} {S S' : Session} (hS : s.sessions p = some S)
    (hs : s'.sessions = Function.update s.sessions p (some S')) (hn : S'.liventry = S.liventry)
    (hep : ∀ j e, S'.ep j = some e → S.ep j = some e)
    (ht : ∀ n, (s'.entries n).tracklist = (s.entries n).tracklist) : NoNewSlot s s' := by
  refine ⟨fun p' S₁ j e hS₁ he => ?_, ht⟩
  rw [hs, Function.update_apply] at hS₁
  split_ifs at hS₁ with hp
  · cases hS₁
    exact ⟨S, hp ▸ hS, hn.symm, hep j e he⟩
  · exact ⟨S₁, hS₁, rfl, he⟩

/-- What is done besides fills no slot. -/
theorem Alike.noNewSlot (h : Alike s s') : NoNewSlot s s' :=
  .of_sessions h.sessions fun n => by rw [h.entries]

/-- A slot is filled by `live_setup` alone. -/
theorem Change.noNewSlot {k : Kind} (h : Change mc k s s') (hk : ∀ p j, k ≠ .added p j) :
    NoNewSlot s s' := by
  have hclear : ∀ (S : Session) (i j e : ℕ), Function.update S.ep i none j = some e →
      S.ep j = some e := by
    intro S i j e he
    rw [Function.update_apply] at he
    split_ifs at he
    exact he
  have hlist : ∀ (n n' : ℕ) (l : List ℕ), (Function.update s.entries n
      { s.entries n with sessList := l } n').tracklist = (s.entries n').tracklist := by
    intro n n' l
    rw [Function.update_apply]
    split_ifs with hn
    · rw [hn]
    · rfl
  cases h with
  | opened n =>
    refine ⟨fun p S' j e hS' he => ?_, fun n' => hlist n n' _⟩
    dsimp only [Server.opened] at hS'
    rw [Function.update_apply] at hS'
    split_ifs at hS' with hp
    · cases hS'
      cases he
    · exact ⟨S', hS', rfl, he⟩
  | added | shared | newShared => exact absurd rfl (hk _ _)
  | played hS => exact .of_update hS rfl rfl (fun _ _ h => h) fun _ => rfl
  | removed _ hS => exact .of_update hS rfl rfl (hclear _ _) fun _ => rfl
  | removedLast _ hS => exact .of_update hS rfl rfl (hclear _ _) fun _ => rfl
  | left _ hS => exact .of_update hS rfl rfl (hclear _ _) fun _ => rfl
  | leftLast _ hS => exact .of_update hS rfl rfl (hclear _ _) fun _ => rfl
  | closed hS _ =>
    refine ⟨fun p S' j e hS' he => ?_, fun n' => hlist _ n' _⟩
    dsimp only [Server.closed] at hS'
    rw [Function.update_apply] at hS'
    split_ifs at hS'
    exact ⟨S', hS', rfl, he⟩
  | _ => exact .of_sessions rfl fun _ => rfl

/-- Changes that add no endpoint. -/
theorem Steps.noNewSlot {A : Set Kind} (h : Steps mc A s s') (hA : ∀ p j, .added p j ∉ A) :
    NoNewSlot s s' :=
  h.keeps (I := NoNewSlot s) (.of_sessions rfl fun _ => rfl) (fun _ _ hs h => hs.trans h.noNewSlot)
    fun _ hk _ _ hs h => hs.trans (h.noNewSlot fun p j heq => hA p j (heq ▸ hk))

/-- A teardown fills no slot. -/
theorem TornDown.noNewSlot {p : ℕ} {ep : Option ℕ} (h : TornDown mc p ep s s') :
    NoNewSlot s s' := by
  refine h.steps.noNewSlot fun p' j => ?_
  rintro (⟨e, h, -⟩ | h) <;> cases h

/-- What fills no slot adds none. -/
theorem NoNewSlot.not_adds {p j t : ℕ} (h : NoNewSlot s s') : ¬ AddsSlot s s' p j t := by
  rintro ⟨S', e, hS', he, -, hnone⟩
  obtain ⟨S, hS, -, he'⟩ := h.slot p S' j e hS' he
  rw [hnone S hS] at he'
  cases he'

end NoNewSlot

/-! ## What fills a slot -/

section Adds

variable {mc : Bool} {c p j t : ℕ} {s s' : Server}

/-- The slot of a SETUP is the only one that it fills. -/
theorem SetUp.adds {p₀ j₀ k : ℕ} {isNew : Bool} {transport : Transport} {env : SetupEnv}
    {s₀ : Server} (h : SetUp mc c p₀ j₀ isNew transport env s₀ k s') (h₀ : NoNewSlot s s₀)
    (hadds : AddsSlot s s' p j t) :
    j = j₀ ∧ ∃ S, s₀.sessions p₀ = some S ∧ (s.entries S.liventry).tracklist j₀ = some t := by
  have hslot : ∀ {S e E} {s₁ : Server}, SlotAdded mc p₀ j₀ S e E s₀ s₁ → NoNewSlot s₁ s' →
      j = j₀ ∧ ∃ S, s₀.sessions p₀ = some S ∧ (s.entries S.liventry).tracklist j₀ = some t := by
    intro S e E s₁ hslot h₁
    obtain ⟨S', e', hS', he', ht, hnone⟩ := hadds
    obtain ⟨S₁, hS₁, hn₁, he₁⟩ := h₁.slot p S' j e' hS' he'
    rw [hslot.sessions, Function.update_apply] at hS₁
    -- a slot of `s₀` is one of `s`
    have hold : ∀ S₀, s₀.sessions p = some S₀ → S₀.ep j ≠ some e' := by
      intro S₀ hS₀ he₀
      obtain ⟨S₂, hS₂, -, he₂⟩ := h₀.slot p S₀ j e' hS₀ he₀
      rw [hnone S₂ hS₂] at he₂
      cases he₂
    split_ifs at hS₁ with hp
    · cases hS₁
      dsimp only at hn₁ he₁
      rw [Function.update_apply] at he₁
      split_ifs at he₁ with hj
      · refine ⟨hj, S, hslot.before, ?_⟩
        rw [← hj, ← h₀.tracklist, ← hslot.entries, ← h₁.tracklist, hn₁]
        exact ht
      · exact absurd he₁ (hold S (hp ▸ hslot.before))
    · exact absurd he₁ (hold S₁ hS₁)
  cases h with
  | taken _ _ halike => exact absurd hadds (h₀.trans halike.noNewSlot).not_adds
  | refused _ halike => exact absurd hadds (h₀.trans halike.noNewSlot).not_adds
  | refusedNew _ halike h =>
    exact absurd hadds (h₀.trans (halike.noNewSlot.trans h.noNewSlot)).not_adds
  | unconnected _ hadd _ _ _ halike h => exact hslot hadd (halike.noNewSlot.trans h.noNewSlot)
  | @done _ s₂ _ _ _ _ _ hadd hconn halike =>
    have hregister : NoNewSlot s₂ (s₂.register p₀ env.id isNew) := by
      unfold Server.register
      split_ifs <;> exact .of_sessions rfl fun _ => rfl
    have hend := hregister.trans halike.noNewSlot
    rcases hconn with ⟨-, rfl⟩ | hconn
    · exact hslot hadd hend
    · exact hslot hadd ((hconn.noNewSlot (by simp)).trans hend)

/-- **Who fills a slot.** A SETUP that was let in fills the slot of the track that it asks for. -/
theorem Handled.adds {q : RtspRequest} {code : Option ℕ} (h : Handled mc c s q code s')
    (hadds : AddsSlot s s' p j t) : ∃ loc track auth transport session env l,
      q = .setup loc track auth transport session env ∧ s.location loc = some l ∧
      (l.realm ≠ [] → auth = true) ∧ q.target s = some t := by
  have hopened : ∀ n, NoNewSlot s (s.opened n) := fun n =>
    (show Change mc .opened s (s.opened n) from .opened n).noNewSlot (by simp)
  cases h with
  | answered _ _ halike => exact absurd hadds halike.noNewSlot.not_adds
  | described _ halike h =>
    exact absurd hadds ((hopened _).trans (halike.noNewSlot.trans h.noNewSlot)).not_adds
  | announced _ halike => exact absurd hadds ((hopened _).trans halike.noNewSlot).not_adds
  | played _ h halike =>
    exact absurd hadds ((h.changes.noNewSlot (by simp)).trans halike.noNewSlot).not_adds
  | tornDown _ _ h halike => exact absurd hadds (h.noNewSlot.trans halike.noNewSlot).not_adds
  | setupNew hl _ _ hauth h =>
    obtain ⟨-, S, hS, ht⟩ := h.adds (hopened _) hadds
    cases (Function.update_self ..).symm.trans hS
    exact ⟨_, _, _, _, _, _, _, rfl, hl, hauth, by simpa [RtspRequest.target, hl] using ht⟩
  | setupOld hl _ _ hauth hrs h =>
    obtain ⟨-, S, hS, ht⟩ := h.adds (.of_sessions rfl fun _ => rfl) hadds
    exact ⟨_, _, _, _, _, _, _, rfl, hl, hauth, by simpa [RtspRequest.target, hrs, hS] using ht⟩

/-- **Authorisation of tracks.** A request that gives a session an endpoint on the track `t` has
passed `rtsp_verify_auth` for every location that has the track and a realm, and with a `Session`
header the location of its URI has the track, if and only if it is `Guarded`. -/
theorem verified_iff {d : Bytes} {env : ReadEnv} {q : RtspRequest} {code : Option ℕ}
    (h : Handles mc s c d env q code s') (hadds : AddsSlot s s' p j t) :
    (∀ L ∈ s.rtspLocList, L.realm ≠ [] → s.HasTrack L t → q.Verified s L) ∧
      (q.NamesSession → ∃ l, q.uriLocation s = some l ∧ s.HasTrack l t) ↔ q.Guarded s := by
  obtain ⟨C, -, hhandled⟩ := h.handled
  have hadds' : AddsSlot (s.setConn c (C.settled d)) s' p j t := hadds
  obtain ⟨loc, track, auth, transport, session, setupEnv, l, rfl, hl, hauth, htarget⟩ :=
    hhandled.adds hadds'
  have hl : s.location loc = some l := hl
  constructor
  · rintro ⟨hverified, hnames⟩
    refine ⟨l, t, hl, htarget, fun L hL hrealm htrack => ?_, fun hsession => ?_⟩
    · obtain ⟨-, l', hl', -, hsame⟩ := hverified L hL hrealm htrack
      rw [hl] at hl'
      cases hl'
      exact hsame
    · obtain ⟨l', hl', htrack⟩ := hnames hsession
      rw [show RtspRequest.uriLocation s _ = s.location loc from rfl, hl] at hl'
      cases hl'
      exact htrack
  · rintro ⟨l', t', hl', ht', hsame, hnames⟩
    obtain rfl : l = l' := Option.some.inj (hl.symm.trans hl')
    obtain rfl : t = t' := Option.some.inj (htarget.symm.trans ht')
    refine ⟨fun L hL hrealm htrack => ?_, fun hsession => ⟨l, hl, hnames hsession⟩⟩
    have hcred := hsame L hL hrealm htrack
    have hown : l.realm ≠ [] := by rwa [hcred.realm]
    exact ⟨hauth hown, l, hl, hown, hcred⟩

end Adds

/-! ## A door behind a gate -/

/-- A location that anybody may see, and one with two tracks that asks for a password. -/
def doorBlocks : List (List ConfigLine) :=
  [[.track ⟨str "cam", true, some .null⟩, .path (str "/cam") [] [] []],
    [.track ⟨str "door", true, some .null⟩, .track ⟨str "bell", true, some .null⟩,
      .path (str "/door") (str "home") (str "me") (str "secret")]]

/-- The locations, the last one first. -/
def doorLocations : List RtspLocation :=
  [⟨str "/door", str "home", str "me", str "secret", 1⟩, ⟨str "/cam", [], [], [], 0⟩]

/-- What a SETUP over the connection gets from the outside. -/
def setupEnv (id : String) : SetupEnv :=
  { now := ⟨0, 0⟩, seqnum := 0, id := str id, epAlloc := true, rcAlloc := true, udpConnect := true
    mudpConnect := true }

/-- A SETUP of the door with the password. -/
def setupDoor : RtspRequest :=
  .setup (some 0) 0 true (some (.tcp .any)) none (setupEnv "s")

/-- A SETUP of the other location, with the session of the door. -/
def setupBell : RtspRequest :=
  .setup (some 1) 1 false (some (.tcp .any)) (some (str "s")) (setupEnv "")

def setupDoorText : Bytes :=
  str "SETUP rtsp://h/door/track0 RTSP/1.0\r\nTransport: RTP/AVP/TCP\r\n\r\n"

def setupBellText : Bytes :=
  str "SETUP rtsp://h/cam/track1 RTSP/1.0\r\nTransport: RTP/AVP/TCP\r\nSession: s\r\n\r\n"

/-- The server with a location that has a password starts like this. -/
theorem doorServer_init : (liveMachine false doorBlocks).Init (configured doorBlocks) :=
  configured_init false (by decide +kernel)

/-- The slot `j` of the session `p`, the track in it, and what the slot was. -/
def slotOf (p j : ℕ) (s s' : Server) : List (Option ℕ) :=
  [(s'.sessions p).bind (·.ep j),
    (s'.sessions p).bind fun S' => (s'.entries S'.liventry).tracklist j,
    (s.sessions p).bind (·.ep j)]

/-- A slot that was empty holds an endpoint for its track. -/
theorem addsSlot_of_slotOf {p j t e : ℕ} {s s' : Server}
    (h : slotOf p j s s' = [some e, some t, none]) : AddsSlot s s' p j t := by
  simp only [slotOf, List.cons.injEq, and_true] at h
  obtain ⟨he, ht, hold⟩ := h
  obtain ⟨S', hS', he⟩ := Option.bind_eq_some_iff.1 he
  rw [hS'] at ht
  refine ⟨S', e, hS', he, ht, fun S hS => ?_⟩
  rw [hS] at hold
  exact hold

/-- The password lets its owner in. -/
theorem verified_iff_setup : ∃ s code s', (liveMachine false doorBlocks).Run Machine.anyStep
    [.accept 3] [] s ∧ Handles false s 0 setupDoorText (askEnv setupDoor) setupDoor code s' ∧
    code = some 200 ∧ AddsSlot s s' 1 0 1 ∧
    ∀ L ∈ s.rtspLocList, L.realm ≠ [] → s.HasTrack L 1 → setupDoor.Verified s L := by
  obtain ⟨s, hrun, hs⟩ := Machine.Run.of_exec (M := liveMachine false doorBlocks)
    (G := Machine.anyStep) (fun s => (s.rtspLocList, (s.entries 1).tracklist 0,
      handleOf (fun code s' => code :: slotOf 1 0 s s') false s 0 setupDoorText setupDoor))
    doorServer_init
    (show ((liveMachine false doorBlocks).exec _ (configured doorBlocks) [.accept 3]).map _ =
      some ([], doorLocations, some 1, some [some 200, some 2, some 1, none]) by
        decide +kernel)
  simp only [Prod.mk.injEq] at hs
  obtain ⟨hlocs, htrack, hs⟩ := hs
  obtain ⟨code, s', hhandles, hf⟩ := Handles.of_handleOf hs
  rw [List.cons.injEq] at hf
  have hadds : AddsSlot s s' 1 0 1 := addsSlot_of_slotOf hf.2
  have hguarded : setupDoor.Guarded s := by
    refine ⟨doorLocations[0], 1, ?_, ?_, fun L hL hrealm _ => ?_, fun h => by cases h⟩
    · simp [setupDoor, RtspRequest.uriLocation, Server.location, hlocs, doorLocations]
    · simp [setupDoor, RtspRequest.target, Server.location, hlocs, doorLocations, htrack]
    · rw [hlocs] at hL
      simp only [doorLocations, List.mem_cons, List.not_mem_nil, or_false] at hL
      rcases hL with rfl | rfl
      · exact ⟨rfl, rfl, rfl⟩
      · exact absurd rfl hrealm
  exact ⟨s, code, s', hrun, hhandles, hf.1, hadds, ((verified_iff hhandles hadds).2 hguarded).1⟩

/-- Whoever knows the name of a session gets its other track through a location that anybody may
see. -/
theorem setup_unverified : ∃ s code s' L, (liveMachine false doorBlocks).Run Machine.anyStep
    [.accept 3, .read 0 setupDoorText (askEnv setupDoor), .accept 4] [] s ∧
    Handles false s 3 setupBellText (askEnv setupBell) setupBell code s' ∧ code = some 200 ∧
    AddsSlot s s' 1 1 2 ∧ L ∈ s.rtspLocList ∧ L.realm ≠ [] ∧ s.HasTrack L 2 ∧
    ¬ setupBell.Verified s L := by
  obtain ⟨s, hrun, hs⟩ := Machine.Run.of_exec (M := liveMachine false doorBlocks)
    (G := Machine.anyStep) (fun s => (s.rtspLocList, (s.entries 1).tracklist 1,
      handleOf (fun code s' => code :: slotOf 1 1 s s') false s 3 setupBellText setupBell))
    doorServer_init
    (show ((liveMachine false doorBlocks).exec _ (configured doorBlocks)
      [.accept 3, .read 0 setupDoorText (askEnv setupDoor), .accept 4]).map _ =
      some ([], doorLocations, some 2, some [some 200, some 4, some 2, none]) by
        decide +kernel)
  simp only [Prod.mk.injEq] at hs
  obtain ⟨hlocs, htrack, hs⟩ := hs
  obtain ⟨code, s', hhandles, hf⟩ := Handles.of_handleOf hs
  rw [List.cons.injEq] at hf
  refine ⟨s, code, s', doorLocations[0], hrun, hhandles, hf.1, addsSlot_of_slotOf hf.2, ?_,
    by decide, ⟨1, htrack⟩, fun h => ?_⟩
  · rw [hlocs]
    decide
  · exact absurd h.1 (by decide)

end Spook
