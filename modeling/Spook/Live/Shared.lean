import Spook.Live.Play

set_option relaxedAutoImplicit false
set_option autoImplicit false

/-!
# The endpoint of a multicast track

With multicast all sessions of a track have one endpoint, `ep_mc` of its medium. Nobody counts them:
`track_check_running1` deletes the endpoint when no session is playing, and sessions that are set up
keep what is left of it.

## Main definitions

* `Spook.Server.SlotsShared` — the slots of the sessions hold the endpoints of their tracks.
* `Spook.Server.MayLeave` — a session may leave a track.
* `Spook.RtspRequest.Leaves`, `LeavesInOrder` — the requests with which a session leaves a track.
* `Spook.Shared` — what holds of the shared endpoints.

## Main results

* `Spook.Shared.tornDown` — a teardown keeps it when the session may leave its tracks.
* `Spook.slotsShared_run` — it holds in every state of every run whose requests are in order.

## Notes on the design

A teardown takes several steps, and in the middle of it the invariant does not hold: a track may
have lost its endpoint while a slot of the leaving session still has it. `Leaving` is what holds
instead, and comes back to `Shared` when the slots are empty.
-/

namespace Spook

/-- Every endpoint of a session is the one of the track of its slot, and is registered. -/
def Server.SlotsShared (s : Server) : Prop :=
  ∀ p S j e, s.sessions p = some S → S.ep j = some e →
    ∃ t, (s.entries S.liventry).tracklist j = some t ∧ (s.tracks t).rtp = some (.endpoint e) ∧
      (s.endpoints e).isSome

/-- The session `p` may leave the track `t`: another session is playing it, or no other one has an
endpoint on it. -/
def Server.MayLeave (s : Server) (p t : ℕ) : Prop :=
  (∃ n ∈ (s.tracks t).entrylist, ∃ j < maxTracks, (s.entries n).tracklist j = some t ∧
    ∃ p' ∈ (s.entries n).sessList, p' ≠ p ∧
      ∃ S, s.sessions p' = some S ∧ S.playing = true ∧ (S.ep j).isSome) ∨
  ∀ p' S j, p' ≠ p → s.sessions p' = some S → (s.entries S.liventry).tracklist j = some t →
    S.ep j = none

/-- The endpoint of the track, if it has one, is not connected to a multicast address. -/
def Server.NotMulticast (s : Server) (t : ℕ) : Prop :=
  ∀ e E, (s.tracks t).rtp = some (.endpoint e) → s.endpoints e = some E → E.trans ≠ .mc

/-- With the request, which comes from the connection `C`, a session leaves a track: a TEARDOWN, or
a SETUP whose transport is refused. -/
inductive RtspRequest.Leaves (s : Server) (C : Conn) : RtspRequest → ℕ → ℕ → Prop
  | tornDown {loc : Option ℕ} {track : ℤ} {id : Option Bytes} {rs : RtspSession} {S : Session}
      {j t : ℕ} : (s.location loc).isSome → track < maxTracks → s.rtspSession id = some rs →
      s.sessions rs.sess = some S → S.ep j ≠ none → (s.entries S.liventry).tracklist j = some t →
      track < 0 ∨ S.ep track.toNat = none ∨ S.ep j = S.ep track.toNat →
      Leaves s C (.teardown loc track id) rs.sess t
  | setupNew {loc : Option ℕ} {track : ℤ} {auth : Bool} {transport : Transport} {env : SetupEnv}
      {l : RtspLocation} {t : ℕ} : s.location loc = some l → 0 ≤ track → track < maxTracks →
      (l.realm ≠ [] → auth = true) → (s.entries l.entry).tracklist track.toNat = some t →
      s.NotMulticast t → transport.Refused C env →
      Leaves s C (.setup loc track auth (some transport) none env) s.next t
  | setupOld {loc : Option ℕ} {track : ℤ} {auth : Bool} {transport : Transport} {id : Bytes}
      {env : SetupEnv} {l : RtspLocation} {rs : RtspSession} {S : Session} {t : ℕ} :
      s.location loc = some l → 0 ≤ track → track < maxTracks → (l.realm ≠ [] → auth = true) →
      s.rtspSession (some id) = some rs → s.sessions rs.sess = some S → S.ep track.toNat = none →
      (s.entries S.liventry).tracklist track.toNat = some t → s.NotMulticast t →
      transport.Refused C env →
      Leaves s C (.setup loc track auth (some transport) (some id) env) rs.sess t

/-- With no request a session leaves a track that it may not leave. -/
def LeavesInOrder (s : Server) : ServerAct → Prop
  | .read c d env => ∀ C q p t, s.conns c = some C → C.rtspRequest d env = some q →
    q.Leaves s (C.settled d) p t → s.MayLeave p t
  | _ => True

/-- No `ep_mc` holds an endpoint at first. -/
def NoneShared (blocks : List (List ConfigLine)) : Prop :=
  ∀ block ∈ blocks, ∀ l : TrackLine, .track l ∈ block → ∀ e, l.media ≠ some (.endpoint e)

/-- The endpoints of the tracks are registered and belong to no session, each to one track, and the
slots of the sessions hold them. -/
structure Shared (s : Server) : Prop where
  playable : Playable s
  slot : ∀ p S j e, s.sessions p = some S → S.ep j = some e →
    ∃ t, (s.entries S.liventry).tracklist j = some t ∧ (s.tracks t).rtp = some (.endpoint e)
  registered : ∀ t e, (s.tracks t).rtp = some (.endpoint e) → (s.endpoints e).isSome
  apart : ∀ t t' e, (s.tracks t).rtp = some (.endpoint e) → (s.tracks t').rtp = some (.endpoint e) →
    t = t'
  unowned : ∀ e E, s.endpoints e = some E → E.session = none
  endpoint_lt : ∀ e E, s.endpoints e = some E → e < s.next

namespace Shared

variable {s s' : Server}

/-- The slots of the sessions hold the endpoints of the tracks. -/
theorem slotsShared (h : Shared s) : s.SlotsShared := by
  intro p S j e hS he
  obtain ⟨t, ht, hrtp⟩ := h.slot p S j e hS he
  exact ⟨t, ht, hrtp, h.registered t e hrtp⟩

/-! ## Changes -/

/-- What touches none of it. -/
theorem of_same (h : Shared s) (hplayable : Playable s') (hsessions : s'.sessions = s.sessions)
    (hentries : s'.entries = s.entries) (hrtp : ∀ t, (s'.tracks t).rtp = (s.tracks t).rtp)
    (hendpoints : s'.endpoints = s.endpoints) (hnext : s.next ≤ s'.next) : Shared s' := by
  constructor
  · exact hplayable
  · simp only [hsessions, hentries, hrtp]
    exact h.slot
  · simp only [hrtp, hendpoints]
    exact h.registered
  · simp only [hrtp]
    exact h.apart
  · rw [hendpoints]
    exact h.unowned
  · rw [hendpoints]
    exact fun e E hE => (h.endpoint_lt e E hE).trans_le hnext

/-- What is done besides changes no slots. -/
theorem alike (h : Shared s) (ha : Alike s s') : Shared s' :=
  h.of_same (h.playable.alike ha) ha.sessions ha.entries (fun t => by rw [ha.tracks]) ha.endpoints
    ha.next

/-- An endpoint changes that belongs to no session. -/
theorem onEndpoint (h : Shared s) {e : ℕ} {E E' : Endpoint} (hE : s.endpoints e = some E)
    (hsession : E'.session = none) : Shared (s.onEndpoint e E') := by
  refine ⟨h.playable.of_same rfl rfl rfl rfl, h.slot, fun t e' hrtp => ?_, h.apart,
    fun e' E₁ hE₁ => ?_, fun e' E₁ hE₁ => ?_⟩
  · dsimp only [Server.onEndpoint]
    rw [Function.update_apply]
    split_ifs
    · rfl
    · exact h.registered t e' hrtp
  · dsimp only [Server.onEndpoint] at hE₁
    rw [Function.update_apply] at hE₁
    split_ifs at hE₁
    · cases hE₁
      exact hsession
    · exact h.unowned e' E₁ hE₁
  · dsimp only [Server.onEndpoint] at hE₁
    rw [Function.update_apply] at hE₁
    split_ifs at hE₁ with he
    · rw [he]
      exact h.endpoint_lt e E hE
    · exact h.endpoint_lt e' E₁ hE₁

/-- The sessions are written, with slots that were there. -/
theorem written (h : Shared s) (hplayable : Playable s')
    (hsessions : ∀ p S' j e, s'.sessions p = some S' → S'.ep j = some e →
      ∃ S, s.sessions p = some S ∧ S.ep j = some e ∧ S'.liventry = S.liventry)
    (htracklist : ∀ n, (s'.entries n).tracklist = (s.entries n).tracklist)
    (htracks : s'.tracks = s.tracks) (hendpoints : s'.endpoints = s.endpoints)
    (hnext : s.next ≤ s'.next) : Shared s' := by
  constructor
  · exact hplayable
  · intro p S' j e hS' he
    obtain ⟨S, hS, he, hentry⟩ := hsessions p S' j e hS' he
    rw [htracklist, htracks, hentry]
    exact h.slot p S j e hS he
  · rw [htracks, hendpoints]
    exact h.registered
  · rw [htracks]
    exact h.apart
  · rw [hendpoints]
    exact h.unowned
  · rw [hendpoints]
    exact fun e E hE => (h.endpoint_lt e E hE).trans_le hnext

/-- A slot of a session gets the endpoint of its track. -/
theorem setSlot (h : Shared s) {p j t e : ℕ} {S : Session} (hS : s.sessions p = some S)
    (ht : (s.entries S.liventry).tracklist j = some t)
    (hrtp : (s.tracks t).rtp = some (.endpoint e)) : Shared (s.setSlot p j S (some e)) := by
  have hplayable : Playable (s.setSlot p j S (some e)) := by
    refine h.playable.setSlot hS fun _ => ⟨t, ht, ?_⟩
    rw [hrtp]
    exact Option.some_ne_none _
  refine ⟨hplayable, fun p' S' j' e' hS' he' => ?_, h.registered, h.apart, h.unowned,
    h.endpoint_lt⟩
  dsimp only [Server.setSlot] at hS' ⊢
  rw [Function.update_apply] at hS'
  split_ifs at hS'
  · cases hS'
    dsimp only at he' ⊢
    rw [Function.update_apply] at he'
    split_ifs at he' with hj
    · cases he'
      rw [hj]
      exact ⟨t, ht, hrtp⟩
    · exact h.slot p S j' e' hS he'
  · exact h.slot p' S' j' e' hS' he'

/-- A track without an endpoint gets a new one. -/
theorem newEndpoint (h : Shared s) {t : ℕ} {E : Endpoint} (hrtp : (s.tracks t).rtp = some .null)
    (hsession : E.session = none) :
    Shared (({ (s.onEndpoint s.next E) with next := s.next + 1 } : Server).onTrack t fun T =>
      { T with rtp := some (.endpoint s.next) }) := by
  have hnew : Playable { (s.onEndpoint s.next E) with next := s.next + 1 } :=
    h.playable.of_same rfl rfl rfl rfl
  have hsome : (s.tracks t).rtp ≠ none := by
    rw [hrtp]
    exact Option.some_ne_none _
  have hold : ∀ t' e, (s.tracks t').rtp = some (.endpoint e) → e ≠ s.next := by
    rintro t' e hrtp' rfl
    obtain ⟨E', hE'⟩ := Option.isSome_iff_exists.1 (h.registered t' _ hrtp')
    exact lt_irrefl _ (h.endpoint_lt _ E' hE')
  have hother : ∀ t' e, (s.tracks t').rtp = some (.endpoint e) → t' ≠ t := by
    rintro t' e hrtp' rfl
    rw [hrtp] at hrtp'
    cases hrtp'
  refine ⟨?_, fun p S j e hS he => ?_, fun t' e hrtp' => ?_, fun t₁ t₂ e h₁ h₂ => ?_,
    fun e E₁ hE₁ => ?_, fun e E₁ hE₁ => ?_⟩
  · exact hnew.onTrack (iff_of_false (by simp) hsome) fun _ => h.playable.waiting t hsome
  · obtain ⟨t', ht', hrtp'⟩ := h.slot p S j e hS he
    refine ⟨t', ht', ?_⟩
    dsimp only [Server.onTrack]
    rw [Function.update_of_ne (hother t' e hrtp')]
    exact hrtp'
  · dsimp only [Server.onTrack, Server.onEndpoint] at hrtp' ⊢
    rw [Function.update_apply] at hrtp' ⊢
    split_ifs at hrtp' ⊢
    · rfl
    · rfl
    · cases hrtp'
      contradiction
    · exact h.registered t' e hrtp'
  · dsimp only [Server.onTrack] at h₁ h₂
    rw [Function.update_apply] at h₁ h₂
    split_ifs at h₁ h₂ with ht₁ ht₂
    · rw [ht₁, ht₂]
    · cases h₁
      exact absurd rfl (hold t₂ _ h₂)
    · cases h₂
      exact absurd rfl (hold t₁ _ h₁)
    · exact h.apart t₁ t₂ e h₁ h₂
  · dsimp only [Server.onTrack, Server.onEndpoint] at hE₁
    rw [Function.update_apply] at hE₁
    split_ifs at hE₁
    · cases hE₁
      exact hsession
    · exact h.unowned e E₁ hE₁
  · dsimp only [Server.onTrack, Server.onEndpoint] at hE₁ ⊢
    rw [Function.update_apply] at hE₁
    split_ifs at hE₁ with he
    · rw [he]
      exact Nat.lt_succ_self _
    · exact (h.endpoint_lt e E₁ hE₁).trans (Nat.lt_succ_self _)

/-- Every change keeps it but the removal of an endpoint.

**Proof sketch.** By the change. Only openings, new slots and new endpoints touch what the invariant
is about; over multicast there are no endpoints of a session of its own. Removals are left to
`Leaving`. -/
theorem change (h : Shared s) {k : Kind} (hc : Change true k s s')
    (hk : ∀ p e, k ≠ .removed p e) : Shared s' := by
  have hplayable : Playable s' := h.playable.change hc
  have hcounted : ∀ {e : ℕ} {E E' : Endpoint}, s.endpoints e = some E → E'.session = E.session →
      Shared (s.onEndpoint e E') :=
    fun hE hsession => h.onEndpoint hE (hsession.trans (h.unowned _ _ hE))
  have htrack : ∀ {t : ℕ} {f : LiveTrack → LiveTrack}, (∀ T, (f T).rtp = T.rtp) →
      ∀ t', ((s.onTrack t f).tracks t').rtp = (s.tracks t').rtp := by
    intro t f hf t'
    dsimp only [Server.onTrack]
    rw [Function.update_apply]
    split_ifs with ht
    · rw [hf, ht]
    · rfl
  cases hc with
  | opened n =>
    refine h.written hplayable (fun p S' j e hS' he => ?_) (fun m => ?_) rfl rfl (Nat.le_succ _)
    · dsimp only [Server.opened] at hS'
      rw [Function.update_apply] at hS'
      split_ifs at hS'
      · cases hS'
        cases he
      · exact ⟨S', hS', he, rfl⟩
    · dsimp only [Server.opened]
      rw [Function.update_apply]
      split_ifs with hm
      · rw [hm]
      · rfl
  | added hmc => cases hmc
  | @shared _ p j t e S E _ hS _ ht hrtp hE =>
    have hcleared : Shared (s.onEndpoint e { E with session := none }) := h.onEndpoint hE rfl
    exact hcleared.setSlot hS ht hrtp
  | @newShared _ p j t S E _ hS _ ht hrtp hsession =>
    refine (h.newEndpoint hrtp hsession).setSlot hS ht ?_
    dsimp only [Server.onTrack]
    rw [Function.update_self]
  | @interleaved _ c e a b C E ichan hE =>
    have hset : Shared (s.onEndpoint e { E with trans := .inter c a b }) := hcounted hE rfl
    exact hset.of_same hplayable rfl rfl (fun _ => rfl) rfl le_rfl
  | udp hE => exact hcounted hE rfl
  | flagged b hE => exact hcounted hE rfl
  | counted hE hE' => exact hcounted hE hE'.session
  | noted hE hE' => exact hcounted hE hE'.session
  | @played _ p S hS =>
    refine h.written hplayable (fun p' S' j e hS' he => ?_) (fun _ => rfl) rfl rfl le_rfl
    dsimp only at hS'
    rw [Function.update_apply] at hS'
    split_ifs at hS' with hp
    · cases hS'
      exact ⟨S, hp ▸ hS, he, rfl⟩
    · exact ⟨S', hS', he, rfl⟩
  | woken => exact h.of_same hplayable rfl rfl (htrack fun _ => rfl) rfl le_rfl
  | readied => exact h.of_same hplayable rfl rfl (htrack fun _ => rfl) rfl le_rfl
  | removed => exact absurd rfl (hk _ _)
  | removedLast => exact absurd rfl (hk _ _)
  | left => exact absurd rfl (hk _ _)
  | leftLast => exact absurd rfl (hk _ _)
  | @closed _ p S =>
    refine h.written hplayable (fun p' S' j e hS' he => ?_) (fun m => ?_) rfl rfl le_rfl
    · dsimp only [Server.closed] at hS'
      rw [Function.update_apply] at hS'
      split_ifs at hS'
      exact ⟨S', hS', he, rfl⟩
    · dsimp only [Server.closed]
      rw [Function.update_apply]
      split_ifs with hm
      · rw [hm]
      · rfl
  | registered | delivering | logged | dropped =>
    exact h.of_same hplayable rfl rfl (fun _ => rfl) rfl le_rfl
  | accepted => exact h.of_same hplayable rfl rfl (fun _ => rfl) rfl (Nat.le_succ _)

end Shared

/-! ## Teardown -/

/-- In the middle of a teardown of the endpoints `ep` of the session `p`, from the state `s`: a track
that has lost its endpoint is one of those that the session leaves, and nobody else is on it. -/
structure Leaving (p : ℕ) (ep : Option ℕ) (s s' : Server) : Prop where
  playable : Playable s'
  others : ∀ p' ≠ p, s'.sessions p' = s.sessions p'
  fewer : ∀ S', s'.sessions p = some S' → ∃ S, s.sessions p = some S ∧ SessionFewer S S'
  entries : s'.entries = s.entries
  entrylist : ∀ t, (s'.tracks t).entrylist = (s.tracks t).entrylist
  registered : ∀ t e, (s'.tracks t).rtp = some (.endpoint e) → (s'.endpoints e).isSome
  unowned : ∀ e E, s'.endpoints e = some E → E.session = none
  endpoint_lt : ∀ e E, s'.endpoints e = some E → e < s'.next
  of_rtp : ∀ t e, (s'.tracks t).rtp = some (.endpoint e) → (s.tracks t).rtp = some (.endpoint e)
  rtp : ∀ t e, (s.tracks t).rtp = some (.endpoint e) → (s'.tracks t).rtp = some (.endpoint e) ∨
    (ep = none ∨ ep = some e) ∧ ∀ p' S j, p' ≠ p → s.sessions p' = some S →
      (s.entries S.liventry).tracklist j = some t → S.ep j = none

section Leaving

variable {s s' s₁ : Server} {p t : ℕ} {ep : Option ℕ}

/-- A teardown begins. -/
theorem Shared.leaving (h : Shared s) (p : ℕ) (ep : Option ℕ) : Leaving p ep s s :=
  ⟨h.playable, fun _ _ => rfl, fun S hS => ⟨S, hS, .refl S⟩, rfl, fun _ => rfl, h.registered,
    h.unowned, h.endpoint_lt, fun _ _ => id, fun _ _ => .inl⟩

/-- What is done besides, in the middle of a teardown. -/
theorem Leaving.alike (h : Leaving p ep s s₁) (ha : Alike s₁ s') : Leaving p ep s s' := by
  constructor
  · exact h.playable.alike ha
  · rw [ha.sessions]
    exact h.others
  · rw [ha.sessions]
    exact h.fewer
  · rw [ha.entries, h.entries]
  · rw [ha.tracks]
    exact h.entrylist
  · rw [ha.tracks, ha.endpoints]
    exact h.registered
  · rw [ha.endpoints]
    exact h.unowned
  · rw [ha.endpoints]
    exact fun e E hE => (h.endpoint_lt e E hE).trans_le ha.next
  · rw [ha.tracks]
    exact h.of_rtp
  · rw [ha.tracks]
    exact h.rtp

/-- A slot of the session is freed. -/
theorem Leaving.freeSlot (h : Leaving p ep s s₁) {i : ℕ} {S : Session} (hS : s₁.sessions p = some S) :
    Leaving p ep s (s₁.setSlot p i S none) := by
  refine ⟨h.playable.setSlot hS fun hno => absurd rfl hno, fun p' hp => ?_, fun S' hS' => ?_,
    h.entries, h.entrylist, h.registered, h.unowned, h.endpoint_lt, h.of_rtp, h.rtp⟩
  · dsimp only [Server.setSlot]
    rw [Function.update_of_ne hp]
    exact h.others p' hp
  · dsimp only [Server.setSlot] at hS'
    rw [Function.update_self] at hS'
    cases hS'
    obtain ⟨S₀, hS₀, hfewer⟩ := h.fewer S hS
    refine ⟨S₀, hS₀, hfewer.trans ⟨rfl, rfl, fun j => ?_⟩⟩
    dsimp only
    rw [Function.update_apply]
    split_ifs
    · exact .inr rfl
    · exact .inl rfl

/-- Nobody plays the track any more, so nobody else is on it if the session may leave. -/
theorem Leaving.alone (h : Leaving p ep s s₁) (hmay : s.MayLeave p t) (hplays : ¬ s₁.Plays t) :
    ∀ p' S j, p' ≠ p → s.sessions p' = some S → (s.entries S.liventry).tracklist j = some t →
      S.ep j = none := by
  refine hmay.resolve_left ?_
  rintro ⟨n, hn, j, hj, ht, p', hp', hne, S, hS, hplay⟩
  refine hplays ⟨n, ?_, j, hj, ?_, p', ?_, S, ?_, hplay⟩
  · rw [h.entrylist]
    exact hn
  · rw [h.entries]
    exact ht
  · rw [h.entries]
    exact hp'
  · rw [h.others p' hne]
    exact hS

/-- The track of a freed slot loses its endpoint. -/
theorem Leaving.lose (hs : Shared s) (h : Leaving p ep s s₁) {e : ℕ} {E : Endpoint}
    (hrtp : (s₁.tracks t).rtp = some (.endpoint e)) (hep : ep = none ∨ ep = some e)
    (halone : ∀ p' S j, p' ≠ p → s.sessions p' = some S →
      (s.entries S.liventry).tracklist j = some t → S.ep j = none) :
    Leaving p ep s ((s₁.delete e E).onTrack t fun T =>
      { T with srcstream := some false, rtp := some .null }) := by
  have hdel : Playable (s₁.delete e E) := h.playable.of_same rfl rfl rfl rfl
  have hplayable : Playable ((s₁.delete e E).onTrack t fun T =>
      { T with srcstream := some false, rtp := some .null }) := by
    refine hdel.onTrack (iff_of_false (by simp) fun hnone => ?_) fun _ => by simp
    exact absurd (hrtp.symm.trans hnone) (by simp)
  -- the other tracks have other endpoints
  have hother : ∀ t' e', ((((s₁.delete e E).onTrack t fun T =>
      { T with srcstream := some false, rtp := some .null } : Server)).tracks t').rtp =
        some (.endpoint e') → t' ≠ t ∧ (s₁.tracks t').rtp = some (.endpoint e') := by
    intro t' e' hrtp'
    dsimp only [Server.onTrack, Server.delete] at hrtp'
    rw [Function.update_apply] at hrtp'
    split_ifs at hrtp' with ht
    · cases hrtp'
    · exact ⟨ht, hrtp'⟩
  refine ⟨hplayable, h.others, h.fewer, h.entries, fun t' => ?_, fun t' e' hrtp' => ?_,
    fun e' E' hE' => ?_, fun e' E' hE' => ?_, fun t' e' hrtp' => ?_, fun t' e' hrtp' => ?_⟩
  · dsimp only [Server.onTrack, Server.delete]
    rw [Function.update_apply]
    split_ifs with ht
    · rw [ht]
      exact h.entrylist t
    · exact h.entrylist t'
  · obtain ⟨hne, hbefore⟩ := hother t' e' hrtp'
    have he : e' ≠ e := by
      rintro rfl
      exact hne (hs.apart t' t e' (h.of_rtp t' e' hbefore) (h.of_rtp t e' hrtp))
    dsimp only [Server.onTrack, Server.delete]
    rw [Function.update_of_ne he]
    exact h.registered t' e' hbefore
  · dsimp only [Server.onTrack, Server.delete] at hE'
    rw [Function.update_apply] at hE'
    split_ifs at hE'
    exact h.unowned e' E' hE'
  · dsimp only [Server.onTrack, Server.delete] at hE'
    rw [Function.update_apply] at hE'
    split_ifs at hE'
    exact h.endpoint_lt e' E' hE'
  · exact h.of_rtp t' e' (hother t' e' hrtp').2
  · rcases h.rtp t' e' hrtp' with hsame | hgone
    · by_cases ht : t' = t
      · rw [ht] at hsame ⊢
        cases hrtp.symm.trans hsame
        exact .inr ⟨hep, halone⟩
      · left
        dsimp only [Server.onTrack, Server.delete]
        rw [Function.update_of_ne ht]
        exact hsame
    · exact .inr hgone

/-- The session may leave the tracks of the endpoints `ep`. -/
def Server.MayLeaveAll (s : Server) (p : ℕ) (ep : Option ℕ) : Prop :=
  ∀ S j e t, s.sessions p = some S → S.ep j = some e → ep = none ∨ ep = some e →
    (s.entries S.liventry).tracklist j = some t → s.MayLeave p t

/-- A slot is emptied in the middle of a teardown: the track loses its endpoint if nobody plays it.
-/
theorem Leaving.change (hs : Shared s) (hmay : s.MayLeaveAll p ep) (h : Leaving p ep s s₁) {e : ℕ}
    (hep : ep = none ∨ ep = some e) (hc : Change true (.removed p e) s₁ s') : Leaving p ep s s' := by
  cases hc with
  | removed hmc => cases hmc
  | removedLast hmc => cases hmc
  | left _ hS => exact h.freeSlot hS
  | @leftLast _ _ i t _ e' S E _ hS he ht hplays hrtp hE =>
    obtain ⟨S₀, hS₀, hfewer⟩ := h.fewer S hS
    have he₀ : S₀.ep i = some e := by
      rcases hfewer.ep i with heq | hnone
      · rw [← heq, he]
      · rw [he] at hnone
        cases hnone
    rw [h.entries, hfewer.liventry] at ht
    obtain ⟨t', ht', hrtp'⟩ := hs.slot p S₀ i e hS₀ he₀
    cases ht.symm.trans ht'
    -- what is deleted is the endpoint of the slot
    cases hrtp'.symm.trans (h.of_rtp t e' hrtp)
    have hfree := h.freeSlot (i := i) hS
    exact hfree.lose hs hrtp hep (hfree.alone (hmay S₀ i e t hS₀ he₀ hep ht) hplays)

/-- **Teardown** of endpoints whose tracks the session may leave. -/
theorem Shared.tornDown (h : Shared s) (hmay : s.MayLeaveAll p ep) (hdown : TornDown true p ep s s') :
    Shared s' := by
  have hempty : ∀ {S S' : Session} {s₁ : Server}, Emptied true p ep S S' s s₁ → Shared s₁ := by
    intro S S' s₁ hempty
    have hleaving : Leaving p ep s s₁ := by
      refine hempty.steps.keeps (h.leaving p ep) (fun _ _ hl ha => hl.alike ha) fun k hk _ _ hl hc => ?_
      obtain ⟨e, rfl, hep⟩ := hk
      exact hl.change h hmay hep hc
    refine ⟨hleaving.playable, fun p' S₁ j e hS₁ he => ?_, hleaving.registered,
      fun t t' e ht ht' => h.apart t t' e (hleaving.of_rtp t e ht) (hleaving.of_rtp t' e ht'),
      hleaving.unowned, hleaving.endpoint_lt⟩
    rw [hleaving.entries]
    by_cases hp : p' = p
    · -- an endpoint that is left was not to be removed
      subst hp
      cases hempty.after.symm.trans hS₁
      have hfewer := hempty.sessionFewer
      have he₀ : S.ep j = some e := by
        rcases hfewer.ep j with heq | hnone
        · rw [← heq, he]
        · rw [he] at hnone
          cases hnone
      obtain ⟨hj, hreach⟩ := h.playable.reaches hempty.before (j := j) (by rw [he₀]; simp)
      obtain ⟨t, ht, hrtp⟩ := h.slot p' S j e hempty.before he₀
      refine ⟨t, by rw [hfewer.liventry, ht], (hleaving.rtp t e hrtp).resolve_right fun hgone => ?_⟩
      have hnone : S'.ep j = none :=
        hempty.cleared j hj hreach (hgone.1.imp_right fun heq => he₀.trans heq.symm)
      rw [he] at hnone
      cases hnone
    · rw [hleaving.others p' hp] at hS₁
      obtain ⟨t, ht, hrtp⟩ := h.slot p' S₁ j e hS₁ he
      refine ⟨t, ht, (hleaving.rtp t e hrtp).resolve_right fun hgone => ?_⟩
      rw [hgone.2 p' S₁ j hp hS₁ ht] at he
      cases he
  cases hdown with
  | kept hem _ => exact hempty hem
  | closed hem hnone => exact (hempty hem).change (.closed hem.after hnone) fun _ _ => by simp

end Leaving

/-! ## Requests -/

section Requests

variable {s s' : Server} {p t : ℕ}

/-- What matters for it. -/
theorem Server.MayLeave.imp (h : s.MayLeave p t) (hsessions : ∀ p' ≠ p, s'.sessions p' = s.sessions p')
    (htracklist : ∀ n, (s'.entries n).tracklist = (s.entries n).tracklist)
    (hsess : ∀ n, ∀ p' ∈ (s.entries n).sessList, p' ∈ (s'.entries n).sessList)
    (hentrylist : ∀ t, (s'.tracks t).entrylist = (s.tracks t).entrylist) : s'.MayLeave p t := by
  rcases h with ⟨n, hn, j, hj, ht, p', hp', hne, S, hS, hplay⟩ | halone
  · refine .inl ⟨n, ?_, j, hj, ?_, p', hsess n p' hp', hne, S, ?_, hplay⟩
    · rw [hentrylist]
      exact hn
    · rw [htracklist]
      exact ht
    · rw [hsessions p' hne]
      exact hS
  · refine .inr fun p' S j hne hS ht => ?_
    rw [hsessions p' hne] at hS
    rw [htracklist] at ht
    exact halone p' S j hne hS ht

/-- The endpoint of a new slot was not connected to a multicast address if it is not now. -/
theorem SlotAdded.notMulticast {j e : ℕ} {S : Session} {E : Endpoint}
    (hslot : SlotAdded true p j S e E s s') (hadd : Change true (.added p j) s s')
    (htrans : E.trans ≠ .mc) : (∀ t, (s'.tracks t).entrylist = (s.tracks t).entrylist) ∧
      ∃ t, (s.entries S.liventry).tracklist j = some t ∧ s.NotMulticast t := by
  have hbefore := hslot.before
  have hendpoint := hslot.endpoint
  cases hadd with
  | added hmc => cases hmc
  | @shared _ _ _ t e₁ S₁ E₁ _ hS _ ht hrtp hE =>
    cases hS.symm.trans hbefore
    obtain rfl := hslot.eq_of_setSlot
    refine ⟨fun _ => rfl, t, ht, fun e' E' hrtp' hE' => ?_⟩
    cases hrtp.symm.trans hrtp'
    cases hE.symm.trans hE'
    dsimp only [Server.setSlot, Server.onEndpoint] at hendpoint
    rw [Function.update_self] at hendpoint
    cases hendpoint
    exact htrans
  | @newShared _ _ _ t S₁ E₁ _ hS _ ht hrtp =>
    cases hS.symm.trans hbefore
    refine ⟨fun t' => ?_, t, ht, fun e' E' hrtp' => ?_⟩
    · dsimp only [Server.setSlot, Server.onTrack]
      rw [Function.update_apply]
      split_ifs with heq
      · rw [heq]
        rfl
      · rfl
    · rw [hrtp] at hrtp'
      cases hrtp'

/-- SETUP shares the endpoint of the track, or makes it; and where it fails the session leaves.

**Proof sketch.** By the way the SETUP ends. Where it adds the endpoint of the track to the slot
nothing is taken away. Where the transport is refused the endpoint is torn down again: all slots
that hold it are on one track, and the guard says that the session may leave it. -/
theorem Shared.setUp (h : Shared s) {c j k : ℕ} {isNew : Bool} {transport : Transport} {env : SetupEnv}
    (hmay : ∀ S C t, s.sessions p = some S → S.ep j = none →
      (s.entries S.liventry).tracklist j = some t → s.NotMulticast t → s.conns c = some C →
      transport.Refused C env → s.MayLeave p t)
    (hnone : isNew = true → ∀ S, s.sessions p = some S → ∀ j, S.ep j = none)
    (hsetup : SetUp true c p j isNew transport env s k s') : Shared s' := by
  cases hsetup with
  | taken _ _ halike => exact h.alike halike
  | refused _ halike => exact h.alike halike
  | @refusedNew s₁ _ hnew halike hdown =>
    refine (h.alike halike).tornDown (fun S j e t hS he => ?_) hdown
    rw [halike.sessions] at hS
    rw [hnone hnew S hS j] at he
    cases he
  | @unconnected s₁ s₂ _ S C e E hadd hslot htrans hC hrefused halike hdown =>
    obtain ⟨hentrylist, t, ht, hmulticast⟩ := hslot.notMulticast hadd htrans
    have hleave := hmay S C t hslot.before hslot.free ht hmulticast hC hrefused
    have h₂ : Shared s₂ := (h.change hadd fun _ _ => by simp).alike halike
    have hleave₂ : s₂.MayLeave p t := by
      refine hleave.imp (fun p' hp => ?_) (fun n => ?_) (fun n p' hp' => ?_) fun t' => ?_
      · rw [halike.sessions, hslot.sessions, Function.update_of_ne hp]
      · rw [halike.entries, hslot.entries]
      · rw [halike.entries, hslot.entries]
        exact hp'
      · rw [halike.tracks, hentrylist]
    refine h₂.tornDown (fun S₂ j' e' t' hS₂ he' hep ht' => ?_) hdown
    obtain rfl : e = e' := by simpa using hep
    rw [halike.sessions, hslot.after] at hS₂
    cases hS₂
    -- all slots with the endpoint are on the track
    obtain ⟨t₁, ht₁, hrtp₁⟩ := h₂.slot p _ j e (by rw [halike.sessions, hslot.after])
      (Function.update_self ..)
    obtain ⟨t₂, ht₂, hrtp₂⟩ := h₂.slot p _ j' e (by rw [halike.sessions, hslot.after]) he'
    rw [halike.entries, hslot.entries] at ht₁ ht₂ ht'
    cases ht.symm.trans ht₁
    cases ht'.symm.trans ht₂
    rw [h₂.apart t' t e hrtp₂ hrtp₁]
    exact hleave₂
  | @done s₁ s₂ _ S e E hadd hslot hconn halike =>
    have h₁ := h.change hadd fun _ _ => by simp
    have h₂ : Shared s₂ := by
      rcases hconn with ⟨-, rfl⟩ | hconn
      · exact h₁
      · exact h₁.change hconn fun _ _ => by simp
    have hsessions : s₂.sessions = s₁.sessions := by
      rcases hconn with ⟨-, rfl⟩ | hconn
      · rfl
      · exact hconn.connected_sessions
    have h₃ : Shared (s₂.register p env.id isNew) := by
      unfold Server.register
      split_ifs
      · refine h₂.change (.registered p env.id ?_) fun _ _ => by simp
        rw [hsessions, hslot.after]
        rfl
      · exact h₂
    exact h₃.alike halike

/-- Requests keep it with which no session leaves a track that it may not leave.

**Proof sketch.** By what the handler leaves. A session that is opened has no endpoints, so that its
teardown takes none from a track. A SETUP that is refused and a TEARDOWN leave a track only where
the guard allows it, and PLAY changes no slots. -/
theorem Shared.handled (h : Shared s) {c : ℕ} {C : Conn} {q : RtspRequest} {code : Option ℕ}
    (hC : s.conns c = some C) (hmay : ∀ p t, q.Leaves s C p t → s.MayLeave p t)
    (hteardown : ∀ loc track id, q = .teardown loc track id →
      (s.location loc).isSome ∧ track < maxTracks)
    (hhandled : Handled true c s q code s') : Shared s' := by
  have hopened : ∀ n, Shared (s.opened n) := fun n => h.change (.opened n) fun _ _ => by simp
  have hfresh : ∀ {n S}, (s.opened n).sessions s.next = some S →
      S.liventry = n ∧ ∀ j, S.ep j = none := by
    intro n S hS
    dsimp only [Server.opened] at hS
    rw [Function.update_self] at hS
    cases hS
    exact ⟨rfl, fun _ => rfl⟩
  have htracklist : ∀ n m, ((s.opened n).entries m).tracklist = (s.entries m).tracklist := by
    intro n m
    dsimp only [Server.opened]
    rw [Function.update_apply]
    split_ifs with hm
    · rw [hm]
    · rfl
  cases hhandled with
  | answered _ _ halike => exact h.alike halike
  | @described _ _ _ l s₁ _ _ halike hdown =>
    refine ((hopened l.entry).alike halike).tornDown (fun S j e t hS he => ?_) hdown
    rw [halike.sessions] at hS
    rw [(hfresh hS).2 j] at he
    cases he
  | announced _ halike => exact (hopened _).alike halike
  | @setupNew _ track _ _ _ l _ _ hl hlow hhigh hauth hsetup =>
    refine (hopened l.entry).setUp (fun S C' t hS _ ht hmulticast hC' hrefused => ?_)
      (fun _ S hS => (hfresh hS).2) hsetup
    obtain rfl : C = C' := Option.some.inj (hC.symm.trans hC')
    rw [(hfresh hS).1, htracklist] at ht
    refine (hmay s.next t (.setupNew hl hlow hhigh hauth ht hmulticast hrefused)).imp
      (fun p' hp => ?_) (htracklist _) (fun m p' hp' => ?_) fun _ => rfl
    · exact Function.update_of_ne hp ..
    · dsimp only [Server.opened]
      rw [Function.update_apply]
      split_ifs with hm
      · rw [hm] at hp'
        exact List.mem_cons_of_mem _ hp'
      · exact hp'
  | setupOld hl hlow hhigh hauth hrs hsetup =>
    refine h.setUp (fun S C' t hS hfree ht hmulticast hC' hrefused => ?_) (fun hnew => by cases hnew)
      hsetup
    obtain rfl : C = C' := Option.some.inj (hC.symm.trans hC')
    exact hmay _ t (.setupOld hl hlow hhigh hauth hrs hS hfree ht hmulticast hrefused)
  | @tornDown loc track id _ rs S s₁ _ hrs hS hdown halike =>
    obtain ⟨hloc, hhigh⟩ := hteardown loc track id rfl
    refine (h.tornDown (fun S' j e t hS' he hep ht => ?_) hdown).alike halike
    cases hS.symm.trans hS'
    refine hmay rs.sess t (.tornDown hloc hhigh hrs hS (by rw [he]; simp) ht ?_)
    by_cases htrack : track < 0
    · exact .inl htrack
    · rw [if_neg htrack] at hep
      exact .inr (hep.imp_right fun heq => he.trans heq.symm)
  | played _ hplayed halike =>
    refine Shared.alike ?_ halike
    refine hplayed.changes.keeps h (fun _ _ h ha => h.alike ha) fun k hk _ _ h hc => ?_
    rcases hk with rfl | rfl <;> exact h.change hc fun _ _ => by simp

/-- A TEARDOWN of a location or a track that is not there. -/
theorem wp_handleTeardown_refused {c : ℕ} {r : Reply} {loc : Option ℕ} {track : ℤ} {id : Option Bytes}
    (hbad : ¬ ((s.location loc).isSome ∧ track < maxTracks)) :
    wp (handleTeardown true c r loc track id) (fun _ s' => Alike s s') (fun _ => True) s := by
  refine (wp_handleTeardown_torn loc track id).imp fun _ s' h => ?_
  rcases h with ⟨rs, S, s₁, hloc, htrack, -⟩ | ⟨-, halike⟩
  · exact absurd ⟨hloc, htrack⟩ hbad
  · exact halike

end Requests

/-! ## Over runs -/

section Runs

variable {s s' : Server}

/-- Nothing is torn down for an endpoint that belongs to no session. -/
theorem Shared.works (h : Shared s) {A : Set Kind} {e : ℕ} {o : Option ℕ} (ho : o = none)
    (hA : ∀ p e, Kind.removed p e ∉ A) (hworks : Works true A (fun p e' => o = some p ∧ e' = e) s s') :
    Shared s' := by
  refine hworks.keeps h (fun _ _ h ha => h.alike ha)
    (fun k hk _ _ h hc => h.change hc fun p e heq => hA p e (heq ▸ hk)) ?_
  rintro p e' _ _ ⟨hp, -⟩
  rw [ho] at hp
  cases hp

/-- What is recorded does not matter. -/
theorem Shared.log (h : Shared s) {ev : Event} (hev : ¬ ev.IsTunnel) :
    Shared { s with log := s.log ++ [ev] } :=
  h.change (.logged hev) fun _ _ => by simp

/-- What is passed over does not matter. -/
theorem Shared.skipping (h : Shared s) (es : List ℕ) : Shared (s.skipping es) := by
  induction es generalizing s with
  | nil => rwa [s.skipping_nil]
  | cons e es ih =>
    rw [← s.skipping_cons]
    exact ih (h.log id)

/-- One step of a delivery. -/
theorem Shared.continued (h : Shared s) {w : Sending} (hcontinued : Continued true w s s') :
    Shared s' := by
  have hto : ∀ {s : Server} (o : Option Delivery), Shared s → Shared (s.deliver o) :=
    fun o h => h.change (.delivering o) fun _ _ => by simp
  cases hcontinued with
  | idle => exact h
  | left | ended | entered => exact hto _ h
  | passed => exact (hto _ h).skipping _
  | offered _ _ _ _ _ _ _ _ hE hoffered =>
    exact ((hto _ h).skipping _).works (h.unowned _ _ hE) (by simp) (hoffered.offers hE)
  | multicast _ _ _ _ hE hsent =>
    exact hto _ ((h.log id).works (h.unowned _ _ hE) (by simp) (hsent.sends hE))

/-- The end of a connection. -/
theorem Shared.drop (h : Shared s) (c : ℕ) :
    wp (dropConn true c) (fun _ s' => Shared s') (fun _ => True) s := by
  refine (wp_dropConn (J := Shared) (fun _ _ _ _ ha => h.alike ha) fun _ _ _ => ?_).imp
    fun _ s' h' => ?_
  · unfold rtspConnDisconnect
    rw [List.range_eq_range']
    refine keeps_disconnectChannels (I := fun _ s => Shared s) h (fun _ _ _ _ h _ _ _ => h)
      fun _ s _ _ e E p _ h _ _ _ hE hsession _ => ?_
    rw [h.unowned e E hE] at hsession
    cases hsession
  · obtain ⟨s₁, h₁, rfl⟩ := h'
    exact h₁.change (.dropped c) fun _ _ => by simp

/-- Every action that is in order keeps the endpoints shared. -/
theorem Shared.serverAct {a : ServerAct} (h : Shared s) (hguard : LeavesInOrder s a) :
    wp (serverAct true a) (fun _ s' => Shared s') (fun _ => True) s := by
  by_cases hbad : ∃ c d env C loc track id, a = .read c d env ∧ s.conns c = some C ∧
      C.rtspRequest d env = some (.teardown loc track id) ∧
      ¬ ((s.location loc).isSome ∧ track < maxTracks)
  · obtain ⟨c, d, env, C, loc, track, id, rfl, hC, hq, hbad⟩ := hbad
    unfold Spook.serverAct
    rw [wp_bind, wp_get, wp_ite]
    refine ⟨fun _ => ?_, fun _ => h⟩
    rw [wp_read_rtspRequest hC hq]
    refine (wp_handleTeardown_refused (s := s.setConn c (C.settled d)) hbad).imp fun _ s' halike => ?_
    apply keeps_modifyConn c ((h.alike (alike_settled hC d)).alike halike) fun _ _ h ha => h.alike ha
    exact fun _ => ⟨fun hp => hp, .inl rfl⟩
  · refine keeps_liveAct h (fun _ _ h ha => h.alike ha) (fun _ _ e h hc => h.change hc fun _ _ => by simp)
      (fun _ _ h hc => h.change hc fun _ _ => by simp) (fun s c h => h.drop c) ?_ ?_ ?_ ?_ ?_
    · rintro c d env C q code s' rfl hC hq hhandled
      have halike := alike_settled hC d
      refine (h.alike halike).handled (s.setConn_conns_self c _) (fun p t hleaves => ?_)
        (fun loc track id heq => ?_) hhandled
      · have hbefore : q.Leaves s (C.settled d) p t := by
          cases hleaves with
          | tornDown hloc hhigh hrs hS he ht hep => exact .tornDown hloc hhigh hrs hS he ht hep
          | setupNew hl hlow hhigh hauth ht hmulticast hrefused =>
            exact .setupNew hl hlow hhigh hauth ht hmulticast hrefused
          | setupOld hl hlow hhigh hauth hrs hS hfree ht hmulticast hrefused =>
            exact .setupOld hl hlow hhigh hauth hrs hS hfree ht hmulticast hrefused
        exact hguard C q p t hC hq hbefore
      · by_contra hnot
        exact hbad ⟨c, d, env, C, loc, track, id, rfl, hC, heq ▸ hq, hnot⟩
    · intro t key packets ok _
      refine (wp_deliverToTrack t key packets ok).imp fun _ s' h' => ?_
      rcases h' with rfl | ⟨-, -, s₁, ⟨-, rfl⟩ | ⟨hready, rfl⟩, rfl⟩
      · exact h
      · exact h.change (.delivering _) fun _ _ => by simp
      · exact (h.change (.readied t hready) fun _ _ => by simp).change (.delivering _) fun _ _ => by simp
    · rintro w rfl
      exact (wp_continueFrame w).imp fun _ _ hcontinued => h.continued hcontinued
    · intro e now ret E _ hE _
      refine (wp_rtcpSend now ret hE).seq fun _ s' hsent => ?_
      exact h.works (h.unowned _ _ hE) (by simp) (hsent.sends hE)
    · intro e now E _ hE
      refine (wp_teardownEndpoint true e E s).imp fun _ s' hdown => ?_
      exact h.works (h.unowned _ _ hE) (by simp) hdown.sends

/-- No track has an endpoint at first. -/
theorem Configured.shared (h : Configured s)
    (hrtp : ∀ t e, (s.tracks t).rtp ≠ some (.endpoint e)) : Shared s := by
  refine ⟨h.playable, fun p S j e hS => ?_, fun t e ht => absurd ht (hrtp t e),
    fun t _ e ht => absurd ht (hrtp t e), fun e E hE => ?_, fun e E hE => ?_⟩
  · rw [h.sessions] at hS
    cases hS
  · rw [h.endpoints] at hE
    cases hE
  · rw [h.endpoints] at hE
    cases hE

/-- The configuration makes no endpoints. -/
theorem noneShared_of_configure {blocks : List (List ConfigLine)} {s₀ : Server} (h₀ : s₀.Blank)
    (hblocks : NoneShared blocks) (h : configure 0 blocks s₀ = .ok (some s)) :
    ∀ t e, (s.tracks t).rtp ≠ some (.endpoint e) := by
  refine configure_keeps (I := fun s => ∀ t e, (s.tracks t).rtp ≠ some (.endpoint e))
    (fun n block hblock l s s' hl hs hset t e => ?_) (fun _ _ _ _ _ s hs => hs) (fun t e => ?_) h
  · rcases setTrack_rtp hset t with heq | heq
    · rw [heq]
      exact hs t e
    · rw [heq]
      exact hblocks block hblock l hl e
  · rw [h₀.tracks]
    exact fun hnone => by cases hnone

/-- In every state of a run in order the endpoints are shared. -/
theorem shared_run {blocks : List (List ConfigLine)} (hblocks : NoneShared blocks)
    (h : (liveMachine true blocks).Reachable LeavesInOrder s) : Shared s := by
  refine h.invariant Shared (fun s hs => ?_) fun s a s' os hs hguard ha => ?_
  · obtain ⟨s₀, h₀, hconf⟩ := hs
    exact (configured_of_configure h₀ hconf).shared (noneShared_of_configure h₀ hblocks hconf)
  · exact serverStep_ok hs (hs.serverAct hguard) ha

/-- **The shared endpoints**: in every run of a multicast server in which no session leaves a track
that it may not leave, the sessions hold the endpoints of their tracks in every state, and a step
that deletes one leaves no session that refers to it. -/
theorem slotsShared_run {blocks : List (List ConfigLine)} (hblocks : NoneShared blocks)
    (h : (liveMachine true blocks).Reachable LeavesInOrder s) : s.SlotsShared ∧
      ∀ a s' os, LeavesInOrder s a → (liveMachine true blocks).step s a = .ok (s', os) →
        ∀ e, (s.endpoints e).isSome → s'.endpoints e = none →
          ∀ p S j, s'.sessions p = some S → S.ep j ≠ some e := by
  have hs := shared_run hblocks h
  refine ⟨hs.slotsShared, fun a s' os hguard ha e _ hgone p S j hS he => ?_⟩
  have hs' : Shared s' := serverStep_ok hs (hs.serverAct hguard) ha
  obtain ⟨t, -, -, hsome⟩ := hs'.slotsShared p S j e hS he
  rw [hgone] at hsome
  cases hsome

end Runs

/-! ## Two clients -/

/-- A SETUP of the track of `openBlocks` by a client whose session will be `id`. -/
def setupAs (id : String) : RtspRequest :=
  .setup (some 0) 0 true (some (.udp true)) none (setupEnv id)

/-- A TEARDOWN of the session `id`. -/
def teardownAs (id : String) : RtspRequest := .teardown (some 0) (-1) (some (str id))

def teardownText : Bytes := str "TEARDOWN rtsp://h/cam RTSP/1.0\r\nSession: b\r\n\r\n"

/-- A SETUP over UDP is not refused here. -/
theorem leavesInOrder_setupAs (s : Server) (c : ℕ) (d : Bytes) (id : String) :
    LeavesInOrder s (.read c d (askEnv (setupAs id))) := by
  intro C q p t _ hq hleaves
  rw [Conn.rtspRequest_askEnv (by rw [hq]; rfl)] at hq
  obtain rfl := Option.some.inj hq
  cases hleaves with
  | setupNew _ _ _ _ _ _ hrefused => cases hrefused

/-- One open location. -/
theorem noneShared_openBlocks : NoneShared openBlocks := by
  intro block hblock l hl e
  obtain rfl := List.mem_singleton.1 hblock
  rcases List.mem_cons.1 hl with heq | hl
  · cases heq
    exact fun hmedia => by cases hmedia
  · cases List.mem_singleton.1 hl

/-- Two clients share the endpoint. -/
theorem slotsShared_run_two : ∃ s, (liveMachine true openBlocks).Run LeavesInOrder
    [.accept 3, .read 0 setupUdpText (askEnv (setupAs "a")), .accept 4,
      .read 3 setupUdpText (askEnv (setupAs "b"))] [] s ∧
    (s.sessions 1).bind (·.ep 0) = some 2 ∧ (s.sessions 4).bind (·.ep 0) = some 2 ∧
    s.SlotsShared := by
  obtain ⟨s, hrun, hs⟩ := Machine.Run.of_exec (M := liveMachine true openBlocks)
    (G := Machine.anyStep) (fun s : Server =>
      ((s.sessions 1).bind (·.ep 0), (s.sessions 4).bind (·.ep 0)))
    (configured_init true (by decide +kernel))
    (show ((liveMachine true openBlocks).exec _ (configured openBlocks)
      [.accept 3, .read 0 setupUdpText (askEnv (setupAs "a")), .accept 4,
        .read 3 setupUdpText (askEnv (setupAs "b"))]).map _ = some ([], some 2, some 2) by
      decide +kernel)
  simp only [Prod.mk.injEq] at hs
  have hguarded : (liveMachine true openBlocks).Run LeavesInOrder
      [.accept 3, .read 0 setupUdpText (askEnv (setupAs "a")), .accept 4,
        .read 3 setupUdpText (askEnv (setupAs "b"))] [] s := by
    refine hrun.mono_mem fun a ha s' _ => ?_
    simp only [List.mem_cons, List.not_mem_nil, or_false] at ha
    rcases ha with rfl | rfl | rfl | rfl
    · trivial
    · exact leavesInOrder_setupAs s' 0 _ "a"
    · trivial
    · exact leavesInOrder_setupAs s' 3 _ "b"
  exact ⟨s, hguarded, hs.1, hs.2, (slotsShared_run noneShared_openBlocks ⟨_, _, hguarded⟩).1⟩

/-- One of them leaves before either plays, and the other one is left with an endpoint that is
deleted. -/
theorem shared_deleted : ∃ s, (liveMachine true openBlocks).Run Machine.anyStep
    [.accept 3, .read 0 setupUdpText (askEnv (setupAs "a")), .accept 4,
      .read 3 setupUdpText (askEnv (setupAs "b")), .read 3 teardownText (askEnv (teardownAs "b"))] []
      s ∧ (s.sessions 1).bind (·.ep 0) = some 2 ∧ s.endpoints 2 = none ∧ ¬ s.SlotsShared := by
  obtain ⟨s, hrun, hs⟩ := Machine.Run.of_exec (M := liveMachine true openBlocks)
    (G := Machine.anyStep) (fun s : Server =>
      ((s.sessions 1).bind (·.ep 0), (s.endpoints 2).isNone))
    (configured_init true (by decide +kernel))
    (show ((liveMachine true openBlocks).exec _ (configured openBlocks)
      [.accept 3, .read 0 setupUdpText (askEnv (setupAs "a")), .accept 4,
        .read 3 setupUdpText (askEnv (setupAs "b")),
        .read 3 teardownText (askEnv (teardownAs "b"))]).map _ = some ([], some 2, true) by
      decide +kernel)
  simp only [Prod.mk.injEq, Option.isNone_iff_eq_none] at hs
  obtain ⟨hslot, hgone⟩ := hs
  refine ⟨s, hrun, hslot, hgone, fun hshared => ?_⟩
  obtain ⟨S, hS, he⟩ := Option.bind_eq_some_iff.1 hslot
  obtain ⟨t, -, -, hsome⟩ := hshared 1 S 0 2 hS he
  rw [hgone] at hsome
  cases hsome

end Spook
