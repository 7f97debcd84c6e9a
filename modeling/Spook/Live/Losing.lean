import Spook.Live.Sound

set_option relaxedAutoImplicit false
set_option autoImplicit false

/-!
# Tracks that lose endpoints

Behind each endpoint that `live_teardown` takes from a session, `track_check_running1` stops the
track if no session plays it. Over several of them the last check decides.

## Main definitions

* `Spook.Server.On` — an endpoint is on a track.
* `Spook.Server.Heard` — a session plays the track, as `track_check_running1` sees it.
* `Spook.Loses` — endpoints are taken from the tracks, and what is not heard any more is stopped.

## Main results

* `Spook.Steps.loses` — the changes that neither wake a track nor add an endpoint.
* `Spook.Loses.gone` — an endpoint that is taken is freed.
-/

namespace Spook

/-! ## Endpoints on tracks -/

/-- The endpoint `e` is on the track `t`, in a session of the entry `n`. -/
def Server.On (s : Server) (t n : ℕ) (playing : Bool) (e : ℕ) : Prop :=
  ∃ p S j, s.sessions p = some S ∧ S.liventry = n ∧ S.playing = playing ∧ S.ep j = some e ∧
    (s.entries n).tracklist j = some t

/-- A session that plays has an endpoint on the track. -/
def Server.Active (s : Server) (t : ℕ) : Prop := ∃ n e, s.On t n true e

/-- The same for the entries that the track knows of. -/
def Server.Heard (s : Server) (t : ℕ) : Prop :=
  ∃ n ∈ (s.tracks t).entrylist, ∃ e, s.On t n true e

/-- What is on the track stays there. -/
def Server.Keeps (s s' : Server) (t : ℕ) : Prop := ∀ n b e, s.On t n b e → s'.On t n b e

section On

variable {s s' : Server} {t t' n n' e : ℕ} {b b' : Bool}

/-- A track that is heard is active. -/
theorem Server.Heard.active (h : s.Heard t) : s.Active t := by
  obtain ⟨n, -, e, h⟩ := h
  exact ⟨n, e, h⟩

/-- What touches neither sessions nor the tracks of the entries. -/
theorem Server.on_congr (hsessions : s'.sessions = s.sessions)
    (htracklist : ∀ n, (s'.entries n).tracklist = (s.entries n).tracklist) :
    s'.On t n b e ↔ s.On t n b e := by
  unfold Server.On
  rw [hsessions, htracklist]

/-- What is done besides puts no endpoint on a track, and takes none from it. -/
theorem Alike.on_iff (h : Alike s s') : s'.On t n b e ↔ s.On t n b e :=
  Server.on_congr h.sessions fun n => by rw [h.entries]

/-- What is done besides makes no track active or idle. -/
theorem Alike.active_iff (h : Alike s s') : s'.Active t ↔ s.Active t :=
  exists_congr fun _ => exists_congr fun _ => h.on_iff

/-- A session that opens has no endpoint yet. -/
theorem Sound.on_opened (h : Sound s) (m : ℕ) : (s.opened m).On t n b e ↔ s.On t n b e := by
  have htracklist : ((s.opened m).entries n).tracklist = (s.entries n).tracklist := by
    dsimp only [Server.opened]
    rw [Function.update_apply]
    split_ifs with hn
    · rw [hn]
    · rfl
  constructor
  · rintro ⟨p, S, j, hS, hentry, hplay, he, ht⟩
    dsimp only [Server.opened] at hS
    rw [Function.update_apply] at hS
    split_ifs at hS
    · cases hS
      cases he
    · exact ⟨p, S, j, hS, hentry, hplay, he, htracklist ▸ ht⟩
  · rintro ⟨p, S, j, hS, hentry, hplay, he, ht⟩
    refine ⟨p, S, j, ?_, hentry, hplay, he, htracklist.symm ▸ ht⟩
    rw [← hS]
    exact Function.update_of_ne (h.session_lt p S hS).ne ..

/-- An endpoint on a track is registered. -/
theorem Sound.on_some (h : Sound s) (hon : s.On t n b e) : ∃ E, s.endpoints e = some E := by
  obtain ⟨p, S, j, hS, -, -, he, -⟩ := hon
  obtain ⟨E, hE, -⟩ := h.live p S j e hS he
  exact ⟨E, hE⟩

/-- A registered endpoint is on a track with a medium. -/
theorem Sound.on (h : Sound s) {E : Endpoint} (hE : s.endpoints e = some E) :
    ∃ t n b, s.On t n b e ∧ (s.tracks t).rtp ≠ none := by
  obtain ⟨p, S, j, -, hS, he⟩ := h.covered e E hE
  obtain ⟨t, ht, hrtp⟩ := h.track p S j e hS he
  exact ⟨t, S.liventry, S.playing, ⟨p, S, j, hS, rfl, rfl, he, ht⟩, hrtp⟩

/-- It is on one track. -/
theorem Sound.on_unique (h : Sound s) (hon : s.On t n b e) (hon' : s.On t' n' b' e) :
    t = t' ∧ n = n' ∧ b = b' := by
  obtain ⟨p, S, j, hS, rfl, rfl, he, ht⟩ := hon
  obtain ⟨p', S', j', hS', rfl, rfl, he', ht'⟩ := hon'
  obtain ⟨E, hE, hp⟩ := h.live p S j e hS he
  obtain ⟨E', hE', hp'⟩ := h.live p' S' j' e hS' he'
  cases hE.symm.trans hE'
  cases hp.symm.trans hp'
  cases hS.symm.trans hS'
  cases h.uniq p S j j' e hS he he'
  exact ⟨Option.some.inj (ht.symm.trans ht'), rfl, rfl⟩

/-- `track_check_running1` sees the endpoints on the track. -/
theorem Sound.plays_iff (h : Sound s) : s.Plays t ↔ s.Heard t := by
  constructor
  · rintro ⟨n, hn, j, -, ht, p, hp, S, hS, hplay, hep⟩
    obtain ⟨S', hS', hentry⟩ := (h.entry_mem n p).1 hp
    cases hS.symm.trans hS'
    obtain ⟨e, he⟩ := Option.isSome_iff_exists.1 hep
    exact ⟨n, hn, e, p, S, j, hS, hentry, hplay, he, ht⟩
  · rintro ⟨n, hn, e, p, S, j, hS, hentry, hplay, he, ht⟩
    have hj : j < maxTracks := by
      by_contra hj
      rw [h.range n j (not_lt.1 hj)] at ht
      cases ht
    refine ⟨n, hn, j, hj, ht, p, (h.entry_mem n p).2 ⟨S, hS, hentry⟩, S, hS, hplay, ?_⟩
    exact Option.isSome_of_eq_some he

end On

/-! ## Losing endpoints -/

/-- Endpoints are taken from the tracks. A track that endpoints are taken from is stopped, unless it
is heard behind that. -/
structure Loses (s s' : Server) : Prop where
  on : ∀ t n b e, s'.On t n b e → s.On t n b e
  rtp : ∀ t, (s'.tracks t).rtp = (s.tracks t).rtp
  ready : ∀ t, (s'.tracks t).ready = (s.tracks t).ready
  entrylist : ∀ t, (s'.tracks t).entrylist = (s.tracks t).entrylist
  srcstream : ∀ t,
    (s'.tracks t).srcstream = (s.tracks t).srcstream ∧ (s.Keeps s' t ∨ s'.Heard t) ∨
    (s'.tracks t).srcstream = some false ∧ ¬ s'.Heard t ∧ ¬ s.Keeps s' t

namespace Loses

variable {s s' s'' : Server} {t n e : ℕ} {b : Bool}

/-- What is on the tracks stays as it is. -/
theorem of_on (hon : ∀ t n b e, s'.On t n b e ↔ s.On t n b e) (htracks : s'.tracks = s.tracks) :
    Loses s s' := by
  refine ⟨fun t n b e => (hon t n b e).1, ?_, ?_, ?_, fun t => .inl ⟨?_, .inl fun n b e =>
    (hon t n b e).2⟩⟩ <;> simp only [htracks, implies_true]

/-- A server with the same sessions has lost nothing. -/
theorem of_same (hsessions : s'.sessions = s.sessions)
    (htracklist : ∀ n, (s'.entries n).tracklist = (s.entries n).tracklist)
    (htracks : s'.tracks = s.tracks) : Loses s s' :=
  of_on (fun _ _ _ _ => Server.on_congr hsessions htracklist) htracks

/-- What is done besides loses nothing. -/
theorem alike (ha : Alike s s') : Loses s s' := of_on (fun _ _ _ _ => ha.on_iff) ha.tracks

/-- Nobody hears a track who did not before. -/
theorem heard (h : Loses s s') (ht : s'.Heard t) : s.Heard t := by
  obtain ⟨n, hn, e, hon⟩ := ht
  rw [h.entrylist] at hn
  exact ⟨n, hn, e, h.on t n true e hon⟩

/-- A track that keeps an endpoint is still heard. -/
theorem heard_of_keeps (h : Loses s s') (hkeeps : s.Keeps s' t) (ht : s.Heard t) : s'.Heard t := by
  obtain ⟨n, hn, e, hon⟩ := ht
  rw [← h.entrylist] at hn
  exact ⟨n, hn, e, hkeeps n true e hon⟩

/-- Endpoints are lost twice. -/
theorem trans (h : Loses s s') (h' : Loses s' s'') : Loses s s'' := by
  refine ⟨fun t n b e hon => h.on t n b e (h'.on t n b e hon), fun t => (h'.rtp t).trans (h.rtp t),
    fun t => (h'.ready t).trans (h.ready t), fun t => (h'.entrylist t).trans (h.entrylist t),
    fun t => ?_⟩
  -- what is not kept at one of the steps is not kept
  have hfirst : s.Keeps s'' t → s.Keeps s' t := fun hkeeps n b e hon =>
    h'.on t n b e (hkeeps n b e hon)
  have hsecond : s.Keeps s'' t → s'.Keeps s'' t := fun hkeeps n b e hon =>
    hkeeps n b e (h.on t n b e hon)
  rcases h'.srcstream t with ⟨heq', hkeeps' | hheard'⟩ | ⟨hstopped', hheard', hkeeps'⟩
  · rcases h.srcstream t with ⟨heq, hkeeps | hheard⟩ | ⟨hstopped, hheard, hkeeps⟩
    · exact .inl ⟨heq'.trans heq, .inl fun n b e hon => hkeeps' n b e (hkeeps n b e hon)⟩
    · exact .inl ⟨heq'.trans heq, .inr (h'.heard_of_keeps hkeeps' hheard)⟩
    · exact .inr ⟨heq'.trans hstopped, fun hheard' => hheard (h'.heard hheard'),
        fun hall => hkeeps (hfirst hall)⟩
  · rcases h.srcstream t with ⟨heq, -⟩ | ⟨-, hheard, -⟩
    · exact .inl ⟨heq'.trans heq, .inr hheard'⟩
    · exact absurd (h'.heard hheard') hheard
  · exact .inr ⟨hstopped', hheard', fun hall => hkeeps' (hsecond hall)⟩

/-- **An endpoint that is taken from its track is freed.** -/
theorem gone (h : Loses s s') (hs : Sound s) (hs' : Sound s') (hon : s.On t n b e)
    (hnot : ¬ s'.On t n b e) : s'.endpoints e = none := by
  by_contra hsome
  obtain ⟨E, hE⟩ := Option.ne_none_iff_exists'.1 hsome
  obtain ⟨t', n', b', hon', -⟩ := hs'.on hE
  obtain ⟨rfl, rfl, rfl⟩ := hs.on_unique hon (h.on _ _ _ _ hon')
  exact hnot hon'

end Loses

/-- The changes that wake a track, add an endpoint or make a track ready. -/
def Kind.Wakes : Kind → Prop
  | .added _ _ | .played _ | .woken | .readied => True
  | .opened | .connected _ | .registered _ | .removed _ _ | .closed _ | .delivering | .logged
  | .flagged _ | .counted _ | .noted _ | .accepted | .dropped => False

section Changes

variable {s s' : Server} {p i t e : ℕ} {S : Session} {E : Endpoint}

/-- What is on the tracks when a slot is freed. -/
theorem Sound.on_setSlot (h : Sound s) (hS : s.sessions p = some S) (he : S.ep i = some e)
    (E : Endpoint) (t' n' : ℕ) (b' : Bool) (e' : ℕ) :
    ((s.delete e E).setSlot p i S none).On t' n' b' e' ↔ s.On t' n' b' e' ∧ e' ≠ e := by
  constructor
  · rintro ⟨p', S', j, hS', hentry, hplay, he', ht'⟩
    dsimp only [Server.setSlot] at hS'
    rw [Function.update_apply] at hS'
    split_ifs at hS' with hp
    · obtain rfl := Option.some.inj hS'
      dsimp only at hentry hplay he'
      rw [Function.update_apply] at he'
      split_ifs at he' with hj
      refine ⟨⟨p, S, j, hS, hentry, hplay, he', ht'⟩, ?_⟩
      rintro rfl
      exact hj (h.uniq p S j i e' hS he' he)
    · refine ⟨⟨p', S', j, hS', hentry, hplay, he', ht'⟩, ?_⟩
      rintro rfl
      obtain ⟨E₁, hE₁, hp₁⟩ := h.live p S i e' hS he
      obtain ⟨E₂, hE₂, hp₂⟩ := h.live p' S' j e' hS' he'
      cases hE₁.symm.trans hE₂
      exact hp (Option.some.inj (hp₂.symm.trans hp₁))
  · rintro ⟨⟨p', S', j, hS', hentry, hplay, he', ht'⟩, hne⟩
    by_cases hp : p' = p
    · subst hp
      cases hS.symm.trans hS'
      refine ⟨p', _, j, Function.update_self .., hentry, hplay, ?_, ht'⟩
      dsimp only
      rw [Function.update_of_ne, he']
      rintro rfl
      exact hne (Option.some.inj (he'.symm.trans he))
    · exact ⟨p', S', j, by rw [← hS']; exact Function.update_of_ne hp .., hentry, hplay, he', ht'⟩

/-- **Each change** that wakes nothing takes endpoints at most.

**Proof sketch.** By the change. Over unicast only a removal takes an endpoint from a track. Where
nobody plays the track afterwards it is stopped, and nobody hears it; where somebody does it stays
as it was. All other changes that wake nothing leave every slot with its endpoint. -/
theorem Change.loses (hs : Sound s) {k : Kind} (h : Change false k s s') (hk : ¬ k.Wakes) :
    Loses s s' := by
  have hs' := hs.change h
  cases h with
  | added | played | woken | readied => exact absurd trivial hk
  | shared hmc | newShared hmc | left hmc | leftLast hmc => cases hmc
  | opened n => exact .of_on (fun _ _ _ _ => hs.on_opened n) rfl
  | @removed _ p i t e S E _ hS he ht hE hplays =>
    have hon := hs.on_setSlot hS he E
    refine ⟨fun t' n' b' e' h => ((hon ..).1 h).1, fun _ => rfl, fun _ => rfl, fun _ => rfl,
      fun t' => .inl ⟨rfl, ?_⟩⟩
    by_cases htt : t' = t
    · exact .inr (htt ▸ hs'.plays_iff.1 hplays)
    · refine .inl fun n' b' e' h => (hon ..).2 ⟨h, ?_⟩
      rintro rfl
      exact htt (hs.on_unique h ⟨p, S, i, hS, rfl, rfl, he, ht⟩).1
  | @removedLast _ p i t e S E _ hS he ht hE hplays =>
    have hon := hs.on_setSlot hS he E
    have hheard : ¬ Server.Heard (((s.delete e E).setSlot p i S none).onTrack t fun T =>
        { T with srcstream := some false }) t := by
      rw [← hs'.plays_iff]
      simpa [Server.Plays, Server.onTrack] using hplays
    have htracks : ∀ t' ≠ t, (((s.delete e E).setSlot p i S none).onTrack t fun T =>
        { T with srcstream := some false }).tracks t' = s.tracks t' :=
      fun t' ht' => Function.update_of_ne ht' ..
    have htrack : (((s.delete e E).setSlot p i S none).onTrack t fun T =>
        { T with srcstream := some false }).tracks t = { s.tracks t with srcstream := some false } :=
      Function.update_self ..
    refine ⟨fun t' n' b' e' h => ((hon ..).1 h).1, fun t' => ?_, fun t' => ?_, fun t' => ?_,
      fun t' => ?_⟩
    iterate 3
      by_cases htt : t' = t
      · rw [htt, htrack]
      · rw [htracks t' htt]
    by_cases htt : t' = t
    · subst htt
      refine .inr ⟨by rw [htrack], hheard, fun hkeeps => ?_⟩
      exact ((hon ..).1 (hkeeps _ _ _ ⟨p, S, i, hS, rfl, rfl, he, ht⟩)).2 rfl
    · refine .inl ⟨by rw [htracks t' htt], .inl fun n' b' e' h => (hon ..).2 ⟨h, ?_⟩⟩
      rintro rfl
      exact htt (hs.on_unique h ⟨p, S, i, hS, rfl, rfl, he, ht⟩).1
  | @closed _ p S hS hnone =>
    have htracklist : ∀ m, ((s.closed p S.liventry).entries m).tracklist =
        (s.entries m).tracklist := by
      intro m
      dsimp only [Server.closed]
      rw [Function.update_apply]
      split_ifs with hm
      · rw [hm]
      · rfl
    refine ⟨?_, fun _ => rfl, fun _ => rfl, fun _ => rfl, fun t => .inl ⟨rfl, .inl ?_⟩⟩
    · rintro t m b e ⟨p', S', j, hS', hentry, hplay, he, ht⟩
      dsimp only [Server.closed] at hS'
      rw [Function.update_apply] at hS'
      split_ifs at hS'
      exact ⟨p', S', j, hS', hentry, hplay, he, htracklist m ▸ ht⟩
    · rintro m b e ⟨p', S', j, hS', hentry, hplay, he, ht⟩
      refine ⟨p', S', j, ?_, hentry, hplay, he, (htracklist m).symm ▸ ht⟩
      rw [← hS']
      refine Function.update_of_ne ?_ ..
      rintro rfl
      cases hS.symm.trans hS'
      obtain ⟨hj, hreach⟩ := hs.reaches hS he
      rw [hnone j hj hreach] at he
      cases he
  | interleaved | udp | registered | delivering | logged | flagged | counted | noted | accepted
  | dropped => exact .of_same rfl (fun _ => rfl) rfl

/-- **Several changes** that wake nothing. -/
theorem Steps.loses {A : Set Kind} (hs : Sound s) (h : Steps false A s s')
    (hA : ∀ k ∈ A, ¬ k.Wakes) : Loses s s' := by
  refine (h.keeps (I := fun s' => Sound s' ∧ Loses s s') ⟨hs, .of_same rfl (fun _ => rfl) rfl⟩
    (fun _ _ h ha => ?_) fun k hk _ _ h hc => ?_).2
  · exact ⟨h.1.alike ha, h.2.trans (.alike ha)⟩
  · exact ⟨h.1.change hc, h.2.trans (hc.loses h.1 (hA k hk))⟩

/-- An endpoint that is freed is removed. -/
theorem Steps.removed_mem {A : Set Kind} (h : Steps false A s s') (hE : s.endpoints e = some E)
    (hgone : s'.endpoints e = none) : ∃ p, Kind.removed p e ∈ A := by
  have hremoved : s'.endpoints e ≠ none ∨ ∃ p, Kind.removed p e ∈ A := by
    refine h.keeps (I := fun s' => s'.endpoints e ≠ none ∨ ∃ p, Kind.removed p e ∈ A)
      (.inl (by simp [hE])) (fun _ _ h ha => ha.endpoints ▸ h) fun k hk s₁ s₂ h hc => ?_
    refine h.elim (fun hsome => ?_) .inr
    have hupdate : ∀ (e' : ℕ) (E' : Endpoint), Function.update s₁.endpoints e' (some E') e ≠ none := by
      intro e' E'
      rw [Function.update_apply]
      split_ifs
      · simp
      · exact hsome
    have hdelete : ∀ {p e' : ℕ}, Kind.removed p e' ∈ A →
        Function.update s₁.endpoints e' none e ≠ none ∨ ∃ p, Kind.removed p e ∈ A := by
      intro p e' hk
      by_cases he : e = e'
      · exact .inr ⟨p, he ▸ hk⟩
      · rw [Function.update_of_ne he]
        exact .inl hsome
    cases hc with
    | shared hmc | newShared hmc | left hmc | leftLast hmc => cases hmc
    | added | interleaved | udp | flagged | counted | noted => exact .inl (hupdate _ _)
    | removed | removedLast => exact hdelete hk
    | opened | registered | played | woken | closed | readied | delivering | logged | accepted
    | dropped => exact .inl hsome
  exact hremoved.resolve_left fun h => h hgone

end Changes

end Spook
