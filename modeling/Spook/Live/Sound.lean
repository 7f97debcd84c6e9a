import Spook.Live.Config
import Spook.Live.Events

set_option relaxedAutoImplicit false
set_option autoImplicit false

/-!
# Sessions and their endpoints

In unicast mode a session owns its endpoints: each of its slots holds an endpoint of its own, and
each endpoint is in one slot of one session. No change of the server breaks this.

## Main definitions

* `Spook.Sound` — what holds of sessions, endpoints and entries.

## Main results

* `Spook.Sound.change` — every change keeps it.
* `Spook.sound_run` — it holds in every state of every run.
* `Spook.Sound.not_endpoint` — `live_teardown` of an endpoint deletes it.

## Notes on the design

The invariant is stated without reference to events or runs, and `Sound.change` has one case for
each change. Slots behind a missing track are never looked at by the code; the invariant says that
they hold no endpoint.
-/

namespace Spook

/-- The sessions own their endpoints. -/
structure Sound (s : Server) : Prop where
  range : ∀ n j, maxTracks ≤ j → (s.entries n).tracklist j = none
  first : ∀ n j t, (s.entries n).tracklist j = some t →
    ∃ t₀, (s.entries n).tracklist 0 = some t₀ ∧ (s.tracks t₀).rtp ≠ none
  session_lt : ∀ p S, s.sessions p = some S → p < s.next
  endpoint_lt : ∀ e E, s.endpoints e = some E → e < s.next
  /-- A slot holds a registered endpoint of the session. -/
  live : ∀ p S j e, s.sessions p = some S → S.ep j = some e →
    ∃ E, s.endpoints e = some E ∧ E.session = some p
  /-- A slot that holds an endpoint holds a track. -/
  track : ∀ p S j e, s.sessions p = some S → S.ep j = some e →
    ∃ t, (s.entries S.liventry).tracklist j = some t ∧ (s.tracks t).rtp ≠ none
  /-- No endpoint is in two slots of a session. -/
  uniq : ∀ p S i j e, s.sessions p = some S → S.ep i = some e → S.ep j = some e → i = j
  /-- A registered endpoint is in a slot of its session. -/
  covered : ∀ e E, s.endpoints e = some E →
    ∃ p S j, E.session = some p ∧ s.sessions p = some S ∧ S.ep j = some e
  entry_nodup : ∀ n, (s.entries n).sessList.Nodup
  entry_mem : ∀ n p, p ∈ (s.entries n).sessList ↔ ∃ S, s.sessions p = some S ∧ S.liventry = n

section Sound

variable {s s' : Server}

/-- What does not touch sessions and endpoints. -/
theorem Sound.of_same (h : Sound s) (hsessions : s'.sessions = s.sessions)
    (hendpoints : s'.endpoints = s.endpoints) (hentries : s'.entries = s.entries)
    (hrtp : ∀ t, (s'.tracks t).rtp = none ↔ (s.tracks t).rtp = none) (hnext : s.next ≤ s'.next) :
    Sound s' := by
  constructor
  · rw [hentries]
    exact h.range
  · rw [hentries]
    intro n j t ht
    obtain ⟨t₀, ht₀, hne⟩ := h.first n j t ht
    exact ⟨t₀, ht₀, fun hnone => hne ((hrtp t₀).1 hnone)⟩
  · rw [hsessions]
    exact fun p S hS => (h.session_lt p S hS).trans_le hnext
  · rw [hendpoints]
    exact fun e E hE => (h.endpoint_lt e E hE).trans_le hnext
  · rw [hsessions, hendpoints]
    exact h.live
  · rw [hsessions, hentries]
    intro p S j e hS he
    obtain ⟨t, ht, hne⟩ := h.track p S j e hS he
    exact ⟨t, ht, fun hnone => hne ((hrtp t).1 hnone)⟩
  · rw [hsessions]
    exact h.uniq
  · rw [hsessions, hendpoints]
    exact h.covered
  · rw [hentries]
    exact h.entry_nodup
  · rw [hsessions, hentries]
    exact h.entry_mem

/-- What is done besides keeps the state sound. -/
theorem Sound.alike (h : Sound s) (ha : Alike s s') : Sound s' :=
  h.of_same ha.sessions ha.endpoints ha.entries (fun t => by rw [ha.tracks]) ha.next

/-- A change of a track that keeps its medium. -/
theorem Sound.onTrack (h : Sound s) (t : ℕ) {f : LiveTrack → LiveTrack}
    (hf : ∀ T, (f T).rtp = none ↔ T.rtp = none) : Sound (s.onTrack t f) := by
  refine h.of_same rfl rfl rfl (fun t' => ?_) le_rfl
  dsimp only [Server.onTrack]
  rw [Function.update_apply]
  split_ifs with ht
  · rw [hf, ht]
  · exact Iff.rfl

/-- A change of an endpoint that stays where it belongs. -/
theorem Sound.onEndpoint (h : Sound s) {e : ℕ} {E E' : Endpoint} (hE : s.endpoints e = some E)
    (hsession : E'.session = E.session) : Sound (s.onEndpoint e E') := by
  refine ⟨h.range, h.first, h.session_lt, fun e' E₁ hE₁ => ?_, fun p S j e' hS he => ?_, h.track,
    h.uniq, fun e' E₁ hE₁ => ?_, h.entry_nodup, h.entry_mem⟩
  · dsimp only [Server.onEndpoint] at hE₁
    rw [Function.update_apply] at hE₁
    split_ifs at hE₁ with heq
    · exact heq ▸ h.endpoint_lt e E hE
    · exact h.endpoint_lt e' E₁ hE₁
  · obtain ⟨E₁, hE₁, hp⟩ := h.live p S j e' hS he
    dsimp only [Server.onEndpoint]
    rw [Function.update_apply]
    split_ifs with heq
    · subst heq
      cases hE.symm.trans hE₁
      exact ⟨E', rfl, hsession.trans hp⟩
    · exact ⟨E₁, hE₁, hp⟩
  · dsimp only [Server.onEndpoint] at hE₁ ⊢
    rw [Function.update_apply] at hE₁
    split_ifs at hE₁ with heq
    · cases hE₁
      subst heq
      rw [hsession]
      exact h.covered e' E hE
    · exact h.covered e' E₁ hE₁

/-- A slot that holds an endpoint is reached by the loops over the tracks. -/
theorem Sound.reaches (h : Sound s) {p j e : ℕ} {S : Session} (hS : s.sessions p = some S)
    (he : S.ep j = some e) : j < maxTracks ∧ s.Reaches S.liventry j := by
  obtain ⟨t, ht, hne⟩ := h.track p S j e hS he
  have hj : j < maxTracks := by
    by_contra hj
    rw [h.range _ j (not_lt.1 hj)] at ht
    cases ht
  refine ⟨hj, fun i hi => ?_⟩
  have hmax : maxTracks = 2 := rfl
  rcases hi.lt_or_eq with hi | rfl
  · obtain rfl : i = 0 := by omega
    exact h.first _ j t ht
  · exact ⟨t, ht, hne⟩

/-- A session opens.

**Proof sketch.** The session has a name that no session has had, and no endpoints. So what is known
of endpoints is about the other sessions, which are as they were; and the list of its `live_source`
has one name more, which was not in it. -/
theorem Sound.opened (h : Sound s) (n : ℕ) : Sound (s.opened n) := by
  have hnew : s.sessions s.next = none := by
    cases hS : s.sessions s.next with
    | none => rfl
    | some S => exact absurd (h.session_lt _ S hS) (lt_irrefl _)
  have hold : ∀ p S, (s.opened n).sessions p = some S →
      p = s.next ∧ S = { liventry := n, playing := false, ep := fun _ => none } ∨
      s.sessions p = some S := by
    intro p S hS
    dsimp only [Server.opened] at hS
    rw [Function.update_apply] at hS
    split_ifs at hS with hp
    · exact .inl ⟨hp, (Option.some.inj hS).symm⟩
    · exact .inr hS
  have hkeep : ∀ p S, s.sessions p = some S → (s.opened n).sessions p = some S := by
    intro p S hS
    dsimp only [Server.opened]
    rw [Function.update_of_ne]
    · exact hS
    · rintro rfl
      rw [hnew] at hS
      cases hS
  have hlist : ∀ m, ((s.opened n).entries m).tracklist = (s.entries m).tracklist := by
    intro m
    dsimp only [Server.opened]
    rw [Function.update_apply]
    split_ifs with hm
    · rw [hm]
    · rfl
  refine ⟨fun m j hj => ?_, fun m j t ht => ?_, fun p S hS => ?_, fun e E hE => ?_,
    fun p S j e hS he => ?_, fun p S j e hS he => ?_, fun p S i j e hS hi hj => ?_,
    fun e E hE => ?_, fun m => ?_, fun m p => ?_⟩
  · rw [hlist]
    exact h.range m j hj
  · rw [hlist] at ht ⊢
    exact h.first m j t ht
  · rcases hold p S hS with ⟨rfl, -⟩ | hS
    · exact Nat.lt_succ_self _
    · exact (h.session_lt p S hS).trans (Nat.lt_succ_self _)
  · exact (h.endpoint_lt e E hE).trans (Nat.lt_succ_self _)
  · rcases hold p S hS with ⟨-, rfl⟩ | hS
    · cases he
    · exact h.live p S j e hS he
  · rcases hold p S hS with ⟨-, rfl⟩ | hS
    · cases he
    · rw [hlist]
      exact h.track p S j e hS he
  · rcases hold p S hS with ⟨-, rfl⟩ | hS
    · cases hi
    · exact h.uniq p S i j e hS hi hj
  · obtain ⟨p, S, j, hp, hS, he⟩ := h.covered e E hE
    exact ⟨p, S, j, hp, hkeep p S hS, he⟩
  · dsimp only [Server.opened]
    rw [Function.update_apply]
    split_ifs
    · refine List.nodup_cons.2 ⟨fun hmem => ?_, h.entry_nodup n⟩
      obtain ⟨S, hS, -⟩ := (h.entry_mem n _).1 hmem
      rw [hnew] at hS
      cases hS
    · exact h.entry_nodup m
  · have hiff : p ∈ (s.entries m).sessList ↔
        ∃ S, s.sessions p = some S ∧ S.liventry = m := h.entry_mem m p
    dsimp only [Server.opened]
    by_cases hp : p = s.next
    · subst hp
      rw [Function.update_self]
      have hno : s.next ∉ (s.entries m).sessList := by
        rw [hiff, hnew]
        rintro ⟨S, hS, -⟩
        cases hS
      by_cases hm : m = n
      · subst hm
        simp
      · rw [Function.update_of_ne hm]
        simp [hno, Ne.symm hm]
    · rw [Function.update_of_ne hp, ← hiff]
      by_cases hm : m = n
      · subst hm
        simp [hp]
      · rw [Function.update_of_ne hm]

/-- A session of the same entry takes the place of another. -/
theorem Sound.entry_mem_update (h : Sound s) {p : ℕ} {S S' : Session} (hS : s.sessions p = some S)
    (hn : S'.liventry = S.liventry) (n p' : ℕ) : p' ∈ (s.entries n).sessList ↔
      ∃ S₁, Function.update s.sessions p (some S') p' = some S₁ ∧ S₁.liventry = n := by
  rw [h.entry_mem]
  by_cases hp : p' = p
  · subst hp
    rw [Function.update_self, hS]
    simp [hn]
  · rw [Function.update_of_ne hp]

/-- The session `p` starts to play. -/
theorem Sound.played (h : Sound s) {p : ℕ} {S : Session} (hS : s.sessions p = some S) :
    Sound { s with sessions := Function.update s.sessions p (some { S with playing := true }) } := by
  have hold : ∀ p' S', Function.update s.sessions p (some { S with playing := true }) p' = some S' →
      ∃ S₀, s.sessions p' = some S₀ ∧ S'.liventry = S₀.liventry ∧ S'.ep = S₀.ep := by
    intro p' S' hS'
    rw [Function.update_apply] at hS'
    split_ifs at hS' with hp
    · cases hS'
      exact ⟨S, hp ▸ hS, rfl, rfl⟩
    · exact ⟨S', hS', rfl, rfl⟩
  refine ⟨h.range, h.first, fun p' S' hS' => ?_, h.endpoint_lt, fun p' S' j e hS' he => ?_,
    fun p' S' j e hS' he => ?_, fun p' S' i j e hS' hi hj => ?_, fun e E hE => ?_, h.entry_nodup,
    h.entry_mem_update hS rfl⟩
  · obtain ⟨S₀, hS₀, -, -⟩ := hold p' S' hS'
    exact h.session_lt p' S₀ hS₀
  · obtain ⟨S₀, hS₀, -, hep⟩ := hold p' S' hS'
    exact h.live p' S₀ j e hS₀ (hep ▸ he)
  · obtain ⟨S₀, hS₀, hn, hep⟩ := hold p' S' hS'
    rw [hn]
    exact h.track p' S₀ j e hS₀ (hep ▸ he)
  · obtain ⟨S₀, hS₀, -, hep⟩ := hold p' S' hS'
    exact h.uniq p' S₀ i j e hS₀ (hep ▸ hi) (hep ▸ hj)
  · obtain ⟨p', S₀, j, hp, hS₀, he⟩ := h.covered e E hE
    dsimp only
    by_cases heq : p' = p
    · subst heq
      cases hS.symm.trans hS₀
      exact ⟨p', { S with playing := true }, j, hp, Function.update_self .., he⟩
    · exact ⟨p', S₀, j, hp, by rw [Function.update_of_ne heq, hS₀], he⟩

/-- The session `p` gets a new endpoint of its own in a free slot with a track.

**Proof sketch.** The endpoint has a name that no endpoint has had, so that the slot of `p` is the
only one that holds it. All other slots hold what they held. -/
theorem Sound.added (h : Sound s) {p j t : ℕ} {S : Session} {E : Endpoint}
    (hS : s.sessions p = some S) (hfree : S.ep j = none)
    (ht : (s.entries S.liventry).tracklist j = some t) (hrtp : (s.tracks t).rtp ≠ none)
    (hsession : E.session = some p) : Sound
      ({ (s.onEndpoint s.next E) with next := s.next + 1 }.setSlot p j S (some s.next)) := by
  have hnew : ∀ e E', s.endpoints e = some E' → e ≠ s.next := fun e E' hE' heq =>
    absurd (h.endpoint_lt e E' hE') (heq ▸ lt_irrefl _)
  -- a slot holds what it held, or is the new one
  have hold : ∀ p' S', Function.update s.sessions p
      (some { S with ep := Function.update S.ep j (some s.next) }) p' = some S' →
      ∃ S₀, s.sessions p' = some S₀ ∧ S'.liventry = S₀.liventry ∧ ∀ i e, S'.ep i = some e →
        S₀.ep i = some e ∨ p' = p ∧ S₀ = S ∧ i = j ∧ e = s.next := by
    intro p' S' hS'
    rw [Function.update_apply] at hS'
    split_ifs at hS' with hp
    · cases hS'
      refine ⟨S, hp ▸ hS, rfl, fun i e he => ?_⟩
      dsimp only at he
      rw [Function.update_apply] at he
      split_ifs at he with hi
      · exact .inr ⟨hp, rfl, hi, (Option.some.inj he).symm⟩
      · exact .inl he
    · exact ⟨S', hS', rfl, fun i e he => .inl he⟩
  have hkeep : ∀ p' S₀ i e, s.sessions p' = some S₀ → S₀.ep i = some e → ∃ S',
      Function.update s.sessions p
        (some { S with ep := Function.update S.ep j (some s.next) }) p' = some S' ∧
      S'.ep i = some e := by
    intro p' S₀ i e hS₀ he
    by_cases hp : p' = p
    · subst hp
      cases hS.symm.trans hS₀
      refine ⟨_, Function.update_self .., ?_⟩
      dsimp only
      rw [Function.update_of_ne]
      · exact he
      · rintro rfl
        rw [hfree] at he
        cases he
    · exact ⟨S₀, by rw [Function.update_of_ne hp, hS₀], he⟩
  refine ⟨h.range, h.first, fun p' S' hS' => ?_, fun e E' hE' => ?_, fun p' S' i e hS' he => ?_,
    fun p' S' i e hS' he => ?_, fun p' S' i i' e hS' hi hi' => ?_, fun e E' hE' => ?_,
    h.entry_nodup, h.entry_mem_update hS rfl⟩
  · obtain ⟨S₀, hS₀, -, -⟩ := hold p' S' hS'
    exact (h.session_lt p' S₀ hS₀).trans (Nat.lt_succ_self _)
  · dsimp only [Server.setSlot, Server.onEndpoint] at hE' ⊢
    rw [Function.update_apply] at hE'
    split_ifs at hE' with heq
    · exact heq ▸ Nat.lt_succ_self _
    · exact (h.endpoint_lt e E' hE').trans (Nat.lt_succ_self _)
  · obtain ⟨S₀, hS₀, -, hep⟩ := hold p' S' hS'
    dsimp only [Server.setSlot, Server.onEndpoint]
    rcases hep i e he with he | ⟨rfl, -, -, rfl⟩
    · obtain ⟨E', hE', hp⟩ := h.live p' S₀ i e hS₀ he
      exact ⟨E', by rw [Function.update_of_ne (hnew e E' hE'), hE'], hp⟩
    · exact ⟨E, Function.update_self .., hsession⟩
  · obtain ⟨S₀, hS₀, hn, hep⟩ := hold p' S' hS'
    rw [hn]
    rcases hep i e he with he | ⟨-, rfl, rfl, -⟩
    · exact h.track p' S₀ i e hS₀ he
    · exact ⟨t, ht, hrtp⟩
  · obtain ⟨S₀, hS₀, -, hep⟩ := hold p' S' hS'
    have hno : ∀ i, S₀.ep i = some e → e ≠ s.next := by
      intro i hi
      obtain ⟨E', hE', -⟩ := h.live p' S₀ i e hS₀ hi
      exact hnew e E' hE'
    rcases hep i e hi with hi | ⟨-, -, hij, heq⟩ <;> rcases hep i' e hi' with hi' | ⟨-, -, hij', heq'⟩
    · exact h.uniq p' S₀ i i' e hS₀ hi hi'
    · exact absurd heq' (hno i hi)
    · exact absurd heq (hno i' hi')
    · exact hij.trans hij'.symm
  · dsimp only [Server.setSlot, Server.onEndpoint] at hE' ⊢
    rw [Function.update_apply] at hE'
    split_ifs at hE' with heq
    · cases hE'
      subst heq
      exact ⟨p, _, j, hsession, Function.update_self .., Function.update_self ..⟩
    · obtain ⟨p', S₀, i, hp, hS₀, he⟩ := h.covered e E' hE'
      obtain ⟨S', hS', he'⟩ := hkeep p' S₀ i e hS₀ he
      exact ⟨p', S', i, hp, hS', he'⟩

/-- The session `p` loses the endpoint in its slot `i`, which is deleted. -/
theorem Sound.removed (h : Sound s) {p i e : ℕ} {S : Session} {E : Endpoint}
    (hS : s.sessions p = some S) (he : S.ep i = some e) (hE : s.endpoints e = some E) :
    Sound ((s.delete e E).setSlot p i S none) := by
  have hp : E.session = some p := by
    obtain ⟨E', hE', hp⟩ := h.live p S i e hS he
    cases hE.symm.trans hE'
    exact hp
  -- a slot holds what it held, and that is not the endpoint
  have hold : ∀ p' S', Function.update s.sessions p
      (some { S with ep := Function.update S.ep i none }) p' = some S' →
      ∃ S₀, s.sessions p' = some S₀ ∧ S'.liventry = S₀.liventry ∧ ∀ j e', S'.ep j = some e' →
        S₀.ep j = some e' ∧ e' ≠ e := by
    intro p' S' hS'
    rw [Function.update_apply] at hS'
    split_ifs at hS' with hp'
    · cases hS'
      refine ⟨S, hp' ▸ hS, rfl, fun j e' he' => ?_⟩
      dsimp only at he'
      rw [Function.update_apply] at he'
      split_ifs at he' with hj
      refine ⟨he', ?_⟩
      rintro rfl
      exact hj (h.uniq p S j i e' hS he' he)
    · refine ⟨S', hS', rfl, fun j e' he' => ⟨he', ?_⟩⟩
      rintro rfl
      obtain ⟨E', hE', hp''⟩ := h.live p' S' j e' hS' he'
      cases hE.symm.trans hE'
      exact hp' (Option.some.inj (hp''.symm.trans hp))
  refine ⟨h.range, h.first, fun p' S' hS' => ?_, fun e' E' hE' => ?_, fun p' S' j e' hS' he' => ?_,
    fun p' S' j e' hS' he' => ?_, fun p' S' j j' e' hS' hj hj' => ?_, fun e' E' hE' => ?_,
    h.entry_nodup, h.entry_mem_update hS rfl⟩
  · obtain ⟨S₀, hS₀, -, -⟩ := hold p' S' hS'
    exact h.session_lt p' S₀ hS₀
  · dsimp only [Server.setSlot, Server.delete] at hE'
    rw [Function.update_apply] at hE'
    split_ifs at hE'
    exact h.endpoint_lt e' E' hE'
  · obtain ⟨S₀, hS₀, -, hep⟩ := hold p' S' hS'
    obtain ⟨he', hne⟩ := hep j e' he'
    dsimp only [Server.setSlot, Server.delete]
    rw [Function.update_of_ne hne]
    exact h.live p' S₀ j e' hS₀ he'
  · obtain ⟨S₀, hS₀, hn, hep⟩ := hold p' S' hS'
    rw [hn]
    exact h.track p' S₀ j e' hS₀ (hep j e' he').1
  · obtain ⟨S₀, hS₀, -, hep⟩ := hold p' S' hS'
    exact h.uniq p' S₀ j j' e' hS₀ (hep j e' hj).1 (hep j' e' hj').1
  · dsimp only [Server.setSlot, Server.delete] at hE' ⊢
    rw [Function.update_apply] at hE'
    split_ifs at hE' with hne
    obtain ⟨p', S₀, j, hp', hS₀, he'⟩ := h.covered e' E' hE'
    by_cases heq : p' = p
    · subst heq
      cases hS.symm.trans hS₀
      refine ⟨p', _, j, hp', Function.update_self .., ?_⟩
      dsimp only
      rw [Function.update_of_ne]
      · exact he'
      · rintro rfl
        exact hne (Option.some.inj (he'.symm.trans he))
    · exact ⟨p', S₀, j, hp', by rw [Function.update_of_ne heq, hS₀], he'⟩

/-- A session without endpoints closes.

**Proof sketch.** The session has no endpoint in the slots that hold tracks, and hence none at all,
so that no endpoint loses its session; its name is removed from the list of its `live_source`. -/
theorem Sound.closed (h : Sound s) {p : ℕ} {S : Session} (hS : s.sessions p = some S)
    (hnone : ∀ j < maxTracks, s.Reaches S.liventry j → S.ep j = none) :
    Sound (s.closed p S.liventry) := by
  have hempty : ∀ j e, S.ep j ≠ some e := by
    intro j e he
    obtain ⟨hj, hreach⟩ := h.reaches hS he
    rw [hnone j hj hreach] at he
    cases he
  have hold : ∀ p' S', (s.closed p S.liventry).sessions p' = some S' →
      p' ≠ p ∧ s.sessions p' = some S' := by
    intro p' S' hS'
    dsimp only [Server.closed] at hS'
    rw [Function.update_apply] at hS'
    split_ifs at hS' with hp
    exact ⟨hp, hS'⟩
  have hlist : ∀ m, ((s.closed p S.liventry).entries m).tracklist = (s.entries m).tracklist := by
    intro m
    dsimp only [Server.closed]
    rw [Function.update_apply]
    split_ifs with hm
    · rw [hm]
    · rfl
  refine ⟨fun m j hj => ?_, fun m j t ht => ?_, fun p' S' hS' => ?_, h.endpoint_lt,
    fun p' S' j e hS' he => ?_, fun p' S' j e hS' he => ?_, fun p' S' i j e hS' hi hj => ?_,
    fun e E hE => ?_, fun m => ?_, fun m p' => ?_⟩
  · rw [hlist]
    exact h.range m j hj
  · rw [hlist] at ht ⊢
    exact h.first m j t ht
  · exact h.session_lt p' S' (hold p' S' hS').2
  · exact h.live p' S' j e (hold p' S' hS').2 he
  · rw [hlist]
    exact h.track p' S' j e (hold p' S' hS').2 he
  · exact h.uniq p' S' i j e (hold p' S' hS').2 hi hj
  · obtain ⟨p', S', j, hp', hS', he⟩ := h.covered e E hE
    refine ⟨p', S', j, hp', ?_, he⟩
    dsimp only [Server.closed]
    rw [Function.update_of_ne]
    · exact hS'
    · rintro rfl
      cases hS.symm.trans hS'
      exact hempty j e he
  · dsimp only [Server.closed]
    rw [Function.update_apply]
    split_ifs
    · exact (h.entry_nodup _).erase p
    · exact h.entry_nodup m
  · have hiff := h.entry_mem m p'
    dsimp only [Server.closed]
    by_cases hp : p' = p
    · subst hp
      rw [Function.update_self]
      by_cases hm : m = S.liventry
      · subst hm
        rw [Function.update_self]
        simp [(h.entry_nodup S.liventry).mem_erase_iff]
      · rw [Function.update_of_ne hm, hiff, hS]
        simp [Ne.symm hm]
    · rw [Function.update_of_ne hp, ← hiff]
      by_cases hm : m = S.liventry
      · subst hm
        rw [Function.update_self]
        exact List.mem_erase_of_ne hp
      · rw [Function.update_of_ne hm]

/-- **Every change of a unicast server keeps it.** -/
theorem Sound.change (h : Sound s) {k : Kind} (hchange : Change false k s s') : Sound s' := by
  have hunicast : ∀ {P : Prop}, false = true → P := fun h => by cases h
  cases hchange with
  | opened n => exact h.opened n
  | added _ hS hj ht hrtp hp _ _ => exact h.added hS hj ht hrtp hp
  | shared hmc => exact hunicast hmc
  | newShared hmc => exact hunicast hmc
  | @interleaved _ c e a b _ E _ hE _ _ _ _ _ _ _ _ _ =>
    have h₁ : Sound (s.onEndpoint e { E with trans := .inter c a b }) := h.onEndpoint hE rfl
    exact h₁.of_same rfl rfl rfl (fun _ => Iff.rfl) le_rfl
  | udp hE _ => exact h.onEndpoint hE rfl
  | registered p id _ => exact h.of_same rfl rfl rfl (fun _ => Iff.rfl) le_rfl
  | played hS => exact h.played hS
  | woken _ _ _ _ _ =>
    apply h.onTrack
    exact fun _ => Iff.rfl
  | removed _ hS he _ hE _ => exact h.removed hS he hE
  | removedLast _ hS he _ hE _ =>
    apply (h.removed hS he hE).onTrack
    exact fun _ => Iff.rfl
  | left hmc => exact hunicast hmc
  | leftLast hmc => exact hunicast hmc
  | closed hS hnone => exact h.closed hS hnone
  | readied t _ =>
    apply h.onTrack
    exact fun _ => Iff.rfl
  | delivering d => exact h.of_same rfl rfl rfl (fun _ => Iff.rfl) le_rfl
  | logged _ => exact h.of_same rfl rfl rfl (fun _ => Iff.rfl) le_rfl
  | flagged b hE => exact h.onEndpoint hE rfl
  | counted hE hcounted => exact h.onEndpoint hE hcounted.session
  | noted hE hnoted => exact h.onEndpoint hE hnoted.session
  | accepted fd => exact h.of_same rfl rfl rfl (fun _ => Iff.rfl) (Nat.le_succ _)
  | dropped c => exact h.of_same rfl rfl rfl (fun _ => Iff.rfl) le_rfl

/-- By induction on the changes. -/
theorem Sound.steps {A : Set Kind} (h : Sound s) (hsteps : Steps false A s s') : Sound s' :=
  hsteps.keeps h (fun _ _ h ha => h.alike ha) fun _ _ _ _ h hc => h.change hc

/-- **A teardown of an endpoint deletes it.** -/
theorem Sound.not_endpoint (h : Sound s) {p e : ℕ} (hdown : TornDown false p (some e) s s')
    {E : Endpoint} (hE : s.endpoints e = some E) (hp : E.session = some p) :
    s'.endpoints e = none := by
  obtain ⟨p', S, j, hp', hS, he⟩ := h.covered e E hE
  obtain rfl : p = p' := Option.some.inj (hp.symm.trans hp')
  obtain ⟨hj, hreach⟩ := h.reaches hS he
  -- what is left of the session has no slot with the endpoint
  have hgone : ∀ S₁ s₁, Emptied false p (some e) S S₁ s s₁ → s₁.endpoints e = none := by
    intro S₁ s₁ hempty
    have h₁ := h.steps hempty.steps
    by_contra hno
    obtain ⟨E₁, hE₁⟩ := Option.ne_none_iff_exists'.1 hno
    obtain ⟨p₁, S₂, j₁, hp₁, hS₂, he₁⟩ := h₁.covered e E₁ hE₁
    obtain ⟨S₀, hS₀, hfewer⟩ : ∃ S₀, s.sessions p₁ = some S₀ ∧ SessionFewer S₀ S₂ := by
      have hrel := hempty.fewer.sessions p₁
      rw [hS₂] at hrel
      cases hS₀ : s.sessions p₁ <;> rw [hS₀] at hrel <;> cases hrel
      exact ⟨_, rfl, by assumption⟩
    have he₀ : S₀.ep j₁ = some e := by
      rcases hfewer.ep j₁ with heq | hnone
      · rw [← heq, he₁]
      · rw [he₁] at hnone
        cases hnone
    obtain ⟨E₀, hE₀, hp₀⟩ := h.live p₁ S₀ j₁ e hS₀ he₀
    cases hE.symm.trans hE₀
    obtain rfl : p = p₁ := Option.some.inj (hp.symm.trans hp₀)
    cases hS.symm.trans hS₀
    cases hempty.after.symm.trans hS₂
    obtain rfl := h.uniq p S j j₁ e hS he he₀
    have hcleared := hempty.cleared j hj hreach (.inr he)
    rw [he₁] at hcleared
    cases hcleared
  cases hdown with
  | kept hempty _ =>
    cases hS.symm.trans hempty.before
    exact hgone _ _ hempty
  | @closed _ S₁ s₁ hempty _ =>
    cases hS.symm.trans hempty.before
    exact hgone S₁ s₁ hempty

end Sound

/-! ## Over runs -/

section Runs

variable {s : Server}

/-- There is nothing at first. -/
theorem Configured.sound (h : Configured s) : Sound s := by
  constructor
  · exact h.range
  · exact h.first
  all_goals intros; simp_all [h.sessions, h.endpoints, h.entries]

/-- **In every state of every run** of a unicast server its sessions own their endpoints. -/
theorem sound_run {blocks : List (List ConfigLine)} {G : Server → ServerAct → Prop}
    (h : (liveMachine false blocks).Reachable G s) : Sound s := by
  refine keeps_run (M := liveMachine false blocks) rfl (fun s hs => ?_) (fun _ _ h ha => h.alike ha)
    (fun _ _ _ h hc => h.change hc) h
  obtain ⟨s₀, h₀, hconf⟩ := hs
  exact (configured_of_configure h₀ hconf).sound

end Runs

end Spook
