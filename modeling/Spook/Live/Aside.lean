import Spook.Live.Sound

set_option relaxedAutoImplicit false
set_option autoImplicit false

/-!
# An offer and the other sessions

A frame is offered to one endpoint at a time. What its transport makes of the packets can take the
endpoint and its session down, but no other one.

## Main definitions

* `Spook.Aside` — the sessions but one, and the tracks, stay as they are.

## Main results

* `Spook.FrameOffered.aside` — the offer of a frame.
-/

namespace Spook

/-- A frame is offered to the session `p`: the others stay as they are. -/
structure Aside (p : ℕ) (s s' : Server) : Prop where
  sessions : ∀ p' ≠ p, s'.sessions p' = s.sessions p'
  fewer : ∀ S', s'.sessions p = some S' → ∃ S, s.sessions p = some S ∧ SessionFewer S S'
  endpoints : ∀ e E, s.endpoints e = some E → E.session ≠ some p → s'.endpoints e = some E
  tracklist : ∀ n, (s'.entries n).tracklist = (s.entries n).tracklist
  sessList : ∀ n, ∀ p' ≠ p,
    (s'.entries n).sessList.count p' = (s.entries n).sessList.count p'
  sessList_le : ∀ n, (s'.entries n).sessList.count p ≤ (s.entries n).sessList.count p
  entrylist : ∀ t, (s'.tracks t).entrylist = (s.tracks t).entrylist
  rtp : ∀ t, (s'.tracks t).rtp = (s.tracks t).rtp
  delivery : s'.delivery = s.delivery

section Aside

variable {p e : ℕ} {s s' s'' : Server}

/-- What touches no session. -/
theorem aside_of_same (hsessions : s'.sessions = s.sessions) (hentries : s'.entries = s.entries)
    (htracks : s'.tracks = s.tracks) (hdelivery : s'.delivery = s.delivery)
    (hendpoints : ∀ e E, s.endpoints e = some E → E.session ≠ some p →
      s'.endpoints e = some E) : Aside p s s' := by
  refine ⟨fun p' _ => by rw [hsessions], fun S' hS' => ⟨S', ?_, .refl S'⟩, hendpoints, ?_, ?_, ?_,
    ?_, ?_, hdelivery⟩
  · rw [← hsessions, hS']
  · rw [hentries]
    exact fun _ => rfl
  · rw [hentries]
    exact fun _ _ _ => rfl
  · rw [hentries]
    exact fun _ => le_rfl
  · rw [htracks]
    exact fun _ => rfl
  · rw [htracks]
    exact fun _ => rfl

/-- Nothing has happened. -/
theorem Aside.refl (p : ℕ) (s : Server) : Aside p s s :=
  aside_of_same rfl rfl rfl rfl fun _ _ hE _ => hE

/-- Two steps. -/
theorem Aside.trans (h : Aside p s s') (h' : Aside p s' s'') : Aside p s s'' := by
  refine ⟨fun p' hp => (h'.sessions p' hp).trans (h.sessions p' hp), fun S'' hS'' => ?_,
    fun e E hE hp => h'.endpoints e E (h.endpoints e E hE hp) hp,
    fun n => (h'.tracklist n).trans (h.tracklist n),
    fun n p' hp => (h'.sessList n p' hp).trans (h.sessList n p' hp),
    fun n => (h'.sessList_le n).trans (h.sessList_le n),
    fun t => (h'.entrylist t).trans (h.entrylist t), fun t => (h'.rtp t).trans (h.rtp t),
    h'.delivery.trans h.delivery⟩
  obtain ⟨S', hS', hfewer'⟩ := h'.fewer S'' hS''
  obtain ⟨S, hS, hfewer⟩ := h.fewer S' hS'
  exact ⟨S, hS, hfewer.trans hfewer'⟩

/-- An endpoint of the session is changed. -/
theorem aside_onEndpoint {E E' : Endpoint} (hE : s.endpoints e = some E)
    (hp : E.session = some p) : Aside p s (s.onEndpoint e E') := by
  refine aside_of_same rfl rfl rfl rfl fun e₁ E₁ hE₁ hne => ?_
  dsimp only [Server.onEndpoint]
  rw [Function.update_of_ne, hE₁]
  rintro rfl
  cases hE.symm.trans hE₁
  exact hne hp

/-- A flag of a track changes. -/
theorem aside_onTrack (p : ℕ) (s : Server) (t : ℕ) {f : LiveTrack → LiveTrack}
    (hf : ∀ T, (f T).entrylist = T.entrylist ∧ (f T).rtp = T.rtp) : Aside p s (s.onTrack t f) := by
  refine ⟨fun _ _ => rfl, fun S hS => ⟨S, hS, .refl S⟩, fun _ _ hE _ => hE, fun _ => rfl,
    fun _ _ _ => rfl, fun _ => le_rfl, fun t' => ?_, fun t' => ?_, rfl⟩
  all_goals
    dsimp only [Server.onTrack]
    rw [Function.update_apply]
    split_ifs with ht
  · rw [(hf _).1, ht]
  · rfl
  · rw [(hf _).2, ht]
  · rfl

/-- The session loses the endpoint. -/
theorem aside_removed {i : ℕ} {S : Session} {E : Endpoint} (hS : s.sessions p = some S)
    (hE : s.endpoints e = some E) (hp : E.session = some p) :
    Aside p s ((s.delete e E).setSlot p i S none) := by
  refine ⟨fun p' hp' => Function.update_of_ne hp' .., fun S' hS' => ?_, fun e₁ E₁ hE₁ hne => ?_,
    fun _ => rfl, fun _ _ _ => rfl, fun _ => le_rfl, fun _ => rfl, fun _ => rfl, rfl⟩
  · dsimp only [Server.setSlot] at hS'
    rw [Function.update_self] at hS'
    cases hS'
    refine ⟨S, hS, rfl, rfl, fun j => ?_⟩
    dsimp only
    rw [Function.update_apply]
    split_ifs
    · exact .inr rfl
    · exact .inl rfl
  · dsimp only [Server.setSlot, Server.delete]
    rw [Function.update_of_ne, hE₁]
    rintro rfl
    cases hE.symm.trans hE₁
    exact hne hp

/-- The session closes. -/
theorem aside_closed (p n : ℕ) (s : Server) : Aside p s (s.closed p n) := by
  refine ⟨fun p' hp' => Function.update_of_ne hp' .., fun S' hS' => ?_, fun _ _ hE _ => hE,
    fun m => ?_, fun m p' hp' => ?_, fun m => ?_, fun _ => rfl, fun _ => rfl, rfl⟩
  · dsimp only [Server.closed] at hS'
    rw [Function.update_self] at hS'
    cases hS'
  all_goals
    dsimp only [Server.closed]
    rw [Function.update_apply]
    split_ifs with hm
  · rw [hm]
  · rfl
  · rw [hm]
    exact List.count_erase_of_ne hp'
  · rfl
  · rw [hm]
    exact List.Sublist.count_le _ List.erase_sublist
  · exact le_rfl

/-- So is what is skipped. -/
theorem aside_skipping (p : ℕ) (s : Server) (es : List ℕ) : Aside p s (s.skipping es) :=
  aside_of_same rfl rfl rfl rfl fun _ _ hE _ => hE

/-- The frame that is skipped leaves the sessions in order. -/
theorem Sound.skipping (h : Sound s) (es : List ℕ) : Sound (s.skipping es) :=
  h.of_same rfl rfl rfl (fun _ => Iff.rfl) le_rfl

/-- **The offer of a frame** leaves the other sessions as they are. -/
theorem FrameOffered.aside {d : Delivery} {w : Sending} {E : Endpoint} (hs : Sound s)
    (h : FrameOffered false d e w s E s') (hE : s.endpoints e = some E)
    (hp : E.session = some p) : Sound s' ∧ Aside p s s' := by
  have hsteps := (h.offers hE).steps
  have hkeep : Sound s' ∧ Aside p s s' ∧
      ∀ E', s'.endpoints e = some E' → E'.session = some p := by
    refine hsteps.keeps (I := fun s' => Sound s' ∧ Aside p s s' ∧
      ∀ E', s'.endpoints e = some E' → E'.session = some p) ⟨hs, .refl p s, fun E' hE' => ?_⟩
      (fun s₁ s₂ h ha => ?_) fun k hk s₁ s₂ h hc => ?_
    · cases hE.symm.trans hE'
      exact hp
    · refine ⟨h.1.alike ha, h.2.1.trans ?_, ?_⟩
      · refine aside_of_same ha.sessions ha.entries ha.tracks ha.delivery fun e₁ E₁ hE₁ _ => ?_
        rw [ha.endpoints, hE₁]
      · rw [ha.endpoints]
        exact h.2.2
    · obtain ⟨h₁, h₂, h₃⟩ := h
      have hflag : ∀ {E₁ E₂ : Endpoint}, s₁.endpoints e = some E₁ → E₂.session = E₁.session →
          Aside p s (s₁.onEndpoint e E₂) ∧
            ∀ E', (s₁.onEndpoint e E₂).endpoints e = some E' → E'.session = some p := by
        intro E₁ E₂ hE₁ hsession
        refine ⟨h₂.trans (aside_onEndpoint hE₁ (h₃ E₁ hE₁)), fun E' hE' => ?_⟩
        rw [Server.onEndpoint_self] at hE'
        cases hE'
        rw [hsession]
        exact h₃ E₁ hE₁
      refine ⟨h₁.change hc, ?_⟩
      rcases hk with (rfl | rfl | rfl) | ⟨p', e', ⟨hp', rfl⟩, rfl | rfl⟩
      · cases hc with
        | counted hE₁ hcounted => exact hflag hE₁ hcounted.session
      · cases hc
        exact ⟨h₂.trans (aside_of_same rfl rfl rfl rfl fun _ _ hE _ => hE), h₃⟩
      · cases hc with
        | flagged b hE₁ => exact hflag hE₁ rfl
      · rw [hp] at hp'
        cases hp'
        have hgone : ∀ E', Function.update s₁.endpoints e' none e' = some E' →
            E'.session = some p := by
          intro E' hE'
          rw [Function.update_self] at hE'
          cases hE'
        cases hc with
        | removed _ hS he _ hE₁ => exact ⟨h₂.trans (aside_removed hS hE₁ (h₃ _ hE₁)), hgone⟩
        | @removedLast _ _ i _ _ _ _ _ hS he _ hE₁ =>
          have hdown := h₂.trans (aside_removed (i := i) hS hE₁ (h₃ _ hE₁))
          exact ⟨hdown.trans (aside_onTrack p _ _ fun _ => ⟨rfl, rfl⟩), hgone⟩
        | left hmc => cases hmc
        | leftLast hmc => cases hmc
      · rw [hp] at hp'
        cases hp'
        cases hc with
        | closed hS _ => exact ⟨h₂.trans (aside_closed p _ s₁), h₃⟩
  exact ⟨hkeep.1, hkeep.2.1⟩

end Aside

end Spook
