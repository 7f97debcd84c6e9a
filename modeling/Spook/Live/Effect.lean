import Spook.Live.Change

set_option relaxedAutoImplicit false
set_option autoImplicit false

/-!
# What the functions of the live sessions do

Each function in terms of the changes it makes: the teardown of a session, its setup and its play.

## Main definitions

* `Spook.Fewer` — the sessions have lost some of their endpoints.
* `Spook.TornDown` — what `live_teardown` leaves.
* `Spook.SetUp` — what the second half of `handle_SETUP` leaves.

## Main results

* `Spook.wp_liveTeardown`, `wp_liveSetup`, `wp_setupTrack`, `wp_livePlay` — the functions of a
  session.

## Notes on the design

Each of these statements is about the changes that are made, and about what is left behind them
where a caller needs it: who has lost an endpoint, and whether all of them are gone. The ways in
which SETUP and a teardown end are constructors, so that a later proof starts with the cases that
the code has.
-/

namespace Spook

/-! ## Teardown -/

/-- The endpoints of a session are removed, or one of them. -/
def Kind.removing (p : ℕ) (ep : Option ℕ) : Set Kind :=
  {k | ∃ e, k = .removed p e ∧ (ep = none ∨ ep = some e)}

/-- A session that has lost some of its endpoints. -/
structure SessionFewer (S S' : Session) : Prop where
  liventry : S'.liventry = S.liventry
  playing : S'.playing = S.playing
  ep : ∀ j, S'.ep j = S.ep j ∨ S'.ep j = none

/-- The sessions have lost some of their endpoints. -/
structure Fewer (s s' : Server) : Prop where
  sessions : ∀ p, Option.Rel SessionFewer (s.sessions p) (s'.sessions p)
  entries : s'.entries = s.entries
  sessList : s'.sessList = s.sessList
  rtspSessList : s'.rtspSessList = s.rtspSessList
  rtspLocList : s'.rtspLocList = s.rtspLocList
  rtp : ∀ t, (s'.tracks t).rtp = none ↔ (s.tracks t).rtp = none

/-- A session that has lost nothing. -/
theorem SessionFewer.refl (S : Session) : SessionFewer S S := ⟨rfl, rfl, fun _ => .inl rfl⟩

/-- A session that has lost endpoints twice. -/
theorem SessionFewer.trans {S S' S'' : Session} (h : SessionFewer S S')
    (h' : SessionFewer S' S'') : SessionFewer S S'' := by
  refine ⟨h'.liventry.trans h.liventry, h'.playing.trans h.playing, fun j => ?_⟩
  rcases h'.ep j with heq | hnone
  · rw [heq]
    exact h.ep j
  · exact .inr hnone

/-- Sessions that have lost nothing. -/
theorem Fewer.refl (s : Server) : Fewer s s :=
  ⟨fun p => by cases s.sessions p <;> constructor; exact .refl _, rfl, rfl, rfl, rfl,
    fun _ => Iff.rfl⟩

/-- Sessions that have lost endpoints twice. -/
theorem Fewer.trans {s s' s'' : Server} (h : Fewer s s') (h' : Fewer s' s'') : Fewer s s'' := by
  refine ⟨fun p => ?_, h'.entries.trans h.entries, h'.sessList.trans h.sessList,
    h'.rtspSessList.trans h.rtspSessList, h'.rtspLocList.trans h.rtspLocList,
    fun t => (h'.rtp t).trans (h.rtp t)⟩
  have hrel := h.sessions p
  have hrel' := h'.sessions p
  revert hrel hrel'
  rcases s.sessions p with _ | S <;> rcases s'.sessions p with _ | S' <;>
    rcases s''.sessions p with _ | S'' <;> rintro (_ | hS) (_ | hS') <;> constructor
  rename_i h₁ h₂
  exact h₁.trans h₂

/-- A session stays. -/
theorem Fewer.session {s s' : Server} (h : Fewer s s') {p : ℕ} {S : Session}
    (hS : s.sessions p = some S) : ∃ S', s'.sessions p = some S' ∧ SessionFewer S S' := by
  have hrel := h.sessions p
  rw [hS] at hrel
  cases hrel' : s'.sessions p <;> rw [hrel'] at hrel <;> cases hrel
  exact ⟨_, rfl, by assumption⟩

/-- A removal leaves fewer endpoints. -/
theorem Change.fewer {mc : Bool} {p e : ℕ} {s s' : Server} (h : Change mc (.removed p e) s s') :
    Fewer s s' := by
  have hslot : ∀ {S : Session} {i : ℕ}, s.sessions p = some S → ∀ p',
      Option.Rel SessionFewer (s.sessions p')
        (Function.update s.sessions p (some { S with ep := Function.update S.ep i none }) p') := by
    intro S i hS p'
    by_cases hp : p' = p
    · rw [hp, hS, Function.update_self]
      refine .some ⟨rfl, rfl, fun j => ?_⟩
      by_cases hj : j = i
      · exact .inr (by rw [hj]; simp)
      · exact .inl (by simp [hj])
    · rw [Function.update_of_ne hp]
      exact (Fewer.refl s).sessions p'
  have htrack : ∀ (t t' : ℕ) (f : LiveTrack → LiveTrack), (∀ T, (f T).rtp = none ↔ T.rtp = none) →
      ((Function.update s.tracks t (f (s.tracks t)) t').rtp = none ↔ (s.tracks t').rtp = none) := by
    intro t t' f hf
    by_cases ht : t' = t
    · rw [ht, Function.update_self, hf]
    · rw [Function.update_of_ne ht]
  cases h with
  | removed _ hS _ _ _ _ => exact ⟨hslot hS, rfl, rfl, rfl, rfl, fun _ => Iff.rfl⟩
  | removedLast _ hS _ _ _ _ =>
    exact ⟨hslot hS, rfl, rfl, rfl, rfl, fun t' =>
      htrack _ t' (fun T => { T with srcstream := some false }) fun _ => Iff.rfl⟩
  | left _ hS _ _ _ => exact ⟨hslot hS, rfl, rfl, rfl, rfl, fun _ => Iff.rfl⟩
  | leftLast _ hS _ _ _ hrtp _ =>
    refine ⟨hslot hS, rfl, rfl, rfl, rfl, fun t' => ?_⟩
    dsimp only [Server.onTrack, Server.delete, Server.setSlot]
    rw [Function.update_apply]
    split_ifs with ht
    · rw [ht, hrtp]
      simp
    · exact Iff.rfl

/-- So do several of them. -/
theorem Steps.fewer {mc : Bool} {A : Set Kind} {s s' : Server} (h : Steps mc A s s')
    (hA : ∀ k ∈ A, ∃ p e, k = .removed p e) : Fewer s s' := by
  refine h.keeps (I := Fewer s) (.refl s) (fun s₁ s₂ hs h => hs.trans ?_) fun k hk s₁ s₂ hs h => ?_
  · refine ⟨fun p => ?_, h.entries, h.sessList, h.rtspSessList, h.rtspLocList, fun t => ?_⟩
    · rw [h.sessions]
      exact (Fewer.refl s₁).sessions p
    · rw [h.tracks]
  · obtain ⟨p, e, rfl⟩ := hA k hk
    exact hs.trans h.fewer

section Teardown

variable {mc : Bool} {p : ℕ} {s : Server} {S : Session}

/-- The loop of `live_teardown`: the endpoints that it removes are gone, and nothing remains if it
returns `0`.

**Proof sketch.** By induction on the slots that are left, of which the loop takes the first. It
ends there if the track or its transport is missing. Otherwise the slot is empty already, is emptied
(`wp_removeSlot`), or is kept because `ep` names another endpoint; in the last case the result is
not `0`. -/
theorem wp_teardownTracks (ep : Option ℕ) {is : List ℕ} (his : is.Pairwise (· < ·))
    (hS : s.sessions p = some S) :
    wp (teardownTracks mc p ep is) (fun r s' => Steps mc (Kind.removing p ep) s s' ∧
      ∃ S', s'.sessions p = some S' ∧
        (∀ j ∈ is, (∀ i ∈ is, i ≤ j → ∃ t, (s.entries S.liventry).tracklist i = some t ∧
            (s.tracks t).rtp ≠ none) →
          (ep = none ∨ S.ep j = ep → S'.ep j = none) ∧ (r = 0 → S'.ep j = none)) ∧
        (ep = none ∨ (∀ j, S.ep j = none ∨ S.ep j = ep) → r = 0)) (fun _ => True) s := by
  induction is generalizing s S with
  | nil => exact ⟨.refl, S, hS, by simp, fun _ => rfl⟩
  | cons i is ih =>
    obtain ⟨hlt, his⟩ := List.pairwise_cons.1 his
    -- the loop ends at a track that is not there
    have hstop : ∀ j ∈ i :: is, i ≤ j := by
      intro j hj
      rcases List.mem_cons.1 hj with rfl | hj
      · exact le_rfl
      · exact (hlt j hj).le
    unfold teardownTracks
    rw [wp_bind, wp_getSession]
    refine ⟨fun S₀ hS₀ => ?_, fun _ => trivial⟩
    obtain rfl : S = S₀ := Option.some.inj (hS.symm.trans hS₀)
    rw [wp_bind, wp_get]
    cases ht : (s.entries S.liventry).tracklist i with
    | none =>
      refine ⟨.refl, S, hS, fun j hj hreach => ?_, fun _ => rfl⟩
      obtain ⟨t, ht', -⟩ := hreach i List.mem_cons_self (hstop j hj)
      rw [ht] at ht'
      cases ht'
    | some t =>
      dsimp only
      rw [wp_bind, wp_get, wp_ite]
      refine ⟨fun hrtp => ⟨.refl, S, hS, fun j hj hreach => ?_, fun _ => rfl⟩, fun _ => ?_⟩
      · obtain ⟨t', ht', hne⟩ := hreach i List.mem_cons_self (hstop j hj)
        rw [ht] at ht'
        cases ht'
        exact absurd hrtp hne
      cases he : S.ep i with
      | none =>
        refine (ih his hS).imp fun r s' h => ?_
        obtain ⟨hsteps, S', hS', hend, hzero⟩ := h
        obtain ⟨S₁, hS₁, hfewer⟩ := (hsteps.fewer fun _ ⟨e, hk, _⟩ => ⟨p, e, hk⟩).session hS
        obtain rfl : S₁ = S' := Option.some.inj (hS₁.symm.trans hS')
        refine ⟨hsteps, S₁, hS', fun j hj hreach => ?_, hzero⟩
        rcases List.mem_cons.1 hj with rfl | hj
        · have hnone : S₁.ep j = none := (hfewer.ep j).elim (fun h => h.trans he) id
          exact ⟨fun _ => hnone, fun _ => hnone⟩
        · exact hend j hj fun i hi => hreach i (List.mem_cons_of_mem _ hi)
      | some e =>
        dsimp only
        rw [wp_ite]
        refine ⟨fun hep => ?_, fun hep => ?_⟩
        · refine wp_removeSlot hS he ht fun s₁ hchange hS₁ => ?_
          refine (ih his hS₁).imp fun r s' h => ?_
          obtain ⟨hsteps, S', hS', hend, hzero⟩ := h
          have hfewer := hchange.fewer
          obtain ⟨S₂, hS₂, hfewer'⟩ := (hsteps.fewer fun _ ⟨e, hk, _⟩ => ⟨p, e, hk⟩).session hS₁
          obtain rfl : S₂ = S' := Option.some.inj (hS₂.symm.trans hS')
          have hround : Steps mc (Kind.removing p ep) s s₁ := .one ⟨e, rfl, hep⟩ hchange
          refine ⟨hround.trans hsteps, S₂, hS', fun j hj hreach => ?_,
            fun hall => hzero (hall.imp_right fun hall j => ?_)⟩
          · rcases List.mem_cons.1 hj with rfl | hj
            · have hnone : S₂.ep j = none := by
                rcases hfewer'.ep j with h | h
                · exact h.trans (Function.update_self ..)
                · exact h
              exact ⟨fun _ => hnone, fun _ => hnone⟩
            · have hne : j ≠ i := (hlt j hj).ne'
              have hep : Function.update S.ep i none j = S.ep j := Function.update_of_ne hne ..
              have := hend j hj fun k hk hkj => ?_
              · dsimp only at this
                rwa [hep] at this
              · rw [hfewer.entries]
                obtain ⟨t', ht', hne'⟩ := hreach k (List.mem_cons_of_mem _ hk) hkj
                exact ⟨t', ht', fun h => hne' ((hfewer.rtp t').1 h)⟩
          · by_cases hj : j = i
            · rw [hj]
              exact .inl (Function.update_self ..)
            · dsimp only
              rw [Function.update_of_ne hj]
              exact hall j
        · rw [wp_bind]
          refine (ih his hS).imp fun r s' h => ?_
          obtain ⟨hsteps, S', hS', hend, -⟩ := h
          refine ⟨hsteps, S', hS', fun j hj hreach => ?_, fun hall => ?_⟩
          · rcases List.mem_cons.1 hj with rfl | hj
            · rw [he]
              refine ⟨fun h => absurd ?_ hep, fun h => by simp at h⟩
              exact h.imp_right Eq.symm
            · refine ⟨(hend j hj fun i hi => hreach i (List.mem_cons_of_mem _ hi)).1,
                fun h => by simp at h⟩
          · rcases hall with hnone | hall
            · exact absurd (.inl hnone) hep
            · rcases hall i with h | h <;> rw [he] at h
              · cases h
              · exact absurd (.inr h.symm) hep

end Teardown

/-- The endpoints that `live_teardown` removes are gone. -/
structure Emptied (mc : Bool) (p : ℕ) (ep : Option ℕ) (S S' : Session) (s s' : Server) : Prop where
  before : s.sessions p = some S
  steps : Steps mc (Kind.removing p ep) s s'
  after : s'.sessions p = some S'
  cleared : ∀ j < maxTracks, s.Reaches S.liventry j → ep = none ∨ S.ep j = ep → S'.ep j = none

/-- What `live_teardown` leaves: the session, when it has other endpoints, or nothing of it. -/
inductive TornDown (mc : Bool) (p : ℕ) (ep : Option ℕ) (s : Server) : Server → Prop
  | kept {S S' : Session} {s' : Server} : Emptied mc p ep S S' s s' →
      ¬ (ep = none ∨ ∀ j, S.ep j = none ∨ S.ep j = ep) → TornDown mc p ep s s'
  | closed {S S' : Session} {s' : Server} : Emptied mc p ep S S' s s' →
      (∀ j < maxTracks, s'.Reaches S'.liventry j → S'.ep j = none) →
      TornDown mc p ep s (s'.closed p S'.liventry)

section Teardown

variable {mc : Bool} {p : ℕ} {ep : Option ℕ} {s s' : Server} {S S' : Session}

/-- A teardown takes endpoints from sessions and adds none. -/
theorem Emptied.fewer (h : Emptied mc p ep S S' s s') : Fewer s s' :=
  h.steps.fewer fun _ ⟨e, hk, _⟩ => ⟨p, e, hk⟩

/-- The session that is torn down has lost endpoints. -/
theorem Emptied.sessionFewer (h : Emptied mc p ep S S' s s') : SessionFewer S S' := by
  obtain ⟨S₁, hS₁, hfewer⟩ := h.fewer.session h.before
  obtain rfl : S₁ = S' := Option.some.inj (hS₁.symm.trans h.after)
  exact hfewer

/-- A teardown leaves the lists of the configuration as they are. -/
theorem Fewer.reaches (h : Fewer s s') (n j : ℕ) : s'.Reaches n j ↔ s.Reaches n j := by
  unfold Server.Reaches
  rw [h.entries]
  refine forall₂_congr fun i _ => exists_congr fun t => and_congr_right fun _ => ?_
  exact not_congr (h.rtp t)

/-- A removal frees one slot. -/
theorem Change.removed_slot {e : ℕ} (h : Change mc (.removed p e) s s') :
    ∃ S i, s.sessions p = some S ∧ S.ep i = some e ∧ s'.sessions =
      Function.update s.sessions p (some { S with ep := Function.update S.ep i none }) := by
  cases h with
  | removed _ hS he | removedLast _ hS he | left _ hS he | leftLast _ hS he =>
    exact ⟨_, _, hS, he, rfl⟩

/-- The other sessions stay as they are. -/
theorem Emptied.others (h : Emptied mc p ep S S' s s') {p' : ℕ} (hp : p' ≠ p) :
    s'.sessions p' = s.sessions p' := by
  refine h.steps.keeps (I := fun s' => s'.sessions p' = s.sessions p') rfl
    (fun _ _ hs ha => ?_) fun k hk _ _ hs hc => ?_
  · rw [ha.sessions, hs]
  · obtain ⟨e, rfl, -⟩ := hk
    obtain ⟨S₁, i, -, -, hsessions⟩ := hc.removed_slot
    rw [hsessions, Function.update_of_ne hp, hs]

/-- So do the other slots. -/
theorem Emptied.slot (h : Emptied mc p ep S S' s s') {j e : ℕ} (he : S.ep j = some e)
    (hnone : ep ≠ none) (hep : ep ≠ some e) : S'.ep j = some e := by
  have hkeep : ∃ S₁, s'.sessions p = some S₁ ∧ S₁.ep j = some e := by
    refine h.steps.keeps (I := fun s' => ∃ S₁, s'.sessions p = some S₁ ∧ S₁.ep j = some e)
      ⟨S, h.before, he⟩ (fun _ _ hs ha => ?_) fun k hk _ _ hs hc => ?_
    · rw [ha.sessions]
      exact hs
    · obtain ⟨e', rfl, he'⟩ := hk
      obtain ⟨S₁, hS₁, he₁⟩ := hs
      obtain ⟨S₂, i, hS₂, he₂, hsessions⟩ := hc.removed_slot
      cases hS₁.symm.trans hS₂
      rw [hsessions, Function.update_self]
      refine ⟨_, rfl, ?_⟩
      dsimp only
      rw [Function.update_of_ne]
      · exact he₁
      · rintro rfl
        cases he₁.symm.trans he₂
        exact he'.elim hnone hep
  obtain ⟨S₁, hS₁, he₁⟩ := hkeep
  cases h.after.symm.trans hS₁
  exact he₁

/-- The steps of `live_teardown`. -/
theorem TornDown.steps (h : TornDown mc p ep s s') :
    Steps mc (Kind.removing p ep ∪ {.closed p}) s s' := by
  cases h with
  | kept h _ => exact h.steps.mono Set.subset_union_left
  | closed h hnone =>
    exact (h.steps.mono Set.subset_union_left).trans (Steps.one (.inr rfl) (.closed h.after hnone))

/-- **Teardown.** -/
theorem wp_liveTeardown (p : ℕ) (ep : Option ℕ) :
    wp (liveTeardown mc p ep) (fun _ s' => TornDown mc p ep s s') (fun _ => True) s := by
  unfold liveTeardown
  cases hS : s.sessions p with
  | none =>
    have hrange : List.range maxTracks = 0 :: [1] := rfl
    rw [hrange]
    unfold teardownTracks
    simp [hS]
  | some S =>
    refine (wp_teardownTracks ep List.pairwise_lt_range hS).seq fun r s₁ h => ?_
    obtain ⟨hsteps, S₁, hS₁, hend, hzero⟩ := h
    have hin : ∀ j < maxTracks, s.Reaches S.liventry j → _ := fun j hj hreach =>
      hend j (List.mem_range.2 hj) fun i _ hij => hreach i hij
    have hemptied : Emptied mc p ep S S₁ s s₁ :=
      ⟨hS, hsteps, hS₁, fun j hj hreach => (hin j hj hreach).1⟩
    rw [wp_ite]
    refine ⟨fun hr => ?_, fun hr => .kept hemptied fun h => hr (hzero h)⟩
    rw [wp_bind, wp_getSession]
    refine ⟨fun S₂ hS₂ => ?_, fun _ => trivial⟩
    obtain rfl : S₁ = S₂ := Option.some.inj (hS₁.symm.trans hS₂)
    rw [wp_bind, wp_modifyEntry]
    unfold delSession
    rw [wp_bind, wp_getSession]
    refine ⟨fun S₂ _ => ?_, fun _ => trivial⟩
    refine .closed hemptied fun j hj hreach => (hin j hj ?_).2 hr
    rwa [← hemptied.sessionFewer.liventry, ← hemptied.fewer.reaches]

end Teardown

/-! ## Setup -/

/-- The endpoint of `new_rtp_endpoint`. -/
def SetupEnv.endpoint (env : SetupEnv) : Endpoint :=
  { session := none, maxDataSize := 8192, seqnum := env.seqnum % 65536, packetCount := 0,
    octetCount := 0, rtcpSendEvent := false, forceRtcp := true, lastRtcpRecv := env.now,
    trans := .none, bLostKeyFrame := true, ex := false }

/-- `new_rtp_endpoint` makes an endpoint, or returns NULL when there is no memory. -/
theorem wp_newRtpEndpoint {env : SetupEnv} {s : Server} {Q : Option ℕ → Server → Prop}
    {E : Fault → Prop} : wp (newRtpEndpoint env) Q E s ↔
      (env.epAlloc = true →
        Q (some s.next) { s.onEndpoint s.next env.endpoint with next := s.next + 1 }) ∧
      (¬ env.epAlloc = true → Q none s) := by
  unfold newRtpEndpoint
  rw [wp_ite, wp_bind, wp_fresh]
  rfl

/-- `live_open` makes a session of the `live_source`. -/
theorem wp_liveOpen (n : ℕ) (s : Server) :
    wp (liveOpen n) (fun p s' => p = s.next ∧ s' = s.opened n) (fun _ => True) s := by
  unfold liveOpen
  rw [wp_bind, wp_fresh, wp_bind, wp_modify, wp_bind, wp_modifyEntry]
  exact ⟨rfl, rfl⟩

section Setup

variable {mc : Bool} {p j : ℕ} {s s' : Server} {S : Session}

/-- The slot `j` of the session `p`, which was free, holds an endpoint on a track. -/
structure SlotAdded (mc : Bool) (p j : ℕ) (S : Session) (e : ℕ) (E : Endpoint) (s s' : Server) :
    Prop where
  before : s.sessions p = some S
  free : S.ep j = none
  track : ∃ t, (s.entries S.liventry).tracklist j = some t ∧ (s.tracks t).rtp ≠ none
  sessions : s'.sessions =
    Function.update s.sessions p (some { S with ep := Function.update S.ep j (some e) })
  entries : s'.entries = s.entries
  sessList : s'.sessList = s.sessList
  endpoint : s'.endpoints e = some E
  trans : mc = false → E.trans = .none

/-- What is known of the slot that `live_setup` fills. -/
theorem Change.slotAdded (h : Change mc (.added p j) s s') :
    ∃ S e E, SlotAdded mc p j S e E s s' := by
  cases h with
  | added hmc hS hj ht hrtp hp htrans _ =>
    exact ⟨_, _, _, hS, hj, ⟨_, ht, hrtp⟩, rfl, rfl, rfl, Function.update_self .., fun _ => htrans⟩
  | shared hmc hS hj ht hrtp hE =>
    refine ⟨_, _, _, hS, hj, ⟨_, ht, by simp [hrtp]⟩, rfl, rfl, rfl, Function.update_self ..,
      fun hmc' => ?_⟩
    rw [hmc] at hmc'
    cases hmc'
  | newShared hmc hS hj ht hrtp =>
    refine ⟨_, _, _, hS, hj, ⟨_, ht, by simp [hrtp]⟩, rfl, rfl, rfl, Function.update_self ..,
      fun hmc' => ?_⟩
    rw [hmc] at hmc'
    cases hmc'

/-- The session with its new slot. -/
theorem SlotAdded.after {e : ℕ} {E : Endpoint} (h : SlotAdded mc p j S e E s s') :
    s'.sessions p = some { S with ep := Function.update S.ep j (some e) } := by
  rw [h.sessions, Function.update_self]

/-- The endpoint is the one that the slot was set to. -/
theorem SlotAdded.eq_of_setSlot {e e' : ℕ} {E : Endpoint} {S' : Session} {s₁ : Server}
    (h : SlotAdded mc p j S e E s (s₁.setSlot p j S' (some e'))) : e' = e := by
  have hafter := h.after
  dsimp only [Server.setSlot] at hafter
  rw [Function.update_self, Option.some.injEq] at hafter
  have hslot := congrFun (congrArg Session.ep hafter) j
  dsimp only at hslot
  rw [Function.update_self, Function.update_self] at hslot
  exact Option.some.inj hslot

/-- The endpoint of a unicast slot is a new one. -/
theorem SlotAdded.fresh {e : ℕ} {E : Endpoint} (h : SlotAdded false p j S e E s s')
    (hadd : Change false (.added p j) s s') : E.Fresh ∧ E.session = some p ∧ e = s.next ∧
      s'.endpoints = Function.update s.endpoints e (some E) := by
  cases hadd with
  | @added _ _ _ _ S₁ E₁ _ hS _ _ _ hp _ hfresh =>
    obtain rfl := h.eq_of_setSlot
    have hendpoint := h.endpoint
    dsimp only [Server.setSlot, Server.onEndpoint] at hendpoint
    rw [Function.update_self] at hendpoint
    cases hendpoint
    exact ⟨hfresh, hp, rfl, rfl⟩
  | shared hmc => cases hmc
  | newShared hmc => cases hmc

/-- **Setup of a track** whose slot is free: refused, without an endpoint, or done.

**Proof sketch.** Along the code. Without a track, or without a transport for it, nothing is done.
Over multicast the endpoint of the track is shared, or is made and stored for the track; over
unicast the session gets an endpoint of its own. Where there is no memory the unicast branch stores
through NULL. -/
theorem wp_liveSetup {env : SetupEnv} (hS : s.sessions p = some S) (hj : S.ep j = none) :
    wp (liveSetup mc p j env) (fun ret s' => s' = s ∨ 0 ≤ ret ∧ Change mc (.added p j) s s')
      (fun _ => True) s := by
  unfold liveSetup
  rw [wp_bind, wp_getSession]
  refine ⟨fun S₀ hS₀ => ?_, fun _ => trivial⟩
  obtain rfl : S = S₀ := Option.some.inj (hS.symm.trans hS₀)
  rw [wp_bind, wp_get]
  cases ht : (s.entries S.liventry).tracklist j with
  | none => exact .inl rfl
  | some k =>
    dsimp only
    rw [wp_bind, wp_get]
    cases hrtp : (s.tracks k).rtp with
    | none => exact .inl rfl
    | some epMc =>
      dsimp only
      rw [wp_ite]
      refine ⟨fun hmc => ?_, fun hmc => ?_⟩
      · cases epMc with
        | wild => trivial
        | endpoint e =>
          dsimp only
          rw [wp_bind, wp_modifySession]
          refine ⟨fun S₀ hS₀ => ?_, fun _ => trivial⟩
          obtain rfl : S = S₀ := Option.some.inj (hS.symm.trans hS₀)
          rw [wp_bind, wp_modifyEndpoint]
          refine ⟨fun E hE => .inr ⟨le_rfl, .shared hmc hS hj ht hrtp hE⟩, fun _ => trivial⟩
        | null =>
          dsimp only
          rw [wp_bind, wp_newRtpEndpoint]
          refine ⟨fun _ => ?_, fun _ => .inl rfl⟩
          dsimp only
          rw [wp_bind, wp_modifyTrack, wp_bind]
          -- the endpoint is made for the track, and perhaps connected
          have hnew : ∀ E : Endpoint, E.session = none → E.trans = .none ∨ E.trans = .mc →
              E.Fresh → ∀ s₁ : Server,
              s₁ = ({ s.onEndpoint s.next E with next := s.next + 1 }).onTrack k (fun T =>
                { T with rtp := some (.endpoint s.next) }) →
              wp (do
                modifySession p fun S => { S with ep := Function.update S.ep j (some s.next) }
                return (0 : ℤ)) (fun ret s' => s' = s ∨ 0 ≤ ret ∧ Change mc (.added p j) s s')
                (fun _ => True) s₁ := by
            intro E hsession htrans hfresh s₁ hs₁
            subst hs₁
            rw [wp_bind, wp_modifySession]
            refine ⟨fun S₀ hS₀ => ?_, fun _ => trivial⟩
            obtain rfl : S = S₀ := Option.some.inj (hS.symm.trans hS₀)
            exact .inr ⟨le_rfl, .newShared hmc hS hj ht hrtp hsession htrans hfresh⟩
          rw [wp_ite]
          refine ⟨fun _ => ?_, fun _ => ?_⟩
          · rw [wp_modifyEndpoint]
            refine ⟨fun E hE => ?_, fun _ => trivial⟩
            obtain rfl : env.endpoint = E := by simpa [Server.onEndpoint] using hE
            refine hnew { env.endpoint with maxDataSize := 1400, trans := .mc } rfl (.inr rfl)
              ⟨rfl, rfl, rfl, rfl, rfl⟩ _ ?_
            simp [Server.onEndpoint, Server.onTrack]
          · exact hnew env.endpoint rfl (.inl rfl) ⟨rfl, rfl, rfl, rfl, rfl⟩ _ rfl
      · rw [wp_bind, wp_newRtpEndpoint]
        refine ⟨fun _ => ?_, fun _ => trivial⟩
        dsimp only
        rw [wp_bind, wp_modifySession]
        refine ⟨fun S₀ hS₀ => ?_, fun _ => trivial⟩
        obtain rfl : S = S₀ := Option.some.inj (hS.symm.trans hS₀)
        rw [wp_bind, wp_modifyEndpoint]
        refine ⟨fun E hE => .inr ⟨le_rfl, ?_⟩, fun _ => trivial⟩
        obtain rfl : env.endpoint = E := by simpa [Server.onEndpoint] using hE
        have hmc' : mc = false := by simpa using hmc
        have hrtp' : (s.tracks k).rtp ≠ none := by simp [hrtp]
        have hadd := Change.added (E := { env.endpoint with session := some p }) hmc' hS hj ht hrtp'
          rfl rfl ⟨rfl, rfl, rfl, rfl, rfl⟩
        simpa [Server.onEndpoint, Server.setSlot] using hadd

end Setup

/-! ## Transports -/

/-- The channels that `rtsp_interleave_setup` picks are free, and there are two of them. -/
theorem pickChannels_some {rc : Option (ℕ → Ichan)} {channels : Channels} {a b : ℕ}
    (h : pickChannels rc channels = some (a, b)) :
    a < maxInterleaveChannels ∧ b < maxInterleaveChannels ∧ a ≠ b ∧
      ∀ ichan, rc = some ichan → (ichan a).ep = none ∧ (ichan b).ep = none := by
  have hmax : maxInterleaveChannels = 8 := rfl
  cases channels with
  | unreadable => cases h
  | chan n =>
    unfold pickChannels at h
    dsimp only at h
    split_ifs at h with hn
    rw [hmax] at hn
    cases rc with
    | none =>
      simp only [Option.some.injEq, Prod.mk.injEq] at h
      obtain ⟨rfl, rfl⟩ := h
      refine ⟨by omega, by omega, by omega, fun _ h => by cases h⟩
    | some ch =>
      dsimp only at h
      split_ifs at h with htaken
      simp only [Option.some.injEq, Prod.mk.injEq] at h
      obtain ⟨rfl, rfl⟩ := h
      refine ⟨by omega, by omega, by omega, fun ichan h => ?_⟩
      cases h
      simpa using htaken
  | any =>
    cases rc with
    | none =>
      obtain ⟨rfl, rfl⟩ : 0 = a ∧ 1 = b := by simpa [pickChannels] using h
      exact ⟨by decide, by decide, by decide, fun _ h => by cases h⟩
    | some ch =>
      unfold pickChannels at h
      simp only [Option.map_eq_some_iff, Prod.mk.injEq] at h
      obtain ⟨i, hi, rfl, rfl⟩ := h
      have hmem := List.mem_of_find?_eq_some hi
      rw [List.mem_range, hmax] at hmem
      refine ⟨by omega, by omega, by omega, fun ichan h => ?_⟩
      cases h
      simpa using List.find?_some hi

/-- The `rtsp_conn` that a connection has. -/
def ProtoState.rtsp : ProtoState → Option (ℕ → Ichan)
  | .rtspConn ichan => some ichan
  | .null | .stream _ => none

/-- No endpoint can be connected to the transport. -/
def Transport.Refused (C : Conn) (env : SetupEnv) : Transport → Prop
  | .tcp channels => pickChannels C.protoState.rtsp channels = none ∨
      C.protoState.rtsp = none ∧ env.rcAlloc = false
  | .udp clientPort => (clientPort && env.udpConnect) = false
  | .unknown => True

section Transport

variable {mc : Bool} {c e : ℕ} {s : Server} {C : Conn} {E : Endpoint}

/-- `rtsp_interleave_setup` fails only where the connection refuses the channels, and connects the
endpoint otherwise. -/
theorem wp_rtspInterleaveSetup {channels : Channels} {env : SetupEnv} (hC : s.conns c = some C)
    (hproto : C.proto = .rtsp) (hE : s.endpoints e = some E) (htrans : mc = false → E.trans = .none) :
    wp (rtspInterleaveSetup c e channels env) (fun ret s' =>
      ret < 0 ∧ s' = s ∧ (Transport.tcp channels).Refused C env ∨
      0 ≤ ret ∧ Change mc (.connected e) s s') (fun _ => True) s := by
  unfold rtspInterleaveSetup getRtspConn
  rw [wp_bind, wp_bind, wp_getConn]
  refine ⟨fun C' hC' => ?_, fun _ => trivial⟩
  obtain rfl : C = C' := Option.some.inj (hC.symm.trans hC')
  -- what is done with the channels is the same for a new `rtsp_conn`
  have hdone : ∀ rc a b, C.protoState.channels = some (rc.getD fun _ => ⟨none, false⟩) →
      pickChannels rc channels = some (a, b) → wp (do
        modifyConn c fun C => { C with protoState := .rtspConn (Function.update (Function.update
          (rc.getD fun _ => ⟨none, false⟩) a ⟨some e, false⟩) b ⟨some e, true⟩) }
        modifyEndpoint e fun E => { E with trans := .inter c a b }
        return (0 : ℤ)) (fun ret s' => ret < 0 ∧ s' = s ∧ (Transport.tcp channels).Refused C env ∨
          0 ≤ ret ∧ Change mc (.connected e) s s') (fun _ => True) s := by
    intro rc a b hchannels hpick
    obtain ⟨ha, hb, hab, hfree⟩ := pickChannels_some hpick
    rw [wp_bind, wp_modifyConn]
    refine ⟨fun C' hC' => ?_, fun _ => trivial⟩
    obtain rfl : C = C' := Option.some.inj (hC.symm.trans hC')
    rw [wp_bind, wp_modifyEndpoint]
    refine ⟨fun E' hE' => ?_, fun _ => trivial⟩
    obtain rfl : E = E' := Option.some.inj (hE.symm.trans hE')
    have hnone : ((rc.getD fun _ => ⟨none, false⟩) a).ep = none ∧
        ((rc.getD fun _ => ⟨none, false⟩) b).ep = none := by
      cases rc with
      | none => exact ⟨rfl, rfl⟩
      | some ichan => exact hfree ichan rfl
    exact .inr ⟨le_rfl, .interleaved hE htrans hC hproto hchannels ha hb hab hnone.1 hnone.2⟩
  unfold Transport.Refused at hdone ⊢
  cases hp : C.protoState with
  | stream p => trivial
  | null | rtspConn ichan =>
    rw [hp] at hdone
    dsimp only [ProtoState.rtsp] at hdone ⊢
    rw [wp_pure]
    rcases hpick : pickChannels _ channels with _ | ⟨a, b⟩
    · exact .inl ⟨by decide, rfl, .inl rfl⟩
    · dsimp only
      rw [wp_ite]
      refine ⟨fun halloc => .inl ⟨by decide, rfl, .inr ?_⟩, fun _ => ?_⟩
      · revert halloc
        simp
      · rw [hpick] at hdone
        exact hdone _ a b rfl hpick

/-- **The transport of a new endpoint**: there is one already, it is refused, or it is connected. -/
theorem wp_setupTransport {t : Transport} {env : SetupEnv} (hC : s.conns c = some C)
    (hproto : C.proto = .rtsp) (hE : s.endpoints e = some E) (htrans : mc = false → E.trans = .none) :
    wp (setupTransport c e t env) (fun ret s' =>
      ret < 0 ∧ s' = s ∧ E.trans ≠ .mc ∧ t.Refused C env ∨
      0 ≤ ret ∧ (E.trans = .mc ∧ s' = s ∨ Change mc (.connected e) s s')) (fun _ => True) s := by
  unfold setupTransport
  rw [wp_bind, wp_getEndpoint]
  refine ⟨fun E' hE' => ?_, fun _ => trivial⟩
  obtain rfl : E = E' := Option.some.inj (hE.symm.trans hE')
  have hudp : ∀ clientPort, wp (rtspUdpSetup e clientPort env) (fun ret s' =>
      ret < 0 ∧ s' = s ∧ (Transport.udp clientPort).Refused C env ∨
      0 ≤ ret ∧ Change mc (.connected e) s s') (fun _ => True) s := by
    intro clientPort
    unfold rtspUdpSetup
    rw [wp_ite, wp_bind, wp_modifyEndpoint]
    refine ⟨fun _ => ⟨fun E' hE' => ?_, fun _ => trivial⟩, fun hno => .inl ⟨by decide, rfl, ?_⟩⟩
    · obtain rfl : E = E' := Option.some.inj (hE.symm.trans hE')
      exact .inr ⟨le_rfl, .udp hE htrans⟩
    · exact Bool.eq_false_iff.2 hno
  have hinter : ∀ channels, wp (rtspInterleaveSetup c e channels env) (fun ret s' =>
      ret < 0 ∧ s' = s ∧ (Transport.tcp channels).Refused C env ∨
      0 ≤ ret ∧ Change mc (.connected e) s s') (fun _ => True) s :=
    fun _ => wp_rtspInterleaveSetup hC hproto hE htrans
  cases htr : E.trans with
  | mc => exact .inr ⟨le_rfl, .inl ⟨rfl, rfl⟩⟩
  | none | udp | inter =>
    cases t with
    | tcp channels =>
      refine (hinter channels).imp fun ret s' h => h.imp ?_ ?_
      · exact fun h => ⟨h.1, h.2.1, by simp, h.2.2⟩
      · exact fun h => ⟨h.1, .inr h.2⟩
    | udp clientPort =>
      refine (hudp clientPort).imp fun ret s' h => h.imp ?_ ?_
      · exact fun h => ⟨h.1, h.2.1, by simp, h.2.2⟩
      · exact fun h => ⟨h.1, .inr h.2⟩
    | unknown => exact .inl ⟨by decide, rfl, by simp, trivial⟩

end Transport

/-! ## Replies -/

/-- The program leaves the live side of the server as it was. -/
abbrev LeavesLive {α : Type} (x : M α) : Prop := Within (fun _ => True) Alike (fun _ => True) x

section Replies

variable {c : ℕ} {s : Server}

/-- A change of a connection that keeps its channels. -/
theorem wp_modifyConn_alike {f : Conn → Conn}
    (h : ∀ C, s.conns c = some C → ConnAlike C (f C)) :
    wp (modifyConn c f) (fun _ s' => True ∧ Alike s s') (fun _ => True) s := by
  rw [wp_modifyConn]
  refine ⟨fun C hC => ⟨trivial, ?_⟩, fun _ => trivial⟩
  exact ⟨alike_update hC (h C hC), rfl, rfl, rfl, rfl, rfl, rfl, rfl, rfl, le_rfl, [], by simp,
    by simp⟩

/-- A change of a connection that leaves its channels. -/
theorem leavesLive_modifyConn {f : Conn → Conn} (h : ∀ C, ConnAlike C (f C)) :
    LeavesLive (modifyConn c f) :=
  fun _ _ => wp_modifyConn_alike fun C _ => h C

/-- A look at a connection. -/
theorem leavesLive_getConn (c : ℕ) : LeavesLive (getConn c) :=
  within_bind within_get fun _ => within_found trivial

/-- What is sent does not matter to the channels. -/
theorem connAlike_sendData (len : ℕ) (C : Conn) : ConnAlike C (C.sendData len).1 := by
  unfold Conn.sendData
  split_ifs
  · exact .refl _
  · exact ⟨id, .inl rfl⟩

/-- A response goes into the buffer of its connection. -/
theorem leavesLive_rtspReply (c : ℕ) (r : Reply) : LeavesLive (rtspReply c r) := by
  refine within_bind ?_ fun ret => within_ite (fun _ => within_pure _) fun _ =>
    leavesLive_modifyConn (connAlike_sendData _)
  refine within_bind (leavesLive_getConn c) fun C => within_ite (fun _ => within_pure _) fun _ => ?_
  exact within_bind (leavesLive_modifyConn (connAlike_sendData _)) fun _ => within_pure _

/-- A response has the status code that it was made with. -/
theorem wp_rtspAnswer (c : ℕ) (r : Reply) (k : ℕ) (s : Server) :
    wp (rtspAnswer c r k) (fun code s' => code = some k ∧ Alike s s') (fun _ => True) s :=
  (leavesLive_rtspReply c r s trivial).seq fun _ _ h => ⟨rfl, h.2⟩

end Replies

/-! ## The second half of SETUP -/

/-- What a session without an `rtsp_session` gets. -/
def Server.register (s : Server) (p : ℕ) (id : Bytes) (isNew : Bool) : Server :=
  if isNew then { s with rtspSessList := ⟨id, p⟩ :: s.rtspSessList } else s

/-- What the second half of `handle_SETUP` leaves, by the code of its response. -/
inductive SetUp (mc : Bool) (c p j : ℕ) (isNew : Bool) (t : Transport) (env : SetupEnv)
    (s : Server) : ℕ → Server → Prop
  /-- The session has an endpoint on the track. -/
  | taken {s' : Server} {S : Session} : s.sessions p = some S → S.ep j ≠ none → Alike s s' →
      SetUp mc c p j isNew t env s 461 s'
  /-- `live_setup` fails for a session that is there. -/
  | refused {s' : Server} : isNew = false → Alike s s' → SetUp mc c p j isNew t env s 404 s'
  /-- `live_setup` fails for a new session. -/
  | refusedNew {s₁ s' : Server} : isNew = true → Alike s s₁ → TornDown mc p none s₁ s' →
      SetUp mc c p j isNew t env s 404 s'
  /-- The endpoint is not connected. -/
  | unconnected {s₁ s₂ s' : Server} {S : Session} {C : Conn} {e : ℕ} {E : Endpoint} :
      Change mc (.added p j) s s₁ → SlotAdded mc p j S e E s s₁ → E.trans ≠ .mc →
      s.conns c = some C → t.Refused C env → Alike s₁ s₂ → TornDown mc p (some e) s₂ s' →
      SetUp mc c p j isNew t env s 461 s'
  | done {s₁ s₂ s' : Server} {S : Session} {e : ℕ} {E : Endpoint} :
      Change mc (.added p j) s s₁ → SlotAdded mc p j S e E s s₁ →
      E.trans = .mc ∧ s₂ = s₁ ∨ Change mc (.connected e) s₁ s₂ →
      Alike (s₂.register p env.id isNew) s' → SetUp mc c p j isNew t env s 200 s'

/-- A new slot leaves the connections alone. -/
theorem Change.added_conns {mc : Bool} {p j : ℕ} {s s' : Server} (h : Change mc (.added p j) s s') :
    s'.conns = s.conns := by
  cases h <;> rfl

/-- A connected endpoint leaves the sessions alone. -/
theorem Change.connected_sessions {mc : Bool} {e : ℕ} {s s' : Server}
    (h : Change mc (.connected e) s s') : s'.sessions = s.sessions := by
  cases h <;> rfl

/-- A connected endpoint gets a transport, and nothing else that matters later. -/
theorem Change.connected_endpoint {mc : Bool} {e : ℕ} {s s' : Server}
    (h : Change mc (.connected e) s s') : ∃ E E', s.endpoints e = some E ∧
      s'.endpoints = Function.update s.endpoints e (some E') ∧
      (E'.trans = .udp ∨ ∃ c a b, E'.trans = .inter c a b) ∧ E'.session = E.session ∧
      E'.rtcpSendEvent = E.rtcpSendEvent ∧ E'.forceRtcp = E.forceRtcp := by
  cases h with
  | interleaved hE => exact ⟨_, _, hE, rfl, .inr ⟨_, _, _, rfl⟩, rfl, rfl, rfl⟩
  | udp hE => exact ⟨_, _, hE, rfl, .inl rfl, rfl, rfl, rfl⟩

/-- **The second half of SETUP.**

**Proof sketch.** Along the code: the slot is taken; `live_setup` refuses it; the endpoint is there
and its transport is refused, whereupon it is torn down; or all is done. Each branch is one
constructor of `SetUp`. -/
theorem wp_setupTrack {mc : Bool} {c p j : ℕ} {s : Server} {C : Conn} {r : Reply} (isNew : Bool)
    (t : Transport) (env : SetupEnv) (hC : s.conns c = some C) (hproto : C.proto = .rtsp) :
    wp (setupTrack mc c r p j isNew t env)
      (fun code s' => ∃ k, code = some k ∧ SetUp mc c p j isNew t env s k s') (fun _ => True) s := by
  unfold setupTrack
  rw [wp_bind, wp_getSession]
  refine ⟨fun S hS => ?_, fun _ => trivial⟩
  rw [wp_ite]
  refine ⟨fun hj => ?_, fun hj => ?_⟩
  · refine (wp_rtspAnswer c r 461 s).imp fun code s' h => ⟨461, h.1, .taken hS ?_ h.2⟩
    exact Option.isSome_iff_ne_none.1 hj
  have hj : S.ep j = none := by simpa using hj
  refine (wp_liveSetup hS hj).seq fun ret s₁ h => ?_
  rw [wp_ite]
  refine ⟨fun hret => ?_, fun _ => ?_⟩
  · -- refused, so that nothing was done
    obtain rfl : s₁ = s := by
      rcases h with h | ⟨h, -⟩
      · exact h
      · omega
    refine (wp_rtspAnswer c r 404 s₁).seq fun code s₂ h => ?_
    obtain ⟨rfl, halike⟩ := h
    rw [wp_bind, wp_ite]
    refine ⟨fun hnew => ?_, fun hnew => ⟨404, rfl, .refused (by simpa using hnew) halike⟩⟩
    exact (wp_liveTeardown p none).imp fun _ s' h => ⟨404, rfl, .refusedNew hnew halike h⟩
  · rw [wp_bind, wp_getSession]
    refine ⟨fun S₁ hS₁ => ?_, fun _ => trivial⟩
    rcases h with rfl | ⟨-, hadd⟩
    · -- without memory
      obtain rfl : S = S₁ := Option.some.inj (hS.symm.trans hS₁)
      rw [hj]
      trivial
    obtain ⟨S', e, E, hslot⟩ := hadd.slotAdded
    obtain rfl := Option.some.inj (hslot.after.symm.trans hS₁)
    have hC₁ : s₁.conns c = some C := by rw [hadd.added_conns, hC]
    have he : Function.update S'.ep j (some e) j = some e := Function.update_self ..
    dsimp only
    rw [he]
    refine (wp_setupTransport hC₁ hproto hslot.endpoint hslot.trans).seq fun ret s₂ h => ?_
    rw [wp_ite]
    refine ⟨fun hret => ?_, fun hret => ?_⟩
    · rcases h with ⟨-, rfl, hne, href⟩ | ⟨h, -⟩
      · refine (wp_rtspAnswer c r 461 s₂).seq fun code s₃ h => ?_
        obtain ⟨rfl, halike⟩ := h
        rw [wp_bind, wp_getSession]
        refine ⟨fun S₃ hS₃ => ?_, fun _ => trivial⟩
        obtain rfl := Option.some.inj (hslot.after.symm.trans (halike.sessions ▸ hS₃))
        dsimp only
        rw [he, wp_bind]
        refine (wp_liveTeardown p (some e)).imp fun _ s' h => ?_
        exact ⟨461, rfl, .unconnected hadd hslot hne hC href halike h⟩
      · omega
    · have hconn : E.trans = .mc ∧ s₂ = s₁ ∨ Change mc (.connected e) s₁ s₂ := by
        rcases h with ⟨h, -⟩ | ⟨-, h⟩
        · exact absurd h hret
        · exact h
      have hend : wp (rtspAnswer c r 200) (fun code s' => ∃ k, code = some k ∧
          SetUp mc c p j isNew t env s k s') (fun _ => True) (s₂.register p env.id isNew) :=
        (wp_rtspAnswer c r 200 _).imp fun code s' h =>
          ⟨200, h.1, .done hadd hslot hconn h.2⟩
      rw [wp_bind, wp_ite]
      refine ⟨fun hnew => ?_, fun hnew => ?_⟩
      · unfold Server.register at hend
        rw [if_pos hnew] at hend
        exact hend
      · unfold Server.register at hend
        rw [if_neg hnew] at hend
        exact hend

/-! ## Play -/

/-- Some tracks have been woken. -/
structure Awoken (s s' : Server) : Prop where
  sessions : s'.sessions = s.sessions
  entries : s'.entries = s.entries
  endpoints : s'.endpoints = s.endpoints
  rtp : ∀ t, (s'.tracks t).rtp = (s.tracks t).rtp
  srcstream : ∀ t, (s.tracks t).srcstream = some true → (s'.tracks t).srcstream = some true

/-- The track `t` is woken. -/
theorem awoken_onTrack (s : Server) (t : ℕ) :
    Awoken s (s.onTrack t fun T => { T with srcstream := some true }) := by
  refine ⟨rfl, rfl, rfl, fun t' => ?_, fun t' ht' => ?_⟩
  · dsimp only [Server.onTrack]
    rw [Function.update_apply]
    split_ifs with ht
    · rw [ht]
    · rfl
  · dsimp only [Server.onTrack]
    rw [Function.update_apply]
    split_ifs with ht
    · rfl
    · exact ht'

/-- Tracks are woken, and then more of them. -/
theorem Awoken.trans {s s' s'' : Server} (h : Awoken s s') (h' : Awoken s' s'') : Awoken s s'' :=
  ⟨h'.sessions.trans h.sessions, h'.entries.trans h.entries, h'.endpoints.trans h.endpoints,
    fun t => (h'.rtp t).trans (h.rtp t), fun t ht => h'.srcstream t (h.srcstream t ht)⟩

/-- What `live_play` does: the session plays, and its tracks are woken. -/
structure Played (mc : Bool) (p : ℕ) (S : Session) (s s' : Server) : Prop where
  before : s.sessions p = some S
  steps : Steps mc {.woken}
    { s with sessions := Function.update s.sessions p (some { S with playing := true }) } s'
  awake : ∀ j < maxTracks, s.Reaches S.liventry j → S.ep j ≠ none →
    ∀ t, (s.entries S.liventry).tracklist j = some t → (s'.tracks t).srcstream = some true

/-- `live_play` sets the session playing and wakes tracks. -/
theorem Played.changes {mc : Bool} {p : ℕ} {S : Session} {s s' : Server}
    (h : Played mc p S s s') : Steps mc {.played p, .woken} s s' := by
  have hplay : Steps mc {.played p, .woken} s
      { s with sessions := Function.update s.sessions p (some { S with playing := true }) } :=
    .one (.inl rfl) (.played h.before)
  exact hplay.trans (h.steps.mono (by simp))

section Play

variable {p : ℕ} {s : Server} {S : Session}

/-- The loop of `live_play`, which has come to the track number `k`.

**Proof sketch.** By induction on the tracks that are left. The loop stops at the first slot without
a track, passes over slots without an endpoint, and wakes the track of any other. Being awake is not
undone by the rest of the loop. -/
theorem wp_playTracks (mc : Bool) {n k : ℕ} {start : Option ℤ} (hS : s.sessions p = some S)
    (hplay : S.playing = true) (hbefore : ∀ i < k, ∃ t,
      (s.entries S.liventry).tracklist i = some t ∧ (s.tracks t).rtp ≠ none) :
    wp (playTracks p start (List.range' k n)) (fun _ s' => Steps mc {.woken} s s' ∧ Awoken s s' ∧
      ∀ j, k ≤ j → j < k + n → s.Reaches S.liventry j → S.ep j ≠ none →
        ∀ t, (s.entries S.liventry).tracklist j = some t → (s'.tracks t).srcstream = some true)
      (fun _ => True) s := by
  induction n generalizing k s start with
  | zero =>
    refine ⟨.refl, ⟨rfl, rfl, rfl, fun _ => rfl, fun _ h => h⟩, fun j hk hj => ?_⟩
    omega
  | succ n ih =>
    have hself : Awoken s s := ⟨rfl, rfl, rfl, fun _ => rfl, fun _ h => h⟩
    rw [List.range'_succ]
    unfold playTracks
    rw [wp_bind, wp_getSession]
    refine ⟨fun S' hS' => ?_, fun _ => trivial⟩
    obtain rfl : S = S' := Option.some.inj (hS.symm.trans hS')
    rw [wp_bind, wp_get]
    cases ht : (s.entries S.liventry).tracklist k with
    | none =>
      refine ⟨.refl, hself, fun j hk _ hreach => ?_⟩
      obtain ⟨t, ht', -⟩ := hreach k hk
      rw [ht] at ht'
      cases ht'
    | some t =>
      dsimp only
      rw [wp_bind, wp_get, wp_ite]
      refine ⟨fun hrtp => ⟨.refl, hself, fun j hk _ hreach => ?_⟩, fun hrtp => ?_⟩
      · obtain ⟨t', ht', hne⟩ := hreach k hk
        rw [ht] at ht'
        cases ht'
        exact absurd hrtp hne
      have hbefore' : ∀ i < k + 1, ∃ t,
          (s.entries S.liventry).tracklist i = some t ∧ (s.tracks t).rtp ≠ none := by
        intro i hi
        rcases Nat.lt_succ_iff_lt_or_eq.1 hi with hi | rfl
        · exact hbefore i hi
        · exact ⟨t, ht, hrtp⟩
      cases he : S.ep k with
      | none =>
        refine (ih hS hbefore').imp fun _ s' h => ⟨h.1, h.2.1, fun j hk hj hreach hep => ?_⟩
        refine h.2.2 j ?_ (by omega) hreach hep
        rcases hk.lt_or_eq with hk | rfl
        · exact hk
        · exact absurd he hep
      | some e =>
        dsimp only
        rw [wp_bind, wp_setWaiting]
        refine ⟨fun _ => ?_, fun _ => trivial⟩
        rw [wp_bind, wp_getEndpoint]
        refine ⟨fun E _ => ?_, fun _ => trivial⟩
        have hawoken := awoken_onTrack s t
        have hstep : Steps mc {.woken} s (s.onTrack t fun T => { T with srcstream := some true }) :=
          .one rfl (.woken hS hplay (by simp [he]) ht
            fun i hi => hbefore' i (Nat.lt_succ_iff.2 hi))
        have hrest : ∀ start, wp (playTracks p start (List.range' (k + 1) n)) (fun _ s' =>
            Steps mc {.woken} s s' ∧ Awoken s s' ∧
            ∀ j, k ≤ j → j < k + (n + 1) → s.Reaches S.liventry j → S.ep j ≠ none →
              ∀ t, (s.entries S.liventry).tracklist j = some t →
                (s'.tracks t).srcstream = some true)
            (fun _ => True) (s.onTrack t fun T => { T with srcstream := some true }) := by
          intro start
          have hkeep : ∀ i, (∃ t, (s.entries S.liventry).tracklist i = some t ∧
              (s.tracks t).rtp ≠ none) → ∃ t', (s.entries S.liventry).tracklist i = some t' ∧
              ((s.onTrack t fun T => { T with srcstream := some true }).tracks t').rtp ≠ none := by
            rintro i ⟨t', ht', hne⟩
            exact ⟨t', ht', by rwa [hawoken.rtp]⟩
          refine (ih (s := s.onTrack t fun T => { T with srcstream := some true }) hS
            fun i hi => hkeep i (hbefore' i hi)).imp fun _ s' h => ?_
          refine ⟨hstep.trans h.1, hawoken.trans h.2.1, fun j hk hj hreach hep t' ht' => ?_⟩
          rcases hk.lt_or_eq with hk | rfl
          · exact h.2.2 j hk (by omega) (fun i hi => hkeep i (hreach i hi)) hep t' ht'
          · rw [ht] at ht'
            cases ht'
            refine h.2.1.srcstream t ?_
            simp [Server.onTrack]
        rw [wp_ite]
        refine ⟨fun _ => ?_, fun _ => hrest _⟩
        cases start with
        | none => trivial
        | some x => exact hrest _

/-- **Play.** -/
theorem wp_livePlay (mc : Bool) (p : ℕ) (haveStart : Bool) :
    wp (livePlay p haveStart) (fun _ s' => ∃ S, Played mc p S s s') (fun _ => True) s := by
  unfold livePlay
  rw [wp_bind, wp_modifySession]
  refine ⟨fun S hS => ?_, fun _ => trivial⟩
  rw [List.range_eq_range']
  refine (wp_playTracks mc (S := { S with playing := true })
    (Function.update_self ..) rfl (by simp)).imp fun _ s' h => ⟨S, hS, h.1, fun j hj => ?_⟩
  exact h.2.2 j (Nat.zero_le j) (by omega)

end Play

end Spook
