import Spook.Live.Gate
import Spook.Live.Happening

set_option relaxedAutoImplicit false
set_option autoImplicit false

/-!
# Which tracks are waiting for frames

The stream of a track is to wait for frames until the track is ready, and behind that as long as a
session plays the track. `next_live_frame` stops a track that a session plays already,
`track_check_running1` one that is not ready, and `live_setup` does not wake the track that it adds
to a session that plays.

## Main definitions

* `Spook.Server.Waits` — the tracks wait exactly when they are to.
* `Spook.KeepsWaiting` — the events behind which they still do.

## Main results

* `Spook.waiting_run` — in every run of such events the tracks wait exactly when they are to.
-/

namespace Spook

/-- The streams of the tracks wait until the tracks are ready, and while they are played. -/
def Server.Waits (s : Server) : Prop :=
  ∀ t, (s.tracks t).rtp ≠ none →
    ((s.tracks t).srcstream = some true ↔ (s.tracks t).ready = false ∨ s.Active t)

/-- `track_check_running1` does right by the track without the endpoints that are gone: one that
plays is left in an entry that the track knows of, or the track is ready and none is left at all. -/
def Server.CheckedRight (s : Server) (t : ℕ) (gone : ℕ → Prop) : Prop :=
  (∃ n ∈ (s.tracks t).entrylist, ∃ e, s.On t n true e ∧ ¬ gone e) ∨
    (s.tracks t).ready = true ∧ ∀ n e, s.On t n true e → gone e

/-- The event frees an endpoint of the track. -/
def Server.FreesOn (s : Server) (t : ℕ) (a : ServerAct) : Prop :=
  ∃ n b e, s.On t n b e ∧ a.Frees s e

/-- Behind the event the tracks wait when they are to, if they do before. -/
structure Server.Undisturbed (s : Server) (a : ServerAct) : Prop where
  left : ∀ t, s.FreesOn t a ∨ s.Refuses t a → s.CheckedRight t (a.Frees s)
  /-- No session plays a track before its first frame. -/
  readied : ∀ t, s.Readies t a → ¬ s.Active t
  /-- A session that plays gets only tracks whose streams are waiting. -/
  joined : ∀ t, s.Joins t a → (s.tracks t).ready = false ∨ s.Active t

/-- No track is disturbed by an event that happens. -/
def KeepsWaiting (s : Server) (a : ServerAct) : Prop := s.enabled a = true → s.Undisturbed a

section Step

variable {s s' : Server} {a : ServerAct}

/-- A SETUP frees no endpoint that was there. -/
theorem Server.Refuses.not_frees {t e : ℕ} (h : s.Refuses t a) : ¬ a.Frees s e := by
  cases a with
  | read c d env =>
    obtain ⟨C, q, transport, senv, b, hC, hq, hadds, -⟩ := h
    rw [frees_request_iff hC hq]
    intro hfrees
    cases hfrees
    cases hadds
  | _ => exact h.elim

/-- The tracks that endpoints are taken from. -/
theorem Loses.waits (hs : Sound s) (hs' : Sound s') (h : Loses s s') (hwaits : s.Waits)
    (hfreed : ∀ e E, s.endpoints e = some E → (s'.endpoints e = none ↔ a.Frees s e))
    (hleft : ∀ t, s.FreesOn t a → s.CheckedRight t (a.Frees s)) : s'.Waits := by
  have hgone : ∀ {t n b e}, s.On t n b e → (s'.On t n b e ↔ ¬ a.Frees s e) := by
    intro t n b e hon
    obtain ⟨E, hE⟩ := hs.on_some hon
    rw [← hfreed e E hE]
    constructor
    · intro hon' hnone
      obtain ⟨E', hE'⟩ := hs'.on_some hon'
      rw [hnone] at hE'
      cases hE'
    · intro hsome
      by_contra hnot
      exact hsome (h.gone hs hs' hon hnot)
  intro t hrtp
  rw [h.rtp] at hrtp
  rw [h.ready]
  have hbefore := hwaits t hrtp
  rcases h.srcstream t with ⟨heq, hkeeps | hheard⟩ | ⟨hstopped, hheard, hkeeps⟩
  · rw [heq, hbefore]
    refine or_congr_right ⟨?_, ?_⟩
    · rintro ⟨n, e, hon⟩
      exact ⟨n, e, hkeeps n true e hon⟩
    · rintro ⟨n, e, hon⟩
      exact ⟨n, e, h.on t n true e hon⟩
  · rw [heq, hbefore]
    exact iff_of_true (.inr (h.heard hheard).active) (.inr hheard.active)
  · -- the track was stopped, because some endpoint of it is gone
    have hfreesOn : s.FreesOn t a := by
      by_contra hno
      refine hkeeps fun n b e hon => (hgone hon).2 fun hfrees => hno ⟨n, b, e, hon, hfrees⟩
    rw [hstopped]
    refine iff_of_false (by simp) ?_
    rcases hleft t hfreesOn with ⟨n, hn, e, hon, hstays⟩ | ⟨hready, hall⟩
    · rw [← h.entrylist] at hn
      exact absurd ⟨n, hn, e, (hgone hon).2 hstays⟩ hheard
    · rw [hready]
      rintro (hfalse | ⟨n, e, hon'⟩)
      · cases hfalse
      · have hon := h.on t n true e hon'
        exact (hgone hon).1 hon' (hall n e hon)

/-- **One event.**

**Proof sketch.** By what happened. Where endpoints are lost, added or refused, the guard says of
the tracks concerned what `waiting` must be; a track that is not concerned keeps both its flag and
who is on it. PLAY wakes exactly the tracks that it makes active, and the first frame of a track
stops it. -/
theorem Happens.waits (hs : Sound s) (hs' : Sound s') (h : Happens s a s') (hwaits : s.Waits)
    (hguard : s.Undisturbed a) : s'.Waits := by
  cases h with
  | loses hloses hfreed =>
    exact hloses.waits hs hs' hwaits hfreed fun t ht => hguard.left t (.inl ht)
  | @added t n e b hjoins htracks hon =>
    intro t' hrtp
    rw [htracks] at hrtp ⊢
    rw [hwaits t' hrtp]
    have hactive : s'.Active t' ↔ s.Active t' ∨ t' = t ∧ b = true := by
      constructor
      · rintro ⟨n', e', h⟩
        rcases (hon ..).1 h with h | ⟨rfl, -, rfl, -⟩
        · exact .inl ⟨n', e', h⟩
        · exact .inr ⟨rfl, rfl⟩
      · rintro (⟨n', e', h⟩ | ⟨rfl, rfl⟩)
        · exact ⟨n', e', (hon ..).2 (.inl h)⟩
        · exact ⟨n, e, (hon ..).2 (.inr ⟨rfl, rfl, rfl, rfl⟩)⟩
    rw [hactive]
    by_cases hnew : t' = t ∧ b = true
    · obtain ⟨rfl, hb⟩ := hnew
      exact iff_of_true (hguard.joined t' (hjoins hb)) (.inr (.inr ⟨rfl, hb⟩))
    · rw [or_iff_left hnew]
  | @refused t hrefuses hon hready hrtp hsrc =>
    intro t' hrtp'
    rw [hrtp] at hrtp'
    have hactive : s'.Active t' ↔ s.Active t' := exists_congr fun _ => exists_congr fun _ => hon ..
    rw [hready, hactive]
    rcases hsrc t' with heq | ⟨rfl, hstopped, hheard⟩
    · rw [heq, hwaits t' hrtp']
    · rw [hstopped]
      refine iff_of_false (by simp) ?_
      rcases hguard.left t' (.inr hrefuses) with ⟨n, hn, e, hplays, -⟩ | ⟨hready', hall⟩
      · exact absurd ⟨n, hn, e, hplays⟩ hheard
      · rw [hready']
        rintro (hfalse | ⟨n, e, hplays⟩)
        · cases hfalse
        · exact hrefuses.not_frees (hall n e hplays)
  | played hactive hready hrtp hsrc hwoken hawake =>
    intro t hrtp'
    rw [hrtp] at hrtp'
    rw [hready]
    constructor
    · intro h
      refine (hwoken t h).elim (fun h => ?_) .inr
      exact ((hwaits t hrtp').1 h).imp_right (hactive t)
    · rintro (h | h)
      · exact hsrc t ((hwaits t hrtp').2 (.inl h))
      · exact (hawake t h).elim id fun h => hsrc t ((hwaits t hrtp').2 (.inr h))
  | @readied t hreadies hon htracks =>
    intro t' hrtp
    have hactive : s'.Active t' ↔ s.Active t' := exists_congr fun _ => exists_congr fun _ => hon ..
    rw [htracks, Function.update_apply] at hrtp ⊢
    rw [hactive]
    split_ifs at hrtp ⊢ with heq
    · subst heq
      exact iff_of_false (by simp) (by simpa using hguard.readied t' hreadies)
    · exact hwaits t' hrtp

end Step

/-! ## Over runs -/

/-- **The tracks wait exactly when they are to**, in every state of every run of a unicast server
in which no session plays a track before its first frame, no track is stopped that is not ready or
that is played for an entry that it does not know of, and no session that plays gets a track that
is stopped. -/
theorem waiting_run {blocks : List (List ConfigLine)} {s : Server}
    (h : (liveMachine false blocks).Reachable KeepsWaiting s) : s.Waits := by
  obtain ⟨as, os, hrun⟩ := h
  induction hrun with
  | init hinit =>
    obtain ⟨s₀, h₀, hconf⟩ := hinit
    have hconfigured := configured_of_configure h₀ hconf
    intro t hrtp
    exact iff_of_true (hconfigured.waiting t hrtp) (.inl (hconfigured.ready t))
  | @step as os o s s' a hrun hguard hstep ih =>
    have hboth := paired_run ⟨_, _, hrun⟩
    have hboth' := paired_run ⟨_, _, hrun.step hguard hstep⟩
    by_cases henabled : s.enabled a = true
    · rcases serverStep_cases hstep with ⟨rfl, -⟩ | ⟨hact, -⟩
      · exact ih
      · have hhappens := (wp_serverAct_happens hboth.1 hboth.2 a).ok hact
        exact hhappens.waits hboth.1 hboth'.1 ih (hguard henabled)
    · change serverStep false s a = .ok (s', o) at hstep
      unfold serverStep at hstep
      rw [if_neg henabled] at hstep
      cases hstep
      exact ih

/-! ## Before and behind the first frame -/

/-- Frames come before any session, and what is read is a request. -/
def framesFirst (s : Server) : ServerAct → Bool
  | .frame _ _ _ _ | .deliver _ => (List.range s.next).all fun p => (s.sessions p).isNone
  | .read c d env => (s.conns c).any fun C => (C.rtspRequest d env).isSome
  | _ => true

/-- Before any session no track is disturbed. -/
theorem undisturbed_of_none {s : Server} (hs : Sound s) {a : ServerAct}
    (h : ((List.range s.next).all fun p => (s.sessions p).isNone) = true)
    (hread : ∀ c d env, a ≠ .read c d env) : s.Undisturbed a := by
  have hon : ∀ {t n b e}, ¬ s.On t n b e := by
    rintro t n b e ⟨p, S, j, hS, -⟩
    have hnone := List.all_eq_true.1 h p (List.mem_range.2 (hs.session_lt p S hS))
    rw [hS] at hnone
    cases hnone
  refine ⟨fun t ht => ?_, fun t _ hactive => ?_, fun t ht => ?_⟩
  · rcases ht with ⟨n, b, e, h, -⟩ | hrefuses
    · exact absurd h hon
    · cases a with
      | read c d env => exact absurd rfl (hread c d env)
      | _ => exact hrefuses.elim
  · obtain ⟨n, e, h⟩ := hactive
    exact hon h
  · cases a with
    | read c d env => exact absurd rfl (hread c d env)
    | _ => exact ht.elim

/-- A SETUP over UDP and a PLAY disturb none. -/
theorem undisturbed_request {s : Server} {c : ℕ} {d : Bytes} {q : RtspRequest}
    (h : ((s.conns c).any fun C => (C.rtspRequest d (askEnv q)).isSome) = true)
    (hq : q = setupUdp ∨ q = playUdp) : s.Undisturbed (.read c d (askEnv q)) := by
  obtain ⟨C, hC, hsome⟩ := (Option.any_eq_true _ _).1 h
  have hread : C.rtspRequest d (askEnv q) = some q := Conn.rtspRequest_askEnv hsome
  have hadds : ∀ {transport env t b}, q.Adds s transport env t b →
      b = false ∧ ¬ transport.Refused (C.settled d) env := by
    intro transport env t b hadds
    rcases hq with rfl | rfl <;> cases hadds
    exact ⟨rfl, fun hrefused => by cases hrefused⟩
  refine ⟨fun t ht => ?_, fun t ht => ht.elim, fun t ht => ?_⟩
  · rcases ht with ⟨n, b, e, -, hfrees⟩ | ⟨C', q', transport, env, b, hC', hread', hadd, hrefused⟩
    · rw [frees_request_iff hC hread] at hfrees
      rcases hq with rfl | rfl <;> cases hfrees
    · cases hC.symm.trans hC'
      cases hread.symm.trans hread'
      exact absurd hrefused (hadds hadd).2
  · obtain ⟨C', q', transport, env, hC', hread', hadd, -⟩ := ht
    cases hC.symm.trans hC'
    cases hread.symm.trans hread'
    cases (hadds hadd).1

/-- A client comes behind the first frame of the track. -/
def frameThenPlay : List ServerAct :=
  .frame 0 true (fun _ => []) true :: List.replicate 3 (.deliver sendingAll) ++
    [.accept 3, .read 0 setupUdpText (askEnv setupUdp), .read 0 playUdpText (askEnv playUdp)]

/-- The track waits for frames because the client plays it. -/
theorem waiting_run_play : ∃ s, (liveMachine false openBlocks).Run KeepsWaiting frameThenPlay [] s ∧
    (s.tracks 0).ready = true ∧ (s.tracks 0).srcstream = some true ∧ s.Active 0 ∧ s.Waits := by
  obtain ⟨s, hrun, hs⟩ := Machine.Run.of_exec (M := liveMachine false openBlocks)
    (G := fun s a => framesFirst s a = true) (fun s : Server =>
      ((s.tracks 0).ready, (s.tracks 0).srcstream, (s.tracks 0).rtp.isSome)) openServer_init
    (show ((liveMachine false openBlocks).exec _ (configured openBlocks) frameThenPlay).map _ =
      some ([], true, some true, true) by decide +kernel)
  simp only [Prod.mk.injEq] at hs
  obtain ⟨hready, hsrc, hrtp⟩ := hs
  have hguarded : (liveMachine false openBlocks).Run KeepsWaiting frameThenPlay [] s := by
    refine hrun.mono_reachable fun a ha s' hreach hfirst _ => ?_
    have hs' := sound_run hreach
    simp only [frameThenPlay, List.cons_append, List.replicate, List.nil_append, List.mem_cons,
      List.not_mem_nil, or_false] at ha
    rcases ha with rfl | rfl | rfl | rfl | rfl | rfl | rfl
    · exact undisturbed_of_none hs' hfirst fun _ _ _ => by simp
    · exact undisturbed_of_none hs' hfirst fun _ _ _ => by simp
    · exact undisturbed_of_none hs' hfirst fun _ _ _ => by simp
    · exact undisturbed_of_none hs' hfirst fun _ _ _ => by simp
    · refine ⟨fun t ht => ?_, fun t ht => ht.elim, fun t ht => ht.elim⟩
      rcases ht with ⟨n, b, e, -, hfrees⟩ | hrefuses
      · cases hfrees with
        | dropped hdrops => exact hdrops.elim
      · exact hrefuses.elim
    · exact undisturbed_request hfirst (.inl rfl)
    · exact undisturbed_request hfirst (.inr rfl)
  have hwaits := waiting_run ⟨_, _, hguarded⟩
  refine ⟨s, hguarded, hready, hsrc, ?_, hwaits⟩
  refine ((hwaits 0 (Option.isSome_iff_ne_none.1 hrtp)).1 hsrc).resolve_left ?_
  rw [hready]
  decide

/-- A client that plays the track before its first frame gets no other one. -/
theorem first_frame_stops : ∃ s, (liveMachine false openBlocks).Run Machine.anyStep
    [.accept 3, .read 0 setupUdpText (askEnv setupUdp), .read 0 playUdpText (askEnv playUdp),
      .frame 0 true (fun _ => []) true] [] s ∧
    (s.tracks 0).srcstream = some false ∧ s.Active 0 ∧ ¬ s.Waits := by
  obtain ⟨s, hrun, hs⟩ := Machine.Run.of_exec (M := liveMachine false openBlocks)
    (G := Machine.anyStep) (fun s : Server =>
      ((s.tracks 0).srcstream, (s.tracks 0).rtp.isSome, (s.entries 0).tracklist 0,
        (s.sessions 1).any fun S => S.liventry == 0 && S.playing && (S.ep 0).isSome)) openServer_init
    (show ((liveMachine false openBlocks).exec _ (configured openBlocks)
      [.accept 3, .read 0 setupUdpText (askEnv setupUdp), .read 0 playUdpText (askEnv playUdp),
        .frame 0 true (fun _ => []) true]).map _ =
      some ([], some false, true, some 0, true) by decide +kernel)
  simp only [Prod.mk.injEq] at hs
  obtain ⟨hsrc, hrtp, htrack, hsession⟩ := hs
  obtain ⟨S, hS, heq⟩ := (Option.any_eq_true _ _).1 hsession
  simp only [Bool.and_eq_true, beq_iff_eq] at heq
  obtain ⟨⟨hentry, hplay⟩, hep⟩ := heq
  obtain ⟨e, he⟩ := Option.isSome_iff_exists.1 hep
  have hactive : s.Active 0 := ⟨0, e, 1, S, 0, hS, hentry, hplay, he, htrack⟩
  refine ⟨s, hrun, hsrc, hactive, fun hwaits => ?_⟩
  have htrue := (hwaits 0 (Option.isSome_iff_ne_none.1 hrtp)).2 (.inr hactive)
  rw [hsrc] at htrue
  cases htrue

end Spook
