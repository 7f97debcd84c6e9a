import Spook.Live.Config
import Spook.Live.Events

set_option relaxedAutoImplicit false
set_option autoImplicit false

/-!
# Sessions that nobody closes

A session that a request opens is closed before the request is done, unless the request is a SETUP
that succeeds. ANNOUNCE, for which no handler is registered, opens a session for the location that
it finds and returns.

## Main definitions

* `Spook.Server.OnlyOld` — no session is new.

## Main results

* `Spook.onlyOld_iff` — exactly an ANNOUNCE that finds a location leaves a session behind.
-/

namespace Spook

/-- Every session of `s'`, in the list of all sessions and in the list of each entry, is one of
`s`. -/
def Server.OnlyOld (s s' : Server) : Prop :=
  (∀ p ∈ s'.sessList, p ∈ s.sessList) ∧
    ∀ n, ∀ p ∈ (s'.entries n).sessList, p ∈ (s.entries n).sessList

/-- The sessions have names that were given. -/
structure NamesGivenOut (s : Server) : Prop where
  sessList : ∀ p ∈ s.sessList, p < s.next
  entries : ∀ n, ∀ p ∈ (s.entries n).sessList, p < s.next

section OnlyOld

variable {mc : Bool} {s s' : Server}

/-- No session is new. -/
theorem Server.OnlyOld.refl (s : Server) : s.OnlyOld s := ⟨fun _ h => h, fun _ _ h => h⟩

/-- No session is new after two steps. -/
theorem Server.OnlyOld.trans {s'' : Server} (h : s.OnlyOld s') (h' : s'.OnlyOld s'') :
    s.OnlyOld s'' :=
  ⟨fun p hp => h.1 p (h'.1 p hp), fun n p hp => h.2 n p (h'.2 n p hp)⟩

/-- What is done besides opens no session. -/
theorem Alike.onlyOld (h : Alike s s') : s.OnlyOld s' := by
  refine ⟨fun p hp => ?_, fun n p hp => ?_⟩
  · rwa [h.sessList] at hp
  · rwa [h.entries] at hp

/-- Only `live_open` makes a session. -/
theorem Change.onlyOld {k : Kind} (h : Change mc k s s') (hk : k ≠ .opened) : s.OnlyOld s' := by
  cases h with
  | opened n => exact absurd rfl hk
  | closed hS _ =>
    refine ⟨fun p hp => List.mem_of_mem_erase hp, fun n p hp => ?_⟩
    dsimp only [Server.closed] at hp
    rw [Function.update_apply] at hp
    split_ifs at hp with hn
    · rw [hn]
      exact List.mem_of_mem_erase hp
    · exact hp
  | _ => exact ⟨fun _ h => h, fun _ _ h => h⟩

/-- Changes that open no session. -/
theorem Steps.onlyOld {A : Set Kind} (h : Steps mc A s s') (hA : .opened ∉ A) : s.OnlyOld s' :=
  h.keeps (I := s.OnlyOld) (.refl s) (fun _ _ hs h => hs.trans h.onlyOld) fun _ hk _ _ hs h =>
    hs.trans (h.onlyOld fun heq => hA (heq ▸ hk))

/-- A teardown opens no session. -/
theorem TornDown.onlyOld {p : ℕ} {ep : Option ℕ} (h : TornDown mc p ep s s') : s.OnlyOld s' := by
  refine h.steps.onlyOld ?_
  rintro (⟨e, h, -⟩ | h) <;> cases h

/-- A session that was just opened is gone when nothing else holds it. -/
theorem TornDown.onlyOld_new {n : ℕ} {ep : Option ℕ} {S : Session} {s₁ : Server}
    (hlist : s₁.sessList = s.next :: s.sessList) (hentries : s₁.entries = (s.opened n).entries)
    (hS : s₁.sessions s.next = some S) (hn : S.liventry = n)
    (hall : ep = none ∨ ∀ j, S.ep j = none ∨ S.ep j = ep)
    (h : TornDown mc s.next ep s₁ s') : s.OnlyOld s' := by
  cases h with
  | kept hempty hmore =>
    obtain rfl := Option.some.inj (hS.symm.trans hempty.before)
    exact absurd hall hmore
  | @closed _ S' s₂ hempty _ =>
    obtain rfl := Option.some.inj (hS.symm.trans hempty.before)
    have hn' : S'.liventry = n := hempty.sessionFewer.liventry.trans hn
    rw [hn']
    refine ⟨fun p hp => ?_, fun m p hp => ?_⟩
    · dsimp only [Server.closed] at hp
      rwa [hempty.fewer.sessList, hlist, List.erase_cons_head] at hp
    · dsimp only [Server.closed] at hp
      rw [hempty.fewer.entries, hentries] at hp
      by_cases hm : m = n
      · subst hm
        simpa [Server.opened] using hp
      · simpa [Server.opened, hm] using hp

/-- Without new sessions no name is used that was not given out. -/
theorem NamesGivenOut.onlyOld (h : NamesGivenOut s) (hold : s.OnlyOld s') (hnext : s.next ≤ s'.next) :
    NamesGivenOut s' :=
  ⟨fun p hp => (h.sessList p (hold.1 p hp)).trans_le hnext,
    fun n p hp => (h.entries n p (hold.2 n p hp)).trans_le hnext⟩

/-- Names are given in order. -/
theorem Change.next_le {k : Kind} (h : Change mc k s s') : s.next ≤ s'.next := by
  cases h <;> first | exact le_rfl | exact Nat.le_succ _

/-- The name of a session is given out when it is opened. -/
theorem NamesGivenOut.change {k : Kind} (h : NamesGivenOut s) (hc : Change mc k s s') :
    NamesGivenOut s' := by
  by_cases hk : k = .opened
  · subst hk
    cases hc with
    | opened n =>
      refine ⟨fun p hp => ?_, fun m p hp => ?_⟩
      · rcases List.mem_cons.1 hp with rfl | hp
        · exact Nat.lt_succ_self _
        · exact (h.sessList p hp).trans (Nat.lt_succ_self _)
      · dsimp only [Server.opened] at hp ⊢
        by_cases hm : m = n
        · rw [hm, Function.update_self] at hp
          rcases List.mem_cons.1 hp with rfl | hp
          · exact Nat.lt_succ_self _
          · exact (h.entries n p hp).trans (Nat.lt_succ_self _)
        · rw [Function.update_of_ne hm] at hp
          exact (h.entries m p hp).trans (Nat.lt_succ_self _)
  · exact h.onlyOld (hc.onlyOld hk) hc.next_le

/-- In every run. -/
theorem namesGivenOut_run {G : Server → ServerAct → Prop}
    (h : (serverMachine mc).Reachable G s) : NamesGivenOut s := by
  refine keeps_run (M := serverMachine mc) rfl (fun s hs => ⟨fun p hp => ?_, fun n p hp => ?_⟩)
    (fun s s' hs h => hs.onlyOld h.onlyOld h.next) (fun k s s' hs h => hs.change h) h
  · rw [hs.sessList] at hp
    cases hp
  · rw [hs.entries] at hp
    cases hp

end OnlyOld

section Requests

variable {mc : Bool} {c : ℕ} {s s' : Server}

/-- The session that `live_open` has made. -/
theorem Server.opened_session (s : Server) (n : ℕ) : (s.opened n).sessions s.next =
    some { liventry := n, playing := false, ep := fun _ => none } := Function.update_self ..

/-- A SETUP of a session that is there opens none. -/
theorem SetUp.onlyOld {p j k : ℕ} {t : Transport} {env : SetupEnv}
    (h : SetUp mc c p j false t env s k s') : s.OnlyOld s' := by
  have hadd : ∀ {s s' : Server}, Change mc (.added p j) s s' → s.OnlyOld s' :=
    fun h => h.onlyOld (by simp)
  cases h with
  | taken _ _ halike => exact halike.onlyOld
  | refused _ halike => exact halike.onlyOld
  | refusedNew hnew => cases hnew
  | unconnected h₁ _ _ _ _ halike h => exact (hadd h₁).trans (halike.onlyOld.trans h.onlyOld)
  | done h₁ _ hconn halike =>
    refine (hadd h₁).trans (.trans ?_ halike.onlyOld)
    rcases hconn with ⟨-, rfl⟩ | hconn
    · exact .refl _
    · exact hconn.onlyOld (by simp)

/-- A SETUP of a new session that fails closes it. -/
theorem SetUp.onlyOld_new {n j k : ℕ} {t : Transport} {env : SetupEnv}
    (h : SetUp mc c s.next j true t env (s.opened n) k s') (hk : k ≠ 200) : s.OnlyOld s' := by
  have hS := s.opened_session n
  cases h with
  | taken hS' hj _ =>
    rw [hS] at hS'
    cases hS'
    exact absurd rfl hj
  | refused hnew => cases hnew
  | refusedNew _ halike h =>
    exact h.onlyOld_new halike.sessList halike.entries (by rw [halike.sessions, hS]) rfl (.inl rfl)
  | unconnected _ hslot _ _ _ halike h =>
    -- the endpoint that was added is the only one
    obtain rfl := Option.some.inj (hS.symm.trans hslot.before)
    refine h.onlyOld_new (halike.sessList.trans hslot.sessList)
      (halike.entries.trans hslot.entries) (by rw [halike.sessions, hslot.after]) rfl
      (.inr fun i => ?_)
    dsimp only
    rw [Function.update_apply]
    split_ifs
    · exact .inr rfl
    · exact .inl rfl
  | done => exact absurd rfl hk

variable {q : RtspRequest} {code : Option ℕ}

/-- **One request.** No session is new, unless a SETUP succeeds or an ANNOUNCE finds a location. -/
theorem Handled.onlyOld (h : Handled mc c s q code s') (hcode : ¬ (q.IsSetup ∧ code = some 200))
    (hq : ¬ q.Announces s) : s.OnlyOld s' := by
  cases h with
  | answered _ _ halike => exact halike.onlyOld
  | described _ halike h =>
    exact h.onlyOld_new halike.sessList halike.entries
      (halike.sessions.symm ▸ s.opened_session _) rfl (.inl rfl)
  | announced hl _ => exact absurd (by simp [RtspRequest.Announces, hl]) hq
  | setupNew _ _ _ _ h =>
    exact h.onlyOld_new fun hk => hcode ⟨trivial, by rw [hk]⟩
  | setupOld _ _ _ _ _ h => exact h.onlyOld
  | played _ h halike => exact .trans (h.changes.onlyOld (by simp)) halike.onlyOld
  | tornDown _ _ h halike => exact h.onlyOld.trans halike.onlyOld

/-- An ANNOUNCE that finds a location leaves a new session. -/
theorem Handled.not_onlyOld (h : Handled mc c s q code s') (hs : NamesGivenOut s)
    (hq : q.Announces s) : ¬ s.OnlyOld s' := by
  cases h with
  | answered hq' => exact absurd hq hq'
  | announced hl halike =>
    intro hold
    have hnew : s.next ∈ s.sessList := by
      refine hold.1 s.next ?_
      rw [halike.sessList]
      exact List.mem_cons_self
    exact absurd (hs.sessList _ hnew) (lt_irrefl _)
  | _ => exact hq.elim

/-- **No session leaks**, but for ANNOUNCE: after a request other than a SETUP that is answered with
200, every session is an old one if and only if the request is no ANNOUNCE that finds a location. -/
theorem onlyOld_iff {d : Bytes} {env : ReadEnv}
    (hs : (serverMachine mc).Reachable Machine.anyStep s) (h : Handles mc s c d env q code s')
    (hcode : ¬ (q.IsSetup ∧ code = some 200)) : s.OnlyOld s' ↔ ¬ q.Announces s := by
  obtain ⟨C, -, hhandled⟩ := h.handled
  have hnames := namesGivenOut_run hs
  have hnames' : NamesGivenOut (s.setConn c (C.settled d)) := ⟨hnames.sessList, hnames.entries⟩
  constructor
  · intro hold hannounce
    exact hhandled.not_onlyOld hnames' hannounce hold
  · exact fun hannounce => hhandled.onlyOld hcode hannounce

end Requests

/-! ## Examples of requests -/

/-- One track, with a location that anybody may see. -/
def openBlocks : List (List ConfigLine) :=
  [[.track ⟨str "cam", true, some .null⟩, .path (str "/cam") [] [] []]]

/-- A DESCRIBE of its location. -/
def describeText : Bytes := str "DESCRIBE rtsp://h/cam RTSP/1.0\r\n\r\n"

/-- An ANNOUNCE of its location. -/
def announceText : Bytes := str "ANNOUNCE rtsp://h/cam RTSP/1.0\r\n\r\n"

/-- Nobody is connected at first. -/
theorem openServer_idle : (configured openBlocks).Idle := by
  obtain ⟨s₀, hblank, hconfig⟩ := configured_init false (show accepts openBlocks = true by
    decide +kernel)
  exact (configured_of_configure hblank hconfig).toIdle

/-- The session that a DESCRIBE opens is closed. -/
theorem onlyOld_iff_describe : ∃ s code s', (serverMachine false).Run Machine.anyStep
    [.accept 3] [] s ∧ Handles false s 0 describeText (askEnv (.describe (some 0) true))
      (.describe (some 0) true) code s' ∧ code = some 404 ∧ s.OnlyOld s' := by
  obtain ⟨s, hrun, hs⟩ := Machine.Run.of_exec (M := serverMachine false) (G := Machine.anyStep)
    (fun s => handleOf (fun code _ => code) false s 0 describeText (.describe (some 0) true))
    openServer_idle
    (show ((serverMachine false).exec _ (configured openBlocks) [.accept 3]).map _ =
      some ([], some (some 404)) by decide +kernel)
  obtain ⟨code, s', hhandles, hcode⟩ := Handles.of_handleOf hs
  exact ⟨s, code, s', hrun, hhandles, hcode,
    (onlyOld_iff ⟨_, _, hrun⟩ hhandles fun h => h.1).2 fun h => h⟩

/-- The session that an ANNOUNCE opens is not, and nothing is answered. -/
theorem announce_leaks : ∃ s code s', (serverMachine false).Run Machine.anyStep
    [.accept 3] [] s ∧ Handles false s 0 announceText (askEnv (.announce (some 0) true false))
      (.announce (some 0) true false) code s' ∧ code = none ∧ s.sessList = [] ∧
    s'.sessList = [1] ∧ ¬ s.OnlyOld s' := by
  obtain ⟨s, hrun, hs⟩ := Machine.Run.of_exec (M := serverMachine false) (G := Machine.anyStep)
    (fun s => (s.sessList, handleOf (fun code s' => (code, s'.sessList)) false s 0
      announceText (.announce (some 0) true false))) openServer_idle
    (show ((serverMachine false).exec _ (configured openBlocks) [.accept 3]).map _ =
      some ([], [], some (none, [1])) by decide +kernel)
  rw [Prod.mk.injEq] at hs
  obtain ⟨code, s', hhandles, h⟩ := Handles.of_handleOf hs.2
  rw [Prod.mk.injEq] at h
  refine ⟨s, code, s', hrun, hhandles, h.1, hs.1, h.2, fun hold => ?_⟩
  have hmem := hold.1 1 (by simp [h.2])
  rw [hs.1] at hmem
  cases hmem

end Spook
