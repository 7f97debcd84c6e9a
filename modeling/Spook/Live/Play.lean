import Spook.Live.Reap

set_option relaxedAutoImplicit false
set_option autoImplicit false

/-!
# PLAY

`live_play` stores through `start` for every track whose endpoint has sent a packet, and
`handle_PLAY` passes a null pointer for it when the request has no `Range` that it can read. So a
second PLAY that does not seek ends in a store through a null pointer.

## Main definitions

* `Spook.Playable` — what `live_play` relies on.
* `Spook.Answers` — a request is answered.
* `Spook.Server.PlaySafe` — no endpoint of the session has sent a packet, or the request seeks.

## Main results

* `Spook.playable_run` — the first in every run.
* `Spook.play_answered_iff` — a PLAY is answered exactly when it is safe.
-/

namespace Spook

/-- The sessions of the list are there, the tracks with a medium have a stream, and a slot that
holds an endpoint is one that `live_play` gets to. -/
structure Playable (s : Server) : Prop where
  sessions : ∀ rs ∈ s.rtspSessList, (s.sessions rs.sess).isSome
  waiting : ∀ t, (s.tracks t).rtp ≠ none → (s.tracks t).srcstream ≠ none
  range : ∀ n j, maxTracks ≤ j → (s.entries n).tracklist j = none
  first : ∀ n j t, (s.entries n).tracklist j = some t →
    ∃ t₀, (s.entries n).tracklist 0 = some t₀ ∧ (s.tracks t₀).rtp ≠ none
  track : ∀ p S j, s.sessions p = some S → S.ep j ≠ none →
    ∃ t, (s.entries S.liventry).tracklist j = some t ∧ (s.tracks t).rtp ≠ none

namespace Playable

variable {mc : Bool} {s s' : Server}

/-- What does not touch sessions, entries and tracks. -/
theorem of_same (h : Playable s) (hlist : s'.rtspSessList = s.rtspSessList)
    (hsessions : s'.sessions = s.sessions) (htracks : s'.tracks = s.tracks)
    (hentries : s'.entries = s.entries) : Playable s' := by
  constructor
  · rw [hlist, hsessions]
    exact h.sessions
  · rw [htracks]
    exact h.waiting
  · rw [hentries]
    exact h.range
  · rw [hentries, htracks]
    exact h.first
  · rw [hsessions, hentries, htracks]
    exact h.track

/-- What is done besides makes no session unfit. -/
theorem alike (h : Playable s) (ha : Alike s s') : Playable s' :=
  h.of_same ha.rtspSessList ha.sessions ha.tracks ha.entries

/-- A session is written, which holds endpoints on slots with a track only. -/
theorem written (h : Playable s) {p : ℕ} {S : Session} (hlist : s'.rtspSessList = s.rtspSessList)
    (hsessions : s'.sessions = Function.update s.sessions p (some S))
    (htracks : s'.tracks = s.tracks)
    (htracklist : ∀ n, (s'.entries n).tracklist = (s.entries n).tracklist)
    (hS : ∀ j, S.ep j ≠ none →
      ∃ t, (s.entries S.liventry).tracklist j = some t ∧ (s.tracks t).rtp ≠ none) :
    Playable s' := by
  constructor
  · rw [hlist, hsessions]
    intro rs hrs
    rw [Function.update_apply]
    split_ifs
    · rfl
    · exact h.sessions rs hrs
  · rw [htracks]
    exact h.waiting
  · simp only [htracklist]
    exact h.range
  · simp only [htracklist, htracks]
    exact h.first
  · simp only [hsessions, htracklist, htracks]
    intro p' S' j hS' hj
    rw [Function.update_apply] at hS'
    split_ifs at hS'
    · cases hS'
      exact hS j hj
    · exact h.track p' S' j hS' hj

/-- A slot of a session is set. -/
theorem setSlot (h : Playable s) {p j : ℕ} {S : Session} {o : Option ℕ}
    (hS : s.sessions p = some S) (hj : o ≠ none →
      ∃ t, (s.entries S.liventry).tracklist j = some t ∧ (s.tracks t).rtp ≠ none) :
    Playable (s.setSlot p j S o) := by
  refine h.written rfl rfl rfl (fun _ => rfl) fun i hi => ?_
  dsimp only at hi
  rw [Function.update_apply] at hi
  split_ifs at hi with heq
  · rw [heq]
    exact hj hi
  · exact h.track p S i hS hi

/-- A track is written, which keeps its medium or the lack of one. -/
theorem onTrack (h : Playable s) {t : ℕ} {f : LiveTrack → LiveTrack}
    (hrtp : (f (s.tracks t)).rtp = none ↔ (s.tracks t).rtp = none)
    (hf : (f (s.tracks t)).rtp ≠ none → (f (s.tracks t)).srcstream ≠ none) :
    Playable (s.onTrack t f) := by
  have hmono : ∀ t', (s.tracks t').rtp ≠ none → ((s.onTrack t f).tracks t').rtp ≠ none := by
    intro t'
    dsimp only [Server.onTrack]
    rw [Function.update_apply]
    split_ifs with ht
    · subst ht
      exact fun hne hnone => hne (hrtp.1 hnone)
    · exact id
  refine ⟨h.sessions, fun t' => ?_, h.range, fun n j t' ht' => ?_, fun p S j hS hj => ?_⟩
  · dsimp only [Server.onTrack]
    rw [Function.update_apply]
    split_ifs
    · exact hf
    · exact h.waiting t'
  · obtain ⟨t₀, ht₀, hne⟩ := h.first n j t' ht'
    exact ⟨t₀, ht₀, hmono t₀ hne⟩
  · obtain ⟨t', ht', hne⟩ := h.track p S j hS hj
    exact ⟨t', ht', hmono t' hne⟩

/-- A session opens. -/
theorem opened (h : Playable s) (n : ℕ) : Playable (s.opened n) := by
  refine h.written rfl rfl rfl (fun m => ?_) fun j hj => absurd rfl hj
  dsimp only [Server.opened]
  rw [Function.update_apply]
  split_ifs with hm
  · rw [hm]
  · rfl

/-- A session closes. -/
theorem closed (h : Playable s) (p n : ℕ) : Playable (s.closed p n) := by
  have htracklist : ∀ m, ((s.closed p n).entries m).tracklist = (s.entries m).tracklist := by
    intro m
    dsimp only [Server.closed]
    rw [Function.update_apply]
    split_ifs with hm
    · rw [hm]
    · rfl
  refine ⟨fun rs hrs => ?_, h.waiting, fun m => ?_, fun m => ?_, fun p' S' j hS' => ?_⟩
  · obtain ⟨hrs, hne⟩ := List.mem_filter.1 hrs
    change (Function.update s.sessions p none rs.sess).isSome = true
    rw [Function.update_of_ne (by simpa using hne)]
    exact h.sessions rs hrs
  · rw [htracklist]
    exact h.range m
  · rw [htracklist]
    exact h.first m
  · rw [htracklist]
    refine h.track p' S' j ?_
    dsimp only [Server.closed] at hS'
    rw [Function.update_apply] at hS'
    split_ifs at hS'
    exact hS'

/-- Every change keeps it. -/
theorem change (h : Playable s) {k : Kind} (hc : Change mc k s s') : Playable s' := by
  cases hc with
  | opened n => exact h.opened n
  | @added _ p j t S E hmc hS _ ht hrtp =>
    have hnew : Playable { (s.onEndpoint s.next E) with next := s.next + 1 } :=
      h.of_same rfl rfl rfl rfl
    exact hnew.setSlot hS fun _ => ⟨t, ht, hrtp⟩
  | @shared _ p j t e S E hmc hS _ ht hrtp =>
    have hcleared : Playable (s.onEndpoint e { E with session := none }) :=
      h.of_same rfl rfl rfl rfl
    refine hcleared.setSlot hS fun _ => ⟨t, ht, fun hnone => ?_⟩
    exact absurd (hrtp.symm.trans hnone) (by simp)
  | @newShared _ p j t S E hmc hS _ ht hrtp =>
    have hsome : (s.tracks t).rtp ≠ none := by
      rw [hrtp]
      simp
    have hnew : Playable { (s.onEndpoint s.next E) with next := s.next + 1 } :=
      h.of_same rfl rfl rfl rfl
    have htrack : Playable (({ (s.onEndpoint s.next E) with next := s.next + 1 } : Server).onTrack t
        fun T => { T with rtp := some (.endpoint s.next) }) :=
      hnew.onTrack (iff_of_false (by simp) hsome) fun _ => h.waiting t hsome
    refine htrack.setSlot hS fun _ => ⟨t, ht, ?_⟩
    simp [Server.onTrack]
  | @played _ p S hS => exact h.written rfl rfl rfl (fun _ => rfl) fun j => h.track p S j hS
  | @registered _ p id hp =>
    refine ⟨fun rs hrs => ?_, h.waiting, h.range, h.first, h.track⟩
    rcases List.mem_cons.1 hrs with rfl | hrs
    · exact hp
    · exact h.sessions rs hrs
  | woken | readied => exact h.onTrack Iff.rfl fun _ => by simp
  | @removed _ p i t e S E _ hS =>
    have hdel : Playable (s.delete e E) := h.of_same rfl rfl rfl rfl
    exact hdel.setSlot hS fun hno => absurd rfl hno
  | @removedLast _ p i t e S E _ hS =>
    have hdel : Playable (s.delete e E) := h.of_same rfl rfl rfl rfl
    have hset : Playable ((s.delete e E).setSlot p i S none) :=
      hdel.setSlot hS fun hno => absurd rfl hno
    exact hset.onTrack Iff.rfl fun _ => by simp
  | left _ hS => exact h.setSlot hS fun hno => absurd rfl hno
  | @leftLast _ p i t e e' S E _ hS _ _ _ hrtp =>
    have hset : Playable (s.setSlot p i S none) := h.setSlot hS fun hno => absurd rfl hno
    have hdel : Playable ((s.setSlot p i S none).delete e' E) := hset.of_same rfl rfl rfl rfl
    refine hdel.onTrack (iff_of_false (by simp) fun hnone => ?_) fun _ => by simp
    exact absurd (hrtp.symm.trans hnone) (by simp)
  | closed => exact h.closed _ _
  | interleaved | udp | delivering | logged | flagged | counted | noted | accepted | dropped =>
    exact h.of_same rfl rfl rfl rfl

/-- A slot that holds an endpoint is one that `live_play` gets to. -/
theorem reaches (h : Playable s) {p j : ℕ} {S : Session} (hS : s.sessions p = some S)
    (hj : S.ep j ≠ none) : j < maxTracks ∧ s.Reaches S.liventry j := by
  obtain ⟨t, ht, hne⟩ := h.track p S j hS hj
  have hlt : j < maxTracks := by
    by_contra hlt
    rw [h.range _ j (not_lt.1 hlt)] at ht
    cases ht
  refine ⟨hlt, fun i hi => ?_⟩
  have hmax : maxTracks = 2 := rfl
  rcases hi.lt_or_eq with hi | rfl
  · obtain rfl : i = 0 := by omega
    exact h.first _ j t ht
  · exact ⟨t, ht, hne⟩

end Playable

/-- There are no sessions at first. -/
theorem Configured.playable {s : Server} (h : Configured s) : Playable s := by
  refine ⟨fun rs hrs => ?_, fun t ht => ?_, h.range, h.first, fun p S j hS => ?_⟩
  · rw [h.rtspSessList] at hrs
    cases hrs
  · rw [h.waiting t ht]
    exact Option.some_ne_none _
  · rw [h.sessions] at hS
    cases hS

/-- In every run. -/
theorem playable_run {mc : Bool} {blocks : List (List ConfigLine)} {G : Server → ServerAct → Prop}
    {s : Server} (h : (liveMachine mc blocks).Reachable G s) : Playable s := by
  refine keeps_run (M := liveMachine mc blocks) rfl (fun s hs => ?_) (fun _ _ h ha => h.alike ha)
    (fun _ _ _ h hc => h.change hc) h
  obtain ⟨s₀, h₀, hconf⟩ := hs
  exact (configured_of_configure h₀ hconf).playable

/-! ## One PLAY -/

/-- `live_play` and `handle_PLAY` get past the slot `j`: its endpoint is there, and has sent no
packet if `start` is a null pointer. -/
def Server.SlotPlays (s : Server) (S : Session) (haveStart : Bool) (j : ℕ) : Prop :=
  ∀ e, S.ep j = some e → ∃ E, s.endpoints e = some E ∧ (haveStart = false → E.packetCount = 0)

/-- The endpoints of the session are there, and none has sent a packet if the request has no `Range`
that can be read. -/
def Server.PlaySafe (s : Server) (id : Option Bytes) (haveStart : Bool) : Prop :=
  ∀ rs S, s.rtspSession id = some rs → s.sessions rs.sess = some S → ∀ j, s.SlotPlays S haveStart j

/-- A read is answered: the send buffer of the connection has room for the response, which is put
there. -/
def Answers (c : ℕ) (C : Conn) (r : Reply) : Except Fault (Server × List Event) → Prop
  | .error _ => False
  | .ok (s', _) => r.head + r.body ≤ C.availSendBuf ∧
      s'.conns c = some { ((C.sendData r.head).1.sendData r.body).1 with reqBuf := [] }

/-- The connection after a response, which is sent if there is room for it. -/
def Replied (c : ℕ) (C : Conn) (r : Reply) (s' : Server) : Prop :=
  ∃ C', s'.conns c = some C' ∧
    (r.head + r.body ≤ C.availSendBuf → C' = ((C.sendData r.head).1.sendData r.body).1)

section Play

variable {c p : ℕ} {s s' : Server} {S : Session} {C : Conn} {r : Reply} {haveStart : Bool}

/-- Whether a slot plays depends on its endpoint alone. -/
theorem Server.slotPlays_congr (hendpoints : s'.endpoints = s.endpoints) (j : ℕ) :
    s'.SlotPlays S haveStart j ↔ s.SlotPlays S haveStart j := by
  unfold SlotPlays
  rw [hendpoints]

/-- A response. -/
theorem wp_rtspAnswer_replied (k : ℕ) (hC : s.conns c = some C) :
    wp (rtspAnswer c r k) (fun _ s' => Replied c C r s') (fun _ => False) s := by
  unfold rtspAnswer rtspReply tcpSendPmsg
  rw [wp_bind, wp_bind, wp_bind, wp_getConn]
  refine ⟨fun C' hC' => ?_, fun hnone => absurd (hC.symm.trans hnone) (by simp)⟩
  obtain rfl : C = C' := Option.some.inj (hC.symm.trans hC')
  rw [wp_ite]
  refine ⟨fun hfull => ⟨C, hC, fun hroom => ?_⟩, fun _ => ?_⟩
  · omega
  rw [wp_bind, wp_modifyConn]
  refine ⟨fun C' hC' => ?_, fun hnone => absurd (hC.symm.trans hnone) (by simp)⟩
  obtain rfl : C = C' := Option.some.inj (hC.symm.trans hC')
  change wp (modifyConn c fun C => (C.sendData r.body).1) _ _ _
  rw [wp_modifyConn]
  refine ⟨fun C' hC' => ⟨(C'.sendData r.body).1, Function.update_self .., fun _ => ?_⟩,
    fun hnone => ?_⟩
  · dsimp only at hC'
    rw [Function.update_self] at hC'
    rw [← Option.some.inj hC']
  · dsimp only at hnone
    rw [Function.update_self] at hnone
    cases hnone

/-- The loop of `live_play`, which has come to the track number `k`.

**Proof sketch.** By induction on the tracks that are left. The loop stops at the first slot without
a track. A slot without endpoint is passed over; one with an endpoint must have it still, and where
it has sent packets already, a `start` to store to. What the loop changes, the flags of tracks, does
not matter to later slots. -/
theorem wp_playTracks_slots {n k : ℕ} {start : Option ℤ} (hs : Playable s)
    (hstart : start = none ↔ haveStart = false) (hS : s.sessions p = some S)
    (hbefore : ∀ i < k, ∃ t, (s.entries S.liventry).tracklist i = some t ∧ (s.tracks t).rtp ≠ none) :
    wp (playTracks p start (List.range' k n))
      (fun _ s' => Awoken s s' ∧ s'.conns = s.conns ∧
        ∀ j, k ≤ j → j < k + n → s.Reaches S.liventry j → s.SlotPlays S haveStart j)
      (fun _ => ∃ j, ¬ s.SlotPlays S haveStart j) s := by
  have hself : Awoken s s := ⟨rfl, rfl, rfl, fun _ => rfl, fun _ h => h⟩
  induction n generalizing k s start with
  | zero =>
    refine ⟨hself, rfl, fun j hk hj => ?_⟩
    omega
  | succ n ih =>
    rw [List.range'_succ]
    unfold playTracks
    rw [wp_bind, wp_getSession]
    refine ⟨fun S' hS' => ?_, fun hnone => absurd (hS.symm.trans hnone) (by simp)⟩
    obtain rfl : S = S' := Option.some.inj (hS.symm.trans hS')
    rw [wp_bind, wp_get]
    cases ht : (s.entries S.liventry).tracklist k with
    | none =>
      refine ⟨hself, rfl, fun j hk _ hreach => ?_⟩
      obtain ⟨t, ht', -⟩ := hreach k hk
      rw [ht] at ht'
      cases ht'
    | some t =>
      dsimp only
      rw [wp_bind, wp_get, wp_ite]
      refine ⟨fun hrtp => ⟨hself, rfl, fun j hk _ hreach => ?_⟩, fun hrtp => ?_⟩
      · obtain ⟨t', ht', hne⟩ := hreach k hk
        rw [ht] at ht'
        cases ht'
        exact absurd hrtp hne
      have hbefore' : ∀ i < k + 1, ∃ t,
          (s.entries S.liventry).tracklist i = some t ∧ (s.tracks t).rtp ≠ none := by
        intro i hi
        rcases Nat.lt_succ_iff_lt_or_eq.1 hi with hi | rfl
        · exact hbefore i hi
        · exact ⟨t, ht, hrtp⟩
      -- the rest of the loop, when the slot `k` is no obstacle
      have hrest : ∀ (s₁ : Server) (start : Option ℤ), Awoken s s₁ → s₁.conns = s.conns →
          Playable s₁ → (start = none ↔ haveStart = false) → s.SlotPlays S haveStart k →
          wp (playTracks p start (List.range' (k + 1) n))
            (fun _ s' => Awoken s s' ∧ s'.conns = s.conns ∧
              ∀ j, k ≤ j → j < k + (n + 1) → s.Reaches S.liventry j → s.SlotPlays S haveStart j)
            (fun _ => ∃ j, ¬ s.SlotPlays S haveStart j) s₁ := by
        intro s₁ start hawoken hconns hs₁ hstart hslot
        have hslots : ∀ j, s₁.SlotPlays S haveStart j ↔ s.SlotPlays S haveStart j :=
          Server.slotPlays_congr hawoken.endpoints
        have hreaches : ∀ j, s.Reaches S.liventry j → s₁.Reaches S.liventry j := by
          intro j hreach i hi
          obtain ⟨t', ht', hne⟩ := hreach i hi
          exact ⟨t', hawoken.entries ▸ ht', by rwa [hawoken.rtp]⟩
        refine (ih hs₁ hstart (hawoken.sessions ▸ hS) (fun i hi => ?_)
          ⟨rfl, rfl, rfl, fun _ => rfl, fun _ h => h⟩).mono (fun _ s' h => ?_) fun _ h => ?_
        · obtain ⟨t', ht', hne⟩ := hbefore' i hi
          exact ⟨t', hawoken.entries ▸ ht', by rwa [hawoken.rtp]⟩
        · refine ⟨hawoken.trans h.1, h.2.1.trans hconns, fun j hk hj hr => ?_⟩
          rcases hk.lt_or_eq with hk | rfl
          · exact (hslots j).1 (h.2.2 j hk (by omega) (hreaches j hr))
          · exact hslot
        · obtain ⟨j, hnot⟩ := h
          exact ⟨j, fun h => hnot ((hslots j).2 h)⟩
      cases he : S.ep k with
      | none =>
        refine hrest s start hself rfl hs hstart ?_
        intro e he'
        rw [he] at he'
        cases he'
      | some e =>
        dsimp only
        rw [wp_bind, wp_setWaiting]
        refine ⟨fun _ => ?_, fun hnone => absurd hnone (hs.waiting t hrtp)⟩
        have hawoken := awoken_onTrack s t
        have hs₁ : Playable (s.onTrack t fun T => { T with srcstream := some true }) :=
          hs.onTrack Iff.rfl fun _ => by simp
        rw [wp_bind, wp_getEndpoint]
        refine ⟨fun E hE => ?_, fun hnone => ⟨k, fun hslot => ?_⟩⟩
        · rw [wp_ite]
          have hslot : (haveStart = false → E.packetCount = 0) → s.SlotPlays S haveStart k := by
            intro hcount e' he'
            obtain rfl := Option.some.inj (he.symm.trans he')
            exact ⟨E, hE, hcount⟩
          refine ⟨fun hsent => ?_, fun hsent => ?_⟩
          · cases start with
            | none =>
              refine ⟨k, fun hslot' => ?_⟩
              obtain ⟨E', hE', hcount⟩ := hslot' e he
              obtain rfl : E = E' := Option.some.inj (hE.symm.trans hE')
              exact hsent (hcount (hstart.1 rfl))
            | some x =>
              refine hrest _ (some 0) hawoken rfl hs₁ (by simpa using hstart) (hslot fun hno => ?_)
              exact absurd (hstart.2 hno) (by simp)
          · exact hrest _ start hawoken rfl hs₁ hstart (hslot fun _ => not_not.1 hsent)
        · obtain ⟨E, hE, -⟩ := hslot e he
          exact absurd (hE.symm.trans hnone) (by simp)

/-- `live_play` of a session of the list. -/
theorem wp_livePlay_slots (hs : Playable s) (hS : s.sessions p = some S) :
    wp (livePlay p haveStart) (fun _ s' => s'.conns = s.conns ∧ s'.endpoints = s.endpoints ∧
        s'.sessions = Function.update s.sessions p (some { S with playing := true }) ∧
        ∀ j, s.SlotPlays S haveStart j)
      (fun _ => ∃ j, ¬ s.SlotPlays S haveStart j) s := by
  unfold livePlay
  rw [wp_bind, wp_modifySession]
  refine ⟨fun S' hS' => ?_, fun hnone => absurd (hS.symm.trans hnone) (by simp)⟩
  obtain rfl : S = S' := Option.some.inj (hS.symm.trans hS')
  have hs₁ : Playable
      { s with sessions := Function.update s.sessions p (some { S with playing := true }) } :=
    hs.written rfl rfl rfl (fun _ => rfl) fun j => hs.track p S j hS
  rw [List.range_eq_range']
  refine (wp_playTracks_slots (S := { S with playing := true }) hs₁
    (show (if haveStart then some (-1 : ℤ) else none) = none ↔ haveStart = false from ?_)
     (Function.update_self ..) (by simp)).mono (fun _ s' h => ?_) fun _ h => h
  · cases haveStart <;> simp
  · refine ⟨h.2.1, h.1.endpoints, h.1.sessions, fun j e he => ?_⟩
    -- a slot with an endpoint is one that the loop gets to
    obtain ⟨hj, hreach⟩ := hs.reaches hS (j := j) (by simp [he])
    exact h.2.2 j (Nat.zero_le j) (by omega) hreach e he

/-- The loop over the endpoints for the `RTP-Info`. -/
theorem wp_rtpInfo_slots (hS : s.sessions p = some S) (h : ∀ j, s.SlotPlays S haveStart j)
    (is : List ℕ) : wp (rtpInfo p is) (fun _ s' => s' = s) (fun _ => False) s := by
  induction is with
  | nil => exact rfl
  | cons i is ih =>
    unfold rtpInfo
    rw [wp_bind, wp_getSession]
    refine ⟨fun S' hS' => ?_, fun hnone => absurd (hS.symm.trans hnone) (by simp)⟩
    obtain rfl : S = S' := Option.some.inj (hS.symm.trans hS')
    cases he : S.ep i with
    | none => exact ih
    | some e =>
      dsimp only
      rw [wp_bind, wp_getEndpoint]
      refine ⟨fun _ _ => ih, fun hnone => ?_⟩
      obtain ⟨E, hE, -⟩ := h i e he
      exact absurd (hE.symm.trans hnone) (by simp)

/-- A PLAY that is answered is safe, and one that is not is not. -/
theorem wp_handlePlay_replied (hs : Playable s) (hC : s.conns c = some C) (id : Option Bytes) :
    wp (handlePlay c r id haveStart)
      (fun _ s' => Replied c C r s' ∧ s.PlaySafe id haveStart)
      (fun _ => ¬ s.PlaySafe id haveStart) s := by
  unfold handlePlay
  rw [wp_bind, wp_getRtspSession]
  cases hrs : s.rtspSession id with
  | none =>
    refine (wp_rtspAnswer_replied 454 hC).mono (fun _ s' h => ⟨h, fun rs S hrs' => ?_⟩)
      fun _ h => h.elim
    rw [hrs] at hrs'
    cases hrs'
  | some rs =>
    have hmem : rs ∈ s.rtspSessList := by
      unfold Server.rtspSession at hrs
      cases id with
      | none => cases hrs
      | some id => exact List.mem_of_find?_eq_some hrs
    obtain ⟨S, hS⟩ := Option.isSome_iff_exists.1 (hs.sessions rs hmem)
    have hsafe : s.PlaySafe id haveStart ↔ ∀ j, s.SlotPlays S haveStart j := by
      constructor
      · exact fun h => h rs S hrs hS
      · intro h rs' S' hrs' hS'
        obtain rfl := Option.some.inj (hrs.symm.trans hrs')
        obtain rfl := Option.some.inj (hS.symm.trans hS')
        exact h
    rw [wp_bind]
    refine (wp_livePlay_slots hs hS).mono (fun start s₁ h => ?_) fun _ ⟨j, hnot⟩ h =>
      hnot (hsafe.1 h j)
    obtain ⟨hconns, hendpoints, hsessions, hslots⟩ := h
    have hC₁ : s₁.conns c = some C := by rw [hconns, hC]
    have hanswer : wp (rtspAnswer c r 200)
        (fun _ s' => Replied c C r s' ∧ s.PlaySafe id haveStart)
        (fun _ => ¬ s.PlaySafe id haveStart) s₁ :=
      (wp_rtspAnswer_replied 200 hC₁).mono (fun _ s' h => ⟨h, hsafe.2 hslots⟩) fun _ h => h.elim
    rw [wp_bind, wp_ite]
    refine ⟨fun _ => ?_, fun _ => hanswer⟩
    have hS₁ : s₁.sessions rs.sess = some { S with playing := true } := by
      rw [hsessions, Function.update_self]
    have hslots₁ : ∀ j, s₁.SlotPlays { S with playing := true } haveStart j := fun j =>
      (Server.slotPlays_congr hendpoints j).2 (hslots j)
    refine (wp_rtpInfo_slots hS₁ hslots₁ _).mono (fun _ s₂ h => ?_) fun _ h => h.elim
    rw [h]
    exact hanswer

/-- **PLAY** is answered exactly when it is safe and there is room for the response. -/
theorem play_answered_iff {mc : Bool} {blocks : List (List ConfigLine)} {d : Bytes} {env : ReadEnv}
    {id : Option Bytes} (h : (liveMachine mc blocks).Reachable Machine.anyStep s)
    (hidle : s.delivery = none) (hC : s.conns c = some C)
    (hq : C.rtspRequest d env = some (.play id haveStart)) :
    Answers c (C.settled d) env.reply (serverStep mc s (.read c d env)) ↔
      s.PlaySafe id haveStart ∧ env.reply.head + env.reply.body ≤ C.availSendBuf := by
  have hs : Playable (s.setConn c (C.settled d)) :=
    (playable_run h).of_same rfl rfl rfl rfl
  have hroom : (C.settled d).availSendBuf = C.availSendBuf := by
    obtain ⟨buf, n, hreceive, -⟩ := C.receive_eq d
    unfold Conn.settled
    rw [hreceive]
    rfl
  have hplay : wp (serverAct mc (.read c d env))
      (fun _ s' => s.PlaySafe id haveStart ∧ (env.reply.head + env.reply.body ≤ C.availSendBuf →
        s'.conns c = some { (((C.settled d).sendData env.reply.head).1.sendData
          env.reply.body).1 with reqBuf := [] }))
      (fun _ => ¬ s.PlaySafe id haveStart) s := by
    unfold serverAct
    rw [wp_bind, wp_get, wp_ite]
    refine ⟨fun _ => (wp_read_rtspRequest hC hq).2 ?_, fun hno => ?_⟩
    · refine (wp_handlePlay_replied hs (s.setConn_conns_self c _) id).mono (fun _ s' h => ?_)
        fun _ h => h
      obtain ⟨⟨C', hC', hsent⟩, hsafe⟩ := h
      rw [wp_modifyConn]
      refine ⟨fun C'' hC'' => ⟨hsafe, fun hfits => ?_⟩, fun hnone => ?_⟩
      · obtain rfl : C' = C'' := Option.some.inj (hC'.symm.trans hC'')
        dsimp only
        rw [Function.update_self, hsent (hroom ▸ hfits)]
      · exact absurd (hC'.symm.trans hnone) (by simp)
    · exact absurd (by simp [Server.hasConn, hC]) hno
  unfold wp at hplay
  unfold serverStep
  rw [if_pos (by simp [Server.enabled, hidle])]
  rcases hrun : (serverAct mc (.read c d env)).run s with err | ⟨u, s'⟩ <;> rw [hrun] at hplay
  · exact iff_of_false (fun h => h) fun h => hplay h.1
  · exact ⟨fun h => ⟨hplay.1, hroom ▸ h.1⟩, fun h => ⟨hroom ▸ h.2, hplay.2 h.2⟩⟩

/-! ## A session that is played twice -/

/-- A PLAY without a `Range`. -/
def playOn : RtspRequest := .play (some (str "s")) false

def playOnText : Bytes := str "PLAY rtsp://h/cam RTSP/1.0\r\nSession: s\r\n\r\n"

/-- The first PLAY of a session may do without a `Range`. -/
theorem play_answered_first : ∃ s C, (liveMachine false openBlocks).Run Machine.anyStep
    [.accept 3, .read 0 setupUdpText (askEnv setupUdp)] [] s ∧ s.conns 0 = some C ∧
    C.rtspRequest playOnText (askEnv playOn) = some playOn ∧
    Answers 0 (C.settled playOnText) ⟨0, 0⟩
      (serverStep false s (.read 0 playOnText (askEnv playOn))) := by
  obtain ⟨s, hrun, hs⟩ := Machine.Run.of_exec (M := liveMachine false openBlocks)
    (G := Machine.anyStep) (fun s : Server =>
      let session := (s.rtspSession (some (str "s"))).bind fun rs => s.sessions rs.sess
      (s.delivery.isNone && (s.conns 0).any fun C =>
        (C.rtspRequest playOnText (askEnv playOn)).isSome,
        session.bind fun S : Session => S.ep 0,
        session.any fun S : Session => (S.ep 1).isNone,
        (s.endpoints 2).map fun E : Endpoint => E.packetCount)) openServer_init
    (show ((liveMachine false openBlocks).exec _ (configured openBlocks)
      [.accept 3, .read 0 setupUdpText (askEnv setupUdp)]).map _ =
      some ([], true, some 2, true, some 0) by decide +kernel)
  simp only [Prod.mk.injEq, Bool.and_eq_true, Option.any_eq_true, Option.isNone_iff_eq_none,
    Option.map_eq_some_iff, Option.bind_eq_some_iff] at hs
  obtain ⟨⟨hidle, C, hC, hread⟩, ⟨S, ⟨rs, hrs, hS⟩, hep₀⟩, ⟨S', ⟨rs', hrs', hS'⟩, hep₁⟩, E, hE,
    hcount⟩ := hs
  obtain rfl := Option.some.inj (hrs.symm.trans hrs')
  obtain rfl := Option.some.inj (hS.symm.trans hS')
  have hq := Conn.rtspRequest_askEnv hread
  refine ⟨s, C, hrun, hC, hq, (play_answered_iff ⟨_, _, hrun⟩ hidle hC hq).2 ⟨?_, ?_⟩⟩
  · intro rs' S' hrs' hS' j e he
    obtain rfl := Option.some.inj (hrs.symm.trans hrs')
    obtain rfl := Option.some.inj (hS.symm.trans hS')
    have hj := ((playable_run ⟨_, _, hrun⟩).reaches hS (j := j) (by simp [he])).1
    have hmax : maxTracks = 2 := rfl
    obtain rfl | rfl : j = 0 ∨ j = 1 := by omega
    · obtain rfl := Option.some.inj (hep₀.symm.trans he)
      exact ⟨E, hE, fun _ => hcount⟩
    · rw [hep₁] at he
      cases he
  · exact Nat.zero_le _

/-- The second one, when a packet has been sent, stores through a null pointer. -/
theorem play_again_faults : ∃ s C, (liveMachine false openBlocks).Run Machine.anyStep
    [.accept 3, .read 0 setupUdpText (askEnv setupUdp), .read 0 playUdpText (askEnv playUdp),
      .frame 0 true (fun _ => [100]) true, .deliver sendingAll, .deliver sendingAll,
      .deliver sendingAll, .deliver sendingAll] [.keyFrame 2 1 [true]] s ∧ s.conns 0 = some C ∧
    C.rtspRequest playOnText (askEnv playOn) = some playOn ∧
    ¬ Answers 0 (C.settled playOnText) ⟨0, 0⟩
      (serverStep false s (.read 0 playOnText (askEnv playOn))) := by
  obtain ⟨s, hrun, hs⟩ := Machine.Run.of_exec (M := liveMachine false openBlocks)
    (G := Machine.anyStep) (fun s : Server =>
      ((s.conns 0).any fun C => (C.rtspRequest playOnText (askEnv playOn)).isSome,
        faultOf (serverStep false s (.read 0 playOnText (askEnv playOn))))) openServer_init
    (show ((liveMachine false openBlocks).exec _ (configured openBlocks)
      [.accept 3, .read 0 setupUdpText (askEnv setupUdp), .read 0 playUdpText (askEnv playUdp),
        .frame 0 true (fun _ => [100]) true, .deliver sendingAll, .deliver sendingAll,
        .deliver sendingAll, .deliver sendingAll]).map _ =
      some ([.keyFrame 2 1 [true]], true, some Fault.nullDeref) by decide +kernel)
  obtain ⟨hread, hfault⟩ := Prod.mk.inj hs
  obtain ⟨C, hC, hread⟩ := (Option.any_eq_true _ _).1 hread
  refine ⟨s, C, hrun, hC, Conn.rtspRequest_askEnv hread, fun hans => ?_⟩
  rw [of_faultOf hfault] at hans
  exact hans

end Play

end Spook
