import Spook.Tcp.Server

set_option relaxedAutoImplicit false
set_option autoImplicit false

/-!
# The configuration of the live tracks

The blocks `rtsp-handler live` of the configuration file. The value that a directive returns is
ignored by `process_statement`, so that a directive that fails leaves behind what it did so far.

## Main definitions

* `Spook.setTrack`, `setPath`, `endBlock` — the directives of a block and its end.
* `Spook.configure` — all blocks of a file.
* `Spook.liveMachine` — the server behind the configuration.

## Main results

* `Spook.configured_of_configure` — what a configured server looks like.
-/

namespace Spook

/-- `sizeof( szName )` of a `struct live_track`. -/
def szNameSize : ℕ := 32

/-- A directive `track`. Whether a stream of the name can be connected to, and what `ep_mc` is in
the medium that is made for it, if one is made. -/
structure TrackLine where
  name : Bytes
  connects : Bool
  media : Option EpMc

/-- A directive of a block. -/
inductive ConfigLine
  | track (l : TrackLine)
  /-- Without credentials the last three are empty. -/
  | path (path realm username password : Bytes)

/-- `strcmp( szName, name ) == 0`. A name that fills its array has no end. -/
def isNamed (szName name : Bytes) : Except Fault Bool :=
  if szName.length < szNameSize then .ok (szName = name)
  else if name.take szNameSize = szName then .error .unterminated
  else .ok false

/-- The first of some tracks that has the name. -/
def findNamed (tracks : ℕ → LiveTrack) (name : Bytes) : List ℕ → Except Fault (Option ℕ)
  | [] => .ok none
  | i :: is => do
    if ← isNamed (tracks i).szName name then return some i else findNamed tracks name is

/-- Track `i` becomes the track number `t` of the entry `n`. -/
def Server.putTrack (s : Server) (n t i : ℕ) (T : LiveTrack) : Server :=
  { s with
    tracks := Function.update s.tracks i T
    entries := Function.update s.entries n
      { s.entries n with tracklist := Function.update (s.entries n).tracklist t (some i) } }

/-- The part of `set_track` for a name that no track has, with the free track `i`. -/
def newTrack (n t i : ℕ) (l : TrackLine) (s : Server) : Server :=
  let T := s.tracks i
  if l.connects then
    match l.media with
    | none => { s with tracks := Function.update s.tracks i { T with srcstream := some false } }
    | some epMc => s.putTrack n t i { T with
        srcstream := some true, rtp := some epMc, szName := l.name.take szNameSize
        entrylist := n :: T.entrylist.tail }
  else { s with tracks := Function.update s.tracks i { T with srcstream := none } }

/-- `set_track`. -/
def setTrack (n : ℕ) (l : TrackLine) (s : Server) : Except Fault Server := do
  match (List.range maxTracks).find? fun t => ((s.entries n).tracklist t).isNone with
  | none => return s
  | some t =>
    match ← findNamed s.tracks l.name (List.range liveMaxTracks) with
    | some i =>
      -- this track has setup, join it
      let T := s.tracks i
      return if T.entrylist.length < liveMaxEntries then
        s.putTrack n t i { T with entrylist := T.entrylist ++ [n] }
      else s
    | none =>
      match (List.range liveMaxTracks).find? fun i => (s.tracks i).rtp.isNone with
      | none => return s
      | some i => return newTrack n t i l s

/-- `set_path`. -/
def setPath (n : ℕ) (path realm username password : Bytes) (s : Server) : Server :=
  { s with rtspLocList := ⟨path, realm, username, password, n⟩ :: s.rtspLocList }

/-- `end_block`. -/
def endBlock (n : ℕ) (s : Server) : Except Fault Bool :=
  match (s.entries n).tracklist 0 with
  | none => .error .nullDeref
  | some t => .ok (s.tracks t).rtp.isSome

/-- A directive of the block of the entry `n`. -/
def configLine (n : ℕ) (s : Server) : ConfigLine → Except Fault Server
  | .track l => setTrack n l s
  | .path path realm username password => .ok (setPath n path realm username password s)

/-- The blocks of a file, the first of them for the entry `n`: the server configured, or none when
a block is not accepted. -/
def configure : ℕ → List (List ConfigLine) → Server → Except Fault (Option Server)
  | _, [], s => return some s
  | n, block :: blocks, s => do
    let s ← block.foldlM (configLine n) s
    if ← endBlock n s then configure (n + 1) blocks s else return none

/-- A server that has read none of its blocks. -/
structure Server.Blank (s : Server) : Prop extends s.Idle where
  rtspLocList : s.rtspLocList = []
  tracks : ∀ t, s.tracks t =
    { entrylist := [], srcstream := none, ready := false, rtp := none, szName := [] }
  tracklist : ∀ n j, (s.entries n).tracklist j = none

/-- The server with the configuration `blocks`. -/
def liveMachine (mc : Bool) (blocks : List (List ConfigLine)) :
    Machine Server ServerAct Event Fault where
  Init s := ∃ s₀ : Server, s₀.Blank ∧ configure 0 blocks s₀ = .ok (some s)
  step := serverStep mc

/-! ## What a configured server looks like -/

/-- A server that is configured and that nobody is connected to. -/
structure Configured (s : Server) : Prop extends s.Idle where
  waiting : ∀ t, (s.tracks t).rtp ≠ none → (s.tracks t).srcstream = some true
  ready : ∀ t, (s.tracks t).ready = false
  range : ∀ n j, maxTracks ≤ j → (s.entries n).tracklist j = none
  /-- An entry with a track has a first one, which has a medium. -/
  first : ∀ n j t, (s.entries n).tracklist j = some t →
    ∃ t₀, (s.entries n).tracklist 0 = some t₀ ∧ (s.tracks t₀).rtp ≠ none

/-- The server while the block of the entry `n` is read. -/
structure Configuring (n : ℕ) (s : Server) : Prop extends s.Idle where
  waiting : ∀ t, (s.tracks t).rtp ≠ none → (s.tracks t).srcstream = some true
  ready : ∀ t, (s.tracks t).ready = false
  range : ∀ n j, maxTracks ≤ j → (s.entries n).tracklist j = none
  first : ∀ m < n, ∀ j t, (s.entries m).tracklist j = some t →
    ∃ t₀, (s.entries m).tracklist 0 = some t₀ ∧ (s.tracks t₀).rtp ≠ none
  filled : ∀ j, (s.entries n).tracklist j ≠ none → (s.entries n).tracklist 0 ≠ none
  later : ∀ m, n < m → ∀ j, (s.entries m).tracklist j = none

/-- The name that was found. -/
theorem isNamed_true {szName name : Bytes} (h : isNamed szName name = .ok true) : szName = name := by
  unfold isNamed at h
  split_ifs at h
  · simpa using h
  · simp at h

/-- The track that was found has the name. -/
theorem findNamed_some {tracks : ℕ → LiveTrack} {name : Bytes} {is : List ℕ} {i : ℕ}
    (h : findNamed tracks name is = .ok (some i)) : (tracks i).szName = name := by
  induction is with
  | nil => simp [findNamed] at h
  | cons k is ih =>
    unfold findNamed at h
    rcases hk : isNamed (tracks k).szName name with e | b
    · rw [hk] at h
      cases h
    · rw [hk] at h
      cases b with
      | true =>
        cases h
        exact isNamed_true hk
      | false => exact ih h

/-- What `set_track` may do: nothing, something to a track without a medium, or a track that is there
or a new one becomes the next track of the entry. -/
theorem setTrack_cases {n : ℕ} {l : TrackLine} {s s' : Server} (h : setTrack n l s = .ok s') :
    s' = s ∨
    (∃ i x, (s.tracks i).rtp = none ∧
      s' = { s with tracks := Function.update s.tracks i { s.tracks i with srcstream := x } }) ∨
    ∃ t i T, t < maxTracks ∧ (∀ k < t, (s.entries n).tracklist k ≠ none) ∧
      s' = s.putTrack n t i T ∧ T.ready = (s.tracks i).ready ∧ n ∈ T.entrylist ∧
      (T = { s.tracks i with entrylist := (s.tracks i).entrylist ++ [n] } ∧
          (s.tracks i).szName = l.name ∨
        (s.tracks i).rtp = none ∧ T.rtp ≠ none ∧ T.srcstream = some true ∧ T.rtp = l.media) := by
  unfold setTrack at h
  cases hfind : (List.range maxTracks).find? fun t => ((s.entries n).tracklist t).isNone with
  | none =>
    rw [hfind] at h
    cases h
    exact .inl rfl
  | some t =>
    rw [hfind] at h
    dsimp only at h
    rw [List.find?_range_eq_some] at hfind
    obtain ⟨-, hlt, hbefore⟩ := hfind
    have hlt : t < maxTracks := by simpa using hlt
    have hbefore : ∀ k < t, (s.entries n).tracklist k ≠ none := by
      intro k hk hnone
      have := hbefore k hk
      simp [hnone] at this
    rcases hnamed : findNamed s.tracks l.name (List.range liveMaxTracks) with e | _ | i
    · rw [hnamed] at h
      cases h
    · rw [hnamed, ok_bind] at h
      dsimp only at h
      cases hfree : (List.range liveMaxTracks).find? fun i => (s.tracks i).rtp.isNone with
      | none =>
        rw [hfree] at h
        cases h
        exact .inl rfl
      | some i =>
        rw [hfree] at h
        cases h
        have hrtp : (s.tracks i).rtp = none := by
          simpa using List.find?_some hfree
        unfold newTrack
        dsimp only
        split_ifs
        · cases l.media with
          | none => exact .inr (.inl ⟨i, some false, hrtp, rfl⟩)
          | some epMc =>
            exact .inr (.inr ⟨t, i, _, hlt, hbefore, rfl, rfl, List.mem_cons_self,
              .inr ⟨hrtp, by simp, rfl, rfl⟩⟩)
        · exact .inr (.inl ⟨i, none, hrtp, rfl⟩)
    · rw [hnamed, ok_bind] at h
      dsimp only at h
      split_ifs at h
      · cases h
        exact .inr (.inr ⟨t, i, _, hlt, hbefore, rfl, rfl, by simp,
          .inl ⟨rfl, findNamed_some hnamed⟩⟩)
      · cases h
        exact .inl rfl

/-- A track that gets a medium gets the one of the directive. -/
theorem setTrack_rtp {n : ℕ} {l : TrackLine} {s s' : Server} (h : setTrack n l s = .ok s') (k : ℕ) :
    (s'.tracks k).rtp = (s.tracks k).rtp ∨ (s'.tracks k).rtp = l.media := by
  have hupdate : ∀ (i : ℕ) (T : LiveTrack), T.rtp = (s.tracks i).rtp ∨ T.rtp = l.media →
      (Function.update s.tracks i T k).rtp = (s.tracks k).rtp ∨
        (Function.update s.tracks i T k).rtp = l.media := by
    intro i T hT
    rw [Function.update_apply]
    split_ifs with hk
    · rw [hk]
      exact hT
    · exact .inl rfl
  rcases setTrack_cases h with rfl | ⟨i, x, -, rfl⟩ | ⟨t, i, T, -, -, rfl, -, -, hT⟩
  · exact .inl rfl
  · exact hupdate i _ (.inl rfl)
  · refine hupdate i T ?_
    rcases hT with ⟨rfl, -⟩ | ⟨-, -, -, hmedia⟩
    · exact .inl rfl
    · exact .inr hmedia

/-- A change of tracks and of the entry that is configured leaves the server idle. -/
theorem Server.Idle.configure {s : Server} (h : s.Idle) {tracks : ℕ → LiveTrack}
    {entries : ℕ → LiveEntry} (he : ∀ m, (entries m).sessList = (s.entries m).sessList) :
    { s with tracks, entries }.Idle :=
  ⟨h.conns, h.connList, h.httpLocs, h.streams, h.rtspSessList, fun m => (he m).trans (h.entries m),
    h.sessions, h.sessList, h.endpoints, h.delivery, h.log⟩

/-- The tracks of an entry behind `putTrack`. -/
theorem Server.putTrack_tracklist (s : Server) (n t i : ℕ) (T : LiveTrack) (m j : ℕ) :
    ((s.putTrack n t i T).entries m).tracklist j =
      if m = n ∧ j = t then some i else (s.entries m).tracklist j := by
  by_cases hm : m = n
  · subst hm
    by_cases hj : j = t
    · subst hj
      simp [putTrack]
    · simp [putTrack, hj]
  · simp [putTrack, hm]

/-- A track that is configured changes no list of sessions. -/
theorem Server.putTrack_sessList (s : Server) (n t i : ℕ) (T : LiveTrack) (m : ℕ) :
    ((s.putTrack n t i T).entries m).sessList = (s.entries m).sessList := by
  by_cases hm : m = n
  · subst hm
    simp [putTrack]
  · simp [putTrack, hm]

/-- A track line keeps what is known in the middle of a block. -/
theorem Configuring.setTrack {n : ℕ} {l : TrackLine} {s s' : Server} (h : Configuring n s)
    (hs : setTrack n l s = .ok s') : Configuring n s' := by
  rcases setTrack_cases hs with rfl | ⟨i, x, hrtp, rfl⟩ |
    ⟨t, i, T, hlt, hbefore, rfl, hready, -, hT⟩
  · exact h
  · have htrack : ∀ k, (Function.update s.tracks i { s.tracks i with srcstream := x } k).rtp =
        (s.tracks k).rtp := by
      intro k
      by_cases hk : k = i
      · rw [hk, Function.update_self]
      · rw [Function.update_of_ne hk]
    refine ⟨h.configure fun _ => rfl, fun k hk => ?_, fun k => ?_, h.range, ?_, h.filled, h.later⟩
    · dsimp only at hk ⊢
      rw [htrack] at hk
      rw [Function.update_of_ne (by rintro rfl; exact hk hrtp)]
      exact h.waiting k hk
    · dsimp only
      by_cases hk : k = i
      · rw [hk, Function.update_self]
        exact h.ready i
      · rw [Function.update_of_ne hk]
        exact h.ready k
    · intro m hm j t ht
      obtain ⟨t₀, ht₀, hne⟩ := h.first m hm j t ht
      exact ⟨t₀, ht₀, by rwa [htrack]⟩
  · have hmono : ∀ k, (s.tracks k).rtp ≠ none → ((s.putTrack n t i T).tracks k).rtp ≠ none := by
      intro k hk
      by_cases hki : k = i
      · subst hki
        simp only [Server.putTrack, Function.update_self]
        rcases hT with ⟨rfl, -⟩ | ⟨-, hsome, -⟩
        · exact hk
        · exact hsome
      · simpa [Server.putTrack, hki] using hk
    refine ⟨h.configure fun m => s.putTrack_sessList n t i T m, fun k hk => ?_, fun k => ?_,
      fun m j hj => ?_, fun m hm j t' ht => ?_, fun j hj => ?_, fun m hm j => ?_⟩
    · by_cases hki : k = i
      · subst hki
        simp only [Server.putTrack, Function.update_self] at hk ⊢
        rcases hT with ⟨rfl, -⟩ | ⟨-, -, hsrc, -⟩
        · exact h.waiting k hk
        · exact hsrc
      · simp only [Server.putTrack, Function.update_of_ne hki] at hk ⊢
        exact h.waiting k hk
    · by_cases hki : k = i
      · subst hki
        simp only [Server.putTrack, Function.update_self, hready, h.ready]
      · simp only [Server.putTrack, Function.update_of_ne hki, h.ready]
    · rw [Server.putTrack_tracklist, if_neg (by omega)]
      exact h.range m j hj
    · rw [Server.putTrack_tracklist, if_neg (by omega)] at ht
      obtain ⟨t₀, ht₀, hne⟩ := h.first m hm j t' ht
      exact ⟨t₀, by rw [Server.putTrack_tracklist, if_neg (by omega), ht₀], hmono t₀ hne⟩
    · rw [Server.putTrack_tracklist]
      rw [Server.putTrack_tracklist] at hj
      by_cases ht : t = 0
      · simp [ht]
      · rw [if_neg (by omega)]
        exact hbefore 0 (by omega)
    · rw [Server.putTrack_tracklist, if_neg (by omega)]
      exact h.later m hm j

/-- A block keeps what its directives keep. -/
theorem foldlM_configLine {I : Server → Prop} {n : ℕ} {block : List ConfigLine} {s s' : Server}
    (htrack : ∀ l s s', .track l ∈ block → I s → setTrack n l s = .ok s' → I s')
    (hpath : ∀ path realm username password s, I s → I (setPath n path realm username password s))
    (h : I s)
    (hs : block.foldlM (configLine n) s = .ok s') : I s' := by
  induction block generalizing s with
  | nil =>
    cases hs
    exact h
  | cons line block ih =>
    rw [List.foldlM_cons] at hs
    rcases hline : configLine n s line with e | s₁
    · rw [hline] at hs
      cases hs
    · rw [hline, ok_bind] at hs
      refine ih (fun l s s' hl => htrack l s s' (List.mem_cons_of_mem _ hl)) ?_ hs
      cases line with
      | track l => exact htrack l s s₁ List.mem_cons_self h hline
      | path path realm username password =>
        cases hline
        exact hpath path realm username password s h

/-- By induction on the lines of the block. -/
theorem Configuring.block {n : ℕ} {block : List ConfigLine} {s s' : Server} (h : Configuring n s)
    (hs : block.foldlM (configLine n) s = .ok s') : Configuring n s' := by
  refine foldlM_configLine (fun l s s' _ h hs => Configuring.setTrack h hs) ?_ h hs
  intro path realm username password s h
  have hidle : (setPath n path realm username password s).Idle :=
    ⟨h.conns, h.connList, h.httpLocs, h.streams, h.rtspSessList, h.entries, h.sessions, h.sessList,
      h.endpoints, h.delivery, h.log⟩
  exact ⟨hidle, h.waiting, h.ready, h.range, h.first, h.filled, h.later⟩

/-- What a block leaves when it is accepted. -/
theorem Configuring.endBlock {n : ℕ} {s : Server} (h : Configuring n s)
    (hs : endBlock n s = .ok true) : Configuring (n + 1) s := by
  unfold Spook.endBlock at hs
  split at hs
  · cases hs
  · rename_i t₀ ht₀
    have hrtp : (s.tracks t₀).rtp ≠ none := by
      rw [Except.ok.injEq] at hs
      exact Option.isSome_iff_ne_none.1 hs
    refine ⟨h.toIdle, h.waiting, h.ready, h.range, fun m hm j t ht => ?_, fun j hj => ?_,
      fun m hm => h.later m (by omega)⟩
    · rcases Nat.lt_succ_iff_lt_or_eq.1 hm with hm | rfl
      · exact h.first m hm j t ht
      · exact ⟨t₀, ht₀, hrtp⟩
    · exact absurd (h.later (n + 1) (by omega) j) hj

/-- **Configuration.** What the blocks of a file make of a server that has read none. -/
theorem configured_of_configure {blocks : List (List ConfigLine)} {s₀ s : Server}
    (h₀ : s₀.Blank) (h : configure 0 blocks s₀ = .ok (some s)) : Configured s := by
  have hloop : ∀ (blocks : List (List ConfigLine)) n s₀, Configuring n s₀ →
      (∀ j, (s₀.entries n).tracklist j = none) → configure n blocks s₀ = .ok (some s) →
      Configured s := by
    intro blocks
    induction blocks with
    | nil =>
      intro n s₀ h₀ hblank h
      cases h
      refine ⟨h₀.toIdle, h₀.waiting, h₀.ready, h₀.range, fun m j t ht => ?_⟩
      rcases Nat.lt_trichotomy m n with hm | rfl | hm
      · exact h₀.first m hm j t ht
      · rw [hblank] at ht
        cases ht
      · rw [h₀.later m hm] at ht
        cases ht
    | cons block blocks ih =>
      intro n s₀ h₀ _ h
      unfold configure at h
      rcases hblock : block.foldlM (configLine n) s₀ with e | s₁
      · rw [hblock] at h
        cases h
      · rw [hblock, ok_bind] at h
        have h₁ := h₀.block hblock
        rcases hend : endBlock n s₁ with e | _ | _
        · rw [hend] at h
          cases h
        · rw [hend] at h
          cases h
        · rw [hend] at h
          exact ih (n + 1) s₁ (h₁.endBlock hend) (h₁.later (n + 1) (by omega)) h
  refine hloop blocks 0 s₀ ⟨h₀.toIdle, fun t ht => ?_, fun t => ?_, fun n j _ => h₀.tracklist n j,
    fun m hm => by omega, fun j hj => absurd (h₀.tracklist 0 j) hj, fun m _ j => h₀.tracklist m j⟩
    (h₀.tracklist 0) h
  · rw [h₀.tracks] at ht
    exact absurd rfl ht
  · rw [h₀.tracks]

/-- The blocks of a file keep what their directives keep. -/
theorem configure_keeps {I : Server → Prop} {n : ℕ} {blocks : List (List ConfigLine)} {s s' : Server}
    (htrack : ∀ n, ∀ block ∈ blocks, ∀ l s s', .track l ∈ block → I s → setTrack n l s = .ok s' → I s')
    (hpath : ∀ n path realm username password s, I s → I (setPath n path realm username password s))
    (h : I s) (hs : configure n blocks s = .ok (some s')) : I s' := by
  induction blocks generalizing n s with
  | nil =>
    cases hs
    exact h
  | cons block blocks ih =>
    unfold configure at hs
    rcases hblock : block.foldlM (configLine n) s with e | s₁
    · rw [hblock] at hs
      cases hs
    · rw [hblock, ok_bind] at hs
      have h₁ : I s₁ := foldlM_configLine (htrack n block List.mem_cons_self) (hpath n) h hblock
      rcases hend : endBlock n s₁ with e | _ | _
      · rw [hend] at hs
        cases hs
      · rw [hend] at hs
        cases hs
      · rw [hend] at hs
        exact ih (fun n b hb => htrack n b (List.mem_cons_of_mem _ hb)) h₁ hs

/-! ## Configured servers -/

/-- The server that has read no configuration. -/
theorem bareServer_blank : bareServer.Blank := by
  constructor
  · constructor <;> intros <;> rfl
  all_goals intros; rfl

/-- The blocks are accepted. -/
def accepts (blocks : List (List ConfigLine)) : Bool :=
  match configure 0 blocks bareServer with
  | .ok (some _) => true
  | .ok none | .error _ => false

/-- The server that accepted blocks make of one that has read none. -/
def configured (blocks : List (List ConfigLine)) : Server :=
  match configure 0 blocks bareServer with
  | .ok (some s) => s
  | .ok none | .error _ => bareServer

/-- A configuration that is accepted is one that the server can start with. -/
theorem configured_init (mc : Bool) {blocks : List (List ConfigLine)} (h : accepts blocks = true) :
    (liveMachine mc blocks).Init (configured blocks) := by
  refine ⟨bareServer, bareServer_blank, ?_⟩
  unfold accepts at h
  unfold configured
  split at h
  · rename_i heq
    rw [heq]
  · cases h
  · cases h

end Spook
