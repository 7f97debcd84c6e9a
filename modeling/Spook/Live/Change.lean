import Mathlib.Data.Set.Insert
import Mathlib.Logic.Relation
import Spook.Tcp.Round

set_option relaxedAutoImplicit false
set_option autoImplicit false

/-!
# What the server does to its live sessions

Every function of the server changes sessions, endpoints, tracks and channels in one of a few ways.
Each way is said once, with what the code knows when it does it, so that what is kept over a run is
kept by each of them.

## Main definitions

* `Spook.Alike` — what is done besides.
* `Spook.Change` — the ways.
* `Spook.Steps` — changes of some kinds, one after the other.

## Main results

* `Spook.Steps.keeps` — what every change keeps is kept.
* `Spook.wp_trackCheckRunning1`, `wp_removeSlot` — the changes of a teardown.

## Notes on the design

The programs of the server are long, and what is kept over a run is kept by few changes of the
state. So a program is looked at once, to see which changes it makes and what it knows when it makes
them (`Steps`), and an invariant is looked at once for each change. What is not a change in this
sense leaves the live side `Alike`, and no invariant has to look at it.
-/

namespace Spook

/-! ## What is done besides -/

/-- A connection before and after: one that speaks RTSP keeps its channels, and no other gets any. -/
structure ConnAlike (C C' : Conn) : Prop where
  proto : C.proto = .rtsp → C'.proto = .rtsp
  protoState : C'.protoState = C.protoState ∨ C.proto ≠ .rtsp ∧ ¬ C'.protoState.IsRtsp

/-- The live side of the server stays as it was. -/
structure Alike (s s' : Server) : Prop where
  conns : ∀ c, Option.Rel ConnAlike (s.conns c) (s'.conns c)
  rtspLocList : s'.rtspLocList = s.rtspLocList
  rtspSessList : s'.rtspSessList = s.rtspSessList
  tracks : s'.tracks = s.tracks
  entries : s'.entries = s.entries
  sessions : s'.sessions = s.sessions
  sessList : s'.sessList = s.sessList
  endpoints : s'.endpoints = s.endpoints
  delivery : s'.delivery = s.delivery
  next : s.next ≤ s'.next
  log : ∃ evs, s'.log = s.log ++ evs ∧ ∀ ev ∈ evs, ev.IsTunnel

/-- A connection that stays as it was. -/
theorem ConnAlike.refl (C : Conn) : ConnAlike C C := ⟨id, .inl rfl⟩

/-- Two steps. -/
theorem ConnAlike.trans {C C' C'' : Conn} (h : ConnAlike C C') (h' : ConnAlike C' C'') :
    ConnAlike C C'' := by
  refine ⟨fun hp => h'.proto (h.proto hp), ?_⟩
  rcases h.protoState, h'.protoState with ⟨heq | ⟨hp, hr⟩, heq' | ⟨hp', hr'⟩⟩
  · exact .inl (heq'.trans heq)
  · exact .inr ⟨fun hp => hp' (h.proto hp), hr'⟩
  · rw [← heq'] at hr
    exact .inr ⟨hp, hr⟩
  · exact .inr ⟨hp, hr'⟩

/-- One connection changes. -/
theorem alike_update {s : Server} {c : ℕ} {C C' : Conn} (hC : s.conns c = some C)
    (h : ConnAlike C C') : ∀ c', Option.Rel ConnAlike (s.conns c')
      (Function.update s.conns c (some C') c') := by
  intro c'
  by_cases hc : c' = c
  · rw [hc, hC, Function.update_self]
    exact .some h
  · rw [Function.update_of_ne hc]
    cases s.conns c' <;> constructor
    exact .refl _

instance : IsPreorder Server Alike where
  refl s := ⟨fun c => by cases s.conns c <;> constructor; exact .refl _, rfl, rfl, rfl, rfl, rfl, rfl,
    rfl, rfl, le_rfl, [], by simp, by simp⟩
  trans s s' s'' h h' := by
    obtain ⟨evs, hlog, htun⟩ := h.log
    obtain ⟨evs', hlog', htun'⟩ := h'.log
    refine ⟨fun c => ?_, h'.rtspLocList.trans h.rtspLocList, h'.rtspSessList.trans h.rtspSessList,
      h'.tracks.trans h.tracks, h'.entries.trans h.entries, h'.sessions.trans h.sessions,
      h'.sessList.trans h.sessList, h'.endpoints.trans h.endpoints, h'.delivery.trans h.delivery,
      h.next.trans h'.next, evs ++ evs', by rw [hlog', hlog, List.append_assoc], ?_⟩
    · have hrel := h.conns c
      have hrel' := h'.conns c
      revert hrel hrel'
      rcases s.conns c with _ | C <;> rcases s'.conns c with _ | C' <;>
        rcases s''.conns c with _ | C'' <;> rintro (_ | hC) (_ | hC') <;> constructor
      rename_i h₁ h₂
      exact h₁.trans h₂
    · intro ev hev
      rcases List.mem_append.1 hev with hev | hev
      · exact htun ev hev
      · exact htun' ev hev

/-- Two steps. -/
theorem Alike.trans {s s' s'' : Server} (h : Alike s s') (h' : Alike s' s'') : Alike s s'' :=
  IsTrans.trans _ _ _ h h'

/-- A connection that is there was there. -/
theorem Alike.conn' {s s' : Server} (h : Alike s s') {c : ℕ} {C' : Conn}
    (hC : s'.conns c = some C') : ∃ C, s.conns c = some C ∧ ConnAlike C C' := by
  have hrel := h.conns c
  rw [hC] at hrel
  cases hrel' : s.conns c <;> rw [hrel'] at hrel <;> cases hrel
  exact ⟨_, rfl, by assumption⟩

/-- A connection that is there stays there. -/
theorem Alike.conn {s s' : Server} (h : Alike s s') {c : ℕ} {C : Conn} (hC : s.conns c = some C) :
    ∃ C', s'.conns c = some C' ∧ ConnAlike C C' := by
  have hrel := h.conns c
  rw [hC] at hrel
  cases hrel' : s'.conns c <;> rw [hrel'] at hrel <;> cases hrel
  exact ⟨_, rfl, by assumption⟩

/-! ## Pieces of a state -/

/-- Some session is playing with an endpoint on the track `t`, as `track_check_running1` sees it. -/
def Server.Plays (s : Server) (t : ℕ) : Prop :=
  ∃ n ∈ (s.tracks t).entrylist, ∃ j < maxTracks, (s.entries n).tracklist j = some t ∧
    ∃ p ∈ (s.entries n).sessList, ∃ S, s.sessions p = some S ∧ S.playing = true ∧ (S.ep j).isSome

/-- The loops over the tracks of the entry `n` get to the track number `j`. -/
def Server.Reaches (s : Server) (n j : ℕ) : Prop :=
  ∀ i ≤ j, ∃ t, (s.entries n).tracklist i = some t ∧ (s.tracks t).rtp ≠ none

/-- The connections without the endpoint of a channel. -/
def clearChannel (conns : ℕ → Option Conn) (c chan : ℕ) : ℕ → Option Conn :=
  Function.update conns c ((conns c).map fun C =>
    match C.protoState with
    | .rtspConn ichan => { C with
        protoState := .rtspConn (Function.update ichan chan { ichan chan with ep := none }) }
    | .null | .stream _ => C)

/-- The connections without an endpoint that has a transport. -/
def disconnected (conns : ℕ → Option Conn) : Trans → ℕ → Option Conn
  | .inter c rtpChan rtcpChan => clearChannel (clearChannel conns c rtpChan) c rtcpChan
  | .none | .udp | .mc => conns

/-- An endpoint is deleted. -/
def Server.delete (s : Server) (e : ℕ) (E : Endpoint) : Server :=
  { s with
    conns := disconnected s.conns E.trans
    endpoints := Function.update s.endpoints e none }

/-- The slot `i` of the session `p` is set. -/
def Server.setSlot (s : Server) (p i : ℕ) (S : Session) (o : Option ℕ) : Server :=
  { s with
    sessions := Function.update s.sessions p (some { S with ep := Function.update S.ep i o }) }

/-- The track `t` is changed. -/
def Server.onTrack (s : Server) (t : ℕ) (f : LiveTrack → LiveTrack) : Server :=
  { s with tracks := Function.update s.tracks t (f (s.tracks t)) }

/-- The endpoint `e` is changed. -/
def Server.onEndpoint (s : Server) (e : ℕ) (E : Endpoint) : Server :=
  { s with endpoints := Function.update s.endpoints e (some E) }

/-- An endpoint of `new_rtp_endpoint`. -/
structure Endpoint.Fresh (E : Endpoint) : Prop where
  packetCount : E.packetCount = 0
  rtcpSendEvent : E.rtcpSendEvent = false
  forceRtcp : E.forceRtcp = true
  bLostKeyFrame : E.bLostKeyFrame = true
  ex : E.ex = false

/-- What `live_open` makes. -/
def Server.opened (s : Server) (n : ℕ) : Server :=
  { s with
    next := s.next + 1
    sessions := Function.update s.sessions s.next
      (some { liventry := n, playing := false, ep := fun _ => none })
    sessList := s.next :: s.sessList
    entries := Function.update s.entries n
      { s.entries n with sessList := s.next :: (s.entries n).sessList } }

/-- What is left of the session `p` of the entry `n`. -/
def Server.closed (s : Server) (p n : ℕ) : Server :=
  { s with
    sessList := s.sessList.erase p
    rtspSessList := s.rtspSessList.filter fun rs => rs.sess ≠ p
    sessions := Function.update s.sessions p none
    entries := Function.update s.entries n
      { s.entries n with sessList := (s.entries n).sessList.erase p } }

/-- The connection `c` gets an endpoint on two of its channels. -/
def Server.interleaved (s : Server) (c e a b : ℕ) (C : Conn) (ichan : ℕ → Ichan) (E : Endpoint) :
    Server :=
  { s with
    conns := Function.update s.conns c (some { C with
      protoState := .rtspConn (Function.update (Function.update ichan a ⟨some e, false⟩)
        b ⟨some e, true⟩) })
    endpoints := Function.update s.endpoints e (some { E with trans := .inter c a b }) }

/-- The channels of a connection, which has none at first. -/
def ProtoState.channels : ProtoState → Option (ℕ → Ichan)
  | .null => some fun _ => ⟨none, false⟩
  | .rtspConn ichan => some ichan
  | .stream _ => none

/-- What is counted when a packet is sent. -/
structure Endpoint.Counted (E E' : Endpoint) : Prop where
  session : E'.session = E.session
  trans : E'.trans = E.trans
  bLostKeyFrame : E'.bLostKeyFrame = E.bLostKeyFrame
  ex : E'.ex = E.ex

/-- What changes when a client is heard of, or a packet gets its number. -/
structure Endpoint.Noted (E E' : Endpoint) : Prop extends Endpoint.Counted E E' where
  packetCount : E'.packetCount = E.packetCount
  rtcpSendEvent : E'.rtcpSendEvent = E.rtcpSendEvent
  forceRtcp : E'.forceRtcp = E.forceRtcp

/-! ## The ways -/

/-- The kinds of changes, with the session, its slot or the endpoint that is changed. -/
inductive Kind
  | opened
  | added (p j : ℕ)
  | connected (e : ℕ)
  | registered (p : ℕ)
  | played (p : ℕ)
  | woken
  | removed (p e : ℕ)
  | closed (p : ℕ)
  | readied
  | delivering
  | logged
  | flagged (e : ℕ)
  | counted (e : ℕ)
  | noted (e : ℕ)
  | accepted
  | dropped

/-- What the server does to its live sessions, and what it knows when it does it. -/
inductive Change (mc : Bool) : Kind → Server → Server → Prop
  | opened {s : Server} (n : ℕ) : Change mc .opened s (s.opened n)
  /-- `live_setup` of a unicast session. -/
  | added {s : Server} {p j t : ℕ} {S : Session} {E : Endpoint} : mc = false →
      s.sessions p = some S → S.ep j = none → (s.entries S.liventry).tracklist j = some t →
      (s.tracks t).rtp ≠ none → E.session = some p → E.trans = .none → E.Fresh →
      Change mc (.added p j) s ({ (s.onEndpoint s.next E) with next := s.next + 1 }.setSlot p j S
        (some s.next))
  /-- `live_setup` of a multicast session whose track has an endpoint. -/
  | shared {s : Server} {p j t e : ℕ} {S : Session} {E : Endpoint} : mc = true →
      s.sessions p = some S → S.ep j = none → (s.entries S.liventry).tracklist j = some t →
      (s.tracks t).rtp = some (.endpoint e) → s.endpoints e = some E →
      Change mc (.added p j) s ((s.onEndpoint e { E with session := none }).setSlot p j S (some e))
  /-- `live_setup` of a multicast session whose track has no endpoint. -/
  | newShared {s : Server} {p j t : ℕ} {S : Session} {E : Endpoint} : mc = true →
      s.sessions p = some S → S.ep j = none → (s.entries S.liventry).tracklist j = some t →
      (s.tracks t).rtp = some .null → E.session = none → E.trans = .none ∨ E.trans = .mc →
      E.Fresh → Change mc (.added p j) s
        ((({ (s.onEndpoint s.next E) with next := s.next + 1 }).onTrack t fun T =>
          { T with rtp := some (.endpoint s.next) }).setSlot p j S (some s.next))
  | interleaved {s : Server} {c e a b : ℕ} {C : Conn} {E : Endpoint} {ichan : ℕ → Ichan} :
      s.endpoints e = some E → (mc = false → E.trans = .none) → s.conns c = some C →
      C.proto = .rtsp → C.protoState.channels = some ichan → a < maxInterleaveChannels →
      b < maxInterleaveChannels → a ≠ b → (ichan a).ep = none → (ichan b).ep = none →
      Change mc (.connected e) s (s.interleaved c e a b C ichan E)
  | udp {s : Server} {e : ℕ} {E : Endpoint} : s.endpoints e = some E →
      (mc = false → E.trans = .none) →
      Change mc (.connected e) s (s.onEndpoint e { E with maxDataSize := 1400, trans := .udp })
  | registered {s : Server} (p : ℕ) (id : Bytes) : (s.sessions p).isSome →
      Change mc (.registered p) s { s with rtspSessList := ⟨id, p⟩ :: s.rtspSessList }
  | played {s : Server} {p : ℕ} {S : Session} : s.sessions p = some S →
      Change mc (.played p) s
        { s with sessions := Function.update s.sessions p (some { S with playing := true }) }
  /-- `live_play` wakes the track of an endpoint. -/
  | woken {s : Server} {p j t : ℕ} {S : Session} : s.sessions p = some S → S.playing = true →
      (S.ep j).isSome → (s.entries S.liventry).tracklist j = some t → s.Reaches S.liventry j →
      Change mc .woken s (s.onTrack t fun T => { T with srcstream := some true })
  /-- `live_teardown` of a unicast endpoint whose track is played by others. -/
  | removed {s : Server} {p i t e : ℕ} {S : Session} {E : Endpoint} : mc = false →
      s.sessions p = some S → S.ep i = some e → (s.entries S.liventry).tracklist i = some t →
      s.endpoints e = some E → ((s.delete e E).setSlot p i S none).Plays t →
      Change mc (.removed p e) s ((s.delete e E).setSlot p i S none)
  /-- `live_teardown` of the last unicast endpoint of a track that plays. -/
  | removedLast {s : Server} {p i t e : ℕ} {S : Session} {E : Endpoint} : mc = false →
      s.sessions p = some S → S.ep i = some e → (s.entries S.liventry).tracklist i = some t →
      s.endpoints e = some E → ¬ ((s.delete e E).setSlot p i S none).Plays t →
      Change mc (.removed p e) s (((s.delete e E).setSlot p i S none).onTrack t fun T =>
        { T with srcstream := some false })
  /-- `live_teardown` of a multicast slot whose track is played by others. -/
  | left {s : Server} {p i t e : ℕ} {S : Session} : mc = true →
      s.sessions p = some S → S.ep i = some e → (s.entries S.liventry).tracklist i = some t →
      (s.setSlot p i S none).Plays t → Change mc (.removed p e) s (s.setSlot p i S none)
  /-- `live_teardown` of the last multicast slot of a track that plays. -/
  | leftLast {s : Server} {p i t e e' : ℕ} {S : Session} {E : Endpoint} : mc = true →
      s.sessions p = some S → S.ep i = some e → (s.entries S.liventry).tracklist i = some t →
      ¬ (s.setSlot p i S none).Plays t → (s.tracks t).rtp = some (.endpoint e') →
      s.endpoints e' = some E →
      Change mc (.removed p e) s (((s.setSlot p i S none).delete e' E).onTrack t fun T =>
        { T with srcstream := some false, rtp := some .null })
  | closed {s : Server} {p : ℕ} {S : Session} : s.sessions p = some S →
      (∀ j < maxTracks, s.Reaches S.liventry j → S.ep j = none) →
      Change mc (.closed p) s (s.closed p S.liventry)
  /-- The first frame of a track. -/
  | readied {s : Server} (t : ℕ) : (s.tracks t).ready = false →
      Change mc .readied s (s.onTrack t fun T => { T with srcstream := some false, ready := true })
  | delivering {s : Server} (d : Option Delivery) :
      Change mc .delivering s { s with delivery := d }
  | logged {s : Server} {ev : Event} : ¬ ev.IsTunnel →
      Change mc .logged s { s with log := s.log ++ [ev] }
  | flagged {s : Server} {e : ℕ} {E : Endpoint} (b : Bool) : s.endpoints e = some E →
      Change mc (.flagged e) s (s.onEndpoint e { E with bLostKeyFrame := b })
  | counted {s : Server} {e : ℕ} {E E' : Endpoint} : s.endpoints e = some E → E.Counted E' →
      Change mc (.counted e) s (s.onEndpoint e E')
  | noted {s : Server} {e : ℕ} {E E' : Endpoint} : s.endpoints e = some E → E.Noted E' →
      Change mc (.noted e) s (s.onEndpoint e E')
  | accepted {s : Server} (fd : ℕ) : Change mc .accepted s { s with
      next := s.next + 1, conns := Function.update s.conns s.next (some (.accepted fd))
      connList := s.next :: s.connList }
  | dropped {s : Server} (c : ℕ) : Change mc .dropped s { s with
      conns := Function.update s.conns c none, connList := s.connList.erase c }

/-- Changes of the kinds `A`, and what is done besides. -/
def Steps (mc : Bool) (A : Set Kind) : Server → Server → Prop :=
  Relation.ReflTransGen fun s s' => Alike s s' ∨ ∃ k ∈ A, Change mc k s s'

instance (mc : Bool) (A : Set Kind) : IsPreorder Server (Steps mc A) where
  refl _ := .refl
  trans _ _ _ h h' := h.trans h'

section Steps

variable {mc : Bool} {A B : Set Kind} {s s' : Server}

/-- More kinds. -/
theorem Steps.mono (h : Steps mc A s s') (hAB : A ⊆ B) : Steps mc B s s' := by
  refine Relation.ReflTransGen.mono (fun _ _ hstep => ?_) _ _ h
  rcases hstep with halike | ⟨k, hk, hchange⟩
  · exact .inl halike
  · exact .inr ⟨k, hAB hk, hchange⟩

/-- A single change. -/
theorem Steps.one {k : Kind} (hk : k ∈ A) (h : Change mc k s s') : Steps mc A s s' :=
  .single (.inr ⟨k, hk, h⟩)

/-- What is done besides changes. -/
theorem Steps.alike (h : Alike s s') : Steps mc A s s' := .single (.inl h)

/-- **What every change keeps is kept.** -/
theorem Steps.keeps {I : Server → Prop} (h : Steps mc A s s') (hs : I s)
    (halike : ∀ s s', I s → Alike s s' → I s')
    (hchange : ∀ k ∈ A, ∀ s s', I s → Change mc k s s' → I s') : I s' := by
  induction h with
  | refl => exact hs
  | tail _ hstep ih =>
    rcases hstep with h | ⟨k, hk, h⟩
    · exact halike _ _ ih h
    · exact hchange k hk _ _ ih h

/-- Only tunnels are recorded where no other event is. -/
theorem Steps.log (h : Steps mc A s s') (hA : Kind.logged ∉ A) :
    ∃ l, s'.log = s.log ++ l ∧ ∀ ev ∈ l, ev.IsTunnel := by
  refine h.keeps (I := fun s' => ∃ l, s'.log = s.log ++ l ∧ ∀ ev ∈ l, ev.IsTunnel)
    ⟨[], (List.append_nil _).symm, by simp⟩ (fun s₁ s₂ h halike => ?_) fun k hk s₁ s₂ h hc => ?_
  · obtain ⟨l, hlog, htunnel⟩ := h
    obtain ⟨l', hlog', htunnel'⟩ := halike.log
    refine ⟨l ++ l', by rw [hlog', hlog, List.append_assoc], fun ev hev => ?_⟩
    exact (List.mem_append.1 hev).elim (htunnel ev) (htunnel' ev)
  · have hsame : s₂.log = s₁.log := by
      cases hc with
      | logged => exact absurd hk hA
      | _ => rfl
    rw [hsame]
    exact h

end Steps

/-! ## The end of an endpoint -/

section Teardown

variable {s : Server}

/-- A track that has a stream gets its flag. -/
theorem wp_setWaiting {t : ℕ} {w : Bool} {Q : Unit → Server → Prop} {E : Fault → Prop} :
    wp (setWaiting t w) Q E s ↔
      ((s.tracks t).srcstream ≠ none →
        Q () (s.onTrack t fun T => { T with srcstream := some w })) ∧
      ((s.tracks t).srcstream = none → E .nullDeref) := by
  unfold setWaiting
  rw [wp_bind, wp_get]
  cases (s.tracks t).srcstream with
  | none => simp
  | some b => simp [Server.onTrack]

/-- The search tells whether a session plays the track. -/
theorem wp_trackPlays (t : ℕ) :
    wp (trackPlays t) (fun b s' => s' = s ∧ (b = true ↔ s.Plays t)) (fun _ => True) s := by
  have hplay : ∀ j l, wp (sessionsPlay j l) (fun b s' => s' = s ∧ (b = true ↔
      ∃ p ∈ l, ∃ S, s.sessions p = some S ∧ S.playing = true ∧ (S.ep j).isSome)) (fun _ => True) s := by
    intro j l
    apply wp_anyM
    intro p _
    rw [wp_bind, wp_getSession]
    refine ⟨fun S hS => ⟨rfl, ?_⟩, fun _ => trivial⟩
    simp [hS]
  unfold trackPlays
  rw [wp_bind, wp_get]
  refine (wp_anyM (P := fun n => ∃ j < maxTracks, (s.entries n).tracklist j = some t ∧
    ∃ p ∈ (s.entries n).sessList, ∃ S, s.sessions p = some S ∧ S.playing = true ∧
      (S.ep j).isSome) fun n _ => ?_).mono (fun _ _ h => h) fun _ h => h
  rw [wp_bind, wp_get]
  refine (wp_anyM (P := fun j => (s.entries n).tracklist j = some t ∧
    ∃ p ∈ (s.entries n).sessList, ∃ S, s.sessions p = some S ∧ S.playing = true ∧
      (S.ep j).isSome) fun j _ => ?_).mono (fun b s' h => ⟨h.1, by simpa using h.2⟩) fun _ h => h
  rw [wp_ite]
  refine ⟨fun ht => ?_, fun ht => ⟨rfl, by simp [ht]⟩⟩
  exact (hplay j _).mono (fun b s' h => ⟨h.1, by simpa [ht] using h.2⟩) fun _ h => h

/-- The channel of a connection is given up. -/
theorem wp_interleaveDisconnect (c chan : ℕ) :
    wp (interleaveDisconnect c chan)
      (fun _ s' => s' = { s with conns := clearChannel s.conns c chan }) (fun _ => True) s := by
  unfold interleaveDisconnect
  rw [wp_bind, wp_getConn]
  refine ⟨fun C hC => ?_, fun _ => trivial⟩
  cases hp : C.protoState with
  | null => trivial
  | stream p => trivial
  | rtspConn ichan =>
    dsimp only
    rw [wp_modifyConn]
    refine ⟨fun C' hC' => ?_, fun _ => trivial⟩
    rw [hC] at hC'
    cases hC'
    simp [clearChannel, hC, hp]

/-- An endpoint is freed, and the channel that it had is given up. -/
theorem wp_delRtpEndpoint (e : ℕ) :
    wp (delRtpEndpoint e) (fun _ s' => ∃ E, s.endpoints e = some E ∧ s' = s.delete e E)
      (fun _ => True) s := by
  unfold delRtpEndpoint
  rw [wp_bind, wp_getEndpoint]
  refine ⟨fun E hE => ?_, fun _ => trivial⟩
  have htrans : wp (disconnectTrans E.trans)
      (fun _ s' => s' = { s with conns := disconnected s.conns E.trans }) (fun _ => True) s := by
    cases E.trans with
    | none | udp | mc => exact rfl
    | inter c a b =>
      unfold disconnectTrans
      rw [wp_bind]
      refine (wp_interleaveDisconnect c a).mono (fun _ s₁ hs₁ => ?_) fun _ h => h
      subst hs₁
      exact (wp_interleaveDisconnect c b).mono (fun _ s₂ hs₂ => hs₂) fun _ h => h
  rw [wp_bind]
  refine htrans.mono (fun _ s₁ hs₁ => ?_) fun _ h => h
  subst hs₁
  exact ⟨E, hE, rfl⟩

/-- What `track_check_running1` does: nothing when the track plays. -/
theorem wp_trackCheckRunning1 (mc : Bool) (t : ℕ) :
    wp (trackCheckRunning1 mc t) (fun _ s' => s.Plays t ∧ s' = s ∨
      ¬ s.Plays t ∧ (mc = false ∧ s' = (s.onTrack t fun T => { T with srcstream := some false }) ∨
        mc = true ∧ ∃ e E, (s.tracks t).rtp = some (.endpoint e) ∧ s.endpoints e = some E ∧
          s' = ((s.delete e E).onTrack t fun T =>
            { T with srcstream := some false, rtp := some .null }))) (fun _ => True) s := by
  unfold trackCheckRunning1
  rw [wp_bind]
  refine (wp_trackPlays t).mono (fun b s₁ h => ?_) fun _ h => h
  obtain ⟨rfl, hb⟩ := h
  rw [wp_ite]
  refine ⟨fun hb' => .inl ⟨hb.1 hb', rfl⟩, fun hb' => ?_⟩
  have hplays : ¬ s₁.Plays t := fun h => hb' (hb.2 h)
  rw [wp_bind, wp_setWaiting]
  refine ⟨fun _ => ?_, fun _ => trivial⟩
  rw [wp_ite]
  refine ⟨fun hmc => ?_, fun hmc => .inr ⟨hplays, .inl ⟨by simpa using hmc, rfl⟩⟩⟩
  rw [wp_bind, wp_get]
  have hrtp : ((s₁.onTrack t fun T => { T with srcstream := some false }).tracks t).rtp =
      (s₁.tracks t).rtp := by simp [Server.onTrack]
  rw [hrtp]
  rcases hr : (s₁.tracks t).rtp with _ | _ | _ | e
  · trivial
  · trivial
  · trivial
  dsimp only
  rw [wp_bind]
  refine (wp_delRtpEndpoint e).mono (fun _ s₂ hs₂ => ?_) fun _ h => h
  obtain ⟨E, hE, rfl⟩ := hs₂
  rw [wp_modifyTrack]
  refine .inr ⟨hplays, .inr ⟨hmc, e, E, rfl, hE, ?_⟩⟩
  simp [Server.onTrack, Server.delete]

variable {mc : Bool} {p i t e : ℕ} {S : Session}

/-- **One round of `live_teardown`**, and what is left to do. -/
theorem wp_removeSlot {α : Type} {x : M α} {Q : α → Server → Prop} (hS : s.sessions p = some S)
    (he : S.ep i = some e) (ht : (s.entries S.liventry).tracklist i = some t)
    (hx : ∀ s', Change mc (.removed p e) s s' →
      s'.sessions p = some { S with ep := Function.update S.ep i none } →
      wp x Q (fun _ => True) s') :
    wp (do
      (if mc then pure () else delRtpEndpoint e)
      modifySession p fun S => { S with ep := Function.update S.ep i none }
      trackCheckRunning1 mc t
      x) Q (fun _ => True) s := by
  rw [wp_bind, wp_ite]
  refine ⟨fun hmc => ?_, fun hmc => ?_⟩
  · rw [wp_pure, wp_bind, wp_modifySession]
    refine ⟨fun S' hS' => ?_, fun _ => trivial⟩
    obtain rfl : S = S' := Option.some.inj (hS.symm.trans hS')
    refine (wp_trackCheckRunning1 mc t).seq fun _ s' h => ?_
    rcases h with ⟨hplays, rfl⟩ | ⟨hplays, ⟨hmc', -⟩ | ⟨-, e', E, hrtp, hE, rfl⟩⟩
    · exact hx _ (.left hmc hS he ht hplays) (Function.update_self ..)
    · rw [hmc] at hmc'
      cases hmc'
    · exact hx _ (.leftLast hmc hS he ht hplays hrtp hE) (Function.update_self ..)
  · refine (wp_delRtpEndpoint e).imp fun _ s₁ hs₁ => ?_
    obtain ⟨E, hE, rfl⟩ := hs₁
    have hmc' : mc = false := by simpa using hmc
    rw [wp_bind, wp_modifySession]
    refine ⟨fun S' hS' => ?_, fun _ => trivial⟩
    obtain rfl : S = S' := Option.some.inj (hS.symm.trans hS')
    refine (wp_trackCheckRunning1 mc t).seq fun _ s' h => ?_
    rcases h with ⟨hplays, rfl⟩ | ⟨hplays, ⟨-, rfl⟩ | ⟨hmc, -⟩⟩
    · exact hx _ (.removed hmc' hS he ht hE hplays) (Function.update_self ..)
    · exact hx _ (.removedLast hmc' hS he ht hE hplays) (Function.update_self ..)
    · rw [hmc'] at hmc
      cases hmc

end Teardown

end Spook
