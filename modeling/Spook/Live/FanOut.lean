import Mathlib.Algebra.Order.BigOperators.Group.List
import Mathlib.Algebra.Order.Group.Nat
import Mathlib.Data.List.Count
import Mathlib.Data.List.Nodup
import Mathlib.Data.Nat.Find
import Spook.Live.Aside
import Spook.Live.Gate
import Spook.Live.Reap

set_option relaxedAutoImplicit false
set_option autoImplicit false

/-!
# To whom a frame is offered

The loops of `next_live_frame` run over the entries of a track, the sessions of each entry and the
slots of each session. They look at an endpoint when it is on the track and plays: the frame is
skipped for it if it is no key frame and the endpoint waits for one, and is sent to it otherwise,
unless nothing is sent at all. Behind an endpoint that takes the frame they leave the session.

What the loops do with an endpoint is an event that they record, `send` and the two ways to skip
alike; an offer of the frame is such an event. The endpoints that the loops look at are computed from
the state as well, and each step of a delivery is shown to record an offer to each of them.

## Main definitions

* `Spook.Event.recipient` — to whom an event offers a frame.
* `Spook.Delivering` — a delivery to its end, with the events that it records.
* `Spook.Server.HearsFrom` — an endpoint of a playing session on a slot that holds the track.
* `Spook.Server.Once` — a delivery records one offer to each of those endpoints, and no other offer.
* `Spook.Server.FansOut` — the entries and slots of a track are in order.

## Main results

* `Spook.wp_selectEndpoint_looks` — the loop over the slots looks at the endpoints of `looks`.
* `Spook.Server.Midway.records` — a step of a delivery records an offer to each of them.
* `Spook.Delivering.count` — how often a delivery offers the frame to an endpoint.
* `Spook.fannedOut_iff` — which deliveries offer the frame to each endpoint once.

## Notes on the design

A delivery is several steps, between which anything may have been torn down. What is counted on the
way is therefore what is still to come (`Server.pending`), and each step takes from it as many
visits of a session as it makes. A session that is visited may be removed, but its visit changes
nothing that another session is looked at for (`Aside`).
-/

namespace Spook

/-- To whom `next_live_frame` offers a frame: an endpoint of a session, or the one in `ep_mc`. -/
inductive Recipient
  | endpoint (e : ℕ)
  | epMc (e : ℕ)
  deriving DecidableEq

/-- To whom an event offers a frame, whether `send` is called or the frame is skipped. -/
def Event.recipient : Event → Option Recipient
  | .keyFrame e _ _ | .deltaFrame e | .skipped e | .stopped e => some (.endpoint e)
  | .shared e => some (.epMc e)
  | .tunnelGet _ _ | .tunnelPost _ _ _ => none

/-- The endpoint is passed over for a frame, which is a key frame or not. -/
def Server.gated (s : Server) (key : Bool) (e : ℕ) : Bool :=
  match s.endpoints e with
  | some E => E.bLostKeyFrame && !key
  | none => false

/-- The endpoints that the loop over the slots of a session looks at in the slots that are left. -/
def LiveEntry.looks (entry : LiveEntry) (t : ℕ) (S : Session) (gated : ℕ → Bool) :
    List ℕ → List ℕ
  | [] => []
  | j :: js =>
    if entry.tracklist j = some t then
      match S.ep j with
      | none => []
      | some e =>
        if S.playing then if gated e then e :: entry.looks t S gated js else [e] else []
    else entry.looks t S gated js

/-- A delivery that comes to its end, with the events that its steps record. -/
inductive Delivering (mc : Bool) : Server → List Event → Server → Prop
  | done {s : Server} : s.delivery = none → Delivering mc s [] s
  | step {s s₁ s' : Server} {w : Sending} {os l : List Event} :
      s.delivery ≠ none → serverStep mc s (.deliver w) = .ok (s₁, os) → Delivering mc s₁ l s' →
      Delivering mc s (os ++ l) s'

/-- The endpoint `e` of the session `p`, which is playing, is on a slot that holds the track `t`. -/
def Server.HearsFrom (s : Server) (t p e : ℕ) : Prop :=
  ∃ S j, s.sessions p = some S ∧ S.playing = true ∧
    (s.entries S.liventry).tracklist j = some t ∧ S.ep j = some e

/-- A delivery from here can come to its end; and each that does records one offer of the frame to
each endpoint of a playing session on the track `t`, and no other offer. -/
def Server.Once (mc : Bool) (s : Server) (t : ℕ) : Prop :=
  (∃ l s', Delivering mc s l s') ∧ ∀ l s', Delivering mc s l s' →
    (∀ p e, s.HearsFrom t p e → (l.filterMap Event.recipient).count (.endpoint e) = 1) ∧
      ∀ o ∈ l.filterMap Event.recipient, ∃ p e, o = .endpoint e ∧ s.HearsFrom t p e

/-- The track has no `ep_mc`; the entry of an endpoint that hears it is listed once, and has no
earlier slot with the track but one whose endpoint is passed over. -/
def Server.FansOut (s : Server) (d : Delivery) : Prop :=
  ((s.tracks d.track).entrylist ≠ [] → (s.tracks d.track).rtp = some .null) ∧
    ∀ p S j e, s.sessions p = some S → S.playing = true →
      (s.entries S.liventry).tracklist j = some d.track → S.ep j = some e →
      (s.tracks d.track).entrylist.count S.liventry = 1 ∧
        ∀ i < j, (s.entries S.liventry).tracklist i = some d.track →
          ∃ e', S.ep i = some e' ∧ s.gated d.key e' = true

/-! ## One session -/

section Looks

variable {entry : LiveEntry} {t : ℕ} {S : Session} {gated gated' : ℕ → Bool} {js : List ℕ} {s : Server}

/-- What is looked at is on the track, behind none that takes the frame. -/
theorem LiveEntry.of_mem_looks (hjs : js.Pairwise (· < ·)) {e : ℕ}
    (h : e ∈ entry.looks t S gated js) : S.playing = true ∧ ∃ j ∈ js,
      entry.tracklist j = some t ∧ S.ep j = some e ∧ ∀ i ∈ js, i < j →
        entry.tracklist i = some t → ∃ e', S.ep i = some e' ∧ gated e' = true := by
  fun_induction LiveEntry.looks with
  | case1 => cases h
  | case2 => cases h
  | case3 k js ht e' he hplay hgated ih =>
    obtain ⟨hlt, hjs⟩ := List.pairwise_cons.1 hjs
    refine ⟨hplay, ?_⟩
    rcases List.mem_cons.1 h with rfl | h
    · refine ⟨k, List.mem_cons_self, ht, he, fun i hi hik => ?_⟩
      rcases List.mem_cons.1 hi with rfl | hi
      · exact absurd hik (lt_irrefl _)
      · exact absurd hik (hlt i hi).not_gt
    · obtain ⟨-, j, hj, htj, hej, hbefore⟩ := ih hjs h
      refine ⟨j, List.mem_cons_of_mem _ hj, htj, hej, fun i hi hij hti => ?_⟩
      rcases List.mem_cons.1 hi with rfl | hi
      · exact ⟨e', he, hgated⟩
      · exact hbefore i hi hij hti
  | case4 k js ht e' he hplay hgated =>
    obtain ⟨hlt, hjs⟩ := List.pairwise_cons.1 hjs
    obtain rfl := List.mem_singleton.1 h
    refine ⟨hplay, k, List.mem_cons_self, ht, he, fun i hi hik => ?_⟩
    rcases List.mem_cons.1 hi with rfl | hi
    · exact absurd hik (lt_irrefl _)
    · exact absurd hik (hlt i hi).not_gt
  | case5 => cases h
  | case6 k js ht ih =>
    obtain ⟨hlt, hjs⟩ := List.pairwise_cons.1 hjs
    obtain ⟨hplay, j, hj, htj, hej, hbefore⟩ := ih hjs h
    refine ⟨hplay, j, List.mem_cons_of_mem _ hj, htj, hej, fun i hi hij hti => ?_⟩
    rcases List.mem_cons.1 hi with rfl | hi
    · exact absurd hti ht
    · exact hbefore i hi hij hti

/-- It is looked at. -/
theorem LiveEntry.mem_looks (hjs : js.Pairwise (· < ·)) {j e : ℕ} (hplay : S.playing = true)
    (hj : j ∈ js) (ht : entry.tracklist j = some t) (he : S.ep j = some e)
    (hbefore : ∀ i < j, entry.tracklist i = some t → ∃ e', S.ep i = some e' ∧ gated e' = true) :
    e ∈ entry.looks t S gated js := by
  induction js with
  | nil => cases hj
  | cons k js ih =>
    obtain ⟨hlt, hjs⟩ := List.pairwise_cons.1 hjs
    unfold looks
    rcases List.mem_cons.1 hj with rfl | hj
    · rw [if_pos ht, he]
      dsimp only
      rw [if_pos hplay]
      split_ifs <;> simp
    · have hlater := ih hjs hj
      by_cases htk : entry.tracklist k = some t
      · rw [if_pos htk]
        obtain ⟨e', he', hgated⟩ := hbefore k (hlt j hj) htk
        rw [he']
        dsimp only
        rw [if_pos hplay, if_pos hgated]
        exact List.mem_cons_of_mem _ hlater
      · rw [if_neg htk]
        exact hlater

/-- No endpoint is looked at twice when no two slots hold the same. -/
theorem LiveEntry.nodup_looks (hjs : js.Pairwise (· < ·))
    (huniq : ∀ i j e, S.ep i = some e → S.ep j = some e → i = j) :
    (entry.looks t S gated js).Nodup := by
  induction js with
  | nil => exact List.nodup_nil
  | cons k js ih =>
    obtain ⟨hlt, hjs⟩ := List.pairwise_cons.1 hjs
    unfold looks
    by_cases ht : entry.tracklist k = some t
    · rw [if_pos ht]
      cases he : S.ep k with
      | none => exact List.nodup_nil
      | some e =>
        dsimp only
        split_ifs
        · refine List.nodup_cons.2 ⟨fun hmem => ?_, ih hjs⟩
          obtain ⟨-, j, hj, -, hej, -⟩ := of_mem_looks hjs hmem
          obtain rfl := huniq k j e he hej
          exact lt_irrefl _ (hlt k hj)
        · exact List.nodup_singleton e
        · exact List.nodup_nil
    · rw [if_neg ht]
      exact ih hjs

/-- Only the tracks of the entry and the endpoints of the session matter. -/
theorem LiveEntry.looks_congr {entry' : LiveEntry} (ht : entry.tracklist = entry'.tracklist)
    (h : ∀ j e, S.ep j = some e → gated e = gated' e) :
    entry.looks t S gated js = entry'.looks t S gated' js := by
  induction js with
  | nil => rfl
  | cons k js ih =>
    unfold looks
    rw [ih, ht]
    cases he : S.ep k with
    | none => rfl
    | some e =>
      dsimp only
      rw [h k e he]

/-- **The loop over the slots** looks at the endpoints of `looks`: it skips the frame for them, but
for the last one if that takes the frame. -/
theorem wp_selectEndpoint_looks {F : Fault → Prop} (d : Delivery)
    (hlive : ∀ j e, S.ep j = some e → (s.endpoints e).isSome) :
    wp (selectEndpoint d entry S js) (fun o s' => ∃ es, s' = s.skipping es ∧
      entry.looks d.track S (s.gated d.key) js = es ++ o.toList) F s := by
  induction js generalizing s with
  | nil => exact ⟨[], s.skipping_nil.symm, rfl⟩
  | cons k js ih =>
    unfold selectEndpoint LiveEntry.looks
    rw [wp_ite]
    refine ⟨fun ht => ?_, fun ht => ?_⟩
    · rw [if_pos ht]
      cases he : S.ep k with
      | none => exact ⟨[], s.skipping_nil.symm, rfl⟩
      | some e =>
        dsimp only
        rw [wp_ite]
        refine ⟨fun hplay => ?_, fun hplay => ?_⟩
        · rw [if_pos hplay, wp_bind, wp_getEndpoint]
          obtain ⟨E, hE⟩ := Option.isSome_iff_exists.1 (hlive k e he)
          have hgated : s.gated d.key e = (E.bLostKeyFrame && !d.key) := by
            unfold Server.gated
            rw [hE]
          refine ⟨fun E' hE' => ?_, fun hnone => ?_⟩
          · cases hE.symm.trans hE'
            rw [hgated, wp_ite, wp_bind, wp_record]
            refine ⟨fun hlost => ?_, fun hlost => ?_⟩
            · rw [if_pos hlost]
              have hlater := @ih { s with log := s.log ++ [.skipped e] } hlive
              refine hlater.imp fun o s' h => ?_
              obtain ⟨es, rfl, heq⟩ := h
              exact ⟨e :: es, s.skipping_cons e es, congrArg (e :: ·) heq⟩
            · rw [if_neg hlost]
              exact ⟨[], s.skipping_nil.symm, rfl⟩
          · rw [hE] at hnone
            cases hnone
        · rw [if_neg hplay]
          exact ⟨[], s.skipping_nil.symm, rfl⟩
    · rw [if_neg ht]
      exact ih hlive

end Looks

/-! ## A delivery -/

/-- The endpoints of the session `p` that a delivery looks at. -/
def Server.looksOf (s : Server) (d : Delivery) (p : ℕ) : List ℕ :=
  match s.sessions p with
  | some S => (s.entries S.liventry).looks d.track S (s.gated d.key) (List.range maxTracks)
  | none => []

/-- The endpoints that the next piece of a delivery looks at. -/
def Server.looksNext (s : Server) (d : Delivery) : List ℕ :=
  match d.rest with
  | some (p :: _) => s.looksOf d p
  | some [] | none => []

/-- The endpoint is one of the session. -/
def Server.Holds (s : Server) (p e : ℕ) : Prop :=
  ∃ S j, s.sessions p = some S ∧ S.ep j = some e

/-- The sessions of the entries of the track `t` from the number `k` on. -/
def Server.later (s : Server) (t k : ℕ) : List ℕ :=
  ((s.tracks t).entrylist.drop k).flatMap fun n => (s.entries n).sessList

/-- The sessions that a delivery has not come to. -/
def Server.pending (s : Server) (d : Delivery) : List ℕ :=
  match d.rest with
  | some l => l ++ s.later d.track (d.i + 1)
  | none => s.later d.track d.i

/-- The turns of the loop over the entries that are left, and half of one behind each. -/
def Server.turns (s : Server) (d : Delivery) : ℕ :=
  2 * ((s.tracks d.track).entrylist.length - d.i) + if d.rest = none then 1 else 0

/-- The server in the middle of a delivery. -/
structure Server.Midway (s : Server) (d : Delivery) : Prop where
  sound : Sound s
  delivery : s.delivery = some d
  rtp : (s.tracks d.track).entrylist ≠ [] → (s.tracks d.track).rtp = some .null
  rest : ∀ l, d.rest = some l → l.Nodup ∧ ∃ n, (s.tracks d.track).entrylist[d.i]? = some n ∧
    ∀ p ∈ l, ∃ S, s.sessions p = some S ∧ S.liventry = n

/-- The endpoint hears the track, and no slot with the track before it is empty. -/
def Server.InReach (s : Server) (t p e : ℕ) : Prop :=
  ∃ S j, s.sessions p = some S ∧ S.playing = true ∧
    (s.entries S.liventry).tracklist j = some t ∧ S.ep j = some e ∧
    ∀ i < j, (s.entries S.liventry).tracklist i = some t → S.ep i ≠ none

/-- The endpoint is on the first slot with the track. -/
def Server.ComesFirst (s : Server) (t p e : ℕ) : Prop :=
  ∃ S j, s.sessions p = some S ∧ S.playing = true ∧
    (s.entries S.liventry).tracklist j = some t ∧ S.ep j = some e ∧
    ∀ i < j, (s.entries S.liventry).tracklist i ≠ some t

/-- What a step of a delivery in a unicast server does. -/
inductive Advanced (s : Server) (d : Delivery) : Server → Prop
  /-- It visits a session. -/
  | visited {p : ℕ} {rest : List ℕ} {s₁ : Server} : d.rest = some (p :: rest) → Sound s₁ →
      Aside p (s.deliver (some { d with rest := some rest })) s₁ → Advanced s d s₁
  /-- It comes to an entry, or leaves it. -/
  | turned {d' : Delivery} : d'.track = d.track → d'.key = d.key → s.looksNext d = [] →
      (s.deliver (some d')).Midway d' → s.pending d' = s.pending d → s.turns d' < s.turns d →
      Advanced s d (s.deliver (some d'))
  | ended : s.looksNext d = [] → s.pending d = [] → Advanced s d (s.deliver none)

section Midway

variable {s s' s₁ : Server} {d d' : Delivery} {p t e : ℕ} {S : Session}

/-- What a session is looked at for, in its slots. -/
theorem Server.looksOf_eq (hS : s.sessions p = some S) : s.looksOf d p =
    (s.entries S.liventry).looks d.track S (s.gated d.key) (List.range maxTracks) := by
  unfold looksOf
  rw [hS]

/-- What is looked at is in reach. -/
theorem Server.inReach_of_mem (h : e ∈ s.looksOf d p) : s.InReach d.track p e := by
  cases hS : s.sessions p with
  | none =>
    unfold looksOf at h
    rw [hS] at h
    cases h
  | some S =>
    rw [looksOf_eq hS] at h
    obtain ⟨hplay, j, hj, ht, he, hbefore⟩ := LiveEntry.of_mem_looks List.pairwise_lt_range h
    refine ⟨S, j, hS, hplay, ht, he, fun i hij hti hnone => ?_⟩
    have hi : i ∈ List.range maxTracks := List.mem_range.2 (hij.trans (List.mem_range.1 hj))
    obtain ⟨e', he', -⟩ := hbefore i hi hij hti
    rw [hnone] at he'
    cases he'

/-- What comes next is the session in front. -/
theorem Server.looksNext_cons {rest : List ℕ} (hrest : d.rest = some (p :: rest)) :
    s.looksNext d = s.looksOf d p := by
  unfold looksNext
  rw [hrest]

/-- What is in reach hears the track. -/
theorem Server.InReach.hearsFrom (h : s.InReach t p e) : s.HearsFrom t p e := by
  obtain ⟨S, j, hS, hplay, ht, he, -⟩ := h
  exact ⟨S, j, hS, hplay, ht, he⟩

/-- What hears the track is an endpoint of its session. -/
theorem Server.HearsFrom.holds (h : s.HearsFrom t p e) : s.Holds p e := by
  obtain ⟨S, j, hS, -, -, he⟩ := h
  exact ⟨S, j, hS, he⟩

/-- No two sessions have the same endpoint. -/
theorem Sound.holds_inj (h : Sound s) {p' : ℕ} (hp : s.Holds p e) (hp' : s.Holds p' e) : p = p' := by
  obtain ⟨S, j, hS, he⟩ := hp
  obtain ⟨S', j', hS', he'⟩ := hp'
  obtain ⟨E, hE, howner⟩ := h.live p S j e hS he
  obtain ⟨E', hE', howner'⟩ := h.live p' S' j' e hS' he'
  cases hE.symm.trans hE'
  exact Option.some.inj (howner.symm.trans howner')

/-- Tracks are held in one of the slots. -/
theorem Sound.slot_lt (h : Sound s) {n j : ℕ} (ht : (s.entries n).tracklist j = some t) :
    j ∈ List.range maxTracks := by
  rw [List.mem_range]
  by_contra hj
  rw [h.range n j (not_lt.1 hj)] at ht
  cases ht

/-- The first slot is looked at. -/
theorem Server.ComesFirst.mem_looksOf (hs : Sound s) (h : s.ComesFirst d.track p e) :
    e ∈ s.looksOf d p := by
  obtain ⟨S, j, hS, hplay, ht, he, hbefore⟩ := h
  rw [looksOf_eq hS]
  exact LiveEntry.mem_looks List.pairwise_lt_range hplay (hs.slot_lt ht) ht he
    fun i hij hti => absurd hti (hbefore i hij)

/-- A session is offered a frame once in each slot, and no endpoint is in two slots. -/
theorem Sound.nodup_looksOf (h : Sound s) (d : Delivery) (p : ℕ) : (s.looksOf d p).Nodup := by
  cases hS : s.sessions p with
  | none =>
    unfold Server.looksOf
    rw [hS]
    exact List.nodup_nil
  | some S =>
    rw [Server.looksOf_eq hS]
    exact LiveEntry.nodup_looks List.pairwise_lt_range fun i j e => h.uniq p S i j e hS

/-- What happens to one session brings no other within reach. -/
theorem Aside.inReach_of (h : Aside p s s') {p' : ℕ} (he : s'.InReach t p' e) :
    s.InReach t p' e := by
  obtain ⟨S', j, hS', hplay, ht, he, hbefore⟩ := he
  by_cases hp : p' = p
  · subst hp
    obtain ⟨S, hS, hfewer⟩ := h.fewer S' hS'
    rw [h.tracklist, hfewer.liventry] at ht
    simp only [h.tracklist, hfewer.liventry] at hbefore
    refine ⟨S, j, hS, hfewer.playing ▸ hplay, ht, ?_, fun i hij hti hnone => ?_⟩
    · rcases hfewer.ep j with heq | hnone
      · rw [← heq, he]
      · rw [he] at hnone
        cases hnone
    · refine hbefore i hij hti ?_
      rcases hfewer.ep i with heq | hnone'
      · rw [heq, hnone]
      · exact hnone'
  · rw [h.sessions p' hp] at hS'
    simp only [h.tracklist] at ht hbefore
    exact ⟨S', j, hS', hplay, ht, he, hbefore⟩

/-- What happens to one session does not matter to what another is looked at for. -/
theorem Aside.looksOf (h : Aside p s s') (hs : Sound s) {p' : ℕ} (hp : p' ≠ p) :
    s'.looksOf d p' = s.looksOf d p' := by
  have hsame := h.sessions p' hp
  cases hS : s.sessions p' with
  | none =>
    unfold Server.looksOf
    rw [hsame, hS]
  | some S =>
    rw [Server.looksOf_eq hS, Server.looksOf_eq (hsame.trans hS)]
    refine LiveEntry.looks_congr (h.tracklist _) fun j e he => ?_
    obtain ⟨E, hE, hsession⟩ := hs.live p' S j e hS he
    unfold Server.gated
    rw [hE, h.endpoints e E hE fun heq => hp (Option.some.inj (hsession.symm.trans heq))]

/-- What happens to one session does not reorder the turns of another. -/
theorem Aside.later (h : Aside p s s') {p' : ℕ} (hp : p' ≠ p) (t k : ℕ) :
    (s'.later t k).count p' = (s.later t k).count p' := by
  unfold Server.later
  rw [h.entrylist, List.count_flatMap, List.count_flatMap]
  congr 1
  apply List.map_congr_left
  intro n _
  exact h.sessList n p' hp

/-- A session that is removed loses its turns. -/
theorem Aside.later_le (h : Aside p s s') (t k : ℕ) :
    (s'.later t k).count p ≤ (s.later t k).count p := by
  unfold Server.later
  rw [h.entrylist, List.count_flatMap, List.count_flatMap]
  apply List.sum_le_sum
  intro n _
  exact h.sessList_le n

/-- The sessions that are still to come. -/
theorem Aside.pending {rest : List ℕ} (hrest : d.rest = some (p :: rest))
    (haside : Aside p (s.deliver (some { d with rest := some rest })) s₁) :
    (∀ p' ≠ p, (s₁.pending { d with rest := some rest }).count p' = (s.pending d).count p') ∧
      (s₁.pending { d with rest := some rest }).count p < (s.pending d).count p := by
  unfold Server.pending
  rw [hrest]
  dsimp only
  constructor
  · intro p' hp'
    rw [List.count_append, List.count_append, List.count_cons_of_ne hp'.symm,
      haside.later hp']
    rfl
  · have hle : (s₁.later d.track (d.i + 1)).count p ≤ (s.later d.track (d.i + 1)).count p :=
      haside.later_le d.track (d.i + 1)
    rw [List.count_append, List.count_append, List.count_cons_self]
    omega

/-- The session whose turn it is has been visited: the delivery is in the middle again, with the
sessions that are left. -/
theorem Server.Midway.visit {rest : List ℕ} (h : s.Midway d) (hrest : d.rest = some (p :: rest))
    (hs : Sound s₁) (haside : Aside p (s.deliver (some { d with rest := some rest })) s₁) :
    s₁.Midway { d with rest := some rest } := by
  obtain ⟨hnodup, n, hn, hall⟩ := h.rest _ hrest
  obtain ⟨hp, hnodup⟩ := List.nodup_cons.1 hnodup
  refine ⟨hs, haside.delivery, ?_, fun l hl => ?_⟩
  · dsimp only
    rw [haside.rtp, haside.entrylist]
    exact h.rtp
  cases hl
  refine ⟨hnodup, n, ?_, fun p' hp' => ?_⟩
  · rw [haside.entrylist]
    exact hn
  · obtain ⟨S, hS, hliventry⟩ := hall p' (List.mem_cons_of_mem _ hp')
    refine ⟨S, ?_, hliventry⟩
    rw [haside.sessions p' fun heq => hp (heq ▸ hp')]
    exact hS

/-- A step of a delivery is a piece of `next_live_frame`, with what it records. -/
theorem continueFrame_of_step {mc : Bool} {w : Sending} {os : List Event}
    (h : serverStep mc s (.deliver w) = .ok (s₁, os)) :
    (continueFrame mc w).run s = .ok ((), s₁) ∧ os = s₁.log.drop s.log.length := by
  unfold serverStep at h
  rw [if_pos (show s.enabled (.deliver w) = true from rfl)] at h
  rcases hr : (serverAct mc (.deliver w)).run s with f | ⟨u, s₂⟩ <;> rw [hr] at h <;> cases h
  exact ⟨hr, rfl⟩

/-- What a step of a delivery does. -/
theorem continued_of_step {mc : Bool} {w : Sending} {os : List Event}
    (h : serverStep mc s (.deliver w) = .ok (s₁, os)) : Continued mc w s s₁ :=
  (wp_continueFrame w).ok (continueFrame_of_step h).1

/-- **One step of a delivery.** **Proof sketch.** By the loop that the delivery is in. In the loop
over the entries a step takes the sessions of the next entry, or ends. In the loop over the sessions
it visits the first of them, which may be torn down; the others are as they were, so that the turns
that are left become fewer and what is counted stays. -/
theorem Server.Midway.advanced {w : Sending} (h : s.Midway d) (hstep : Continued false w s s₁) :
    Advanced s d s₁ := by
  have hto : ∀ {d'}, s.delivery = some d' → d = d' := fun hd' =>
    Option.some.inj (h.delivery.symm.trans hd')
  have hdeliver : ∀ o, Sound (s.deliver o) := fun o =>
    h.sound.of_same rfl rfl rfl (fun _ => Iff.rfl) le_rfl
  cases hstep with
  | idle hnone =>
    rw [h.delivery] at hnone
    cases hnone
  | left hd hl =>
    obtain rfl := hto hd
    obtain ⟨-, n, hn, -⟩ := h.rest _ hl
    obtain ⟨hi, -⟩ := List.getElem?_eq_some_iff.1 hn
    refine .turned rfl rfl ?_ ⟨hdeliver _, rfl, h.rtp, fun l hl => by cases hl⟩ ?_ ?_
    · unfold Server.looksNext
      rw [hl]
    · unfold Server.pending
      rw [hl]
      rfl
    · unfold Server.turns
      rw [hl]
      dsimp only
      rw [if_pos rfl, if_neg (by simp)]
      omega
  | @passed _ p rest es hd hl =>
    obtain rfl := hto hd
    exact .visited hl ((hdeliver _).skipping es) (aside_skipping p _ es)
  | @offered _ n p j e rest es S E _ hd hl hn hS hplay hj ht he hE hoffered =>
    obtain rfl := hto hd
    obtain ⟨E', hE', hp⟩ := h.sound.live p S j e hS he
    cases hE.symm.trans hE'
    obtain ⟨hs₁, haside⟩ := hoffered.aside ((hdeliver _).skipping es) hE hp
    exact .visited hl hs₁ ((aside_skipping p _ es).trans haside)
  | ended hd hl hn =>
    obtain rfl := hto hd
    refine .ended ?_ ?_
    · unfold Server.looksNext
      rw [hl]
    · unfold Server.pending Server.later
      rw [hl]
      dsimp only
      rw [List.drop_eq_nil_of_le (List.getElem?_eq_none_iff.1 hn)]
      rfl
  | multicast hd hl hn hrtp =>
    obtain rfl := hto hd
    have hnull := h.rtp fun hnil => by
      rw [hnil] at hn
      cases hn
    rw [hnull] at hrtp
    cases hrtp
  | @entered _ n hd hl hn hrtp =>
    obtain rfl := hto hd
    obtain ⟨hi, hget⟩ := List.getElem?_eq_some_iff.1 hn
    refine .turned rfl rfl ?_ ⟨hdeliver _, rfl, h.rtp, fun l hl' => ?_⟩ ?_ ?_
    · unfold Server.looksNext
      rw [hl]
    · cases hl'
      exact ⟨h.sound.entry_nodup n, n, hn, fun p hp => (h.sound.entry_mem n p).1 hp⟩
    · unfold Server.pending Server.later
      rw [hl]
      dsimp only
      rw [List.drop_eq_getElem_cons hi, hget, List.flatMap_cons]
    · unfold Server.turns
      rw [hl]
      dsimp only
      rw [if_neg (by simp), if_pos rfl]
      omega

end Midway

/-! ## What is recorded -/

section Records

variable {mc : Bool} {s s' s₁ : Server} {d : Delivery} {e p k : ℕ} {w : Sending} {E : Endpoint}

/-- A tunnel offers no frame. -/
theorem Event.IsTunnel.recipient_eq {ev : Event} (h : ev.IsTunnel) : ev.recipient = none := by
  cases ev with
  | keyFrame | deltaFrame | skipped | stopped | shared => exact h.elim
  | tunnelGet | tunnelPost => rfl

/-- The packets of a frame record no offer: the offer is recorded beside `send`. -/
theorem FrameSent.records {packets : List ℕ} {r : ℤ × List Bool}
    (h : FrameSent mc e w k packets s E r s') (hE : s.endpoints e = some E) :
    ∃ l, s'.log = s.log ++ l ∧ l.filterMap Event.recipient = [] := by
  obtain ⟨l, hlog, htunnel⟩ := (h.sends hE).steps.log (by simp)
  exact ⟨l, hlog, List.filterMap_eq_nil_iff.2 fun ev hev => (htunnel ev hev).recipient_eq⟩

/-- **The offer of a frame** to an endpoint is recorded once. -/
theorem FrameOffered.records (h : FrameOffered mc d e w s E s') (hE : s.endpoints e = some E) :
    ∃ l, s'.log = s.log ++ l ∧ l.filterMap Event.recipient = [.endpoint e] := by
  cases h with
  | heldKey | held => exact ⟨_, rfl, rfl⟩
  | @key ret outcomes s₁ E₁ _ _ hframe =>
    obtain ⟨l, hlog, hnone⟩ := hframe.records hE
    refine ⟨l ++ [.keyFrame e (d.packets E.maxDataSize).length outcomes], ?_, ?_⟩
    · rw [← List.append_assoc, ← hlog]
      rfl
    · rw [List.filterMap_append, hnone]
      rfl
  | delta _ _ hframe =>
    obtain ⟨l, hlog, hnone⟩ := hframe.records (by exact hE)
    refine ⟨.deltaFrame e :: l, by rw [List.append_cons]; exact hlog, ?_⟩
    rw [List.filterMap_cons, hnone]
    rfl

/-- Each endpoint that a frame is skipped for gets an offer. -/
theorem filterMap_recipient_skipped (es : List ℕ) :
    (es.map Event.skipped).filterMap Event.recipient = es.map .endpoint := by
  rw [List.filterMap_map]
  exact congrFun List.filterMap_eq_map es

/-- One session: an offer is recorded to each endpoint that the loop over its slots looks at. -/
theorem wp_visitSession_records {S : Session} (hs : Sound s) (hS : s.sessions p = some S) :
    wp (visitSession mc d S.liventry p w) (fun _ s' => ∃ l, s'.log = s.log ++ l ∧
      l.filterMap Event.recipient = (s.looksOf d p).map .endpoint) (fun _ => True) s := by
  have hlive : ∀ j e, S.ep j = some e → (s.endpoints e).isSome := by
    intro j e he
    obtain ⟨E, hE, -⟩ := hs.live p S j e hS he
    exact Option.isSome_of_eq_some hE
  unfold visitSession
  rw [wp_bind, wp_getSession]
  refine ⟨fun S' hS' => ?_, fun _ => trivial⟩
  cases hS.symm.trans hS'
  rw [wp_bind, wp_get]
  refine (wp_selectEndpoint_looks d hlive).seq fun o s₁ h => ?_
  obtain ⟨es, rfl, heq⟩ := h
  rw [Server.looksOf_eq hS, heq]
  cases o with
  | none =>
    refine ⟨es.map .skipped, rfl, ?_⟩
    rw [filterMap_recipient_skipped, Option.toList_none, List.append_nil]
  | some e =>
    dsimp only
    cases hE : (s.skipping es).endpoints e with
    | none => simp [offerFrame, hE]
    | some E =>
      refine (wp_offerFrame d w hE).imp fun _ s' h => ?_
      obtain ⟨l, hlog, hone⟩ := h.records hE
      refine ⟨es.map .skipped ++ l, ?_, ?_⟩
      · rw [← List.append_assoc]
        exact hlog
      · rw [List.filterMap_append, filterMap_recipient_skipped, hone, List.map_append]
        rfl

/-- **A step of a delivery** records an offer to each endpoint that it looks at, and no other. -/
theorem Server.Midway.records {os : List Event} (h : s.Midway d)
    (hstep : serverStep false s (.deliver w) = .ok (s₁, os)) :
    os.filterMap Event.recipient = (s.looksNext d).map .endpoint := by
  obtain ⟨hrun, rfl⟩ := continueFrame_of_step hstep
  suffices hwp : wp (continueFrame false w) (fun _ s' => ∃ l, s'.log = s.log ++ l ∧
      l.filterMap Event.recipient = (s.looksNext d).map .endpoint) (fun _ => True) s by
    obtain ⟨l, hlog, heq⟩ := hwp.ok hrun
    rw [hlog, List.drop_left, heq]
  have hquiet : ∃ l, s.log = s.log ++ l ∧ l.filterMap Event.recipient = [] :=
    ⟨[], (List.append_nil _).symm, rfl⟩
  unfold continueFrame looksNext
  rw [wp_bind, wp_get, h.delivery]
  dsimp only
  rcases hl : d.rest with _ | _ | ⟨p, rest⟩
  · dsimp only
    cases hn : (s.tracks d.track).entrylist[d.i]? with
    | none => exact hquiet
    | some n =>
      have hnull := h.rtp fun hnil => by
        rw [hnil] at hn
        cases hn
      rw [hnull]
      exact hquiet
  · exact hquiet
  · obtain ⟨-, n, hn, hall⟩ := h.rest _ hl
    obtain ⟨S, hS, rfl⟩ := hall p List.mem_cons_self
    have hsound : Sound (s.deliver (some { d with rest := some rest })) :=
      h.sound.of_same rfl rfl rfl (fun _ => Iff.rfl) le_rfl
    dsimp only
    rw [wp_bind, wp_modify, hn]
    exact wp_visitSession_records hsound hS

end Records

/-! ## How often a frame is offered to an endpoint -/

section Delivering

variable {s s' s₁ : Server} {d d' : Delivery} {p t e : ℕ} {l : List Event}

/-- Without a delivery no step is taken. -/
theorem Delivering.of_none {mc : Bool} (h : Delivering mc s l s') (hnone : s.delivery = none) :
    l = [] := by
  cases h with
  | done => rfl
  | step hsome => exact absurd hnone hsome

/-- **What the frame is offered to** is in reach, in a session that the delivery has not come to.

**Proof sketch.** By induction on the steps. What a step offers is what it looks at (`Midway.records`),
in the session that it visits. What the steps behind it offer is in reach in the state that it
leaves, and so it was before, as a step takes endpoints away at most. -/
theorem Delivering.inReach (h : Delivering false s l s') : ∀ d, s.Midway d →
    ∀ o ∈ l.filterMap Event.recipient, ∃ p ∈ s.pending d, ∃ e, o = .endpoint e ∧ s.InReach d.track p e := by
  induction h with
  | done hnone =>
    intro d hmid
    rw [hmid.delivery] at hnone
    cases hnone
  | @step s s₁ s' w os l _ hstep hrest ih =>
    intro d hmid o hmem
    have hnow := hmid.records hstep
    rw [List.filterMap_append, List.mem_append, hnow] at hmem
    cases hmid.advanced (continued_of_step hstep) with
    | @visited p rest _ hl hs₁ haside =>
      obtain ⟨hothers, hless⟩ := haside.pending hl
      rcases hmem with hnow | hlater
      · rw [Server.looksNext_cons hl] at hnow
        obtain ⟨e, he, rfl⟩ := List.mem_map.1 hnow
        have hp : p ∈ s.pending d := List.count_pos_iff.1 (Nat.zero_lt_of_lt hless)
        exact ⟨p, hp, e, rfl, Server.inReach_of_mem he⟩
      · obtain ⟨p', hp', e, rfl, hreach⟩ := ih _ (hmid.visit hl hs₁ haside) o hlater
        refine ⟨p', ?_, e, rfl, haside.inReach_of hreach⟩
        by_cases hp : p' = p
        · rw [hp]
          exact List.count_pos_iff.1 (Nat.zero_lt_of_lt hless)
        · rw [← List.count_pos_iff, ← hothers p' hp]
          exact List.count_pos_iff.2 hp'
    | @turned d' htrack hkey hlooks hmid' hpending =>
      rw [hlooks] at hmem
      obtain ⟨p', hp', e, rfl, hreach⟩ := ih _ hmid' o (hmem.resolve_left List.not_mem_nil)
      rw [htrack] at hreach
      exact ⟨p', hpending ▸ hp', e, rfl, hreach⟩
    | ended hlooks =>
      rw [hlooks, hrest.of_none rfl] at hmem
      simp at hmem

/-- **Behind a session** that a delivery comes to once: it has offered the frame to the endpoints that
it looks at there, as they were at its start.

**Proof sketch.** By induction on the steps. The step that visits the session offers the frame to these
endpoints, and no later step does, since the session is not to come again. A step that visits another
session offers it to endpoints of that one, and leaves those of this session as they are. -/
theorem Delivering.count (h : Delivering false s l s') : ∀ d, s.Midway d → ∀ p e, s.Holds p e →
    (s.pending d).count p = 1 →
      (l.filterMap Event.recipient).count (.endpoint e) = (s.looksOf d p).count e := by
  induction h with
  | done hnone =>
    intro d hmid
    rw [hmid.delivery] at hnone
    cases hnone
  | @step s s₁ s' w os l _ hstep hrest ih =>
    intro d hmid p e hholds hp
    rw [List.filterMap_append, List.count_append, hmid.records hstep]
    cases hmid.advanced (continued_of_step hstep) with
    | @visited p' rest _ hl hs₁ haside =>
      obtain ⟨hothers, hless⟩ := haside.pending hl
      have hmid' := hmid.visit hl hs₁ haside
      have hsound : Sound (s.deliver (some { d with rest := some rest })) :=
        hmid.sound.of_same rfl rfl rfl (fun _ => Iff.rfl) le_rfl
      rw [Server.looksNext_cons hl]
      by_cases heq : p = p'
      · subst heq
        have hnot : Recipient.endpoint e ∉ l.filterMap Event.recipient := by
          intro hmem
          obtain ⟨q, hq, e', he', hreach⟩ := hrest.inReach _ hmid' _ hmem
          obtain rfl := Recipient.endpoint.inj he'
          obtain rfl := hmid.sound.holds_inj hholds (haside.inReach_of hreach).hearsFrom.holds
          have hpos := List.count_pos_iff.2 hq
          omega
        rw [List.count_eq_zero_of_not_mem hnot, Nat.add_zero]
        exact List.count_map_of_injective _ _ (fun _ _ => Recipient.endpoint.inj) e
      · have hnot : Recipient.endpoint e ∉ (s.looksOf d p').map Recipient.endpoint := by
          intro hmem
          obtain ⟨e', he', hoffer⟩ := List.mem_map.1 hmem
          obtain rfl := Recipient.endpoint.inj hoffer
          exact heq (hmid.sound.holds_inj hholds (Server.inReach_of_mem he').hearsFrom.holds)
        have hkept : s₁.Holds p e := by
          obtain ⟨S, j, hS, he⟩ := hholds
          exact ⟨S, j, (haside.sessions p heq).trans hS, he⟩
        rw [List.count_eq_zero_of_not_mem hnot, Nat.zero_add,
          ih _ hmid' p e hkept ((hothers p heq).trans hp), haside.looksOf hsound heq]
        rfl
    | @turned d' htrack hkey hlooks hmid' hpending =>
      rw [hlooks, List.map_nil, List.count_nil, Nat.zero_add,
        ih _ hmid' p e hholds (hpending ▸ hp)]
      unfold Server.looksOf
      rw [htrack, hkey]
      rfl
    | ended _ hpending =>
      rw [hpending] at hp
      cases hp

end Delivering

/-! ## A delivery while nothing is sent -/

section Held

variable {s s₁ : Server} {d : Delivery} {p n : ℕ} {S : Session} {w : Sending}

/-- Nothing is sent. -/
def sendingNone : Sending :=
  { stopSend := true, sendmsgOk := fun _ => true, now := ⟨0, 0⟩, rtcpRet := 0 }

/-- A frame that is not sent because the access point is changed faults nowhere. -/
theorem wp_visitSession_held (hs : Sound s) (hS : s.sessions p = some S) (hstop : w.stopSend = true) :
    wp (visitSession false d n p w) (fun _ _ => True) (fun _ => False) s := by
  have hlive : ∀ j e, S.ep j = some e → (s.endpoints e).isSome := by
    intro j e he
    obtain ⟨E, hE, -⟩ := hs.live p S j e hS he
    rw [hE]
    rfl
  unfold visitSession
  rw [wp_bind, wp_getSession]
  refine ⟨fun S' hS' => ?_, fun hnone => ?_⟩
  · cases hS.symm.trans hS'
    rw [wp_bind, wp_get]
    refine (wp_selectEndpoint_looks d hlive).seq fun o s₁ h => ?_
    obtain ⟨es, rfl, heq⟩ := h
    cases o with
    | none => trivial
    | some e =>
      have hlook : e ∈ (s.entries n).looks d.track S (s.gated d.key) (List.range maxTracks) := by
        rw [heq]
        exact List.mem_append_right es List.mem_cons_self
      obtain ⟨-, j, -, -, he, -⟩ := LiveEntry.of_mem_looks List.pairwise_lt_range hlook
      unfold offerFrame
      rw [wp_bind, wp_getEndpoint]
      refine ⟨fun E hE => ?_, fun hnone => ?_⟩
      · rw [wp_ite, wp_ite]
        refine ⟨fun _ => ⟨fun _ => ?_, fun _ => trivial⟩, fun hsend => absurd hstop hsend⟩
        rw [wp_bind, wp_record, wp_modifyEndpoint_some (by exact hE)]
        trivial
      · have hsome : ((s.skipping es).endpoints e).isSome := hlive j e he
        rw [hnone] at hsome
        cases hsome
  · rw [hS] at hnone
    cases hnone

/-- A delivery goes on. -/
theorem Server.Midway.goesOn (h : s.Midway d) (hstop : w.stopSend = true) :
    ∃ s₁ os, serverStep false s (.deliver w) = .ok (s₁, os) := by
  have hwp : wp (continueFrame false w) (fun _ _ => True) (fun _ => False) s := by
    unfold continueFrame
    rw [wp_bind, wp_get, h.delivery]
    dsimp only
    rcases hl : d.rest with _ | _ | ⟨p, rest⟩
    · dsimp only
      cases hn : (s.tracks d.track).entrylist[d.i]? with
      | none => trivial
      | some n =>
        have hnull := h.rtp fun hnil => by
          rw [hnil] at hn
          cases hn
        rw [hnull]
        trivial
    · trivial
    · obtain ⟨-, n, hn, hall⟩ := h.rest _ hl
      obtain ⟨S, hS, -⟩ := hall p List.mem_cons_self
      have hsound : Sound (s.deliver (some { d with rest := some rest })) :=
        h.sound.of_same rfl rfl rfl (fun _ => Iff.rfl) le_rfl
      dsimp only
      rw [wp_bind, wp_modify, hn]
      exact wp_visitSession_held hsound hS hstop
  rcases hr : (continueFrame false w).run s with f | ⟨u, s₁⟩
  · exact (hwp.error hr).elim
  · refine ⟨s₁, s₁.log.drop s.log.length, ?_⟩
    unfold serverStep
    rw [if_pos (show s.enabled (.deliver w) = true from rfl)]
    show ((continueFrame false w).run s).map _ = _
    rw [hr]
    rfl

/-- It changes nothing but flags. -/
theorem Server.Midway.held (h : s.Midway d) (hstop : w.stopSend = true)
    (hstep : Continued false w s s₁) :
    s₁.sessions = s.sessions ∧ s₁.entries = s.entries ∧ s₁.tracks = s.tracks := by
  cases hstep with
  | idle | left | passed | ended | entered => exact ⟨rfl, rfl, rfl⟩
  | offered _ _ _ _ _ _ _ _ _ hoffered =>
    cases hoffered with
    | heldKey | held => exact ⟨rfl, rfl, rfl⟩
    | key hsend | delta hsend =>
      rw [hstop] at hsend
      cases hsend
  | multicast hd _ hn hrtp =>
    obtain rfl := Option.some.inj (h.delivery.symm.trans hd)
    have hnull := h.rtp fun hnil => by
      rw [hnil] at hn
      cases hn
    rw [hnull] at hrtp
    cases hrtp

/-- **A delivery can come to its end**, and then it has looked at the endpoint that comes first in a
session as often as it has come to the session. -/
theorem Server.Midway.delivers (h : s.Midway d) : ∃ l s', Delivering false s l s' ∧
    ∀ p e, s.ComesFirst d.track p e →
      (s.pending d).count p ≤ (l.filterMap Event.recipient).count (.endpoint e) := by
  induction hn : (s.pending d).length + s.turns d using Nat.strong_induction_on generalizing s d with
  | _ n ih =>
    subst hn
    obtain ⟨s₁, os, hstep⟩ := @Midway.goesOn s d sendingNone h rfl
    have hcontinued := continued_of_step hstep
    obtain ⟨hsessions, hentries, htracks⟩ := h.held rfl hcontinued
    have hsome : s.delivery ≠ none := by
      rw [h.delivery]
      exact Option.some_ne_none d
    cases h.advanced hcontinued with
    | @visited p rest _ hl hs₁ haside =>
      have hpending : s.pending d = p :: s₁.pending { d with rest := some rest } := by
        unfold Server.pending Server.later
        rw [hl, hentries, htracks]
        rfl
      have hturns : s₁.turns { d with rest := some rest } = s.turns d := by
        unfold Server.turns
        rw [htracks, hl]
        simp
      obtain ⟨l, s', hrun, hcount⟩ := ih _ (by rw [hpending, hturns]; simp) (h.visit hl hs₁ haside) rfl
      refine ⟨_, s', .step hsome hstep hrun, fun p' e he => ?_⟩
      have hlater := hcount p' e <| by
        unfold Server.ComesFirst
        rw [hsessions, hentries]
        exact he
      rw [hpending, List.filterMap_append, List.count_append, h.records hstep, looksNext_cons hl]
      by_cases hp : p' = p
      · subst hp
        have hnow : 0 < ((s.looksOf d p').map Recipient.endpoint).count (.endpoint e) :=
          List.count_pos_iff.2 (List.mem_map_of_mem (he.mem_looksOf h.sound))
        rw [List.count_cons_self]
        omega
      · rw [List.count_cons_of_ne (Ne.symm hp)]
        omega
    | @turned d' htrack _ hoffered hmid hpending hturns =>
      have hpending' : (s.deliver (some d')).pending d' = s.pending d := hpending
      have hturns' : (s.deliver (some d')).turns d' < s.turns d := hturns
      obtain ⟨l, s', hrun, hcount⟩ := ih _ (by rw [hpending']; omega) hmid rfl
      have hall := Delivering.step hsome hstep hrun
      refine ⟨_, s', hall, fun p e he => ?_⟩
      rw [← hpending', List.filterMap_append, h.records hstep, hoffered, List.map_nil,
        List.nil_append]
      refine hcount p e ?_
      rw [htrack]
      exact he
    | ended hoffered hpending =>
      refine ⟨_, _, Delivering.step hsome hstep (.done rfl), fun p e _ => ?_⟩
      rw [hpending]
      exact Nat.zero_le _

end Held

/-! ## Which deliveries offer a frame once -/

section Once

variable {s : Server} {d : Delivery} {p t : ℕ} {S : Session}

/-- A delivery comes to a session as often as its entry is listed. -/
theorem Sound.count_later (h : Sound s) (hS : s.sessions p = some S) (t : ℕ) :
    (s.later t 0).count p = (s.tracks t).entrylist.count S.liventry := by
  unfold Server.later
  rw [List.drop_zero]
  induction (s.tracks t).entrylist with
  | nil => rfl
  | cons n ns ih =>
    rw [List.flatMap_cons, List.count_append, ih]
    by_cases hn : n = S.liventry
    · have hmem : p ∈ (s.entries n).sessList := (h.entry_mem n p).2 ⟨S, hS, hn.symm⟩
      rw [List.count_eq_one_of_mem (h.entry_nodup n) hmem, hn, List.count_cons_self, Nat.add_comm]
    · have hnot : p ∉ (s.entries n).sessList := by
        intro hmem
        obtain ⟨S', hS', hentry⟩ := (h.entry_mem n p).1 hmem
        cases hS.symm.trans hS'
        exact hn hentry.symm
      rw [List.count_eq_zero_of_not_mem hnot, List.count_cons_of_ne hn, Nat.zero_add]

/-- From the start of a delivery: each endpoint is offered the frame once exactly if its
`live_source` is listed once and no slot in front of it keeps the loop from getting there.

**Proof sketch.** How often an endpoint is offered the frame is how often its session has its turn,
if the session is looked at for it (`Delivering.count`). Forwards: the endpoint in the first slot
with the track is looked at in every turn, so that one offer means one turn; and the endpoint in the
slot `j` is looked at only if those before it are passed over. Backwards: one turn and one look make
one offer, and every offer is to an endpoint on the track. -/
theorem Server.Midway.once_iff (h : s.Midway d) (hi : d.i = 0) (hrest : d.rest = none) :
    s.Once false d.track ↔ ∀ p S j e, s.sessions p = some S → S.playing = true →
      (s.entries S.liventry).tracklist j = some d.track → S.ep j = some e →
      (s.tracks d.track).entrylist.count S.liventry = 1 ∧
        ∀ i < j, (s.entries S.liventry).tracklist i = some d.track →
          ∃ e', S.ep i = some e' ∧ s.gated d.key e' = true := by
  have hpending : ∀ {p S}, s.sessions p = some S →
      (s.pending d).count p = (s.tracks d.track).entrylist.count S.liventry := by
    intro p S hS
    unfold Server.pending
    rw [hrest, hi]
    exact h.sound.count_later hS d.track
  constructor
  · rintro ⟨-, honce⟩ p S j e hS hplay ht he
    obtain ⟨l, s', hrun, hfirst⟩ := h.delivers
    obtain ⟨hcount, -⟩ := honce l s' hrun
    have hone := hcount p e ⟨S, j, hS, hplay, ht, he⟩
    obtain ⟨q, hq, e', heq, hreach⟩ :=
      hrun.inReach d h (.endpoint e) (List.count_pos_iff.1 (Nat.lt_of_lt_of_eq Nat.one_pos hone.symm))
    obtain rfl := Recipient.endpoint.inj heq
    obtain rfl := h.sound.holds_inj ⟨S, j, hS, he⟩ hreach.hearsFrom.holds
    obtain ⟨S', j', hS', -, -, he', hslots⟩ := hreach
    cases hS.symm.trans hS'
    obtain rfl := h.sound.uniq p S j j' e hS he he'
    -- The endpoint on the first slot with the track is looked at whenever the session is visited.
    have hslot : ∃ k, (s.entries S.liventry).tracklist k = some d.track := ⟨j, ht⟩
    obtain ⟨k, hk, hmin⟩ : ∃ k, (s.entries S.liventry).tracklist k = some d.track ∧
        ∀ i < k, (s.entries S.liventry).tracklist i ≠ some d.track :=
      ⟨Nat.find hslot, Nat.find_spec hslot, fun i hi => Nat.find_min hslot hi⟩
    have hkj : k ≤ j := by
      by_contra hjk
      exact hmin j (not_le.1 hjk) ht
    have hsome : S.ep k ≠ none := by
      rcases hkj.eq_or_lt with rfl | hlt
      · rw [he]
        exact Option.some_ne_none e
      · exact hslots k hlt hk
    obtain ⟨e₀, he₀⟩ := Option.ne_none_iff_exists'.1 hsome
    have hle := hfirst p e₀ ⟨S, k, hS, hplay, hk, he₀, hmin⟩
    have hone₀ := hcount p e₀ ⟨S, k, hS, hplay, hk, he₀⟩
    have hpos := List.count_pos_iff.2 hq
    have hvisits : (s.pending d).count p = 1 := by omega
    refine ⟨(hpending hS).symm.trans hvisits, fun i hij hti => ?_⟩
    rw [hrun.count d h p e ⟨S, j, hS, he⟩ hvisits] at hone
    have hlook : e ∈ s.looksOf d p := List.count_pos_iff.1 (by omega)
    rw [Server.looksOf_eq hS] at hlook
    obtain ⟨-, j', -, -, he', hbefore⟩ := LiveEntry.of_mem_looks List.pairwise_lt_range hlook
    obtain rfl := h.sound.uniq p S j j' e hS he he'
    exact hbefore i (h.sound.slot_lt hti) hij hti
  · intro hall
    obtain ⟨l, s', hrun, -⟩ := h.delivers
    refine ⟨⟨l, s', hrun⟩, fun l s' hrun => ⟨fun p e hears => ?_, fun o hmem => ?_⟩⟩
    · obtain ⟨S, j, hS, hplay, ht, he⟩ := hears
      obtain ⟨hentry, hbefore⟩ := hall p S j e hS hplay ht he
      rw [hrun.count d h p e ⟨S, j, hS, he⟩ ((hpending hS).trans hentry)]
      apply List.count_eq_one_of_mem (h.sound.nodup_looksOf d p)
      rw [Server.looksOf_eq hS]
      exact LiveEntry.mem_looks List.pairwise_lt_range hplay (h.sound.slot_lt ht) ht he hbefore
    · obtain ⟨p, -, e, rfl, hreach⟩ := hrun.inReach d h o hmem
      exact ⟨p, e, rfl, hreach.hearsFrom⟩

/-- A delivery through `ep_mc` comes to no session. -/
theorem Server.Once.null {mc : Bool} (h : s.Once mc d.track) (hd : s.delivery = some d)
    (hi : d.i = 0) (hrest : d.rest = none) (hlist : (s.tracks d.track).entrylist ≠ []) :
    (s.tracks d.track).rtp = some .null := by
  obtain ⟨⟨l, s', hrun⟩, honce⟩ := h
  obtain ⟨-, hsessions⟩ := honce l s' hrun
  have hto : ∀ {d'}, s.delivery = some d' → d = d' := fun hd' =>
    Option.some.inj (hd.symm.trans hd')
  cases hrun with
  | done hnone =>
    rw [hd] at hnone
    cases hnone
  | step _ hstep _ =>
    cases continued_of_step hstep with
    | idle hnone =>
      rw [hd] at hnone
      cases hnone
    | left hd' hl | passed hd' hl | offered hd' hl =>
      obtain rfl := hto hd'
      rw [hrest] at hl
      cases hl
    | ended hd' _ hn =>
      obtain rfl := hto hd'
      rw [hi, List.getElem?_eq_none_iff, Nat.le_zero, List.length_eq_zero_iff] at hn
      exact absurd hn hlist
    | @multicast _ n e _ _ s₂ _ _ _ _ hE hsent =>
      obtain ⟨l', hlog, -⟩ := hsent.records hE
      have hdrop : (s₂.deliver none).log.drop s.log.length = .shared e :: l' := by
        dsimp only [Server.deliver]
        rw [hlog, List.append_assoc, List.drop_left]
        rfl
      obtain ⟨-, rfl⟩ := continueFrame_of_step hstep
      obtain ⟨p, e', hoffer, -⟩ := hsessions (.epMc e) (by simp [hdrop, Event.recipient])
      cases hoffer
    | entered hd' _ _ hrtp =>
      obtain rfl := hto hd'
      exact hrtp

/-- The deliveries that offer the frame once to each endpoint. -/
theorem Sound.once_iff (h : Sound s) (hd : s.delivery = some d) (hi : d.i = 0)
    (hrest : d.rest = none) : s.Once false d.track ↔ s.FansOut d := by
  by_cases hrtp : (s.tracks d.track).entrylist ≠ [] → (s.tracks d.track).rtp = some .null
  · have hmid : s.Midway d := ⟨h, hd, hrtp, fun l hl => by rw [hrest] at hl; cases hl⟩
    exact (hmid.once_iff hi hrest).trans ⟨fun hall => ⟨hrtp, hall⟩, fun hall => hall.2⟩
  · exact ⟨fun honce => absurd (honce.null hd hi hrest) hrtp, fun hout => absurd hout.1 hrtp⟩

/-- **To whom a frame is offered**: in every state of every run of a unicast server, a delivery that
begins offers the frame once to each endpoint of a playing session on the track, and to no other, if
and only if the entries and slots of the track are in order. -/
theorem fannedOut_iff {blocks : List (List ConfigLine)}
    (h : (liveMachine false blocks).Reachable Machine.anyStep s) (hd : s.delivery = some d)
    (hi : d.i = 0) (hrest : d.rest = none) : s.Once false d.track ↔ s.FansOut d :=
  (sound_run h).once_iff hd hi hrest

end Once

/-! ## A client and a frame -/

/-- A frame begins for the track 0, and the session 1 plays with the endpoint 2. -/
def Server.begun (s : Server) (entrylist : List ℕ) (second : Option ℕ) : Bool :=
  decide (s.delivery.map (fun d => (d.track, d.i, d.rest.isNone)) = some (0, 0, true)) &&
    decide ((s.sessions 1).map (fun S => (S.liventry, S.playing, S.ep 0)) = some (0, true, some 2)) &&
    decide (s.next = 3) && (s.sessions 0).isNone && (s.sessions 2).isNone &&
    decide ((s.tracks 0).entrylist = entrylist) && decide ((s.tracks 0).rtp = some .null) &&
    decide ((s.entries 0).tracklist 0 = some 0) && decide ((s.entries 0).tracklist 1 = second)

section Begun

variable {s : Server} {entrylist : List ℕ} {second : Option ℕ}

/-- What a run leaves that came to the start of a delivery. -/
theorem Sound.begun (hs : Sound s) (h : s.begun entrylist second = true) : ∃ d S,
    s.delivery = some d ∧ d.track = 0 ∧ d.i = 0 ∧ d.rest = none ∧ s.sessions 1 = some S ∧
    S.liventry = 0 ∧ S.playing = true ∧ S.ep 0 = some 2 ∧
    (∀ p S', s.sessions p = some S' → p = 1) ∧ (s.tracks 0).entrylist = entrylist ∧
    (s.tracks 0).rtp = some .null ∧ (s.entries 0).tracklist 0 = some 0 ∧
    (s.entries 0).tracklist 1 = second := by
  simp only [Server.begun, Bool.and_eq_true, decide_eq_true_eq, Option.isNone_iff_eq_none,
    Option.map_eq_some_iff, Prod.mk.injEq] at h
  obtain ⟨⟨⟨⟨⟨⟨⟨⟨⟨d, hd, htrack, hi, hrest⟩, S, hS, hentry, hplay, he⟩, hnext⟩, h₀⟩, h₂⟩,
    hentrylist⟩, hrtp⟩, hfirst⟩, hsecond⟩ := h
  refine ⟨d, S, hd, htrack, hi, hrest, hS, hentry, hplay, he, fun p S' hS' => ?_, hentrylist, hrtp,
    hfirst, hsecond⟩
  have hp : p < 3 := hnext ▸ hs.session_lt p S' hS'
  obtain rfl | rfl | rfl : p = 0 ∨ p = 1 ∨ p = 2 := by omega
  · rw [h₀] at hS'
    cases hS'
  · rfl
  · rw [h₂] at hS'
    cases hS'

end Begun

/-- A frame for a client that plays the track of `openBlocks`. -/
theorem fannedOut_iff_play : ∃ s, (liveMachine false openBlocks).Run Machine.anyStep
    [.accept 3, .read 0 setupUdpText (askEnv setupUdp), .read 0 playUdpText (askEnv playUdp),
      .frame 0 true (fun _ => [100]) true] [] s ∧ s.HearsFrom 0 1 2 ∧ s.Once false 0 := by
  obtain ⟨s, hrun, hs⟩ := Machine.Run.of_exec (M := liveMachine false openBlocks)
    (G := Machine.anyStep) (fun s => s.begun [0] none) openServer_init
    (show ((liveMachine false openBlocks).exec _ (configured openBlocks)
      [.accept 3, .read 0 setupUdpText (askEnv setupUdp), .read 0 playUdpText (askEnv playUdp),
        .frame 0 true (fun _ => [100]) true]).map _ = some ([], true) by decide +kernel)
  have hsound : Sound s := sound_run ⟨_, _, hrun⟩
  obtain ⟨d, S, hd, htrack, hi, hrest, hS, hentry, hplay, he, honly, hentrylist, hrtp, hfirst,
    hsecond⟩ := hsound.begun hs
  refine ⟨s, hrun, ⟨S, 0, hS, hplay, by rw [hentry, hfirst], he⟩, ?_⟩
  rw [← htrack]
  refine (fannedOut_iff ⟨_, _, hrun⟩ hd hi hrest).2 ⟨fun _ => htrack ▸ hrtp, ?_⟩
  intro p S' j e hS' _ ht _
  obtain rfl := honly p S' hS'
  cases hS.symm.trans hS'
  rw [hentry, htrack] at ht ⊢
  refine ⟨by rw [hentrylist]; rfl, fun i hij hti => ?_⟩
  have hj : j < maxTracks := List.mem_range.1 (hsound.slot_lt ht)
  obtain rfl : j = 1 := by
    unfold maxTracks at hj
    omega
  rw [hsecond] at ht
  cases ht

/-- The track twice, with a location that anybody may see. -/
def twiceBlocks : List (List ConfigLine) :=
  [[.track ⟨str "cam", true, some .null⟩, .track ⟨str "cam", true, some .null⟩,
    .path (str "/cam") [] [] []]]

/-- The client sets up one of the two, and the frame is sent to it twice. -/
theorem fannedOut_twice : ∃ s s', (liveMachine false twiceBlocks).Run Machine.anyStep
    [.accept 3, .read 0 setupUdpText (askEnv setupUdp), .read 0 playUdpText (askEnv playUdp),
      .frame 0 true (fun _ => [100]) true] [] s ∧ s.HearsFrom 0 1 2 ∧ ¬ s.Once false 0 ∧
    (liveMachine false twiceBlocks).Run Machine.anyStep
      ([.accept 3, .read 0 setupUdpText (askEnv setupUdp), .read 0 playUdpText (askEnv playUdp),
        .frame 0 true (fun _ => [100]) true] ++ List.replicate 7 (.deliver sendingAll))
      [.keyFrame 2 1 [true], .keyFrame 2 1 [true]] s' ∧ s'.delivery.isNone := by
  have hinit : (liveMachine false twiceBlocks).Init (configured twiceBlocks) :=
    configured_init false (by decide +kernel)
  obtain ⟨s, hrun, hs⟩ := Machine.Run.of_exec (M := liveMachine false twiceBlocks)
    (G := Machine.anyStep) (fun s => s.begun [0, 0] (some 0)) hinit
    (show ((liveMachine false twiceBlocks).exec _ (configured twiceBlocks)
      [.accept 3, .read 0 setupUdpText (askEnv setupUdp), .read 0 playUdpText (askEnv playUdp),
        .frame 0 true (fun _ => [100]) true]).map _ = some ([], true) by decide +kernel)
  obtain ⟨s', hrun', hs'⟩ := Machine.Run.of_exec (M := liveMachine false twiceBlocks)
    (G := Machine.anyStep) (fun s => s.delivery.isNone) hinit
    (show ((liveMachine false twiceBlocks).exec _ (configured twiceBlocks)
      ([.accept 3, .read 0 setupUdpText (askEnv setupUdp), .read 0 playUdpText (askEnv playUdp),
        .frame 0 true (fun _ => [100]) true] ++ List.replicate 7 (.deliver sendingAll))).map _ =
      some ([.keyFrame 2 1 [true], .keyFrame 2 1 [true]], true) by decide +kernel)
  have hsound : Sound s := sound_run ⟨_, _, hrun⟩
  obtain ⟨d, S, hd, htrack, hi, hrest, hS, hentry, hplay, he, -, hentrylist, -, hfirst, -⟩ :=
    hsound.begun hs
  have hslot : (s.entries S.liventry).tracklist 0 = some d.track := by rw [hentry, htrack, hfirst]
  refine ⟨s, s', hrun, ⟨S, 0, hS, hplay, htrack ▸ hslot, he⟩, fun honce => ?_, hrun', hs'⟩
  rw [← htrack] at honce
  have hout := (hsound.once_iff hd hi hrest).1 honce
  have hcount := (hout.2 1 S 0 2 hS hplay hslot he).1
  rw [htrack, hentrylist, hentry] at hcount
  cases hcount

end Spook
