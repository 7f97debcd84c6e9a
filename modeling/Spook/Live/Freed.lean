import Spook.Live.Losing
import Spook.Live.Offered

set_option relaxedAutoImplicit false
set_option autoImplicit false

/-!
# The endpoints that an event frees

An endpoint is freed by a TEARDOWN of its session or its track, with the connection that it is
interleaved on, when its socket cannot be read, or when `rtcp_send` gives its client up.

## Main definitions

* `Spook.Ended` — a connection is gone.
* `Spook.Conn.WriteDrops`, `ReadDrops`, `Server.Drops` — an event ends a connection.

## Main results

* `Spook.TornDown.freed_iff`, `Ended.freed_iff` — teardowns and the end of a connection.
* `Spook.wp_connWrite_ended`, `wp_readChunk_leaves` — writes, and reads without a request.
-/

namespace Spook

/-! ## Teardowns -/

section Teardown

variable {s s' : Server} {p e : ℕ} {ep : Option ℕ} {S : Session} {E : Endpoint}

/-- A teardown leaves the other sessions as they are. -/
theorem TornDown.others (h : TornDown false p ep s s') {p' : ℕ} (hp : p' ≠ p) :
    s'.sessions p' = s.sessions p' := by
  cases h with
  | kept hempty _ => exact hempty.others hp
  | closed hempty _ =>
    dsimp only [Server.closed]
    rw [Function.update_of_ne hp, hempty.others hp]

/-- **A teardown** frees the endpoints of the session, or the one that it is for. -/
theorem TornDown.freed_iff (hs : Sound s) (h : TornDown false p ep s s')
    (hS : s.sessions p = some S) (hE : s.endpoints e = some E) :
    s'.endpoints e = none ↔ (∃ j, S.ep j = some e) ∧ (ep = none ∨ ep = some e) := by
  have hs' := hs.steps h.steps
  obtain ⟨p', S', j, hp', hS', he⟩ := hs.covered e E hE
  constructor
  · intro hgone
    obtain ⟨p₁, ⟨e₁, heq, hep⟩ | heq⟩ := h.steps.removed_mem hE hgone
    · cases heq
      refine ⟨?_, hep⟩
      by_cases hp : p' = p
      · subst hp
        cases hS.symm.trans hS'
        exact ⟨j, he⟩
      · -- the endpoint of another session stays
        obtain ⟨E', hE', -⟩ := hs'.live p' S' j e ((h.others hp).trans hS') he
        rw [hgone] at hE'
        cases hE'
    · cases heq
  · rintro ⟨⟨i, hi⟩, hep⟩
    obtain ⟨E', hE', hp⟩ := hs.live p S i e hS hi
    cases hE.symm.trans hE'
    rcases hep with rfl | rfl
    · cases h with
      | kept _ hnot => exact absurd (.inl rfl) hnot
      | @closed _ S₁ s₁ hempty hnone =>
        by_contra hsome
        obtain ⟨E₁, hE₁⟩ := Option.ne_none_iff_exists'.1 hsome
        obtain ⟨p₁, S₂, k, hp₁, hS₂, hk⟩ := hs'.covered e E₁ hE₁
        by_cases heq : p₁ = p
        · dsimp only [Server.closed] at hS₂
          rw [heq, Function.update_self] at hS₂
          cases hS₂
        · have hdown : TornDown false p none s _ := .closed hempty hnone
          rw [hdown.others heq] at hS₂
          obtain ⟨E₂, hE₂, hp₂⟩ := hs.live p₁ S₂ k e hS₂ hk
          cases hE.symm.trans hE₂
          exact heq (Option.some.inj (hp₂.symm.trans hp))
    · exact hs.not_endpoint h hE hp

/-- What `rtcp_send` or a socket does to an endpoint. -/
theorem EndpointDown.freed_iff (hs : Sound s) {e' : ℕ} {E' : Endpoint}
    (h : EndpointDown false e' E' s s') (hE' : s.endpoints e' = some E')
    (hE : s.endpoints e = some E) : s'.endpoints e = none ↔ e = e' := by
  obtain ⟨p, S, j, hp, hS, he⟩ := hs.covered e' E' hE'
  rcases h with ⟨hnone, -⟩ | ⟨p', hp', hdown⟩
  · rw [hnone] at hp
    cases hp
  · cases hp.symm.trans hp'
    rw [hdown.freed_iff hs hS hE]
    constructor
    · rintro ⟨-, hnone | heq⟩
      · cases hnone
      · exact (Option.some.inj heq).symm
    · rintro rfl
      exact ⟨⟨j, he⟩, .inr rfl⟩

end Teardown

/-! ## Connections -/

/-- The end of the connection `c` makes a change. -/
def Kind.Ends (s : Server) (c : ℕ) : Kind → Prop
  | .removed _ e => ∃ E a b, s.endpoints e = some E ∧ E.trans = .inter c a b
  | .closed _ | .dropped => True
  | .opened | .added _ _ | .connected _ | .registered _ | .played _ | .woken | .readied
  | .delivering | .logged | .flagged _ | .counted _ | .noted _ | .accepted => False

/-- The connection `c` is gone. -/
structure Ended (c : ℕ) (s s' : Server) : Prop where
  steps : Steps false {k | k.Ends s c} s s'
  endpoints : ∀ e E, s'.endpoints e = some E → s.endpoints e = some E
  conns : s'.conns c = none
  paired : Paired s'

section Drop

variable {s s' : Server} {c e : ℕ} {E : Endpoint}

/-- **The end of a connection.** -/
theorem wp_dropConn_ended (hs : Sound s) (hpaired : Paired s) :
    wp (dropConn false c) (fun _ s' => Ended c s s') (fun _ => True) s := by
  have hrefl : Steps false {k | k.Ends s c} s s := .refl
  have hdrop : wp (dropConn false c) (fun _ s' => Steps false {k | k.Ends s c} s s' ∧
      (∀ e E, s'.endpoints e = some E → s.endpoints e = some E) ∧ s'.conns c = none)
      (fun _ => True) s := by
    refine (wp_dropConn (J := fun s' => Steps false {k | k.Ends s c} s s' ∧
      ∀ e E, s'.endpoints e = some E → s.endpoints e = some E) (fun C s' _ _ ha => ?_)
      fun C _ _ => ?_).imp fun _ s' h => ?_
    · exact ⟨.alike ha, fun e E hE => ha.endpoints ▸ hE⟩
    · unfold rtspConnDisconnect
      rw [List.range_eq_range']
      refine (keeps_disconnectChannels (I := fun _ s' => (Sound s' ∧ Paired s') ∧
        Steps false {k | k.Ends s c} s s' ∧
        ∀ e E, s'.endpoints e = some E → s.endpoints e = some E)
        ⟨⟨hs, hpaired⟩, hrefl, fun _ _ hE => hE⟩ (fun _ _ _ _ h _ _ _ => h) ?_).imp fun _ _ h => h.2
      intro k s₁ C ichan e E p s₂ h hC hp hk hE hsession hdown
      obtain ⟨⟨hs₁, hpaired₁⟩, hsteps, hkept⟩ := h
      refine ⟨hdown.paired ⟨hs₁, hpaired₁⟩, hsteps.trans (hdown.steps.mono ?_),
        fun e' E' hE' => hkept e' E' (hdown.endpoints hE')⟩
      rintro k (⟨e', rfl, hnone | heq⟩ | rfl)
      · cases hnone
      · obtain rfl := Option.some.inj heq
        obtain ⟨E', a, b, hE', htrans, -⟩ := hpaired₁.occupied c C ichan k e hC hp (by rw [hk])
        exact ⟨E', a, b, hkept e E' hE', htrans⟩
      · trivial
    · obtain ⟨s₁, ⟨hsteps, hkept⟩, rfl⟩ := h
      have hend : Kind.dropped.Ends s c := trivial
      exact ⟨hsteps.trans (Steps.one hend (.dropped c)), hkept, Function.update_self ..⟩
  refine (hdrop.and (paired_drop ⟨hs, hpaired⟩)).mono (fun _ s' h => ?_) fun _ _ => trivial
  obtain ⟨⟨hsteps, hkept, hconns⟩, -, hpaired'⟩ := h
  exact ⟨hsteps, hkept, hconns, hpaired'⟩

/-- **The end of a connection** frees what is interleaved on it. -/
theorem Ended.freed_iff (h : Ended c s s') (hE : s.endpoints e = some E) :
    s'.endpoints e = none ↔ ∃ a b, E.trans = .inter c a b := by
  constructor
  · intro hgone
    obtain ⟨p, E', a, b, hE', htrans⟩ := h.steps.removed_mem hE hgone
    cases hE.symm.trans hE'
    exact ⟨a, b, htrans⟩
  · rintro ⟨a, b, htrans⟩
    by_contra hsome
    obtain ⟨E', hE'⟩ := Option.ne_none_iff_exists'.1 hsome
    cases hE.symm.trans (h.endpoints e E' hE')
    obtain ⟨-, -, -, C, -, hC, -⟩ := h.paired.occupies e E c a b hE' htrans
    rw [h.conns] at hC
    cases hC

end Drop

/-! ## Writing and reading -/

/-- A write ends the connection: nothing is left to send and it is to be dropped, or a `write`
fails. -/
def Conn.WriteDrops : Conn → List WriteResult → Prop
  | C, [] => C.sendBufR = C.sendBufW ∧ C.dropAfter = true
  | C, r :: rs =>
    if C.sendBufR = C.sendBufW then C.dropAfter = true
    else
      match r with
      | .failed => True
      | .sent n => min n C.writeLen = 0 ∨
        WriteDrops { C with sendBufR := (C.sendBufR + min n C.writeLen) % sendBufSize } rs

/-- A read ends the connection: it fills the buffer, or completes what is neither a request that can
be read nor a packet. -/
def Conn.ReadDrops (C : Conn) (d : Bytes) (env : ReadEnv) : Prop :=
  (C.receive d).reqBuf.length = reqBufSize - 1 ∨ C.parses d ∧
    ((settle (C.receive d).proto (C.receive d).reqBuf).2 = .bad ∨
      (settle (C.receive d).proto (C.receive d).reqBuf).2 = .request ∧
        readRequest env.blank (C.receive d).reqBuf = .ok none)

/-- The event ends the connection `c`. -/
def Server.Drops (s : Server) (c : ℕ) : ServerAct → Prop
  | .close c' => c' = c
  | .write c' rs => c' = c ∧ ∃ C, s.conns c = some C ∧ C.WriteDrops rs
  | .read c' d env => c' = c ∧ ∃ C, s.conns c = some C ∧ C.ReadDrops d env
  | .accept _ | .closeSecond _ | .jpeg _ _ | .frame _ _ _ _ | .deliver _ | .timer _ _ _
  | .udp _ _ _ => False

/-- What a read leaves that hands over no request. -/
inductive ReadLeaves (c : ℕ) (C : Conn) (d : Bytes) (env : ReadEnv) (s : Server) : Server → Prop
  | quiet {s' : Server} : ¬ C.ReadDrops d env → Steps false {k | ∃ e, k = .noted e} s s' →
      ReadLeaves c C d env s s'
  /-- What is no RTSP is not asked whether it is a request. -/
  | ended {s₁ s' : Server} : C.ReadDrops d env ∨ C.proto ≠ .rtsp → Alike s s₁ → Ended c s₁ s' →
      ReadLeaves c C d env s s'

section Transfer

variable {s : Server} {c : ℕ} {C : Conn}

/-- What is written ends the connection exactly where `WriteDrops` says.

**Proof sketch.** By induction on the results of the writes. The loop ends when nothing is queued,
where the connection is dropped if that was asked for, or at a write that fails or takes nothing;
what a write takes moves the read index, which is no matter to the live sessions. -/
theorem wp_connWrite_ended (rs : List WriteResult) (hs : Sound s) (hpaired : Paired s)
    (hC : s.conns c = some C) :
    wp (connWrite false c rs) (fun _ s' => ¬ C.WriteDrops rs ∧ Alike s s' ∨
      C.WriteDrops rs ∧ ∃ s₁, Alike s s₁ ∧ Ended c s₁ s') (fun _ => True) s := by
  have hdrop : ∀ rs, C.WriteDrops rs → wp (dropConn false c) (fun _ s' =>
      ¬ C.WriteDrops rs ∧ Alike s s' ∨ C.WriteDrops rs ∧ ∃ s₁, Alike s s₁ ∧ Ended c s₁ s')
      (fun _ => True) s := fun rs hdrops =>
    (wp_dropConn_ended hs hpaired).imp fun _ s' h => .inr ⟨hdrops, s, refl s, h⟩
  induction rs generalizing s C with
  | nil =>
    unfold connWrite
    rw [wp_bind, wp_getConn]
    refine ⟨fun C' hC' => ?_, fun _ => trivial⟩
    cases hC.symm.trans hC'
    rw [wp_ite]
    exact ⟨fun h => hdrop [] h, fun h => .inl ⟨h, refl s⟩⟩
  | cons r rs ih =>
    unfold connWrite
    rw [wp_bind, wp_getConn]
    refine ⟨fun C' hC' => ?_, fun _ => trivial⟩
    cases hC.symm.trans hC'
    rw [wp_ite, wp_ite]
    refine ⟨fun hempty => ⟨fun h => hdrop (r :: rs) ?_, fun h => .inl ⟨?_, refl s⟩⟩, fun hfull => ?_⟩
    · unfold Conn.WriteDrops
      rwa [if_pos hempty]
    · unfold Conn.WriteDrops
      rwa [if_pos hempty]
    cases r with
    | failed =>
      refine hdrop (.failed :: rs) ?_
      unfold Conn.WriteDrops
      rw [if_neg hfull]
      trivial
    | sent n =>
      dsimp only
      rw [wp_ite]
      refine ⟨fun hnone => hdrop (.sent n :: rs) ?_, fun hsome => ?_⟩
      · unfold Conn.WriteDrops
        rw [if_neg hfull]
        exact .inl hnone
      -- the rest of the buffer
      have hrest : ∀ C', C' = { C with sendBufR := (C.sendBufR + min n C.writeLen) % sendBufSize } →
          (C.WriteDrops (.sent n :: rs) ↔ C'.WriteDrops rs) := by
        rintro _ rfl
        conv_lhs => unfold Conn.WriteDrops
        rw [if_neg hfull]
        exact or_iff_right hsome
      rw [wp_bind, wp_modifyConn]
      refine ⟨fun C' hC' => ?_, fun _ => trivial⟩
      cases hC.symm.trans hC'
      have halike : Alike s (s.setConn c
          { C with sendBufR := (C.sendBufR + min n C.writeLen) % sendBufSize }) :=
        alike_setConn hC id rfl
      have hs₁ := hs.alike halike
      have hpaired₁ := hpaired.alike halike
      rw [hrest _ rfl]
      refine (ih hs₁ hpaired₁ (s.setConn_conns_self c _) fun rs hdrops => ?_).imp fun _ s' h => ?_
      · exact (wp_dropConn_ended hs₁ hpaired₁).imp fun _ s' h => .inr ⟨hdrops, _, refl _, h⟩
      · rcases h with ⟨hno, h⟩ | ⟨hyes, s₁, h, hended⟩
        · exact .inl ⟨hno, halike.trans h⟩
        · exact .inr ⟨hyes, s₁, halike.trans h, hended⟩

/-- **A read** that hands over no request.

**Proof sketch.** By what the read makes of the buffers: a full buffer, the middle of a group of
base64, an incomplete message, an interleaved frame, or a request. A request that cannot be read
ends the connection, as a full buffer does. One that can be read would have been handed over on an
RTSP connection; on another it is answered over HTTP, which leaves the live sessions alone. -/
theorem wp_readChunk_leaves {d : Bytes} {env : ReadEnv} (hs : Sound s) (hpaired : Paired s)
    (hC : s.conns c = some C) (hq : C.rtspRequest d env = none) :
    wp (readChunk (connOps false c env) d) (fun _ s' => ReadLeaves c C d env s s') (fun _ => True)
      s := by
  have hsettled := alike_settled hC d
  have hC' := s.setConn_conns_self c (C.settled d)
  have hreceived : Alike s (s.setConn c (C.receive d)) := by
    obtain ⟨buf, n, hreceive, -⟩ := C.receive_eq d
    refine alike_setConn hC (fun hp => ?_) ?_ <;> rw [hreceive]
    exact hp
  -- the connection is ended behind what leaves the live sessions alone
  have hend : ∀ {s₁ : Server}, Alike s s₁ → C.ReadDrops d env ∨ C.proto ≠ .rtsp →
      wp (dropConn false c) (fun _ s' => ReadLeaves c C d env s s') (fun _ => True) s₁ :=
    fun halike hdrops => (wp_dropConn_ended (hs.alike halike) (hpaired.alike halike)).imp
      fun _ s' h => .ended hdrops halike h
  have hquiet : ∀ {s' : Server}, ¬ C.ReadDrops d env → Alike s s' → ReadLeaves c C d env s s' :=
    fun hno halike => .quiet hno (.alike halike)
  have hclear : ∀ {s₁ : Server}, ¬ C.ReadDrops d env → Steps false {k | ∃ e, k = .noted e} s s₁ →
      wp (modifyConn c fun C => { C with reqBuf := [] }) (fun _ s' => ReadLeaves c C d env s s')
        (fun _ => True) s₁ := fun hno h =>
    (wp_modifyConn_alike (f := fun C => { C with reqBuf := [] }) fun C _ => ⟨id, .inl rfl⟩).imp
      fun _ s' h' => ReadLeaves.quiet hno (h.trans (Steps.alike h'.2))
  rw [wp_readChunk hC]
  split_ifs with hfull h64
  · exact hend hreceived (.inl (.inl hfull))
  · refine hquiet ?_ hreceived
    rintro (h | ⟨hparses, -⟩)
    · exact hfull h
    · exact hparses.2 h64
  have hparses : C.parses d := ⟨hfull, h64⟩
  have hno : (settle (C.receive d).proto (C.receive d).reqBuf).2 ≠ .bad →
      ((settle (C.receive d).proto (C.receive d).reqBuf).2 = .request →
        readRequest env.blank (C.receive d).reqBuf ≠ .ok none) → ¬ C.ReadDrops d env := by
    rintro hbad hrequest (h | ⟨-, h | ⟨h, hread⟩⟩)
    · exact hfull h
    · exact hbad h
    · exact hrequest h hread
  cases ha : (settle (C.receive d).proto (C.receive d).reqBuf).2 with
  | wait | detected p => exact hquiet (hno (by simp [ha]) (by simp [ha])) hsettled
  | bad => exact hend hsettled (.inl (.inr ⟨hparses, .inl ha⟩))
  | packet chan d' =>
    have hnot := hno (by simp [ha]) (by simp [ha])
    refine (wp_bind ..).2 ((wp_interleaveRecv false c chan _ env.now).imp fun _ s' h => hclear hnot ?_)
    rcases h with rfl | ⟨e, h⟩
    · exact .alike hsettled
    · exact (Steps.alike hsettled).trans (Steps.one ⟨e, rfl⟩ h)
  | request =>
    have hbuf : (C.settled d).reqBuf = (C.receive d).reqBuf := rfl
    unfold settledRound
    by_cases hread : readRequest env.blank (C.receive d).reqBuf = .ok none
    · have hminus : wp (handleRequest false c env) (fun ret s' => ret < 0 ∧
          s' = s.setConn c (C.settled d)) (fun _ => True) (s.setConn c (C.settled d)) := by
        unfold handleRequest
        rw [wp_bind, wp_getConn]
        refine ⟨fun C₁ hC₁ => ?_, fun _ => trivial⟩
        obtain rfl := Option.some.inj (hC'.symm.trans hC₁)
        rw [wp_bind, wp_lift, hbuf, hread]
        refine ⟨fun o ho => ?_, fun _ _ => trivial⟩
        cases ho
        exact ⟨by decide, rfl⟩
      refine hminus.seq fun ret s₁ h => ?_
      obtain ⟨hret, rfl⟩ := h
      rw [wp_ite]
      exact ⟨fun _ => hend hsettled (.inl (.inr ⟨hparses, .inr ⟨ha, hread⟩⟩)),
        fun h => absurd hret h⟩
    · have hnot := hno (by simp [ha]) fun _ => hread
      by_cases hproto : (C.settled d).proto = .rtsp
      · -- a request that can be read is handed over
        have hsettle : settle (C.receive d).proto (C.receive d).reqBuf = (.rtsp, .request) :=
          Prod.ext hproto ha
        unfold Conn.rtspRequest at hq
        rw [if_pos ⟨hparses, hsettle⟩] at hq
        unfold handleRequest
        rw [wp_bind, wp_bind, wp_getConn]
        refine ⟨fun C₁ hC₁ => ?_, fun _ => trivial⟩
        obtain rfl := Option.some.inj (hC'.symm.trans hC₁)
        rw [wp_bind, wp_lift, hbuf]
        refine ⟨fun o ho => ?_, fun _ _ => trivial⟩
        rw [ho] at hq hread
        cases o with
        | none => exact absurd rfl hread
        | some r => cases hq
      · refine (wp_handleRequest_notRtsp hC' hproto).seq fun ret s₁ h => ?_
        rw [wp_ite]
        refine ⟨fun _ => hend (hsettled.trans h) (.inr fun hrtsp => hproto ?_),
          fun _ => hclear hnot (.alike (hsettled.trans h))⟩
        have hreceive : (C.receive d).proto = .rtsp := by
          obtain ⟨buf, n, hreceive, -⟩ := C.receive_eq d
          rw [hreceive]
          exact hrtsp
        change (settle (C.receive d).proto (C.receive d).reqBuf).1 = .rtsp
        rw [← hreceive]
        exact settle_proto (by rw [hreceive]; decide) _

end Transfer

end Spook
