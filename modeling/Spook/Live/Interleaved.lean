import Spook.Live.Access
import Spook.Live.Sound

set_option relaxedAutoImplicit false
set_option autoImplicit false

/-!
# Interleaved channels

The channels of the connections and the transports of the endpoints point at each other. Setup,
teardown and the end of a connection, which tears down what its channels point at, keep the two in
step.

## Main definitions

* `Spook.Paired` — what the two tables know of each other.

## Main results

* `Spook.Paired.change`, `paired_drop` — every change keeps it, and the end of a connection.
* `Spook.channels_run` — the channels in every state of every run.
-/

namespace Spook

/-- The channels of the connections and the transports of the endpoints agree. -/
structure Paired (s : Server) : Prop where
  conn_lt : ∀ c C, s.conns c = some C → c < s.next
  proto : ∀ c C ichan, s.conns c = some C → C.protoState = .rtspConn ichan → C.proto = .rtsp
  /-- What a channel holds is an endpoint that names it. -/
  occupied : ∀ c C ichan k e, s.conns c = some C → C.protoState = .rtspConn ichan →
    (ichan k).ep = some e → ∃ E a b, s.endpoints e = some E ∧ E.trans = .inter c a b ∧
      (if (ichan k).rtcp then k = b else k = a)
  /-- An interleaved endpoint is in the channels that it names. -/
  occupies : ∀ e E c a b, s.endpoints e = some E → E.trans = .inter c a b →
    a < maxInterleaveChannels ∧ b < maxInterleaveChannels ∧ a ≠ b ∧
      ∃ C ichan, s.conns c = some C ∧ C.protoState = .rtspConn ichan ∧
        ichan a = ⟨some e, false⟩ ∧ ichan b = ⟨some e, true⟩

section Paired

variable {s s' : Server}

/-- What changes neither the connections nor the transports. -/
theorem Paired.of_trans (h : Paired s) (hconns : s'.conns = s.conns)
    (hold : ∀ e E', s'.endpoints e = some E' → (∃ E, s.endpoints e = some E ∧ E'.trans = E.trans) ∨
      ∀ c a b, E'.trans ≠ .inter c a b)
    (hkeep : ∀ e E c a b, s.endpoints e = some E → E.trans = .inter c a b →
      ∃ E', s'.endpoints e = some E' ∧ E'.trans = E.trans) (hnext : s.next ≤ s'.next) :
    Paired s' := by
  constructor
  · rw [hconns]
    exact fun c C hC => (h.conn_lt c C hC).trans_le hnext
  · rw [hconns]
    exact h.proto
  · rw [hconns]
    intro c C ichan k e hC hp he
    obtain ⟨E, a, b, hE, htrans, hk⟩ := h.occupied c C ichan k e hC hp he
    obtain ⟨E', hE', htrans'⟩ := hkeep e E c a b hE htrans
    exact ⟨E', a, b, hE', htrans'.trans htrans, hk⟩
  · rw [hconns]
    intro e E' c a b hE' htrans'
    rcases hold e E' hE' with ⟨E, hE, htrans⟩ | hno
    · exact h.occupies e E c a b hE (htrans.symm.trans htrans')
    · exact absurd htrans' (hno c a b)

/-- A server with the same connections and endpoints. -/
theorem Paired.of_same (h : Paired s) (hconns : s'.conns = s.conns)
    (hendpoints : s'.endpoints = s.endpoints) (hnext : s.next ≤ s'.next) : Paired s' := by
  apply h.of_trans hconns _ _ hnext
  · intro e E' hE'
    rw [hendpoints] at hE'
    exact .inl ⟨E', hE', rfl⟩
  · intro e E c a b hE _
    rw [hendpoints]
    exact ⟨E, hE, rfl⟩

/-- Connections that keep their channels. -/
theorem Paired.alike (h : Paired s) (ha : Alike s s') : Paired s' := by
  constructor
  · intro c C' hC'
    obtain ⟨C, hC, -⟩ := ha.conn' hC'
    exact (h.conn_lt c C hC).trans_le ha.next
  · intro c C' ichan hC' hp'
    obtain ⟨C, hC, hCC'⟩ := ha.conn' hC'
    rcases hCC'.protoState with heq | ⟨-, hno⟩
    · exact hCC'.proto (h.proto c C ichan hC (heq.symm.trans hp'))
    · rw [hp'] at hno
      exact absurd trivial hno
  · intro c C' ichan k e hC' hp' he
    obtain ⟨C, hC, hCC'⟩ := ha.conn' hC'
    rw [ha.endpoints]
    rcases hCC'.protoState with heq | ⟨-, hno⟩
    · exact h.occupied c C ichan k e hC (heq.symm.trans hp') he
    · rw [hp'] at hno
      exact absurd trivial hno
  · rw [ha.endpoints]
    intro e E c a b hE htrans
    obtain ⟨hla, hlb, hab, C, ichan, hC, hp, hia, hib⟩ := h.occupies e E c a b hE htrans
    obtain ⟨C', hC', hCC'⟩ := ha.conn hC
    refine ⟨hla, hlb, hab, C', ichan, hC', ?_, hia, hib⟩
    rcases hCC'.protoState with heq | ⟨hno, -⟩
    · exact heq.trans hp
    · exact absurd (h.proto c C ichan hC hp) hno

/-- An endpoint changes that is not connected, or stays connected as it is. -/
theorem Paired.onEndpoint (h : Paired s) {e : ℕ} {E E' : Endpoint}
    (hE : s.endpoints e = some E)
    (htrans : E'.trans = E.trans ∨ (∀ c a b, E.trans ≠ .inter c a b) ∧
      ∀ c a b, E'.trans ≠ .inter c a b) : Paired (s.onEndpoint e E') := by
  refine h.of_trans rfl (fun e₁ E₁ hE₁ => ?_) (fun e₁ E₁ c a b hE₁ hinter => ?_) le_rfl
  · dsimp only [Server.onEndpoint] at hE₁
    rw [Function.update_apply] at hE₁
    split_ifs at hE₁ with heq
    · cases hE₁
      rcases htrans with htrans | ⟨-, hno⟩
      · exact .inl ⟨E, heq ▸ hE, htrans⟩
      · exact .inr hno
    · exact .inl ⟨E₁, hE₁, rfl⟩
  · dsimp only [Server.onEndpoint]
    rw [Function.update_apply]
    split_ifs with heq
    · subst heq
      cases hE.symm.trans hE₁
      rcases htrans with htrans | ⟨hno, -⟩
      · exact ⟨E', rfl, htrans⟩
      · exact absurd hinter (hno c a b)
    · exact ⟨E₁, hE₁, rfl⟩

/-- A connection gets an endpoint on two of its channels.

**Proof sketch.** The connection `c` has the new endpoint on the channels `a` and `b`, and what it
had on the others; every other connection and endpoint is as it was. So each field is shown for `c`
and `e` by the value that was stored, and otherwise by the old field: the two channels were free,
hence no other endpoint loses its channel. -/
theorem Paired.interleaved (h : Paired s) {c e a b : ℕ} {C : Conn} {E : Endpoint}
    {ichan : ℕ → Ichan} (hE : s.endpoints e = some E) (htrans : E.trans = .none)
    (hC : s.conns c = some C) (hproto : C.proto = .rtsp)
    (hchannels : C.protoState.channels = some ichan) (ha : a < maxInterleaveChannels)
    (hb : b < maxInterleaveChannels) (hab : a ≠ b) (hna : (ichan a).ep = none)
    (hnb : (ichan b).ep = none) : Paired (s.interleaved c e a b C ichan E) := by
  -- another endpoint is in neither of the two channels
  have hother : ∀ e' E' c' a' b', s.endpoints e' = some E' → E'.trans = .inter c' a' b' →
      e' ≠ e := by
    rintro e' E' c' a' b' hE' htrans' rfl
    cases hE.symm.trans hE'
    rw [htrans] at htrans'
    cases htrans'
  have hstate : ∀ ichan', C.protoState = .rtspConn ichan' → ichan' = ichan := by
    intro ichan' hp
    rw [hp] at hchannels
    exact Option.some.inj hchannels
  constructor
  · intro c' C' hC'
    dsimp only [Server.interleaved] at hC' ⊢
    rw [Function.update_apply] at hC'
    split_ifs at hC' with hc
    · exact hc ▸ h.conn_lt c C hC
    · exact h.conn_lt c' C' hC'
  · intro c' C' ichan' hC' hp
    dsimp only [Server.interleaved] at hC'
    rw [Function.update_apply] at hC'
    split_ifs at hC' with hc
    · cases hC'
      exact hproto
    · exact h.proto c' C' ichan' hC' hp
  · intro c' C' ichan' k e' hC' hp he'
    dsimp only [Server.interleaved] at hC' ⊢
    have hold : ∀ C₀ ichan₀, s.conns c' = some C₀ → C₀.protoState = .rtspConn ichan₀ →
        ichan' k = ichan₀ k → ∃ E' a' b', Function.update s.endpoints e
          (some { E with trans := .inter c a b }) e' = some E' ∧ E'.trans = .inter c' a' b' ∧
          (if (ichan' k).rtcp then k = b' else k = a') := by
      intro C₀ ichan₀ hC₀ hp₀ hk
      rw [hk] at he' ⊢
      obtain ⟨E', a', b', hE', htrans', hk'⟩ := h.occupied c' C₀ ichan₀ k e' hC₀ hp₀ he'
      refine ⟨E', a', b', ?_, htrans', hk'⟩
      rw [Function.update_of_ne (hother e' E' c' a' b' hE' htrans'), hE']
    rw [Function.update_apply] at hC'
    split_ifs at hC' with hc
    · subst hc
      cases hC'
      cases hp
      by_cases hkb : k = b
      · subst hkb
        rw [Function.update_self] at he' ⊢
        cases he'
        exact ⟨_, a, k, Function.update_self .., rfl, rfl⟩
      by_cases hka : k = a
      · subst hka
        rw [Function.update_of_ne hkb, Function.update_self] at he' ⊢
        cases he'
        exact ⟨_, k, b, Function.update_self .., rfl, rfl⟩
      have hk : Function.update (Function.update ichan a ⟨some e, false⟩) b ⟨some e, true⟩ k =
          ichan k := by rw [Function.update_of_ne hkb, Function.update_of_ne hka]
      cases hp₀ : C.protoState with
      | rtspConn ichan₀ =>
        apply hold C ichan₀ hC hp₀
        rw [hk, hstate ichan₀ hp₀]
      | null =>
        rw [hp₀] at hchannels
        cases hchannels
        rw [hk] at he'
        cases he'
      | stream p =>
        rw [hp₀] at hchannels
        cases hchannels
    · exact hold C' ichan' hC' hp rfl
  · intro e' E' c' a' b' hE' htrans'
    dsimp only [Server.interleaved] at hE' ⊢
    rw [Function.update_apply] at hE'
    split_ifs at hE' with he
    · subst he
      cases hE'
      cases htrans'
      refine ⟨ha, hb, hab, _, _, Function.update_self .., rfl, ?_, Function.update_self ..⟩
      rw [Function.update_of_ne hab, Function.update_self]
    · obtain ⟨hla, hlb, hne, C₀, ichan₀, hC₀, hp₀, hia, hib⟩ :=
        h.occupies e' E' c' a' b' hE' htrans'
      refine ⟨hla, hlb, hne, ?_⟩
      by_cases hc : c' = c
      · subst hc
        cases hC.symm.trans hC₀
        obtain rfl := hstate ichan₀ hp₀
        refine ⟨_, _, Function.update_self .., rfl, ?_, ?_⟩
        · rw [Function.update_of_ne, Function.update_of_ne, hia]
          · rintro rfl
            rw [hia] at hna
            cases hna
          · rintro rfl
            rw [hia] at hnb
            cases hnb
        · rw [Function.update_of_ne, Function.update_of_ne, hib]
          · rintro rfl
            rw [hib] at hna
            cases hna
          · rintro rfl
            rw [hib] at hnb
            cases hnb
      · exact ⟨C₀, ichan₀, by rw [Function.update_of_ne hc, hC₀], hp₀, hia, hib⟩

/-- What is left of the connections when an interleaved endpoint has left its channels. -/
theorem Paired.disconnected (h : Paired s) {e c a b : ℕ} {E : Endpoint}
    (hE : s.endpoints e = some E) (htrans : E.trans = .inter c a b) :
    ∃ C ichan, s.conns c = some C ∧ C.protoState = .rtspConn ichan ∧
      ichan a = ⟨some e, false⟩ ∧ ichan b = ⟨some e, true⟩ ∧
      disconnected s.conns E.trans = Function.update s.conns c (some { C with
        protoState := .rtspConn (Function.update (Function.update ichan a ⟨none, false⟩)
          b ⟨none, true⟩) }) := by
  obtain ⟨-, -, hab, C, ichan, hC, hp, hia, hib⟩ := h.occupies e E c a b hE htrans
  refine ⟨C, ichan, hC, hp, hia, hib, ?_⟩
  rw [htrans]
  dsimp only [Spook.disconnected, clearChannel]
  rw [Function.update_self, hC]
  dsimp only [Option.map]
  rw [hp]
  dsimp only
  rw [Function.update_idem, Function.update_of_ne hab.symm, hia, hib]

/-- An endpoint is deleted.

**Proof sketch.** An endpoint that is not interleaved is in no channel. One that is has two of them,
which `interleave_disconnect` gives up, and no other: so the channels that are left hold what they
held, and the endpoints that are left are in other channels. -/
theorem Paired.delete (h : Paired s) {e : ℕ} {E : Endpoint} (hE : s.endpoints e = some E) :
    Paired (s.delete e E) := by
  have hnone : ∀ e' E', Function.update s.endpoints e none e' = some E' →
      e' ≠ e ∧ s.endpoints e' = some E' := by
    intro e' E' hE'
    rw [Function.update_apply] at hE'
    split_ifs at hE' with he
    exact ⟨he, hE'⟩
  by_cases hinter : ∃ c a b, E.trans = .inter c a b
  · obtain ⟨c, a, b, htrans⟩ := hinter
    obtain ⟨C, ichan, hC, hp, hia, hib, hconns⟩ := h.disconnected hE htrans
    have hab : a ≠ b := (h.occupies e E c a b hE htrans).2.2.1
    unfold Server.delete
    rw [hconns]
    constructor
    · intro c' C' hC'
      dsimp only at hC'
      rw [Function.update_apply] at hC'
      split_ifs at hC' with hc
      · exact hc ▸ h.conn_lt c C hC
      · exact h.conn_lt c' C' hC'
    · intro c' C' ichan' hC' hp'
      dsimp only at hC'
      rw [Function.update_apply] at hC'
      split_ifs at hC' with hc
      · cases hC'
        exact h.proto c C ichan hC hp
      · exact h.proto c' C' ichan' hC' hp'
    · intro c' C' ichan' k e' hC' hp' he'
      dsimp only at hC' ⊢
      -- the channel is another one, and holds another endpoint
      have hold : ∃ C₀ ichan₀, s.conns c' = some C₀ ∧ C₀.protoState = .rtspConn ichan₀ ∧
          ichan' k = ichan₀ k ∧ (c' = c → k ≠ a ∧ k ≠ b) := by
        rw [Function.update_apply] at hC'
        split_ifs at hC' with hc
        · cases hC'
          cases hp'
          have hkb : k ≠ b := by
            rintro rfl
            rw [Function.update_self] at he'
            cases he'
          have hka : k ≠ a := by
            rintro rfl
            rw [Function.update_of_ne hkb, Function.update_self] at he'
            cases he'
          refine ⟨C, ichan, hc ▸ hC, hp, ?_, fun _ => ⟨hka, hkb⟩⟩
          rw [Function.update_of_ne hkb, Function.update_of_ne hka]
        · exact ⟨C', ichan', hC', hp', rfl, fun h => absurd h hc⟩
      obtain ⟨C₀, ichan₀, hC₀, hp₀, hk, hne⟩ := hold
      rw [hk] at he' ⊢
      obtain ⟨E', a', b', hE', htrans', hk'⟩ := h.occupied c' C₀ ichan₀ k e' hC₀ hp₀ he'
      refine ⟨E', a', b', ?_, htrans', hk'⟩
      rw [Function.update_of_ne, hE']
      rintro rfl
      cases hE.symm.trans hE'
      cases htrans.symm.trans htrans'
      obtain ⟨hka, hkb⟩ := hne rfl
      split_ifs at hk' with hr
      · exact hkb hk'
      · exact hka hk'
    · intro e' E' c' a' b' hE' htrans'
      dsimp only at hE' ⊢
      obtain ⟨hne, hE'⟩ := hnone e' E' hE'
      obtain ⟨hla, hlb, hab', C₀, ichan₀, hC₀, hp₀, hia', hib'⟩ :=
        h.occupies e' E' c' a' b' hE' htrans'
      refine ⟨hla, hlb, hab', ?_⟩
      by_cases hc : c' = c
      · subst hc
        cases hC.symm.trans hC₀
        cases hp.symm.trans hp₀
        have hdiff : ∀ k k', (ichan k).ep = some e → (ichan k').ep = some e' → k' ≠ k := by
          rintro k k' hk hk' rfl
          exact hne (Option.some.inj (hk'.symm.trans hk))
        refine ⟨_, _, Function.update_self .., rfl, ?_, ?_⟩
        · rw [Function.update_of_ne, Function.update_of_ne, hia']
          · exact hdiff a a' (by rw [hia]) (by rw [hia'])
          · exact hdiff b a' (by rw [hib]) (by rw [hia'])
        · rw [Function.update_of_ne, Function.update_of_ne, hib']
          · exact hdiff a b' (by rw [hia]) (by rw [hib'])
          · exact hdiff b b' (by rw [hib]) (by rw [hib'])
      · exact ⟨C₀, ichan₀, by rw [Function.update_of_ne hc, hC₀], hp₀, hia', hib'⟩
  · have hno : ∀ c a b, E.trans ≠ .inter c a b := fun c a b htrans => hinter ⟨c, a, b, htrans⟩
    refine h.of_trans ?_ (fun e' E' hE' => ?_) (fun e' E' c a b hE' htrans' => ?_) le_rfl
    · dsimp only [Server.delete]
      cases htrans : E.trans with
      | inter c a b => exact absurd htrans (hno c a b)
      | none | udp | mc => rfl
    · exact .inl ⟨E', (hnone e' E' hE').2, rfl⟩
    · dsimp only [Server.delete]
      refine ⟨E', ?_, rfl⟩
      rw [Function.update_of_ne, hE']
      rintro rfl
      cases hE.symm.trans hE'
      exact hno c a b htrans'

/-- **Every change keeps the channels**, but the end of a connection.

**Proof sketch.** By the change. Only interleaving, deletions and new connections touch channels or
interleaved endpoints; over unicast the changes of multicast do not occur. -/
theorem Paired.change (h : Paired s) (hs : Sound s) {k : Kind} (hchange : Change false k s s')
    (hk : k ≠ .dropped) : Paired s' := by
  have hunicast : ∀ {P : Prop}, false = true → P := fun h => by cases h
  cases hchange with
  | opened n => exact h.of_same rfl rfl (Nat.le_succ _)
  | @added _ p j t S E _ _ _ _ _ _ htrans _ =>
    refine h.of_trans rfl (fun e' E' hE' => ?_) (fun e' E' c a b hE' _ => ?_) (Nat.le_succ _)
    · dsimp only [Server.setSlot, Server.onEndpoint] at hE'
      rw [Function.update_apply] at hE'
      split_ifs at hE' with he
      · cases hE'
        refine .inr fun c a b => ?_
        rw [htrans]
        simp
      · exact .inl ⟨E', hE', rfl⟩
    · dsimp only [Server.setSlot, Server.onEndpoint]
      refine ⟨E', ?_, rfl⟩
      rw [Function.update_of_ne, hE']
      exact (hs.endpoint_lt e' E' hE').ne
  | shared hmc => exact hunicast hmc
  | newShared hmc => exact hunicast hmc
  | interleaved hE htrans hC hproto hchannels ha hb hab hna hnb =>
    exact h.interleaved hE (htrans rfl) hC hproto hchannels ha hb hab hna hnb
  | udp hE htrans =>
    apply h.onEndpoint hE
    rw [htrans rfl]
    exact .inr ⟨by simp, by simp⟩
  | registered p id _ => exact h.of_same rfl rfl le_rfl
  | played _ => exact h.of_same rfl rfl le_rfl
  | woken _ _ _ _ _ => exact h.of_same rfl rfl le_rfl
  | removed _ _ _ _ hE _ => exact (h.delete hE).of_same rfl rfl le_rfl
  | removedLast _ _ _ _ hE _ => exact (h.delete hE).of_same rfl rfl le_rfl
  | left hmc => exact hunicast hmc
  | leftLast hmc => exact hunicast hmc
  | closed _ _ => exact h.of_same rfl rfl le_rfl
  | readied t _ => exact h.of_same rfl rfl le_rfl
  | delivering d => exact h.of_same rfl rfl le_rfl
  | logged _ => exact h.of_same rfl rfl le_rfl
  | flagged b hE => exact h.onEndpoint hE (.inl rfl)
  | counted hE hcounted => exact h.onEndpoint hE (.inl hcounted.trans)
  | noted hE hnoted => exact h.onEndpoint hE (.inl hnoted.trans)
  | accepted fd =>
    have hold : ∀ c C ichan, Function.update s.conns s.next (some (.accepted fd)) c = some C →
        C.protoState = .rtspConn ichan → s.conns c = some C := by
      intro c C ichan hC hp
      rw [Function.update_apply] at hC
      split_ifs at hC with hc
      · cases hC
        cases hp
      · exact hC
    constructor
    · intro c C hC
      dsimp only at hC
      rw [Function.update_apply] at hC
      split_ifs at hC with hc
      · exact hc ▸ Nat.lt_succ_self _
      · exact (h.conn_lt c C hC).trans (Nat.lt_succ_self _)
    · exact fun c C ichan hC hp => h.proto c C ichan (hold c C ichan hC hp) hp
    · exact fun c C ichan k e hC hp => h.occupied c C ichan k e (hold c C ichan hC hp) hp
    · intro e E c a b hE htrans
      obtain ⟨hla, hlb, hab, C, ichan, hC, hp, hi⟩ := h.occupies e E c a b hE htrans
      refine ⟨hla, hlb, hab, C, ichan, ?_, hp, hi⟩
      dsimp only
      rw [Function.update_of_ne (h.conn_lt c C hC).ne, hC]
  | dropped c => exact absurd rfl hk

/-! ## The end of a connection -/

/-- A teardown leaves some of the endpoints as they are. -/
theorem TornDown.endpoints {mc : Bool} {p e : ℕ} {ep : Option ℕ} {E : Endpoint}
    (h : TornDown mc p ep s s') (hE : s'.endpoints e = some E) : s.endpoints e = some E := by
  refine h.steps.keeps (I := fun s' => ∀ E, s'.endpoints e = some E → s.endpoints e = some E)
    (fun _ h => h) (fun s₁ s₂ hs ha E hE => ?_) (fun k hk s₁ s₂ hs hc E hE => ?_) E hE
  · rw [ha.endpoints] at hE
    exact hs E hE
  · refine hs E ?_
    have hdelete : ∀ e', Function.update s₁.endpoints e' none e = some E →
        s₁.endpoints e = some E := by
      intro e' hE
      rw [Function.update_apply] at hE
      split_ifs at hE
      exact hE
    rcases hk with ⟨e', rfl, -⟩ | rfl
    · cases hc with
      | removed | removedLast => exact hdelete e' hE
      | left => exact hE
      | leftLast => exact hdelete _ hE
    · cases hc
      exact hE

/-- A teardown keeps the channels. -/
theorem TornDown.paired {p : ℕ} {ep : Option ℕ} (h : TornDown false p ep s s')
    (hs : Sound s ∧ Paired s) : Sound s' ∧ Paired s' := by
  refine h.steps.keeps (I := fun s => Sound s ∧ Paired s) hs
    (fun _ _ h ha => ⟨h.1.alike ha, h.2.alike ha⟩) fun k hk _ _ h hc => ?_
  refine ⟨h.1.change hc, h.2.change h.1 hc ?_⟩
  rintro rfl
  rcases hk with ⟨e', hk, -⟩ | hk <;> cases hk

/-- **The end of a connection** keeps the channels, because it tears down what they hold.

**Proof sketch.** The loop over the channels tears down the sessions of all endpoints that it finds;
`k` channels are done when no endpoint begins in one of them. After all of them no interleaved
endpoint is on the connection, which can be removed. -/
theorem paired_drop {c : ℕ} (hs : Sound s ∧ Paired s) :
    wp (dropConn false c) (fun _ s' => Sound s' ∧ Paired s') (fun _ => True) s := by
  -- `k` channels are done, and no endpoint begins in one of them
  have hdisconnect : wp (rtspConnDisconnect false c) (fun _ s' => (Sound s' ∧ Paired s') ∧
      ∀ e E a b, s'.endpoints e = some E → E.trans = .inter c a b → maxInterleaveChannels ≤ a)
      (fun _ => True) s := by
    unfold rtspConnDisconnect
    rw [List.range_eq_range']
    refine (keeps_disconnectChannels (I := fun k s' => (Sound s' ∧ Paired s') ∧
      ∀ e E a b, s'.endpoints e = some E → E.trans = .inter c a b → k ≤ a)
      ⟨hs, fun _ _ _ _ _ _ => Nat.zero_le _⟩ ?_ ?_).imp fun _ s' h => by simpa using h
    · intro k s₁ C ichan h hC hp hno
      refine ⟨h.1, fun e E a b hE htrans => Nat.lt_of_le_of_ne (h.2 e E a b hE htrans) ?_⟩
      rintro rfl
      obtain ⟨-, -, -, C', ichan', hC', hp', hia, -⟩ := h.1.2.occupies e E c k b hE htrans
      cases hC.symm.trans hC'
      cases hp.symm.trans hp'
      exact hno e hia
    · intro k s₁ C ichan e E p s₂ h hC hp hk hE hsession hdown
      refine ⟨hdown.paired h.1, fun e' E' a b hE' htrans => ?_⟩
      have hE₁ := hdown.endpoints hE'
      refine Nat.lt_of_le_of_ne (h.2 e' E' a b hE₁ htrans) ?_
      -- the endpoint that began in the channel is gone
      rintro rfl
      obtain ⟨-, -, -, C', ichan', hC', hp', hia, -⟩ := h.1.2.occupies e' E' c k b hE₁ htrans
      cases hC.symm.trans hC'
      cases hp.symm.trans hp'
      cases hk.symm.trans hia
      rw [h.1.1.not_endpoint hdown hE hsession] at hE'
      cases hE'
  refine (wp_dropConn (J := fun s' => (Sound s' ∧ Paired s') ∧
    ∀ e E a b, s'.endpoints e = some E → E.trans ≠ .inter c a b)
    (fun C s' hC hno ha => ?_) fun C _ _ => hdisconnect.imp fun _ s' h => ?_).imp fun _ s' h => ?_
  · have hkeep : Sound s' ∧ Paired s' := ⟨hs.1.alike ha, hs.2.alike ha⟩
    refine ⟨hkeep, fun e E a b hE htrans => ?_⟩
    rw [ha.endpoints] at hE
    obtain ⟨-, -, -, C', ichan, hC', hp, -⟩ := hs.2.occupies e E c a b hE htrans
    cases hC.symm.trans hC'
    rcases hno with hproto | hnull
    · exact hproto (hs.2.proto c C ichan hC hp)
    · rw [hnull] at hp
      cases hp
  · refine ⟨h.1, fun e E a b hE htrans => ?_⟩
    exact absurd (h.2 e E a b hE htrans) (not_le.2 (h.1.2.occupies e E c a b hE htrans).1)
  · obtain ⟨s₁, ⟨⟨hsound, hpaired⟩, hno⟩, rfl⟩ := h
    have hold : ∀ c' C, Function.update s₁.conns c none c' = some C → s₁.conns c' = some C := by
      intro c' C hC
      rw [Function.update_apply] at hC
      split_ifs at hC
      exact hC
    refine ⟨hsound.change (.dropped c), fun c' C hC => hpaired.conn_lt c' C (hold c' C hC),
      fun c' C ichan hC => hpaired.proto c' C ichan (hold c' C hC),
      fun c' C ichan k e hC => hpaired.occupied c' C ichan k e (hold c' C hC),
      fun e E c' a b hE htrans => ?_⟩
    obtain ⟨hla, hlb, hab, C, ichan, hC, hp, hi⟩ := hpaired.occupies e E c' a b hE htrans
    refine ⟨hla, hlb, hab, C, ichan, ?_, hp, hi⟩
    dsimp only
    rw [Function.update_of_ne, hC]
    rintro rfl
    exact hno e E a b hE htrans

end Paired

/-! ## Over runs -/

section Runs

variable {s : Server}

/-- There are no connections at first. -/
theorem Configured.paired (h : Configured s) : Paired s := by
  constructor
  all_goals intros; simp_all [h.conns, h.endpoints]

/-- In every reachable state. -/
theorem paired_run {blocks : List (List ConfigLine)} {G : Server → ServerAct → Prop}
    (h : (liveMachine false blocks).Reachable G s) : Sound s ∧ Paired s := by
  refine keeps_run_of (M := liveMachine false blocks) (I := fun s => Sound s ∧ Paired s) rfl
    (fun s hs => ?_) (fun _ _ h ha => ⟨h.1.alike ha, h.2.alike ha⟩)
    (fun k hk _ _ h hc => ⟨h.1.change hc, h.2.change h.1 hc hk⟩) (fun s c hs => paired_drop hs) h
  obtain ⟨s₀, h₀, hconf⟩ := hs
  exact ⟨(configured_of_configure h₀ hconf).sound, (configured_of_configure h₀ hconf).paired⟩

/-- **The channels and the endpoints of a unicast server agree in every state of every run**: what
is in a channel of a connection is an interleaved endpoint of this connection that names the
channel, an interleaved endpoint is in its two channels of a connection that is there and in no
other, and no two endpoints share one. -/
theorem channels_run {blocks : List (List ConfigLine)}
    (h : (liveMachine false blocks).Reachable Machine.anyStep s) :
    (∀ c C ichan k e, s.conns c = some C → C.protoState = .rtspConn ichan →
      (ichan k).ep = some e → ∃ E a b, s.endpoints e = some E ∧ E.trans = .inter c a b ∧
        if (ichan k).rtcp then k = b else k = a) ∧
    (∀ e E c a b, s.endpoints e = some E → E.trans = .inter c a b →
      a < maxInterleaveChannels ∧ b < maxInterleaveChannels ∧ a ≠ b ∧
      (∃ C ichan, s.conns c = some C ∧ C.protoState = .rtspConn ichan ∧
        ichan a = ⟨some e, false⟩ ∧ ichan b = ⟨some e, true⟩) ∧
      ∀ c' C ichan k, s.conns c' = some C → C.protoState = .rtspConn ichan →
        (ichan k).ep = some e → c' = c ∧ (k = a ∨ k = b)) ∧
    ∀ e e' E E' c a b a' b', s.endpoints e = some E → s.endpoints e' = some E' →
      E.trans = .inter c a b → E'.trans = .inter c a' b' → e ≠ e' →
      a ≠ a' ∧ a ≠ b' ∧ b ≠ a' ∧ b ≠ b' := by
  have hpaired := (paired_run h).2
  refine ⟨hpaired.occupied, fun e E c a b hE htrans => ?_, ?_⟩
  · obtain ⟨hla, hlb, hab, hchannels⟩ := hpaired.occupies e E c a b hE htrans
    refine ⟨hla, hlb, hab, hchannels, fun c' C ichan k hC hp he => ?_⟩
    obtain ⟨E', a', b', hE', htrans', hk⟩ := hpaired.occupied c' C ichan k e hC hp he
    cases hE.symm.trans hE'
    cases htrans.symm.trans htrans'
    split_ifs at hk with hr
    · exact ⟨rfl, .inr hk⟩
    · exact ⟨rfl, .inl hk⟩
  · intro e e' E E' c a b a' b' hE hE' htrans htrans' hne
    obtain ⟨-, -, -, C, ichan, hC, hp, hia, hib⟩ := hpaired.occupies e E c a b hE htrans
    obtain ⟨-, -, -, C', ichan', hC', hp', hia', hib'⟩ :=
      hpaired.occupies e' E' c a' b' hE' htrans'
    cases hC.symm.trans hC'
    cases hp.symm.trans hp'
    have hdiff : ∀ k k', (ichan k).ep = some e → (ichan k').ep = some e' → k ≠ k' := by
      rintro k k' hk hk' rfl
      exact hne (Option.some.inj (hk.symm.trans hk'))
    have ha : (ichan a).ep = some e := by rw [hia]
    have hb : (ichan b).ep = some e := by rw [hib]
    have ha' : (ichan a').ep = some e' := by rw [hia']
    have hb' : (ichan b').ep = some e' := by rw [hib']
    exact ⟨hdiff a a' ha ha', hdiff a b' ha hb', hdiff b a' hb ha', hdiff b b' hb hb'⟩

end Runs

/-- The endpoint of a SETUP in the first two channels of its connection. -/
theorem channels_run_setup : ∃ s C ichan, (liveMachine false doorBlocks).Run Machine.anyStep
    [.accept 3, .read 0 setupDoorText (askEnv setupDoor)] [] s ∧ s.conns 0 = some C ∧
    C.protoState = .rtspConn ichan ∧ ichan 0 = ⟨some 2, false⟩ ∧ ichan 1 = ⟨some 2, true⟩ := by
  obtain ⟨s, hrun, hs⟩ := Machine.Run.of_exec (M := liveMachine false doorBlocks)
    (G := Machine.anyStep) (fun s => (s.endpoints 2).map (·.trans)) doorServer_init
    (show ((liveMachine false doorBlocks).exec _ (configured doorBlocks)
      [.accept 3, .read 0 setupDoorText (askEnv setupDoor)]).map _ =
      some ([], some (.inter 0 0 1)) by decide +kernel)
  obtain ⟨E, hE, htrans⟩ := Option.map_eq_some_iff.1 hs
  obtain ⟨-, -, -, ⟨C, ichan, hC, hp, hi⟩, -⟩ := (channels_run ⟨_, _, hrun⟩).2.1 2 E 0 0 1 hE htrans
  exact ⟨s, C, ichan, hrun, hC, hp, hi⟩

end Spook
