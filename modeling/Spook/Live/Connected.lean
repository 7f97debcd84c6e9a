import Spook.Live.Reap

set_option relaxedAutoImplicit false
set_option autoImplicit false

/-!
# The transports of the endpoints

`live_setup` makes an endpoint without a transport. `handle_SETUP` connects it over UDP or to the
channels of the connection, or tears it down again.

## Main definitions

* `Spook.Connecting` — every endpoint has a transport, but one at most.

## Main results

* `Spook.connected_run` — in every run of a unicast server every endpoint has a transport.
-/

namespace Spook

/-- The endpoint is on a socket or on two channels. -/
def Endpoint.Connected (E : Endpoint) : Prop :=
  E.trans = .udp ∨ ∃ c a b, E.trans = .inter c a b

/-- Every endpoint is connected but `x`. -/
structure Connecting (x : Option ℕ) (s : Server) : Prop where
  sound : Sound s
  connected : ∀ e E, s.endpoints e = some E → x ≠ some e → E.Connected

namespace Connecting

variable {x : Option ℕ} {s s' : Server} {A : Set Kind}

/-- What is done besides connects nothing and disconnects nothing. -/
theorem alike (h : Connecting x s) (ha : Alike s s') : Connecting x s' :=
  ⟨h.sound.alike ha, fun e E hE => h.connected e E (ha.endpoints ▸ hE)⟩

/-- **Every change keeps it**, but a new endpoint. -/
theorem change (h : Connecting x s) {k : Kind} (hc : Change false k s s')
    (hk : ∀ p j, k ≠ .added p j) : Connecting x s' := by
  have hs := h.sound.change hc
  have hupdate : ∀ {e : ℕ} {o : Option Endpoint},
      s'.endpoints = Function.update s.endpoints e o →
      (∀ E', o = some E' → x ≠ some e → E'.Connected) → Connecting x s' := by
    intro e o heq ho
    refine ⟨hs, fun e' E' hE' hx => ?_⟩
    rw [heq, Function.update_apply] at hE'
    split_ifs at hE' with he
    · exact ho E' hE' (he ▸ hx)
    · exact h.connected e' E' hE' hx
  have hsame : ∀ {e : ℕ} {E E' : Endpoint}, s.endpoints e = some E → E'.trans = E.trans →
      ∀ E'', some E' = some E'' → x ≠ some e → E''.Connected := by
    rintro e E E' hE htrans _ ⟨⟩ hx
    unfold Endpoint.Connected
    rw [htrans]
    exact h.connected e E hE hx
  cases hc with
  | added | shared | newShared => exact absurd rfl (hk _ _)
  | @interleaved _ c _ a b =>
    refine hupdate rfl fun E' heq _ => ?_
    obtain rfl := Option.some.inj heq
    exact .inr ⟨c, a, b, rfl⟩
  | udp =>
    refine hupdate rfl fun E' heq _ => ?_
    obtain rfl := Option.some.inj heq
    exact .inl rfl
  | flagged _ hE => exact hupdate rfl (hsame hE rfl)
  | counted hE hcount => exact hupdate rfl (hsame hE hcount.trans)
  | noted hE hnote => exact hupdate rfl (hsame hE hnote.trans)
  | removed | removedLast | leftLast =>
    refine hupdate rfl fun E' heq => ?_
    cases heq
  | opened | registered | played | woken | left | closed | readied | delivering | logged | accepted
  | dropped => exact ⟨hs, h.connected⟩

/-- Changes that add no endpoint. -/
theorem steps (h : Connecting x s) (hsteps : Steps false A s s')
    (hA : ∀ p j, Kind.added p j ∉ A) : Connecting x s' :=
  hsteps.keeps h (fun _ _ h ha => h.alike ha) fun _ hk _ _ h hc =>
    h.change hc fun p j heq => hA p j (heq ▸ hk)

/-- After a teardown there are fewer endpoints. -/
theorem tornDown (h : Connecting x s) {p : ℕ} {ep : Option ℕ} (hdown : TornDown false p ep s s') :
    Connecting x s' := by
  refine h.steps hdown.steps fun p' j hmem => ?_
  rcases hmem with ⟨e, he, -⟩ | he <;> cases he

/-- The endpoint that was not connected is torn down. -/
theorem gone {p e : ℕ} {E : Endpoint} (h : Connecting (some e) s) (hE : s.endpoints e = some E)
    (hp : E.session = some p) (hdown : TornDown false p (some e) s s') : Connecting none s' := by
  have h' := h.tornDown hdown
  refine ⟨h'.sound, fun e' E' hE' _ => h'.connected e' E' hE' ?_⟩
  rintro ⟨⟩
  rw [h.sound.not_endpoint hdown hE hp] at hE'
  cases hE'

/-- SETUP connects the endpoint that it has made, or removes it. -/
theorem setUp {c p j k : ℕ} {isNew : Bool} {t : Transport} {env : SetupEnv}
    (h : Connecting none s) (hsetup : SetUp false c p j isNew t env s k s') :
    Connecting none s' := by
  have hadded : ∀ {S : Session} {e : ℕ} {E : Endpoint} {s₁ : Server},
      SlotAdded false p j S e E s s₁ → Change false (.added p j) s s₁ →
      Connecting (some e) s₁ := by
    intro S e E s₁ hslot hadd
    obtain ⟨-, -, -, hendpoints⟩ := hslot.fresh hadd
    refine ⟨h.sound.change hadd, fun e' E' hE' hx => ?_⟩
    rw [hendpoints, Function.update_of_ne fun heq => hx (congrArg some heq.symm)] at hE'
    exact h.connected e' E' hE' (by simp)
  cases hsetup with
  | taken _ _ halike => exact h.alike halike
  | refused _ halike => exact h.alike halike
  | refusedNew _ halike hdown => exact (h.alike halike).tornDown hdown
  | @unconnected s₁ s₂ _ S C e E hadd hslot _ _ _ halike hdown =>
    obtain ⟨-, hp, -, -⟩ := hslot.fresh hadd
    have hE : s₂.endpoints e = some E := by rw [halike.endpoints, hslot.endpoint]
    exact ((hadded hslot hadd).alike halike).gone hE hp hdown
  | @done s₁ s₂ _ S e E hadd hslot hconn halike =>
    have hconn : Change false (.connected e) s₁ s₂ := by
      rcases hconn with ⟨hmc, -⟩ | hconn
      · rw [hslot.trans rfl] at hmc
        cases hmc
      · exact hconn
    have h₁ := hadded hslot hadd
    have h₂ : Connecting none s₂ := by
      obtain ⟨-, E', -, hendpoints, htrans, -⟩ := hconn.connected_endpoint
      refine ⟨h₁.sound.change hconn, fun e' E₁ hE₁ _ => ?_⟩
      by_cases he : e' = e
      · rw [hendpoints, he, Function.update_self] at hE₁
        cases hE₁
        exact htrans
      · rw [hendpoints, Function.update_of_ne he] at hE₁
        exact h₁.connected e' E₁ hE₁ fun heq => he (Option.some.inj heq).symm
    refine alike ?_ halike
    unfold Server.register
    split_ifs
    · exact ⟨h₂.sound.of_same rfl rfl rfl (fun _ => Iff.rfl) le_rfl, h₂.connected⟩
    · exact h₂

/-- Every request. -/
theorem handled {c : ℕ} {q : RtspRequest} {code : Option ℕ} (h : Connecting none s)
    (hhandled : Handled false c s q code s') : Connecting none s' := by
  have hopened : ∀ n, Connecting none (s.opened n) := fun n =>
    h.change (.opened n) fun _ _ heq => by cases heq
  cases hhandled with
  | answered _ _ halike => exact h.alike halike
  | described _ halike hdown => exact ((hopened _).alike halike).tornDown hdown
  | announced _ halike => exact (hopened _).alike halike
  | setupNew _ _ _ _ hsetup => exact (hopened _).setUp hsetup
  | setupOld _ _ _ _ _ hsetup => exact h.setUp hsetup
  | tornDown _ _ hdown halike => exact (h.tornDown hdown).alike halike
  | played _ hplayed halike =>
    refine (h.steps hplayed.changes fun p j hmem => ?_).alike halike
    rcases hmem with heq | heq <;> cases heq

/-- What is sent adds no endpoint. -/
theorem works {D : ℕ → ℕ → Prop} (h : Connecting x s) (hworks : Works false A D s s')
    (hA : ∀ p j, Kind.added p j ∉ A) : Connecting x s' :=
  hworks.keeps h (fun _ _ h ha => h.alike ha)
    (fun _ hk _ _ h hc => h.change hc fun p j heq => hA p j (heq ▸ hk))
    fun _ _ _ _ _ h hdown => h.tornDown hdown

/-- Every action of the server. -/
theorem serverAct {a : ServerAct} (h : Connecting none s) :
    wp (serverAct false a) (fun _ s' => Connecting none s') (fun _ => True) s := by
  have hone : ∀ {k : Kind} {s s' : Server}, Connecting none s → Change false k s s' →
      (∀ p j, k ≠ .added p j) → Connecting none s' := fun h hc hk => h.change hc hk
  refine keeps_liveAct h (fun _ _ h ha => h.alike ha) (fun s s' e h hc => hone h hc (by simp))
    (fun s s' h hc => hone h hc (by simp)) (fun s c h => ?_) ?_ ?_ ?_ ?_ ?_
  · exact (changes_dropConn c).imp fun _ _ hsteps => h.steps hsteps (by simp [Kind.OfEnd])
  · intro c d env C q code s' _ hC _ hhandled
    exact (h.alike (alike_settled hC d)).handled hhandled
  · intro t key packets ok _
    refine (wp_deliverToTrack t key packets ok).imp fun _ s' h' => ?_
    rcases h' with rfl | ⟨-, -, s₁, ⟨-, rfl⟩ | ⟨hready, rfl⟩, rfl⟩
    · exact h
    · exact hone h (.delivering _) (by simp)
    · exact hone (hone h (.readied t hready) (by simp)) (.delivering _) (by simp)
  · intro w _
    exact (wp_continueFrame w).imp fun _ s' hcontinued => h.works hcontinued.streams (by simp)
  · intro e now ret E _ hE _
    exact (wp_rtcpSend now ret hE).seq fun _ s' hsent => h.works (hsent.sends hE) (by simp)
  · intro e now E _ _
    exact (wp_teardownEndpoint ..).imp fun _ s' hdown => h.works hdown.sends (by simp)

end Connecting

/-- **In every state of every run** of a unicast server every endpoint has a transport. -/
theorem connected_run {blocks : List (List ConfigLine)} {G : Server → ServerAct → Prop} {s : Server}
    (h : (liveMachine false blocks).Reachable G s) {e : ℕ} {E : Endpoint}
    (hE : s.endpoints e = some E) : E.Connected := by
  have hrun : Connecting none s := by
    refine h.invariant (Connecting none) (fun s hs => ?_) fun s a s' os hs _ ha =>
      serverStep_ok hs hs.serverAct ha
    obtain ⟨s₀, h₀, hconf⟩ := hs
    have hconfigured := configured_of_configure h₀ hconf
    refine ⟨hconfigured.sound, fun e E hE => ?_⟩
    rw [hconfigured.endpoints] at hE
    cases hE
  exact hrun.connected e E hE (by simp)

end Spook
