import Spook.Fault
import Spook.Server
import Spook.Lib.Machine

set_option relaxedAutoImplicit false
set_option autoImplicit false

/-!
# The link check and the clients

The UDP endpoints of `rtp.c` switch the link check of `wireless_check.c` on and off. An endpoint keeps
the loss of its latest report and whether that made it ask for the check; the check itself is one flag
for all of them. What a session deletes when it is torn down is deleted in steps of its own.

## Main definitions

* `Spook.LinkEndpoint`, `LinkState` — the part of an endpoint that counts, and all of them.
* `Spook.udpRtcpRead`, `delRtpEndpoint`, `rtcpTimeout` — the functions that switch the check.
* `Spook.linkMachine` — the events in any order.
* `Spook.LeavesOthers` — the steps that switch off nothing that another endpoint asked for.

## Main results

* `Spook.LinkState.Asked` — the invariant.
* `Spook.link_run` — the check reflects all clients as long as every step leaves the others alone.
-/

namespace Spook

/-- The fields of `struct rtp_endpoint` that the link check is about. -/
structure LinkEndpoint where
  /-- `trans_type` is `RTP_TRANS_UDP`, and else `RTP_TRANS_MC`. -/
  udp : Bool
  sendDropRate : UInt8
  lastRtcpRecv : TimeVal
  bTriggerWirelessCheck : Bool
  deriving DecidableEq

/-- The endpoints, of which those from `next` on are not allocated yet, and `g_bChkWirelessLink`. -/
structure LinkState where
  next : ℕ
  endpoints : ℕ → Option LinkEndpoint
  chkWirelessLink : Bool

/-- `begin_wireless_check`. -/
def beginWirelessCheck (s : LinkState) : LinkState := { s with chkWirelessLink := true }

/-- `end_wireless_check`. -/
def endWirelessCheck (s : LinkState) : LinkState := { s with chkWirelessLink := false }

section Events

variable (threshold : ℕ)

/-- An endpoint. -/
def LinkState.getEndpoint (s : LinkState) (e : ℕ) : Except Fault LinkEndpoint :=
  match s.endpoints e with
  | some E => .ok E
  | none => .error .freedEndpoint

def LinkState.setEndpoint (s : LinkState) (e : ℕ) (E : LinkEndpoint) : LinkState :=
  { s with endpoints := Function.update s.endpoints e (some E) }

/-- `new_rtp_endpoint`. -/
def newLinkEndpoint (udp : Bool) (now : TimeVal) (s : LinkState) : LinkState :=
  { s.setEndpoint s.next ⟨udp, 0, now, false⟩ with next := s.next + 1 }

/-- The test of `udp_rtcp_read` for a report. -/
def IsLossReport (buf : ℕ → UInt8) : Prop := buf 1 = 0xc9 ∧ buf 2 = 0 ∧ buf 3 = 7

instance (buf : ℕ → UInt8) : Decidable (IsLossReport buf) :=
  inferInstanceAs (Decidable (buf 1 = 0xc9 ∧ buf 2 = 0 ∧ buf 3 = 7))

/-- `udp_rtcp_read` when a packet was read, after which `buf` holds what it holds. -/
def udpRtcpRead (e : ℕ) (buf : ℕ → UInt8) (now : TimeVal) (s : LinkState) : Except Fault LinkState := do
  let E ← s.getEndpoint e
  if IsLossReport buf then
    let E := { E with sendDropRate := buf 12 }
    if threshold ≤ E.sendDropRate.toNat then
      return beginWirelessCheck
        (s.setEndpoint e { E with bTriggerWirelessCheck := true, lastRtcpRecv := now })
    else if E.sendDropRate = 0 then
      return endWirelessCheck
        (s.setEndpoint e { E with bTriggerWirelessCheck := false, lastRtcpRecv := now })
    else return s.setEndpoint e { E with lastRtcpRecv := now }
  else return s

/-- `udp_rtp_read` when a packet was read. -/
def udpRtpHeard (e : ℕ) (now : TimeVal) (s : LinkState) : Except Fault LinkState := do
  let E ← s.getEndpoint e
  return s.setEndpoint e { E with lastRtcpRecv := now }

/-- The test of `rtcp_send`. -/
def rtcpTimeout (e : ℕ) (now : TimeVal) (s : LinkState) : Except Fault LinkState := do
  let E ← s.getEndpoint e
  let sec := now.sec - E.lastRtcpRecv.sec
  let usec := now.usec - E.lastRtcpRecv.usec
  if E.udp ∧ (1 < sec ∨ sec = 1 ∧ 200000 < usec) then return beginWirelessCheck s
  else return s

/-- `del_rtp_endpoint`. -/
def delLinkEndpoint (e : ℕ) (s : LinkState) : Except Fault LinkState := do
  let E ← s.getEndpoint e
  let s := if E.bTriggerWirelessCheck then endWirelessCheck s else s
  return { s with endpoints := Function.update s.endpoints e none }

/-- An event at an endpoint. -/
inductive LinkAct
  | create (udp : Bool) (now : TimeVal)
  | rtcp (e : ℕ) (buf : ℕ → UInt8) (now : TimeVal)
  | rtp (e : ℕ) (now : TimeVal)
  | timer (e : ℕ) (now : TimeVal)
  | delete (e : ℕ)

/-- The events at the endpoints, in any order. -/
def linkMachine : Machine LinkState LinkAct Empty Fault where
  Init s := s.endpoints = (fun _ => none) ∧ s.chkWirelessLink = false
  step s a :=
    match a with
    | .create udp now => .ok (newLinkEndpoint udp now s, [])
    | .rtcp e buf now => do return (← udpRtcpRead threshold e buf now s, [])
    | .rtp e now => do return (← udpRtpHeard e now s, [])
    | .timer e now => do return (← rtcpTimeout e now s, [])
    | .delete e => do return (← delLinkEndpoint e s, [])

end Events

/-! ## What the endpoints asked for -/

section Asked

variable {threshold : ℕ} {s s' : LinkState} {a : LinkAct} {e : ℕ}

/-- Some endpoint other than `e` asked for the check. -/
def LinkState.OthersAsk (s : LinkState) (e : ℕ) : Prop :=
  ∃ e' < s.next, e' ≠ e ∧ (s.endpoints e').any LinkEndpoint.bTriggerWirelessCheck = true

instance (s : LinkState) (e : ℕ) : Decidable (s.OthersAsk e) :=
  inferInstanceAs (Decidable (∃ e' < s.next, e' ≠ e ∧
    (s.endpoints e').any LinkEndpoint.bTriggerWirelessCheck = true))

/-- The step is a report of zero loss from `e`, or the deletion of `e`. -/
def LinkAct.Ends (a : LinkAct) (e : ℕ) : Prop :=
  match a with
  | .rtcp e' buf _ => e' = e ∧ IsLossReport buf ∧ buf 12 = 0
  | .delete e' => e' = e
  | _ => False

/-- A report of zero loss, or the deletion of an endpoint that asked for the check, comes while no
other endpoint has asked for it. -/
def LeavesOthers (s : LinkState) (a : LinkAct) : Prop :=
  match a with
  | .rtcp e buf _ => IsLossReport buf ∧ buf 12 = 0 → ¬ s.OthersAsk e
  | .delete e => (s.endpoints e).any LinkEndpoint.bTriggerWirelessCheck = true → ¬ s.OthersAsk e
  | _ => True

instance (s : LinkState) (a : LinkAct) : Decidable (LeavesOthers s a) :=
  match a with
  | .rtcp e buf _ => inferInstanceAs (Decidable (IsLossReport buf ∧ buf 12 = 0 → ¬ s.OthersAsk e))
  | .delete e => inferInstanceAs (Decidable
      ((s.endpoints e).any LinkEndpoint.bTriggerWirelessCheck = true → ¬ s.OthersAsk e))
  | .create _ _ => inferInstanceAs (Decidable True)
  | .rtp _ _ => inferInstanceAs (Decidable True)
  | .timer _ _ => inferInstanceAs (Decidable True)

/-- An endpoint whose latest report is bad asks for the check, and the check is on if one asks. -/
structure LinkState.Asked (threshold : ℕ) (s : LinkState) : Prop where
  fresh : ∀ e, s.next ≤ e → s.endpoints e = none
  rate : ∀ e E, s.endpoints e = some E → threshold ≤ E.sendDropRate.toNat →
    E.bTriggerWirelessCheck = true
  active : ∀ e E, s.endpoints e = some E → E.bTriggerWirelessCheck = true → s.chkWirelessLink = true

/-- An endpoint that is there. -/
theorem getEndpoint_eq {E : LinkEndpoint} :
    s.getEndpoint e = .ok E ↔ s.endpoints e = some E := by
  unfold LinkState.getEndpoint
  cases s.endpoints e <;> simp

/-- Another endpoint asks, and has its flag set. -/
theorem LinkState.Asked.othersAsk (h : s.Asked threshold) :
    s.OthersAsk e ↔ ∃ e' E, e' ≠ e ∧ s.endpoints e' = some E ∧ E.bTriggerWirelessCheck = true := by
  constructor
  · rintro ⟨e', -, hne, hask⟩
    obtain ⟨E, hE, hask⟩ := (Option.any_eq_true _ _).1 hask
    exact ⟨e', E, hne, hE, hask⟩
  · rintro ⟨e', E, hne, hE, hask⟩
    refine ⟨e', not_le.1 fun hle => ?_, hne, by rw [hE]; exact hask⟩
    rw [h.fresh e' hle] at hE
    cases hE

/-- An endpoint that is allocated is one of those below `next`. -/
theorem LinkState.Asked.lt_next (h : s.Asked threshold) {E : LinkEndpoint}
    (hE : s.endpoints e = some E) : e < s.next := by
  refine not_le.1 fun hle => ?_
  rw [h.fresh e hle] at hE
  cases hE

/-- An endpoint is changed, and the flag with it. -/
theorem LinkState.Asked.set (h : s.Asked threshold) (he : e < s.next) {E : LinkEndpoint} {b : Bool}
    (hrate : threshold ≤ E.sendDropRate.toNat → E.bTriggerWirelessCheck = true)
    (hask : E.bTriggerWirelessCheck = true → b = true)
    (hothers : ∀ e' E', e' ≠ e → s.endpoints e' = some E' → E'.bTriggerWirelessCheck = true →
      b = true) :
    LinkState.Asked threshold { s.setEndpoint e E with chkWirelessLink := b } := by
  constructor
  · intro e' hle
    have hne : e' ≠ e := by
      rintro rfl
      exact absurd hle (not_le.2 he)
    simp only [setEndpoint, Function.update_of_ne hne]
    exact h.fresh e' hle
  · intro e' E' hE'
    by_cases heq : e' = e
    · subst heq
      simp only [setEndpoint, Function.update_self] at hE'
      obtain rfl := Option.some.inj hE'
      exact hrate
    · simp only [setEndpoint, Function.update_of_ne heq] at hE'
      exact h.rate e' E' hE'
  · intro e' E' hE'
    by_cases heq : e' = e
    · subst heq
      simp only [setEndpoint, Function.update_self] at hE'
      obtain rfl := Option.some.inj hE'
      exact hask
    · simp only [setEndpoint, Function.update_of_ne heq] at hE'
      exact hothers e' E' heq hE'

/-- A new endpoint has no report. -/
theorem LinkState.Asked.new (h : s.Asked threshold) (hthreshold : 1 ≤ threshold) (udp : Bool)
    (now : TimeVal) : (newLinkEndpoint udp now s).Asked threshold := by
  have hnew : ∀ e' E', e' ≠ s.next →
      (newLinkEndpoint udp now s).endpoints e' = some E' → s.endpoints e' = some E' := by
    intro e' E' hne hE'
    simpa only [newLinkEndpoint, setEndpoint, Function.update_of_ne hne] using hE'
  have hself : (newLinkEndpoint udp now s).endpoints s.next = some ⟨udp, 0, now, false⟩ := by
    simp only [newLinkEndpoint, setEndpoint, Function.update_self]
  constructor
  · intro e' hle
    have hlt : s.next + 1 ≤ e' := hle
    simp only [newLinkEndpoint, setEndpoint, Function.update_of_ne (show e' ≠ s.next by omega)]
    exact h.fresh e' (by omega)
  · intro e' E' hE' hrate
    by_cases heq : e' = s.next
    · rw [heq, hself] at hE'
      obtain rfl := Option.some.inj hE'
      exact absurd hrate (not_le.2 hthreshold)
    · exact h.rate e' E' (hnew e' E' heq hE') hrate
  · intro e' E' hE' hask
    by_cases heq : e' = s.next
    · rw [heq, hself] at hE'
      obtain rfl := Option.some.inj hE'
      cases hask
    · exact h.active e' E' (hnew e' E' heq hE') hask

/-- The invariant behind a packet that was read. -/
theorem LinkState.Asked.rtcp (h : s.Asked threshold) {buf : ℕ → UInt8} {now : TimeVal}
    (hothers : IsLossReport buf ∧ buf 12 = 0 → ¬ s.OthersAsk e)
    (hstep : udpRtcpRead threshold e buf now s = .ok s') : s'.Asked threshold := by
  obtain ⟨E, hE, hstep⟩ := bind_eq_ok.1 hstep
  have hE := getEndpoint_eq.1 hE
  have hlt := h.lt_next hE
  dsimp only at hstep
  split_ifs at hstep with hreport hbad hzero
  · obtain rfl := Except.ok.inj hstep
    exact h.set hlt (fun _ => rfl) (fun _ => rfl) fun _ _ _ _ _ => rfl
  · obtain rfl := Except.ok.inj hstep
    have hnone := hothers ⟨hreport, hzero⟩
    refine h.set hlt (fun hle => absurd hle hbad) (fun hask => by cases hask) ?_
    exact fun e' E' hne hE' hask => absurd (h.othersAsk.2 ⟨e', E', hne, hE', hask⟩) hnone
  · obtain rfl := Except.ok.inj hstep
    exact h.set hlt (fun hle => absurd hle hbad) (h.active e E hE) fun e' E' _ => h.active e' E'
  · obtain rfl := Except.ok.inj hstep
    exact h

/-- The invariant behind a deletion. -/
theorem LinkState.Asked.delete (h : s.Asked threshold)
    (hothers : (s.endpoints e).any LinkEndpoint.bTriggerWirelessCheck = true → ¬ s.OthersAsk e)
    (hstep : delLinkEndpoint e s = .ok s') : s'.Asked threshold := by
  obtain ⟨E, hE, hstep⟩ := bind_eq_ok.1 hstep
  have hE := getEndpoint_eq.1 hE
  obtain rfl := Except.ok.inj hstep
  have hleft : ∀ e' E', Function.update s.endpoints e none e' = some E' →
      e' ≠ e ∧ s.endpoints e' = some E' := by
    intro e' E' hE'
    have hne : e' ≠ e := by
      rintro rfl
      rw [Function.update_self] at hE'
      cases hE'
    rw [Function.update_of_ne hne] at hE'
    exact ⟨hne, hE'⟩
  constructor
  · intro e' hle
    have hle : s.next ≤ e' := by split_ifs at hle <;> exact hle
    by_cases heq : e' = e
    · simp [heq]
    · have hnone := h.fresh e' hle
      split_ifs <;> simpa [endWirelessCheck, heq] using hnone
  · intro e' E' hE'
    have hE' : Function.update s.endpoints e none e' = some E' := by split_ifs at hE' <;> exact hE'
    exact h.rate e' E' (hleft e' E' hE').2
  · intro e' E' hE' hask
    have hE' : Function.update s.endpoints e none e' = some E' := by split_ifs at hE' <;> exact hE'
    obtain ⟨hne, hE'⟩ := hleft e' E' hE'
    split_ifs with htrigger
    · -- The endpoint ended the check, and no other had asked for it.
      have hnone := hothers (by rw [hE]; exact htrigger)
      exact absurd (h.othersAsk.2 ⟨e', E', hne, hE', hask⟩) hnone
    · exact h.active e' E' hE' hask

/-- A step that leaves the others alone keeps the invariant. -/
theorem LinkState.Asked.step (hthreshold : 1 ≤ threshold) (h : s.Asked threshold)
    (hothers : LeavesOthers s a) {o : List Empty}
    (hstep : (linkMachine threshold).step s a = .ok (s', o)) : s'.Asked threshold := by
  cases a with
  | create udp now =>
    obtain ⟨rfl, -⟩ := Prod.mk.inj (Except.ok.inj hstep)
    exact h.new hthreshold udp now
  | rtcp e buf now =>
    obtain ⟨s₁, hread, heq⟩ := bind_eq_ok.1 hstep
    obtain ⟨rfl, -⟩ := Prod.mk.inj (Except.ok.inj heq)
    exact h.rtcp hothers hread
  | rtp e now =>
    obtain ⟨s₁, hread, heq⟩ := bind_eq_ok.1 hstep
    obtain ⟨rfl, -⟩ := Prod.mk.inj (Except.ok.inj heq)
    obtain ⟨E, hE, hread⟩ := bind_eq_ok.1 hread
    have hE := getEndpoint_eq.1 hE
    obtain rfl := Except.ok.inj hread
    exact h.set (h.lt_next hE) (h.rate e E hE) (h.active e E hE) fun e' E' _ => h.active e' E'
  | timer e now =>
    obtain ⟨s₁, htime, heq⟩ := bind_eq_ok.1 hstep
    obtain ⟨rfl, -⟩ := Prod.mk.inj (Except.ok.inj heq)
    obtain ⟨E, -, htime⟩ := bind_eq_ok.1 htime
    dsimp only at htime
    split_ifs at htime
    · obtain rfl := Except.ok.inj htime
      exact ⟨h.fresh, h.rate, fun _ _ _ _ => rfl⟩
    · obtain rfl := Except.ok.inj htime
      exact h
  | delete e =>
    obtain ⟨s₁, hdelete, heq⟩ := bind_eq_ok.1 hstep
    obtain ⟨rfl, -⟩ := Prod.mk.inj (Except.ok.inj heq)
    exact h.delete hothers hdelete

/-- A report of zero loss, or a deletion, does not switch the check off while another endpoint has
asked for it. -/
def KeepsAsked (s : LinkState) (a : LinkAct) (s' : LinkState) : Prop :=
  ∀ e, a.Ends e → ∀ e' E, e' ≠ e → s.endpoints e' = some E → E.bTriggerWirelessCheck = true →
    s.chkWirelessLink = true → s'.chkWirelessLink = true

/-- A step does so exactly if it leaves the others alone. -/
theorem LinkState.Asked.keeps_iff (hthreshold : 1 ≤ threshold) (h : s.Asked threshold) {o : List Empty}
    (hstep : (linkMachine threshold).step s a = .ok (s', o)) :
    KeepsAsked s a s' ↔ LeavesOthers s a := by
  cases a with
  | create udp now => exact iff_of_true (fun e he => he.elim) trivial
  | rtp e now => exact iff_of_true (fun e he => he.elim) trivial
  | timer e now => exact iff_of_true (fun e he => he.elim) trivial
  | rtcp e buf now =>
    obtain ⟨s₁, hread, heq⟩ := bind_eq_ok.1 hstep
    obtain ⟨rfl, -⟩ := Prod.mk.inj (Except.ok.inj heq)
    constructor
    · rintro hkeeps ⟨hreport, hzero⟩ hothers
      obtain ⟨e', E', hne, hE', hask⟩ := h.othersAsk.1 hothers
      have hon := hkeeps e ⟨rfl, hreport, hzero⟩ e' E' hne hE' hask (h.active e' E' hE' hask)
      obtain ⟨E, -, hread⟩ := bind_eq_ok.1 hread
      have hsmall : ¬ threshold ≤ (buf 12).toNat := by
        rw [hzero]
        exact not_le.2 hthreshold
      rw [if_pos hreport] at hread
      dsimp only at hread
      rw [if_neg hsmall, if_pos hzero] at hread
      obtain rfl := Except.ok.inj hread
      cases hon
    · rintro hothers e₁ ⟨rfl, hreport⟩ e' E' hne hE' hask -
      exact absurd (h.othersAsk.2 ⟨e', E', hne, hE', hask⟩) (hothers hreport)
  | delete e =>
    obtain ⟨s₁, hdelete, heq⟩ := bind_eq_ok.1 hstep
    obtain ⟨rfl, -⟩ := Prod.mk.inj (Except.ok.inj heq)
    obtain ⟨E, hE, hdelete⟩ := bind_eq_ok.1 hdelete
    have hE := getEndpoint_eq.1 hE
    obtain rfl := Except.ok.inj hdelete
    constructor
    · intro hkeeps htrigger hothers
      obtain ⟨e', E', hne, hE', hask⟩ := h.othersAsk.1 hothers
      have hon := hkeeps e rfl e' E' hne hE' hask (h.active e' E' hE' hask)
      rw [hE] at htrigger
      rw [if_pos (show E.bTriggerWirelessCheck = true from htrigger)] at hon
      cases hon
    · rintro hothers e₁ rfl e' E' hne hE' hask hon
      by_cases htrigger : E.bTriggerWirelessCheck = true
      · have hnone := hothers (by rw [hE]; exact htrigger)
        exact absurd (h.othersAsk.2 ⟨e', E', hne, hE', hask⟩) hnone
      · rw [if_neg htrigger]
        exact hon

end Asked

/-- **The link check reflects all clients** as long as every report of zero loss, and every deletion of
an endpoint that asked for the check, comes while no other endpoint has asked for it: then the check is
on whenever the latest report of some endpoint is bad; and from every state so reached exactly the steps
of this kind do not switch it off while another endpoint has asked for it. -/
theorem link_run {threshold : ℕ} (hthreshold : 1 ≤ threshold ∧ threshold ≤ 255) {as : List LinkAct}
    {os : List Empty} {s : LinkState} (h : (linkMachine threshold).Run LeavesOthers as os s) :
    (∀ e E, s.endpoints e = some E → threshold ≤ E.sendDropRate.toNat → s.chkWirelessLink = true) ∧
    ∀ a s' o, (linkMachine threshold).step s a = .ok (s', o) →
      (KeepsAsked s a s' ↔ LeavesOthers s a) := by
  have hasked : s.Asked threshold := by
    refine h.invariant (LinkState.Asked threshold) (fun s hinit => ?_) ?_
    · obtain ⟨hnone, -⟩ := hinit
      constructor <;> simp [hnone]
    · intro s a s' o hasked hothers hstep
      exact hasked.step hthreshold.1 hothers hstep
  constructor
  · intro e E hE hrate
    exact hasked.active e E hE (hasked.rate e E hE hrate)
  · intro a s' o hstep
    exact hasked.keeps_iff hthreshold.1 hstep

/-- A buffer that holds a report of the loss `rate`. -/
def reportBuf (rate : UInt8) (i : ℕ) : UInt8 :=
  ([0x80, 0xc9, 0, 7, 0, 0, 0, 0, 0, 0, 0, 0, rate] : Bytes).getD i 0

/-- Two clients report a loss of 60, and then one of them none. -/
def twoReports : List LinkAct :=
  [.create true ⟨0, 0⟩, .create true ⟨0, 0⟩, .rtcp 0 (reportBuf 60) ⟨1, 0⟩,
    .rtcp 1 (reportBuf 60) ⟨1, 0⟩, .rtcp 1 (reportBuf 0) ⟨2, 0⟩]

/-- One endpoint, whose reports are bad. -/
theorem link_run_one : ∃ s, (linkMachine 50).Run LeavesOthers (twoReports.take 4) [] s ∧
    ∀ e E, s.endpoints e = some E → 50 ≤ E.sendDropRate.toNat → s.chkWirelessLink = true := by
  have hinit : (linkMachine 50).Init ⟨0, fun _ => none, false⟩ := ⟨rfl, rfl⟩
  obtain ⟨s, hrun, -⟩ : ∃ s, (linkMachine 50).Run LeavesOthers (twoReports.take 4) [] s ∧
      s.chkWirelessLink = true :=
    Machine.Run.of_exec LinkState.chkWirelessLink hinit (by decide +kernel)
  exact ⟨s, hrun, (link_run (by decide) hrun).1⟩

/-- The check is off, although the latest report of the first client is bad and it still asks. -/
theorem link_off : ∃ s E, (linkMachine 50).Run Machine.anyStep twoReports [] s ∧
    s.endpoints 0 = some E ∧ E.sendDropRate = 60 ∧ E.bTriggerWirelessCheck = true ∧
    s.chkWirelessLink = false := by
  have hinit : (linkMachine 50).Init ⟨0, fun _ => none, false⟩ := ⟨rfl, rfl⟩
  obtain ⟨s, hrun, hs⟩ : ∃ s, (linkMachine 50).Run Machine.anyStep twoReports [] s ∧
      (s.endpoints 0, s.chkWirelessLink) = (some ⟨true, 60, ⟨1, 0⟩, true⟩, false) :=
    Machine.Run.of_exec (fun s => (s.endpoints 0, s.chkWirelessLink)) hinit (by decide +kernel)
  obtain ⟨hE, hoff⟩ := Prod.mk.inj hs
  exact ⟨s, _, hrun, hE, rfl, rfl, hoff⟩

end Spook
