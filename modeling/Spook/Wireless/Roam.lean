import Mathlib.Algebra.Order.Ring.Int
import Spook.Lib.Machine
import Spook.Wireless.BestAp

set_option relaxedAutoImplicit false
set_option autoImplicit false

/-!
# Roaming

`c_do_wireless_check_handler` of `wireless_check.c` measures the signal while sending is stopped or
the link is to be checked. While sending goes on, a lost link or a better access point makes it
connect at once; while sending is stopped it counts the bad checks, and only the fourth one goes on to
connect. The static counter, the two flags and the time of the next check are the state, the clock and
the driver are parameters of a call, and `long` has 32 bits.

## Main definitions

* `Spook.Roam`, `WirelessEnv`, `RoamCall` — the state, what a call finds, and what it did.
* `Spook.cDoWirelessCheckHandler` — a call.
* `Spook.roamMachine` — calls in any order with the switching of the link check.
* `Spook.Spaced` — bad checks lie between two connections.

## Main results

* `Spook.cDoWirelessCheckHandler_cases` — what a call can do.
* `Spook.roam_run` — the laws of every run.
-/

namespace Spook

/-- The settings that the check reads. -/
structure WifiConfig where
  ssid : Bytes
  quality : ℤ
  diff : ℤ
  quality_mem : 0 ≤ quality ∧ quality ≤ 100 := by decide
  diff_mem : 0 ≤ diff ∧ diff ≤ 255 := by decide

/-- `g_bStopSend`, `g_bChkWirelessLink`, `nNextChkTime` and `nCurChkTimes`. -/
structure Roam where
  stopSend : Bool
  chkWirelessLink : Bool
  nextChkTime : ℕ
  curChkTimes : ℕ

/-- What a call finds: `get_tickcount` at its test and at its end, the signal, the address of the
current access point if it can be read, and the scan. -/
structure WirelessEnv where
  tick : ℕ
  tickEnd : ℕ
  quality : UInt8
  apAddr : Option Bytes
  scan : Except ℤ (List RtApInfo)

/-- What a call did: `g_bStopSend` before and behind it, the signal if it measured one, whether it
issued `connect2ssid`, and with which address `connect2newap`. -/
structure RoamCall where
  before : Bool
  after : Bool
  measured : Option UInt8
  ssid : Bool
  newAp : Option Bytes
  deriving DecidableEq

/-- `TIME_LESS`. -/
def timeLess (a b : ℕ) : Prop := 2 ^ 31 ≤ (a + (2 ^ 32 - b % 2 ^ 32)) % 2 ^ 32

instance (a b : ℕ) : Decidable (timeLess a b) :=
  inferInstanceAs (Decidable (2 ^ 31 ≤ (a + (2 ^ 32 - b % 2 ^ 32)) % 2 ^ 32))

section Handler

variable (cfg : WifiConfig)

/-- `nMaxChkTimes`. -/
def maxChkTimes : ℕ := 4

/-- The first two steps of a check: the new state, `bConnect2ssid` and `delay`. -/
def linkStep (quality : UInt8) (s : Roam) : Roam × Bool × ℕ :=
  if quality = 0 then
    if s.stopSend then
      let s := { s with curChkTimes := s.curChkTimes + 1 }
      if maxChkTimes ≤ s.curChkTimes then (s, true, 0) else (s, false, 100)
    else (s, true, 0)
  else if cfg.quality ≤ (quality.toNat : ℤ) then
    ({ s with curChkTimes := 0, stopSend := false }, false, 100)
  else if s.stopSend then
    let s := { s with curChkTimes := s.curChkTimes + 1 }
    if maxChkTimes ≤ s.curChkTimes then (s, false, 0) else (s, false, 50)
  else (s, false, 0)

/-- The third step: the new `bConnect2ssid`, and the new address if `bConnect2NewAp` is set. -/
def apStep (env : WirelessEnv) (bConnect2ssid : Bool) : Except Fault (Bool × Option Bytes) :=
  match if env.quality ≠ 0 then env.apAddr else none with
  | none => .ok (true, none)
  | some addr => do
    let (ret, addr) ← getBestapBySsid env.scan addr cfg.ssid cfg.diff
    return if 0 < ret then (true, some addr) else (bConnect2ssid, none)

/-- `c_do_wireless_check_handler`. -/
def cDoWirelessCheckHandler (env : WirelessEnv) (s : Roam) : Except Fault (Roam × RoamCall) :=
  if (s.stopSend ∨ s.chkWirelessLink) ∧ timeLess s.nextChkTime env.tick then
    let (s₁, bConnect2ssid, delay) := linkStep cfg env.quality s
    if delay ≠ 0 then
      .ok ({ s₁ with nextChkTime := (env.tickEnd + delay) % 2 ^ 32 },
        ⟨s.stopSend, s₁.stopSend, some env.quality, false, none⟩)
    else do
      let (bConnect2ssid, newAp) ← apStep cfg env bConnect2ssid
      let stopSend := s₁.stopSend || bConnect2ssid || newAp.isSome
      let delay := if newAp.isSome then 200 else 100
      return ({ s₁ with curChkTimes := 0, stopSend, nextChkTime := (env.tickEnd + delay) % 2 ^ 32 },
        ⟨s.stopSend, stopSend, some env.quality, bConnect2ssid, newAp⟩)
  else .ok (s, ⟨s.stopSend, s.stopSend, none, false, none⟩)

/-- A step: a call, or `begin_wireless_check` and `end_wireless_check` of other code. -/
inductive RoamAct
  | call (env : WirelessEnv)
  | beginCheck
  | endCheck

/-- Calls in any order with the switching of the link check. -/
def roamMachine : Machine Roam RoamAct RoamCall Fault where
  Init s := s.stopSend = false ∧ s.chkWirelessLink = false ∧ s.curChkTimes = 0
  step s a :=
    match a with
    | .call env => do
      let (s, c) ← cDoWirelessCheckHandler cfg env s
      return (s, [c])
    | .beginCheck => .ok ({ s with chkWirelessLink := true }, [])
    | .endCheck => .ok ({ s with chkWirelessLink := false }, [])

end Handler

/-! ## One call -/

section Call

variable {cfg : WifiConfig} {env : WirelessEnv} {s s' : Roam} {c : RoamCall}

/-- A signal of zero or below the threshold. -/
def BadSignal (cfg : WifiConfig) (quality : UInt8) : Prop :=
  quality = 0 ∨ (quality.toNat : ℤ) < cfg.quality

instance (quality : UInt8) : Decidable (BadSignal cfg quality) :=
  inferInstanceAs (Decidable (quality = 0 ∨ (quality.toNat : ℤ) < cfg.quality))

/-- A call that measured a bad signal. -/
def RoamCall.bad (cfg : WifiConfig) (c : RoamCall) : Bool :=
  c.measured.any fun quality => BadSignal cfg quality

/-- What the first two steps leave. -/
inductive LinkStep (cfg : WifiConfig) (quality : UInt8) (s : Roam) : Roam × Bool × ℕ → Prop
  /-- The signal is good. -/
  | good {d : ℕ} (hq : ¬ BadSignal cfg quality) (hd : d ≠ 0) :
      LinkStep cfg quality s ({ s with curChkTimes := 0, stopSend := false }, false, d)
  /-- A bad signal while sending is stopped, and not yet the last one. -/
  | waits {d : ℕ} (hq : BadSignal cfg quality) (hstop : s.stopSend = true) (hd : d ≠ 0) :
      LinkStep cfg quality s ({ s with curChkTimes := s.curChkTimes + 1 }, false, d)
  /-- A bad signal that is acted on. -/
  | acts {n : ℕ} {b : Bool} (hq : BadSignal cfg quality)
      (hstop : s.stopSend = true → maxChkTimes ≤ s.curChkTimes + 1) :
      LinkStep cfg quality s ({ s with curChkTimes := n }, b, 0)

/-- What a call does about the quality of the link. -/
theorem linkStep_cases (cfg : WifiConfig) (quality : UInt8) (s : Roam) :
    LinkStep cfg quality s (linkStep cfg quality s) := by
  unfold linkStep
  by_cases hzero : quality = 0
  · rw [if_pos hzero]
    by_cases hstop : s.stopSend
    · rw [if_pos hstop]
      dsimp only
      split_ifs with hmax
      · exact .acts (.inl hzero) fun _ => hmax
      · exact .waits (.inl hzero) hstop (by decide)
    · rw [if_neg hstop]
      exact .acts (.inl hzero) fun h => absurd h hstop
  rw [if_neg hzero]
  by_cases hgood : cfg.quality ≤ (quality.toNat : ℤ)
  · rw [if_pos hgood]
    refine .good (fun hbad => ?_) (by decide)
    rcases hbad with h | h
    · exact hzero h
    · omega
  · have hlow : BadSignal cfg quality := .inr (by omega)
    rw [if_neg hgood]
    by_cases hstop : s.stopSend
    · rw [if_pos hstop]
      dsimp only
      split_ifs with hmax
      · exact .acts hlow fun _ => hmax
      · exact .waits hlow hstop (by decide)
    · rw [if_neg hstop]
      exact .acts hlow fun h => absurd h hstop

/-- The third step sets `bConnect2NewAp` only with `bConnect2ssid`. -/
theorem apStep_newAp {b b' : Bool} {newAp : Option Bytes} (h : apStep cfg env b = .ok (b', newAp))
    (hnew : newAp.isSome) : b' = true := by
  unfold apStep at h
  split at h
  · cases h
    rfl
  · obtain ⟨⟨ret, addr⟩, -, h⟩ := bind_eq_ok.1 h
    dsimp only at h
    split_ifs at h
    · cases h
      rfl
    · cases h
      cases hnew

/-- What a call can do. -/
inductive CallDoes (cfg : WifiConfig) (s : Roam) : Roam → RoamCall → Prop
  /-- It is not time for a check. -/
  | idle : CallDoes cfg s s ⟨s.stopSend, s.stopSend, none, false, none⟩
  /-- The signal is good. -/
  | good {q : UInt8} {t : ℕ} (hq : ¬ BadSignal cfg q) :
      CallDoes cfg s { s with curChkTimes := 0, stopSend := false, nextChkTime := t }
        ⟨s.stopSend, false, some q, false, none⟩
  /-- A bad check is counted. -/
  | waits {q : UInt8} {t : ℕ} (hq : BadSignal cfg q) (hstop : s.stopSend = true) :
      CallDoes cfg s { s with curChkTimes := s.curChkTimes + 1, nextChkTime := t }
        ⟨s.stopSend, s.stopSend, some q, false, none⟩
  /-- A bad check is acted on, which may issue `connect2ssid`. -/
  | acts {q : UInt8} {t : ℕ} {ssid : Bool} {newAp : Option Bytes} (hq : BadSignal cfg q)
      (hstop : s.stopSend = true → maxChkTimes ≤ s.curChkTimes + 1)
      (hnew : newAp.isSome → ssid = true) :
      CallDoes cfg s { s with curChkTimes := 0, stopSend := s.stopSend || ssid, nextChkTime := t }
        ⟨s.stopSend, s.stopSend || ssid, some q, ssid, newAp⟩

/-- What a call does. -/
theorem cDoWirelessCheckHandler_cases (h : cDoWirelessCheckHandler cfg env s = .ok (s', c)) :
    CallDoes cfg s s' c := by
  unfold cDoWirelessCheckHandler at h
  split_ifs at h with hdue
  · have hlink := linkStep_cases cfg env.quality s
    generalize linkStep cfg env.quality s = r at h hlink
    obtain ⟨s₁, b, d⟩ := r
    dsimp only at h
    cases hlink with
    | good hq hd =>
      rw [if_pos hd] at h
      cases h
      exact .good hq
    | waits hq hstop hd =>
      rw [if_pos hd] at h
      cases h
      exact .waits hq hstop
    | acts hq hstop =>
      rw [if_neg (by simp)] at h
      obtain ⟨⟨ssid, newAp⟩, hap, h⟩ := bind_eq_ok.1 h
      have hnew := apStep_newAp hap
      have hstop' : (s.stopSend || ssid || newAp.isSome) = (s.stopSend || ssid) := by
        cases newAp with
        | none => simp
        | some addr => simp [hnew rfl]
      dsimp only at h
      rw [hstop'] at h
      cases h
      exact .acts hq hstop hnew
  · cases h
    exact .idle

/-- A call has no fault. -/
theorem cDoWirelessCheckHandler_ok (cfg : WifiConfig) (env : WirelessEnv) (s : Roam) :
    ∃ r, cDoWirelessCheckHandler cfg env s = .ok r := by
  have hap : ∀ b, ∃ r, apStep cfg env b = .ok r := by
    intro b
    unfold apStep
    split
    · exact ⟨_, rfl⟩
    · rename_i addr _
      cases env.scan with
      | error ret => exact ⟨_, rfl⟩
      | ok aps =>
        obtain ⟨ret, addr', hret, -⟩ := getBestapBySsid_answer cfg.diff_mem.1 aps
        exact ⟨_, by rw [hret]; rfl⟩
  unfold cDoWirelessCheckHandler
  split_ifs
  · dsimp only
    split_ifs
    · exact ⟨_, rfl⟩
    · obtain ⟨r, hr⟩ := hap (linkStep cfg env.quality s).2.1
      exact ⟨_, by rw [hr]; rfl⟩
  · exact ⟨_, rfl⟩

end Call

/-! ## All calls of a run -/

section Run

variable {cfg : WifiConfig} {s s' : Roam} {c : RoamCall} {as : List RoamAct} {cs : List RoamCall}

/-- `c` is a call behind `cs`, and between any earlier connection of `cs`, behind which sending was
stopped throughout, and `c` there were at least `n` bad checks, with that of `c`. -/
def BadSince (cfg : WifiConfig) (n : ℕ) (cs : List RoamCall) (c : RoamCall) : Prop :=
  ∀ pre c₁ mid, cs = pre ++ c₁ :: mid → c₁.ssid = true → (∀ c ∈ mid, c.after = true) →
    n ≤ (mid ++ [c]).countP (RoamCall.bad cfg)

/-- Between two connections with sending stopped throughout there are at least four bad checks, with
that of the second. -/
def Spaced (cfg : WifiConfig) (cs : List RoamCall) : Prop :=
  ∀ pre c post, cs = pre ++ c :: post → c.ssid = true → BadSince cfg maxChkTimes pre c

/-- One call more. -/
theorem spaced_concat (h : Spaced cfg cs) (hc : c.ssid = true → BadSince cfg maxChkTimes cs c) :
    Spaced cfg (cs ++ [c]) := by
  intro pre c₂ post hsplit hssid
  rcases List.eq_nil_or_concat post with rfl | ⟨post, last, rfl⟩
  · obtain ⟨rfl, hlast⟩ := List.append_inj' hsplit rfl
    obtain rfl := List.singleton_inj.1 hlast
    exact hc hssid
  · rw [List.concat_eq_append, ← List.cons_append, ← List.append_assoc] at hsplit
    obtain ⟨rfl, -⟩ := List.append_inj' hsplit rfl
    exact h pre c₂ post rfl hssid

/-- What holds of each single call. -/
structure RoamCall.Lawful (cfg : WifiConfig) (c : RoamCall) : Prop where
  stops : c.before = false → c.after = true → c.ssid = true
  resumes : c.before = true → c.after = false →
    ∃ q, c.measured = some q ∧ cfg.quality ≤ (q.toNat : ℤ)
  newAp : c.newAp.isSome → c.ssid = true

/-- Every call keeps to the rules. -/
theorem CallDoes.lawful (h : CallDoes cfg s s' c) : c.Lawful cfg := by
  cases h with
  | idle => exact ⟨fun h h' => by simp_all, fun h h' => by simp_all, fun h => by cases h⟩
  | @good q t hq =>
    have hle : cfg.quality ≤ (q.toNat : ℤ) := Int.not_lt.1 fun hlt => hq (.inr hlt)
    refine ⟨fun _ h => ?_, fun _ _ => ⟨q, rfl, hle⟩, fun h => ?_⟩
    · cases h
    · cases h
  | waits hq hstop => exact ⟨fun h h' => by simp_all, fun h h' => by simp_all, fun h => by cases h⟩
  | acts hq hstop hnew =>
    refine ⟨fun h h' => ?_, fun h h' => ?_, hnew⟩
    · dsimp only at h h'
      rwa [h, Bool.false_or] at h'
    · dsimp only at h h'
      rw [h, Bool.true_or] at h'
      cases h'

/-- What a call finds. -/
theorem CallDoes.before_eq (h : CallDoes cfg s s' c) : c.before = s.stopSend := by
  cases h <;> rfl

/-- What a call leaves. -/
theorem CallDoes.after_eq (h : CallDoes cfg s s' c) : s'.stopSend = c.after := by
  cases h <;> rfl

/-- A connection stops sending and sets the counter to zero. -/
theorem CallDoes.connects (h : CallDoes cfg s s' c) (hssid : c.ssid = true) :
    s'.stopSend = true ∧ s'.curChkTimes = 0 := by
  cases h with
  | idle => cases hssid
  | good hq => cases hssid
  | waits hq hstop => cases hssid
  | acts hq hmax hnew =>
    dsimp only at hssid ⊢
    rw [hssid, Bool.or_true]
    exact ⟨rfl, rfl⟩

/-- A connection while sending is stopped is a bad check, and the counter makes four with it. -/
theorem CallDoes.fourth (h : CallDoes cfg s s' c) (hstop : s.stopSend = true) (hssid : c.ssid = true) :
    c.bad cfg = true ∧ maxChkTimes ≤ s.curChkTimes + 1 := by
  cases h with
  | idle => cases hssid
  | good hq => cases hssid
  | waits hq hstop => cases hssid
  | acts hq hmax hnew => exact ⟨by simp [RoamCall.bad, hq], hmax hstop⟩

/-- While sending is stopped the counter goes up with a bad check alone. -/
theorem CallDoes.counter (h : CallDoes cfg s s' c) (hstop : c.after = true) :
    s'.curChkTimes ≤ s.curChkTimes + [c].countP (RoamCall.bad cfg) := by
  cases h with
  | idle => exact Nat.le_add_right _ _
  | good hq => cases hstop
  | waits hq _ => simp [RoamCall.bad, hq]
  | acts hq hmax hnew => exact Nat.zero_le _

/-- `g_bStopSend` behind some calls, of which it is false before the first. -/
def stopBehind (cs : List RoamCall) : Bool := (cs.getLast?.map RoamCall.after).getD false

/-- The last call decides. -/
theorem stopBehind_concat (cs : List RoamCall) (c : RoamCall) : stopBehind (cs ++ [c]) = c.after := by
  simp [stopBehind]

/-- The state behind some calls: the counter counts no more than the bad checks since any connection
behind which sending was stopped throughout. -/
structure RoamHistory (cfg : WifiConfig) (cs : List RoamCall) (s : Roam) : Prop where
  lawful : ∀ c ∈ cs, c.Lawful cfg
  flag : s.stopSend = stopBehind cs
  linked : ∀ pre c post, cs = pre ++ c :: post → c.before = stopBehind pre
  spaced : Spaced cfg cs
  counts : ∀ pre c₁ mid, cs = pre ++ c₁ :: mid → c₁.ssid = true → (∀ c ∈ mid, c.after = true) →
    s.stopSend = true ∧ s.curChkTimes ≤ mid.countP (RoamCall.bad cfg)

/-- One call more. -/
theorem RoamHistory.call (h : RoamHistory cfg cs s) (hdoes : CallDoes cfg s s' c) :
    RoamHistory cfg (cs ++ [c]) s' := by
  constructor
  · intro c' hc'
    rcases List.mem_append.1 hc' with hc' | hc'
    · exact h.lawful c' hc'
    · rw [List.mem_singleton.1 hc']
      exact hdoes.lawful
  · rw [stopBehind_concat, hdoes.after_eq]
  · intro pre c' post hsplit
    rcases List.eq_nil_or_concat post with rfl | ⟨post, last, rfl⟩
    · obtain ⟨rfl, hlast⟩ := List.append_inj' hsplit rfl
      obtain rfl := List.singleton_inj.1 hlast
      rw [hdoes.before_eq, h.flag]
    · rw [List.concat_eq_append, ← List.cons_append, ← List.append_assoc] at hsplit
      exact h.linked pre c' post (List.append_inj' hsplit rfl).1
  · refine spaced_concat h.spaced fun hssid pre c₁ mid hsplit hc₁ hmid => ?_
    obtain ⟨hstop, hle⟩ := h.counts pre c₁ mid hsplit hc₁ hmid
    obtain ⟨hbad, hfour⟩ := hdoes.fourth hstop hssid
    rw [List.countP_append, List.countP_singleton, if_pos hbad]
    omega
  · intro pre c₁ mid hsplit hc₁ hmid
    rcases List.eq_nil_or_concat mid with rfl | ⟨mid, last, rfl⟩
    · -- The connection is this call.
      obtain ⟨-, hlast⟩ := List.append_inj' hsplit rfl
      obtain rfl := List.singleton_inj.1 hlast
      obtain ⟨hstop, hzero⟩ := hdoes.connects hc₁
      exact ⟨hstop, by rw [hzero]; exact Nat.zero_le _⟩
    · -- The connection is an earlier one.
      rw [List.concat_eq_append] at hsplit hmid ⊢
      rw [← List.cons_append, ← List.append_assoc] at hsplit
      obtain ⟨hcs, hlast⟩ := List.append_inj' hsplit rfl
      obtain rfl := List.singleton_inj.1 hlast
      have hafter : c.after = true := hmid c (List.mem_append_right _ (List.mem_singleton_self _))
      have hle := (h.counts pre c₁ mid hcs hc₁ fun c hc => hmid c (List.mem_append_left _ hc)).2
      have hcounter := hdoes.counter hafter
      rw [List.countP_append]
      exact ⟨hdoes.after_eq.trans hafter, by omega⟩

end Run

/-- **Roaming.** In every run the flag is what the calls made it. Sending is stopped only by a call
that issued `connect2ssid`, and goes on only by one that measured a good signal; `connect2newap` is
issued with `connect2ssid` alone; and two connections with sending stopped throughout have at least
four bad checks between them, with that of the second. -/
theorem roam_run {cfg : WifiConfig} {as : List RoamAct} {cs : List RoamCall} {s : Roam}
    (h : (roamMachine cfg).Run Machine.anyStep as cs s) :
    s.stopSend = stopBehind cs ∧
    (∀ pre c post, cs = pre ++ c :: post → c.before = stopBehind pre) ∧
    (∀ c ∈ cs, (c.before = false → c.after = true → c.ssid = true) ∧
      (c.before = true → c.after = false → ∃ q, c.measured = some q ∧ cfg.quality ≤ (q.toNat : ℤ)) ∧
      (c.newAp.isSome → c.ssid = true)) ∧
    ∀ pre c₁ mid c₂ post, cs = pre ++ c₁ :: mid ++ c₂ :: post → c₁.ssid = true → c₂.ssid = true →
      (∀ c ∈ mid, c.after = true) → 4 ≤ (mid ++ [c₂]).countP (RoamCall.bad cfg) := by
  have hhistory : RoamHistory cfg cs s := by
    refine h.history (fun _ cs s => RoamHistory cfg cs s) (fun s hinit => ?_) ?_
    · refine ⟨fun c hc => (nomatch hc), hinit.1, fun pre c post hsplit => ?_,
        fun pre c post hsplit => ?_, fun pre c mid hsplit => ?_⟩
      · simp at hsplit
      · simp at hsplit
      · simp at hsplit
    · intro _ cs s a s' o hcs _ hstep
      cases a with
      | call env =>
        obtain ⟨⟨s₁, c⟩, hcall, hstep⟩ := bind_eq_ok.1 hstep
        obtain ⟨rfl, rfl⟩ := Prod.mk.inj (Except.ok.inj hstep)
        exact hcs.call (cDoWirelessCheckHandler_cases hcall)
      | beginCheck =>
        obtain ⟨rfl, rfl⟩ := Prod.mk.inj (Except.ok.inj hstep)
        rw [List.append_nil]
        exact ⟨hcs.lawful, hcs.flag, hcs.linked, hcs.spaced, hcs.counts⟩
      | endCheck =>
        obtain ⟨rfl, rfl⟩ := Prod.mk.inj (Except.ok.inj hstep)
        rw [List.append_nil]
        exact ⟨hcs.lawful, hcs.flag, hcs.linked, hcs.spaced, hcs.counts⟩
  refine ⟨hhistory.flag, hhistory.linked, fun c hc => ?_,
    fun pre c₁ mid c₂ post hsplit hc₁ hc₂ hmid => ?_⟩
  · have hc := hhistory.lawful c hc
    exact ⟨hc.stops, hc.resumes, hc.newAp⟩
  · exact hhistory.spaced (pre ++ c₁ :: mid) c₂ post hsplit hc₂ pre c₁ mid rfl hc₁ hmid

/-- The settings of a camera without a configuration. -/
def wifiDefaults : WifiConfig where
  ssid := str "zycamera"
  quality := 70
  diff := 1

/-- The link check is begun, and the access point is lost for five checks. -/
def outage : List RoamAct :=
  .beginCheck :: [1000, 2000, 3000, 4000, 5000].map fun tick => .call ⟨tick, tick, 0, none, .error (-1)⟩

/-- What the five checks do. -/
def outageCalls : List RoamCall :=
  [⟨false, true, some 0, true, none⟩, ⟨true, true, some 0, false, none⟩,
    ⟨true, true, some 0, false, none⟩, ⟨true, true, some 0, false, none⟩,
    ⟨true, true, some 0, true, none⟩]

/-- Four bad readings, a change of the access point, and again. -/
theorem roam_run_outage :
    (∃ s, (roamMachine wifiDefaults).Run Machine.anyStep outage outageCalls s) ∧
    ∀ pre c₁ mid c₂ post, outageCalls = pre ++ c₁ :: mid ++ c₂ :: post → c₁.ssid = true →
      c₂.ssid = true → (∀ c ∈ mid, c.after = true) →
      4 ≤ (mid ++ [c₂]).countP (RoamCall.bad wifiDefaults) := by
  have hinit : (roamMachine wifiDefaults).Init ⟨false, false, 0, 0⟩ := ⟨rfl, rfl, rfl⟩
  obtain ⟨s, hrun, -⟩ : ∃ s, (roamMachine wifiDefaults).Run Machine.anyStep outage outageCalls s ∧
      s.stopSend = true :=
    Machine.Run.of_exec Roam.stopSend hinit (by decide +kernel)
  exact ⟨⟨s, hrun⟩, (roam_run hrun).2.2.2⟩

end Spook
