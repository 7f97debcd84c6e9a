import Spook.Fault
import Spook.Lib.CString

set_option relaxedAutoImplicit false
set_option autoImplicit false

/-!
# The best access point

`get_bestap_by_ssid` of `wireless_check.c` looks through the records of a scan for an access point that
is better than the current one by more than a threshold, for which `config_wifi_signal_diff` takes a
number from 0 to 255. The requests to the driver are a parameter; what is only logged is left out.

## Main definitions

* `Spook.RtApInfo` — `RT_AP_INFO`, with a name that ends within its field.
* `Spook.getBestapBySsid` — the search.
* `Spook.currentSignal` — the signal of the current access point.

## Main results

* `Spook.apLoop_searched` — what the loop knows of the records it has passed.
* `Spook.getBestapBySsid_spec` — when a better access point is found, and which one.
-/

namespace Spook

/-! ## The search -/

/-- The size of the field `ssid`. -/
def ssidSize : ℕ := 33

/-- `RT_AP_INFO`. The driver ends the name within its field. -/
structure RtApInfo where
  bssid : Bytes
  ssid : Bytes
  rssi : UInt8
  length_bssid : bssid.length = 6 := by decide
  length_ssid : ssid.length = ssidSize := by decide
  ends : (0 : UInt8) ∈ ssid := by decide

/-- `strcmp(ssid, ap.ssid) == 0`. -/
def RtApInfo.Named (ssid : Bytes) (ap : RtApInfo) : Prop := cstr ap.ssid = ssid

instance (ssid : Bytes) (ap : RtApInfo) : Decidable (ap.Named ssid) :=
  inferInstanceAs (Decidable (cstr ap.ssid = ssid))

/-- The locals of the search. `best_ap_num` is not set at first. -/
structure ApSearch where
  bestApNum : Option ℕ
  bestSingal : ℤ
  curApSignal : ℤ

/-- The locals before the loop. -/
def ApSearch.start : ApSearch := ⟨none, -256, -256⟩

/-- One turn of the loop of `get_bestap_by_ssid`. -/
def apTurn (ssid szCurApAddr : Bytes) (v : ApSearch) (num : ℕ) (ap : RtApInfo) : ApSearch :=
  if ap.Named ssid then
    let v := if ap.bssid = szCurApAddr then { v with curApSignal := (ap.rssi.toNat : ℤ) } else v
    if v.bestSingal ≤ (ap.rssi.toNat : ℤ) then
      { v with bestApNum := some num, bestSingal := (ap.rssi.toNat : ℤ) }
    else v
  else v

/-- The loop of `get_bestap_by_ssid` over the records from `num` on. -/
def apLoop (ssid szCurApAddr : Bytes) : ApSearch → ℕ → List RtApInfo → ApSearch
  | v, _, [] => v
  | v, num, ap :: aps => apLoop ssid szCurApAddr (apTurn ssid szCurApAddr v num ap) (num + 1) aps

/-- `get_bestap_by_ssid`, with the new `szCurApAddr`. The requests to the driver give the records, or
the value that the function then returns. -/
def getBestapBySsid (scan : Except ℤ (List RtApInfo)) (szCurApAddr ssid : Bytes)
    (diffThreshold : ℤ) : Except Fault (ℤ × Bytes) :=
  match scan with
  | .error ret => .ok (ret, szCurApAddr)
  | .ok rtAp =>
    let v := apLoop ssid szCurApAddr .start 0 rtAp
    if v.curApSignal + diffThreshold < v.bestSingal then
      -- An index that is not set points anywhere.
      match v.bestApNum.bind (rtAp[·]?) with
      | none => .error .wildPointer
      | some ap => .ok (1, ap.bssid)
    else .ok (0, szCurApAddr)

/-! ## What is found -/

section Search

variable {ssid addr : Bytes} {aps : List RtApInfo}

/-- The signal of the current access point: what its last record under the name says, or -256. -/
def currentSignal (ssid addr : Bytes) (aps : List RtApInfo) : ℤ :=
  match (aps.filter fun ap => ap.Named ssid ∧ ap.bssid = addr).getLast? with
  | some ap => (ap.rssi.toNat : ℤ)
  | none => -256

/-- If all records of the current access point agree, their signal is the one it has. -/
theorem currentSignal_eq {ap : RtApInfo} (hap : ap ∈ aps) (hnamed : ap.Named ssid)
    (haddr : ap.bssid = addr)
    (hsame : ∀ ap' ∈ aps, ap'.Named ssid → ap'.bssid = addr → ap'.rssi = ap.rssi) :
    currentSignal ssid addr aps = (ap.rssi.toNat : ℤ) := by
  unfold currentSignal
  cases hlast : (aps.filter fun ap => ap.Named ssid ∧ ap.bssid = addr).getLast? with
  | none =>
    have hnil := List.getLast?_eq_none_iff.1 hlast
    have hmem : ap ∈ aps.filter fun ap => ap.Named ssid ∧ ap.bssid = addr := by
      simp [hap, hnamed, haddr]
    rw [hnil] at hmem
    cases hmem
  | some ap' =>
    have hmem := List.mem_filter.1 (List.mem_of_getLast? hlast)
    obtain ⟨hnamed', haddr'⟩ := of_decide_eq_true hmem.2
    dsimp only
    rw [hsame ap' hmem.1 hnamed' haddr']

/-- An access point that is not listed under the name. -/
theorem currentSignal_none (h : ∀ ap ∈ aps, ap.Named ssid → ap.bssid ≠ addr) :
    currentSignal ssid addr aps = -256 := by
  have hnil : (aps.filter fun ap => ap.Named ssid ∧ ap.bssid = addr) = [] := by
    rw [List.filter_eq_nil_iff]
    intro ap hap hmatch
    obtain ⟨hnamed, haddr⟩ := of_decide_eq_true hmatch
    exact h ap hap hnamed haddr
  rw [currentSignal, hnil]
  rfl

/-- The last entry of the current access point counts. -/
theorem currentSignal_concat (ap : RtApInfo) : currentSignal ssid addr (aps ++ [ap]) =
    if ap.Named ssid ∧ ap.bssid = addr then (ap.rssi.toNat : ℤ) else currentSignal ssid addr aps := by
  unfold currentSignal
  by_cases h : ap.Named ssid ∧ ap.bssid = addr
  · simp [List.filter_append, h]
  · rw [if_neg h, List.filter_append, List.filter_singleton, decide_eq_false h]
    simp

/-- What the locals say of the records that the loop has passed. -/
structure ApSearch.Knows (v : ApSearch) (ssid addr : Bytes) (aps : List RtApInfo) : Prop where
  current : v.curApSignal = currentSignal ssid addr aps
  low : -256 ≤ v.bestSingal
  unset : v.bestApNum = none → v.bestSingal = -256
  best : ∀ num, v.bestApNum = some num →
    ∃ ap, aps[num]? = some ap ∧ ap.Named ssid ∧ v.bestSingal = (ap.rssi.toNat : ℤ)
  max : ∀ ap ∈ aps, ap.Named ssid → (ap.rssi.toNat : ℤ) ≤ v.bestSingal

/-- Nothing has been looked at. -/
theorem ApSearch.knows_start (ssid addr : Bytes) : ApSearch.start.Knows ssid addr [] where
  current := rfl
  low := Int.le_refl _
  unset _ := rfl
  best num h := by cases h
  max ap h := by cases h

/-- What one turn of the loop adds.

**Proof sketch.** By the name of the entry and by its signal. An entry with the name of the network
may be the current access point, whose signal is noted, and becomes the best one if its signal is
not below the best; all others change nothing. -/
theorem ApSearch.Knows.turn {v : ApSearch} (h : v.Knows ssid addr aps) (ap : RtApInfo) :
    (apTurn ssid addr v aps.length ap).Knows ssid addr (aps ++ [ap]) := by
  have hold : ∀ (num : ℕ) ap', aps[num]? = some ap' → (aps ++ [ap])[num]? = some ap' := by
    intro num ap' hget
    obtain ⟨hlt, -⟩ := List.getElem?_eq_some_iff.1 hget
    rwa [List.getElem?_append_left hlt]
  have hnew : (aps ++ [ap])[aps.length]? = some ap := by simp
  unfold apTurn
  by_cases hnamed : ap.Named ssid
  · rw [if_pos hnamed]
    -- The signal of the current access point comes first.
    set w := if ap.bssid = addr then { v with curApSignal := (ap.rssi.toNat : ℤ) } else v with hw
    have hcurrent : w.curApSignal = currentSignal ssid addr (aps ++ [ap]) := by
      rw [currentSignal_concat, hw, ← h.current]
      split_ifs with haddr hboth hboth
      · rfl
      · exact absurd ⟨hnamed, haddr⟩ hboth
      · exact absurd hboth.2 haddr
      · rfl
    have hbest : w.bestSingal = v.bestSingal := by
      rw [hw]
      split_ifs <;> rfl
    have hnum : w.bestApNum = v.bestApNum := by
      rw [hw]
      split_ifs <;> rfl
    dsimp only
    split_ifs with hle
    · rw [hbest] at hle
      refine ⟨hcurrent, by dsimp only; omega, fun hnone => (nomatch hnone), fun num heq => ?_, ?_⟩
      · obtain rfl := Option.some.inj heq
        exact ⟨ap, hnew, hnamed, rfl⟩
      · intro ap' hap' hnamed'
        rcases List.mem_append.1 hap' with hap' | hap'
        · exact Int.le_trans (h.max ap' hap' hnamed') hle
        · obtain rfl := List.mem_singleton.1 hap'
          exact Int.le_refl _
    · rw [hbest] at hle
      refine ⟨hcurrent, hbest ▸ h.low, fun hnone => hbest ▸ h.unset (hnum ▸ hnone),
        fun num heq => ?_, ?_⟩
      · obtain ⟨ap', hget, hnamed', hsignal⟩ := h.best num (hnum ▸ heq)
        exact ⟨ap', hold num ap' hget, hnamed', hbest.trans hsignal⟩
      · intro ap' hap' hnamed'
        rw [hbest]
        rcases List.mem_append.1 hap' with hap' | hap'
        · exact h.max ap' hap' hnamed'
        · rw [List.mem_singleton.1 hap']
          omega
  · rw [if_neg hnamed]
    refine ⟨?_, h.low, h.unset, fun num heq => ?_, fun ap' hap' hnamed' => ?_⟩
    · rw [currentSignal_concat, if_neg fun hboth => hnamed hboth.1]
      exact h.current
    · obtain ⟨ap', hget, hrest⟩ := h.best num heq
      exact ⟨ap', hold num ap' hget, hrest⟩
    · rcases List.mem_append.1 hap' with hap' | hap'
      · exact h.max ap' hap' hnamed'
      · rw [List.mem_singleton.1 hap'] at hnamed'
        exact absurd hnamed' hnamed

/-- The loop knows all the records. -/
theorem apLoop_searched (rest : List RtApInfo) {v : ApSearch} (h : v.Knows ssid addr aps) :
    (apLoop ssid addr v aps.length rest).Knows ssid addr (aps ++ rest) := by
  induction rest generalizing v aps with
  | nil =>
    rw [List.append_nil]
    exact h
  | cons ap rest ih =>
    have hrest := ih (h.turn ap)
    rw [List.length_append, List.append_assoc] at hrest
    exact hrest

/-- What `get_bestap_by_ssid` answers to the records of a scan. -/
structure BestAnswer (ssid addr : Bytes) (diff : ℤ) (aps : List RtApInfo) (ret : ℤ) (addr' : Bytes) :
    Prop where
  better : ret = 1 ↔
    ∃ ap ∈ aps, ap.Named ssid ∧ currentSignal ssid addr aps + diff < (ap.rssi.toNat : ℤ)
  stored : ret = 1 → ∃ ap ∈ aps, ap.Named ssid ∧ addr' = ap.bssid ∧
    ∀ ap' ∈ aps, ap'.Named ssid → ap'.rssi ≤ ap.rssi
  unchanged : ret ≠ 1 → ret = 0 ∧ addr' = addr

/-- The search has an answer. -/
theorem getBestapBySsid_answer {diff : ℤ} (hdiff : 0 ≤ diff) (aps : List RtApInfo) :
    ∃ ret addr', getBestapBySsid (.ok aps) addr ssid diff = .ok (ret, addr') ∧
      BestAnswer ssid addr diff aps ret addr' := by
  have hknows := apLoop_searched aps (ApSearch.knows_start ssid addr)
  rw [List.nil_append, List.length_nil] at hknows
  have hlow : -256 ≤ currentSignal ssid addr aps := by
    unfold currentSignal
    split <;> omega
  unfold getBestapBySsid
  dsimp only
  set v := apLoop ssid addr .start 0 aps
  rw [hknows.current]
  split_ifs with hbetter
  · cases hnum : v.bestApNum with
    | none =>
      -- The index is set, as the best signal is not the one it begins with.
      have hunset := hknows.unset hnum
      omega
    | some num =>
      obtain ⟨ap, hget, hnamed, hsignal⟩ := hknows.best num hnum
      have hmem : ap ∈ aps := List.mem_of_getElem? hget
      rw [Option.bind_some, hget]
      refine ⟨1, ap.bssid, rfl, iff_of_true rfl ⟨ap, hmem, hnamed, hsignal ▸ hbetter⟩, fun _ => ?_,
        fun hne => absurd rfl hne⟩
      refine ⟨ap, hmem, hnamed, rfl, fun ap' hap' hnamed' => ?_⟩
      have hle := hknows.max ap' hap' hnamed'
      rw [hsignal] at hle
      exact UInt8.le_iff_toNat_le.2 (by omega)
  · refine ⟨0, addr, rfl, iff_of_false (by decide) ?_, fun h => absurd h (by decide), fun _ => ⟨rfl, rfl⟩⟩
    rintro ⟨ap, hap, hnamed, hlt⟩
    have hle := hknows.max ap hap hnamed
    omega

end Search

/-- **The best access point.** For every scan, `get_bestap_by_ssid` uses no index that is not set; it
returns 1 exactly if an access point of the name is better than the current one by more than the
threshold, with the address of one that is best, and else 0 with the address as it was. -/
theorem getBestapBySsid_spec (aps : List RtApInfo) (addr ssid : Bytes) {diff : ℤ}
    (hdiff : 0 ≤ diff ∧ diff ≤ 255) :
    ∃ ret addr', getBestapBySsid (.ok aps) addr ssid diff = .ok (ret, addr') ∧
      (ret = 1 ↔
        ∃ ap ∈ aps, ap.Named ssid ∧ currentSignal ssid addr aps + diff < (ap.rssi.toNat : ℤ)) ∧
      (ret = 1 → ∃ ap ∈ aps, ap.Named ssid ∧ addr' = ap.bssid ∧
        ∀ ap' ∈ aps, ap'.Named ssid → ap'.rssi ≤ ap.rssi) ∧
      (ret ≠ 1 → ret = 0 ∧ addr' = addr) := by
  obtain ⟨ret, addr', hret, hanswer⟩ := getBestapBySsid_answer hdiff.1 aps
  exact ⟨ret, addr', hret, hanswer.better, hanswer.stored, hanswer.unchanged⟩

/-- A record of a scan. -/
def apRecord (last : UInt8) (rssi : UInt8) : RtApInfo where
  bssid := [0, 0, 0, 0, 0, last]
  ssid := str "zycamera" ++ List.replicate 25 0
  rssi := rssi
  length_bssid := rfl
  ends := by decide +kernel

/-- The current access point and two better ones with the same signal. -/
def tiedAps : List RtApInfo := [apRecord 1 50, apRecord 2 80, apRecord 3 80]

/-- Two access points with the same signal. -/
theorem getBestapBySsid_spec_tied : ∃ ret addr',
    getBestapBySsid (.ok tiedAps) [0, 0, 0, 0, 0, 1] (str "zycamera") 1 = .ok (ret, addr') ∧
      (ret = 1 ↔ ∃ ap ∈ tiedAps, ap.Named (str "zycamera") ∧
        currentSignal (str "zycamera") [0, 0, 0, 0, 0, 1] tiedAps + 1 < (ap.rssi.toNat : ℤ)) ∧
      (ret = 1 → ∃ ap ∈ tiedAps, ap.Named (str "zycamera") ∧ addr' = ap.bssid ∧
        ∀ ap' ∈ tiedAps, ap'.Named (str "zycamera") → ap'.rssi ≤ ap.rssi) ∧
      (ret ≠ 1 → ret = 0 ∧ addr' = [0, 0, 0, 0, 0, 1]) :=
  getBestapBySsid_spec tiedAps [0, 0, 0, 0, 0, 1] (str "zycamera") (by decide)

/-- The last of the best is taken. -/
example : getBestapBySsid (.ok tiedAps) [0, 0, 0, 0, 0, 1] (str "zycamera") 1 =
    .ok (1, [0, 0, 0, 0, 0, 3]) := by
  decide +kernel

end Spook
