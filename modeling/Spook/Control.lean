import Spook.Lib.Buffer
import Spook.Log

set_option relaxedAutoImplicit false
set_option autoImplicit false

/-!
# The control socket

`print_session_list` of `session.c` and `do_read` of `control.c`, which sends the list of sessions
to whoever asks for it. The bytes of the array of `do_read` are unknown until they are written. The
argument `maxlen` is not looked at.

## Main definitions

* `Spook.Control.printSessionList` — `print_session_list`.
* `Spook.Control.doRead` — `do_read`, for the command that it has read.
* `Spook.Control.Fits` — the lists of sessions that fit an array.

## Main results

* `Spook.Control.listing_bounded_iff` — which lists of sessions are listed without harm.
-/

namespace Spook.Control

open Printf

/-! ## The functions -/

/-- `addr` and `open_time.tv_sec` of a session. -/
structure Listed where
  addr : Bytes
  openTime : ℤ

/-- `sprintf` at a place of an array: the array, and the length of the text. -/
def sprintf (s : List (Option UInt8)) (i : ℕ) (fmt : Bytes) (args : List Arg) :
    Except Fault (List (Option UInt8) × ℕ) := do
  let text ← printed fmt args
  let s ← storeIn .overrun s i ((text ++ [0]).map some)
  .ok (s, text.length)

/-- The loop of `print_session_list`. -/
def printLoop : List Listed → List (Option UInt8) → ℕ →
    Except Fault (List (Option UInt8) × ℕ)
  | [], s, i => .ok (s, i)
  | sess :: next, s, i => do
    let (s, n) ← sprintf s i (str "%s %ld\n") [.str sess.addr, .int sess.openTime]
    printLoop next s (i + n)

/-- `print_session_list`: the array, and the length that is returned. -/
def printSessionList (sessList : List Listed) (s : List (Option UInt8)) (_maxlen : ℕ) :
    Except Fault (List (Option UInt8) × ℕ) :=
  printLoop sessList s 0

/-- `do_read`: what it sends for the command `c`. -/
def doRead (sessList : List Listed) (c : UInt8) : Except Fault (List (Option UInt8)) := do
  let sent ←
    if c = 97 then do
      let (output, n) ← printSessionList sessList (List.replicate 2048 none) 2048
      loadIn .overread output 0 n
    else if c = 108 then .ok []
    else .ok ((str "unknown command\n").map some)
  .ok (sent ++ (str ".\n").map some)

/-! ## Lines -/

/-- The line of a session. -/
def line (sess : Listed) : Bytes :=
  cstr sess.addr ++ (32 :: (decimalInt (Int.bmod sess.openTime (2 ^ 32)) ++ [10]))

/-- The bytes of the lines. -/
def total (sessList : List Listed) : ℕ := (sessList.map fun sess => (line sess).length).sum

/-- The lines fit, with the NUL behind the last one. -/
def Fits (sessList : List Listed) (n : ℕ) : Prop := sessList = [] ∨ total sessList + 1 ≤ n

/-- What is before `i` was written. -/
def Written (s : List (Option UInt8)) (i : ℕ) : Prop := ∀ b ∈ s.take i, b ≠ none

/-- The session list is written within `maxlen` bytes, and what `do_read` sends was written. -/
def Bounded (sessList : List Listed) (maxlen : ℕ) : Prop :=
  (∃ p, printSessionList sessList (List.replicate maxlen none) maxlen = .ok p) ∧
    ∀ c, ∃ sent, doRead sessList c = .ok sent ∧ ∀ b ∈ sent, b ≠ none

section Lines

variable {sess : Listed} {sessList : List Listed} {s s' : List (Option UInt8)} {i j maxlen : ℕ}

/-- What `sprintf` prints for a session. -/
theorem printed_session :
    printed (str "%s %ld\n") [.str sess.addr, .int sess.openTime] = .ok (line sess) := by
  have hparse : parse (str "%s %ld\n") =
      some [.spec ⟨[], .num 0, none, [], 115⟩, .lit 32, .spec ⟨[], .num 0, none, [108], 100⟩,
        .lit 10] := by rfl
  have hrender : render [.spec ⟨[], .num 0, none, [], 115⟩, .lit 32,
      .spec ⟨[], .num 0, none, [108], 100⟩, .lit 10] [.str sess.addr, .int sess.openTime] =
        (Layout.integer ⟨[], 0, none⟩ 100 32 sess.openTime).map
          (cstr sess.addr ++ 32 :: · ++ [10]) := by
    simp [render, Spec.layout, Count.value, Spec.convert, bits, Layout.integer, Layout.string,
      Layout.pad]
  rw [printed, format, hparse, Option.bind_some, hrender, integer_plain]
  simp [line]

/-- A line is written where it fits. -/
theorem sprintf_session (hi : i ≤ s.length) :
    (∀ p, sprintf s i (str "%s %ld\n") [.str sess.addr, .int sess.openTime] = .ok p →
        i + (line sess).length + 1 ≤ s.length) ∧
      (i + (line sess).length + 1 ≤ s.length → Written s i →
        ∃ s', sprintf s i (str "%s %ld\n") [.str sess.addr, .int sess.openTime] =
            .ok (s', (line sess).length) ∧ s'.length = s.length ∧
          Written s' (i + (line sess).length)) := by
  have hlength : ((line sess ++ [0]).map some).length = (line sess).length + 1 := by simp
  rw [sprintf, printed_session, ok_bind]
  constructor
  · intro p hp
    obtain ⟨s', hs', -⟩ := bind_eq_ok.1 hp
    have hfits := (storeIn_ok_iff _ _ _ _).1 ⟨s', hs'⟩
    omega
  · intro hfits hwritten
    obtain ⟨s', hs'⟩ := (storeIn_ok_iff Fault.overrun s ((line sess ++ [0]).map some) i).2
      (by omega)
    refine ⟨s', ?_, length_storeIn hs', ?_⟩
    · rw [hs']
      rfl
    · obtain rfl := storeIn_eq hs'
      have htake : (s.take i).length = i := List.length_take_of_le hi
      intro b hb
      rw [List.take_append, htake, Nat.add_sub_cancel_left, List.take_of_length_le (by omega)] at hb
      rcases List.mem_append.1 hb with hb | hb
      · exact hwritten b hb
      · rw [List.take_append_of_le_length (by omega), ← List.map_take] at hb
        obtain ⟨x, -, rfl⟩ := List.mem_map.1 hb
        nofun

/-- **The loop.** It stays in the array if and only if the lines that are left fit behind `i`, and
then it has written up to the length that it returns. -/
theorem printLoop_spec (hi : i ≤ s.length) (hwritten : Written s i) :
    ((∃ p, printLoop sessList s i = .ok p) ↔
        sessList = [] ∨ i + total sessList + 1 ≤ s.length) ∧
      ∀ s' j, printLoop sessList s i = .ok (s', j) →
        s'.length = s.length ∧ j ≤ s.length ∧ Written s' j := by
  induction sessList generalizing s i with
  | nil =>
    refine ⟨iff_of_true ⟨_, rfl⟩ (.inl rfl), fun s' j h => ?_⟩
    obtain ⟨rfl, rfl⟩ := Prod.mk.inj (Except.ok.inj h)
    exact ⟨rfl, hi, hwritten⟩
  | cons sess next ih =>
    have htotal : total (sess :: next) = (line sess).length + total next := rfl
    have hnil : next = [] → total next = 0 := fun heq => by rw [heq]; rfl
    obtain ⟨hout, hin⟩ := @sprintf_session sess s i hi
    rw [printLoop]
    by_cases hfits : i + (line sess).length + 1 ≤ s.length
    · obtain ⟨s₁, hs₁, hlength, hwritten₁⟩ := hin hfits hwritten
      rw [hs₁, ok_bind]
      obtain ⟨hiff, hspec⟩ := ih (show i + (line sess).length ≤ s₁.length by omega) hwritten₁
      rw [hlength] at hiff hspec
      refine ⟨hiff.trans ⟨fun h => .inr ?_, fun h => .inr ?_⟩, hspec⟩
      · rcases h with h | h
        · rw [htotal, hnil h]
          omega
        · omega
      · have h := h.resolve_left nofun
        omega
    · have hfault : ∀ p, ¬ (do
          let (s, n) ← sprintf s i (str "%s %ld\n") [.str sess.addr, .int sess.openTime]
          printLoop next s (i + n)) = .ok p := by
        intro p hp
        obtain ⟨q, hq, -⟩ := bind_eq_ok.1 hp
        exact hfits (hout q hq)
      refine ⟨iff_of_false ?_ ?_, fun s' j h => absurd h (hfault _)⟩
      · rintro ⟨p, hp⟩
        exact hfault p hp
      · rintro (h | h)
        · cases h
        · omega

/-- An array of which nothing was written. -/
theorem printSessionList_spec (sessList : List Listed) (maxlen : ℕ) :
    ((∃ p, printSessionList sessList (List.replicate maxlen none) maxlen = .ok p) ↔
        Fits sessList maxlen) ∧
      ∀ s' j, printSessionList sessList (List.replicate maxlen none) maxlen = .ok (s', j) →
        s'.length = maxlen ∧ j ≤ maxlen ∧ Written s' j := by
  have hnothing : Written (List.replicate maxlen none) 0 := fun b hb => absurd hb List.not_mem_nil
  have hspec := @printLoop_spec sessList (List.replicate maxlen none) 0 (Nat.zero_le _) hnothing
  rw [List.length_replicate, Nat.zero_add] at hspec
  exact hspec

/-- What `do_read` sends was written, if the lines fit its array. -/
theorem doRead_spec (h : Fits sessList 2048) (c : UInt8) :
    ∃ sent, doRead sessList c = .ok sent ∧ ∀ b ∈ sent, b ≠ none := by
  have hsome : ∀ (t : Bytes), ∀ b ∈ t.map some, b ≠ none := by
    intro t b hb
    obtain ⟨x, -, rfl⟩ := List.mem_map.1 hb
    nofun
  have happend : ∀ {sent : List (Option UInt8)}, (∀ b ∈ sent, b ≠ none) →
      ∀ b ∈ sent ++ (str ".\n").map some, b ≠ none := by
    intro sent hsent b hb
    exact (List.mem_append.1 hb).elim (hsent b) (hsome _ b)
  unfold doRead
  by_cases hlist : c = 97
  · obtain ⟨hiff, hspec⟩ := printSessionList_spec sessList 2048
    obtain ⟨⟨output, n⟩, hprint⟩ := hiff.2 h
    obtain ⟨hlength, hn, hwritten⟩ := hspec _ _ hprint
    have hload : loadIn Fault.overread output 0 n = .ok (output.take n) := if_pos (by omega)
    rw [if_pos hlist, hprint, ok_bind]
    dsimp only
    rw [hload]
    exact ⟨_, rfl, happend hwritten⟩
  · rw [if_neg hlist]
    split_ifs
    · exact ⟨_, rfl, happend fun b hb => absurd hb List.not_mem_nil⟩
    · exact ⟨_, rfl, happend (hsome _)⟩

/-- The list command, when the lines do not fit the array of `do_read`. -/
theorem doRead_fits (h : ∃ sent, doRead sessList 97 = .ok sent) : Fits sessList 2048 := by
  obtain ⟨sent, h⟩ := h
  obtain ⟨p, hp, -⟩ := bind_eq_ok.1 h
  exact (printSessionList_spec sessList 2048).1.1 ⟨p, hp⟩

end Lines

/-- **The listing is bounded** if and only if the lines fit, in what the caller of
`print_session_list` gives and in the array of `do_read`. -/
theorem listing_bounded_iff (sessList : List Listed) (maxlen : ℕ) :
    Bounded sessList maxlen ↔ Fits sessList maxlen ∧ Fits sessList 2048 := by
  constructor
  · rintro ⟨hprint, hread⟩
    obtain ⟨sent, hsent, -⟩ := hread 97
    exact ⟨(printSessionList_spec sessList maxlen).1.1 hprint, doRead_fits ⟨sent, hsent⟩⟩
  · rintro ⟨hfits, hread⟩
    exact ⟨(printSessionList_spec sessList maxlen).1.2 hfits, doRead_spec hread⟩

/-- The sessions of 71 clients are too many. -/
theorem sessions_overrun :
    ¬ Bounded (List.replicate 71 ⟨str "IP4 192.168.100.100", 1700000000⟩) 2048 := by
  have hline : (line ⟨str "IP4 192.168.100.100", 1700000000⟩).length = 31 := by decide +kernel
  rintro ⟨hprint, -⟩
  rcases (printSessionList_spec _ 2048).1.1 hprint with hnil | hle
  · cases hnil
  · rw [total, List.map_replicate, List.sum_replicate_nat, hline] at hle
    exact absurd hle (by decide)

end Spook.Control
