import Spook.Fault
import Spook.Lib.Printf

set_option relaxedAutoImplicit false
set_option autoImplicit false

/-!
# The log

`spook_log` of `log.c`. It puts the time and the format of its caller together to a new format,
expands that to a line, and passes the line to `printf`, as a format again.

## Main definitions

* `Spook.spookLog` — `spook_log`.
* `Spook.logLine` — the line that is to be printed.

## Main results

* `Spook.log_printed_iff` — when the line is printed as it is.
-/

namespace Spook

open Printf

/-! ## The function -/

/-- The texts in `month`. -/
def month : Fin 12 → Bytes
  | 0 => str "Jan"
  | 1 => str "Feb"
  | 2 => str "Mar"
  | 3 => str "Apr"
  | 4 => str "May"
  | 5 => str "Jun"
  | 6 => str "Jul"
  | 7 => str "Aug"
  | 8 => str "Sep"
  | 9 => str "Oct"
  | 10 => str "Nov"
  | 11 => str "Dec"

/-- What `localtime_r` gives. -/
structure Tm where
  mon : Fin 12
  mday : ℤ
  hour : ℤ
  min : ℤ
  sec : ℤ

/-- A text that a format has, or else nothing is known. -/
def printed (fmt : Bytes) (args : List Arg) : Except Fault Bytes :=
  match format fmt args with
  | some text => .ok text
  | none => .error .badFormat

/-- The arguments in front of the format of the caller. -/
def headArgs (tm : Tm) (spookpid : ℤ) : List Arg :=
  [.str (month tm.mon), .int tm.mday, .int tm.hour, .int tm.min, .int tm.sec, .int spookpid]

/-- `spook_log`: what it prints. -/
def spookLog (spookpid minlevel : ℤ) (tm : Tm) (level : ℤ) (fmt : Bytes) (args : List Arg) :
    Except Fault Bytes :=
  if level < minlevel then .ok []
  else do
    let newfmt ← printed (str "%s %2d %02d:%02d:%02d spook[%d]: %s\n")
      (headArgs tm spookpid ++ [.str fmt])
    if newfmt.length + 1 ≤ 512 then do
      let text ← printed (cstr newfmt) args
      let line := text.take 1023
      printed (cstr line) []
    else .error .overrun

/-! ## The line -/

/-- What comes before the text. -/
def logHead (tm : Tm) (spookpid : ℤ) : Bytes :=
  (format (str "%s %2d %02d:%02d:%02d spook[%d]: ") (headArgs tm spookpid)).getD []

/-- The line with a text. -/
def logLine (tm : Tm) (spookpid : ℤ) (text : Bytes) : Bytes := logHead tm spookpid ++ (text ++ [10])

section Line

variable {tm : Tm} {spookpid minlevel level : ℤ} {fmt text : Bytes} {args : List Arg}
  {ps : List Piece}

/-- The pieces before the text. -/
def headPieces : List Piece :=
  [.spec ⟨[], .num 0, none, [], 115⟩, .lit 32, .spec ⟨[], .num 2, none, [], 100⟩, .lit 32,
    .spec ⟨[48], .num 2, none, [], 100⟩, .lit 58, .spec ⟨[48], .num 2, none, [], 100⟩, .lit 58,
    .spec ⟨[48], .num 2, none, [], 100⟩] ++ (str " spook[").map .lit ++
    [.spec ⟨[], .num 0, none, [], 100⟩] ++ (str "]: ").map .lit

/-- The pieces of the head of a line. -/
theorem parse_head : parse (str "%s %2d %02d:%02d:%02d spook[%d]: ") = some headPieces := by rfl

/-- The pieces of the whole line. -/
theorem parse_whole : parse (str "%s %2d %02d:%02d:%02d spook[%d]: %s\n") =
    some (headPieces ++ [.spec ⟨[], .num 0, none, [], 115⟩, .lit 10]) := by rfl

/-- The head of a line as text. -/
theorem render_head :
    render headPieces (headArgs tm spookpid) = some (logHead tm spookpid) := by
  obtain ⟨head, hhead⟩ : ∃ head, render headPieces (headArgs tm spookpid) = some head := ⟨_, rfl⟩
  rw [logHead, format, parse_head, Option.bind_some, hhead]
  rfl

/-- Whatever the time is, no percent sign is printed before the text. -/
theorem quiet_logHead : Quiet (logHead tm spookpid) := by
  refine (quiet_render_iff render_head fun c hc => ?_).2 ?_
  · obtain ⟨hpercent, hmem⟩ := lit_of_parseFrom parse_head hc
    exact ⟨hpercent, (show NulFree (str _) by decide +kernel) c hmem⟩
  · have hmonth : ∀ mon, (37 : UInt8) ∉ cstr (month mon) := by decide +kernel
    simp [Plain, headPieces, headArgs, Spec.layout, Count.value, Spec.Plain, str, Layout.string,
      hmonth]

/-- The new format: what comes before the text, and the format of the caller. -/
theorem printed_newfmt : printed (str "%s %2d %02d:%02d:%02d spook[%d]: %s\n")
    (headArgs tm spookpid ++ [.str fmt]) = .ok (logLine tm spookpid (cstr fmt)) := by
  have hrender : render (headPieces ++ [.spec ⟨[], .num 0, none, [], 115⟩, .lit 10])
      (headArgs tm spookpid ++ [.str fmt]) =
        (render headPieces (headArgs tm spookpid)).map (· ++ (cstr fmt ++ [10])) := by
    simp [render, headPieces, headArgs, Spec.layout, Count.value, Spec.convert, bits,
      Layout.integer, str, Layout.string, Layout.pad]
  rw [printed, format, parse_whole, Option.bind_some, hrender, render_head]
  rfl

/-- The head and the line feed have no percent sign. -/
theorem quiet_logLine_iff : Quiet (logLine tm spookpid text) ↔ Quiet text := by
  unfold logLine
  simp [quiet_logHead]

/-- The new format is a string. -/
theorem cstr_newfmt : cstr (logLine tm spookpid (cstr fmt)) = logLine tm spookpid (cstr fmt) := by
  refine cstr_of_nulFree fun x hx => ?_
  rcases List.mem_append.1 hx with hx | hx
  · exact (quiet_logHead x hx).2
  rcases List.mem_append.1 hx with hx | hx
  · exact cstr_nulFree fmt x hx
  · rw [List.mem_singleton.1 hx]
    decide

/-- The line that the new format gives with the arguments of the caller. -/
theorem printed_line (hparse : parse (cstr fmt) = some ps) (htext : render ps args = some text) :
    printed (logLine tm spookpid (cstr fmt)) args = .ok (logLine tm spookpid text) := by
  have hhead : parse (logHead tm spookpid) = some ((logHead tm spookpid).map .lit) :=
    parse_of_not_mem fun hmem => (quiet_logHead 37 hmem).1 rfl
  have hnewline : parse [10] = some [.lit 10] := rfl
  have hlast : render (ps ++ [.lit 10]) args = some (text ++ [10]) := render_append htext [10]
  rw [printed, format, logLine, parse_append hhead, parse_append hparse, hnewline]
  simp only [Option.map_some, Option.bind_some]
  rw [render_lit, hlast]
  rfl

/-- **What `spook_log` prints.** A line that is shorter than the buffer is printed as it is if and
only if its format is short enough and nothing in it is taken for a conversion. -/
theorem log_printed_iff (hlevel : minlevel ≤ level) (hparse : parse (cstr fmt) = some ps)
    (htext : render ps args = some text) (hline : (logLine tm spookpid text).length < 1024) :
    spookLog spookpid minlevel tm level fmt args = .ok (logLine tm spookpid text) ↔
      (logHead tm spookpid).length + (cstr fmt).length + 2 ≤ 512 ∧ Plain ps args := by
  have hlength : (logLine tm spookpid (cstr fmt)).length + 1 =
      (logHead tm spookpid).length + (cstr fmt).length + 2 := by
    simp only [logLine, List.length_append, List.length_singleton]
    omega
  have hlit : ∀ c, .lit c ∈ ps → c ≠ 37 ∧ c ≠ 0 := by
    intro c hc
    obtain ⟨hpercent, hmem⟩ := lit_of_parseFrom hparse hc
    exact ⟨hpercent, cstr_nulFree fmt c hmem⟩
  have hself : printed (cstr (logLine tm spookpid text)) [] = .ok (logLine tm spookpid text) ↔
      Plain ps args := by
    rw [← quiet_render_iff htext hlit, ← @quiet_logLine_iff tm spookpid text,
      ← format_self_iff, printed]
    cases format (cstr (logLine tm spookpid text)) [] <;> simp
  rw [spookLog, if_neg (not_lt.2 hlevel), printed_newfmt, ok_bind, hlength]
  by_cases hfits : (logHead tm spookpid).length + (cstr fmt).length + 2 ≤ 512
  · rw [if_pos hfits, cstr_newfmt, printed_line hparse htext, ok_bind,
      List.take_of_length_le (by omega), and_iff_right hfits]
    exact hself
  · rw [if_neg hfits]
    exact iff_of_false nofun fun h => hfits h.1

end Line

/-- A time. -/
def noon : Tm := ⟨4, 17, 12, 0, 0⟩

/-- The URI of a client is taken for a format. -/
theorem uri_conversion :
    (format (str "client request: '%s' '%s' '%s'")
      [.str (str "GET"), .str (str "/%s"), .str (str "HTTP/1.1")]).isSome = true ∧
    spookLog 42 1 noon 1 (str "client request: '%s' '%s' '%s'")
      [.str (str "GET"), .str (str "/%s"), .str (str "HTTP/1.1")] = .error .badFormat :=
  ⟨by decide +kernel, of_faultOf (by decide +kernel)⟩

/-- A request without a percent sign. -/
theorem log_printed_iff_request :
    spookLog 42 1 noon 1 (str "%s") [.str (str "GET")] =
      .ok (str "May 17 12:00:00 spook[42]: GET\n") := by
  have hparse : parse (cstr (str "%s")) = some [.spec ⟨[], .num 0, none, [], 115⟩] := by rfl
  have htext : render [.spec ⟨[], .num 0, none, [], 115⟩] [.str (str "GET")] = some (str "GET") := by
    rfl
  have hline : logLine noon 42 (str "GET") = str "May 17 12:00:00 spook[42]: GET\n" := by
    decide +kernel
  have hplain : Plain [.spec ⟨[], .num 0, none, [], 115⟩] [.str (str "GET")] :=
    ⟨show (37 : UInt8) ∉ cstr (str "GET") by decide +kernel, trivial⟩
  have hprinted : spookLog 42 1 noon 1 (str "%s") [.str (str "GET")] =
      .ok (logLine noon 42 (str "GET")) :=
    (log_printed_iff le_rfl hparse htext (by rw [hline]; decide +kernel)).2
      ⟨by decide +kernel, hplain⟩
  rwa [hline] at hprinted

end Spook
