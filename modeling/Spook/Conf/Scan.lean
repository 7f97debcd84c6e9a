import Spook.Fault
import Spook.Lib.CString
import Spook.Lib.Lex

set_option relaxedAutoImplicit false
set_option autoImplicit false

/-!
# The scanner of the configuration

The rules of `conf_scan.l`, with the action that each of them runs, and `get_next_token`. Line
numbers are left out: they only get into messages.

## Main definitions

* `Spook.Conf.rules` — the rules.
* `Spook.Conf.Token` — `struct token`.
* `Spook.Conf.getNextToken` — one call of the scanner.
* `Spook.Conf.Lexemes`, `tokens` — what the whole file is split into.

## Main results

* `Spook.Conf.rules_total` — the rules match every byte.
* `Spook.Conf.yylex_lexemes` — a call of the scanner in terms of what the file is split into.
-/

namespace Spook.Conf

/-! ## The rules -/

/-- The actions of the rules, in their order. -/
inductive Action
  | octal
  | hexadecimal
  | decimal
  | word
  | quoted
  | whitespace
  | newline
  | comment
  | punct
  | other
  deriving DecidableEq

/-- `[0-9]`. -/
def isDigit (c : UInt8) : Bool := 48 ≤ c && c ≤ 57

/-- `[0-9a-fA-F]`. -/
def isXdigit (c : UInt8) : Bool := isDigit c || (97 ≤ c && c ≤ 102) || (65 ≤ c && c ≤ 70)

/-- `[a-zA-Z/]`. -/
def startsWord (c : UInt8) : Bool := (97 ≤ c && c ≤ 122) || (65 ≤ c && c ≤ 90) || c == 47

/-- `[a-zA-Z/0-9_\-\+@:\.%]`. -/
def inWord (c : UInt8) : Bool :=
  startsWord c || isDigit c || c == 95 || c == 45 || c == 43 || c == 64 || c == 58 || c == 46 ||
    c == 37

/-- `[^"\n]`. -/
def inQuotes (c : UInt8) : Bool := c != 34 && c != 10

/-- A quotation mark ends the string. -/
theorem not_inQuotes (c : UInt8) (h : (c == 34) = true) : inQuotes c = false := by
  rw [beq_iff_eq] at h
  rw [h]
  rfl

/-- The rules of `conf_scan.l`. -/
def rules : List (Lex.Rule UInt8 Action) :=
  [ -- 0[0-9]+
    ⟨.after (· == 48) (.plus isDigit), .octal⟩,
    -- 0x[0-9a-fA-F]+
    ⟨.after (· == 48) (.after (· == 120) (.plus isXdigit)), .hexadecimal⟩,
    -- [0-9]+
    ⟨.plus isDigit, .decimal⟩,
    -- [a-zA-Z/][a-zA-Z/0-9_\-\+@:\.%]*
    ⟨.after startsWord (.many inWord), .word⟩,
    -- "\""[^"\n]*"\""
    ⟨.after (· == 34) (.til inQuotes (· == 34) not_inQuotes), .quoted⟩,
    -- [ \t]+
    ⟨.plus fun c => c == 32 || c == 9, .whitespace⟩,
    -- "\n"
    ⟨.single (· == 10), .newline⟩,
    -- "#"[^\n]*
    ⟨.after (· == 35) (.many (· != 10)), .comment⟩,
    -- ";" | "{" | "}"
    ⟨.single fun c => c == 59 || c == 123 || c == 125, .punct⟩,
    -- .
    ⟨.single (· != 10), .other⟩ ]

/-- Every byte is matched by a rule. -/
theorem rules_total : Lex.Total rules := by
  constructor
  · intro c w
    have hone : ∀ p : UInt8 → Bool, p c = true →
        (c :: w).take 1 ∈ (Lex.Matcher.single p).lang := by
      intro p hp
      change [c] ∈ Lex.cls p * 1
      rw [Lex.cons_mem_cls_mul]
      exact ⟨hp, rfl⟩
    by_cases hc : c = 10
    · exact ⟨⟨.single (· == 10), .newline⟩, by simp [rules], 1, by simp, hone _ (by simp [hc])⟩
    · exact ⟨⟨.single (· != 10), .other⟩, by simp [rules], 1, by simp, hone _ (by simp [hc])⟩
  · intro r hr
    have hnil : ∀ (p : UInt8 → Bool) (M : Lex.Matcher UInt8), [] ∉ (Lex.Matcher.after p M).lang :=
      fun p M => Lex.nil_notMem_cls_mul
    simp only [rules, List.mem_cons, List.not_mem_nil, or_false] at hr
    rcases hr with rfl | rfl | rfl | rfl | rfl | rfl | rfl | rfl | rfl | rfl <;> exact hnil _ _

/-! ## Tokens -/

/-- `struct token`. The type of a token of punctuation is its character. -/
inductive Token
  | num (v : ℤ)
  | str (s : Bytes)
  | semicolon
  | lbrace
  | rbrace
  deriving DecidableEq

/-- The value of a digit. -/
def digitVal (c : UInt8) : ℕ :=
  if isDigit c then c.toNat - 48
  else if 97 ≤ c && c ≤ 102 then c.toNat - 87
  else if 65 ≤ c && c ≤ 70 then c.toNat - 55
  else 36

/-- `strtol` of a text of digits, with a `long` of 32 bits. -/
def strtol (base : ℕ) (text : Bytes) : ℤ :=
  min 2147483647
    ((text.takeWhile fun c => digitVal c < base).foldl (fun n c => n * base + digitVal c) 0 : ℕ)

/-- The size of `v.str`. -/
def tokenSize : ℕ := 256

/-- Copying `text` into `v.str`, where it ends at the first NUL. -/
def copyStr (text : Bytes) : Except Fault Token :=
  if text.length < tokenSize then .ok (.str (cstr text)) else .error .overrun

/-- The action of a rule on `yytext`: what is returned, if the scanner does not go on. -/
def Action.run (text : Bytes) : Action → Except Fault (Option Token)
  | .octal => .ok (some (.num (strtol 8 text.tail)))
  | .hexadecimal => .ok (some (.num (strtol 16 (text.drop 2))))
  | .decimal => .ok (some (.num (strtol 10 text)))
  | .word => (copyStr text).map some
  | .quoted => (copyStr (text.tail.take (text.length - 2))).map some
  | .punct =>
    if text = [59] then .ok (some .semicolon)
    else if text = [123] then .ok (some .lbrace)
    else .ok (some .rbrace)
  | .whitespace | .newline | .comment | .other => .ok none

/-- What `yylex` returns: a type above zero with the token stored, `0` or `-1`. -/
inductive Lexed
  | token (tok : Token)
  | eof
  | error

/-- `yylex`, at most `n` rules: what it returns, and the rest of the file. -/
def yylex : ℕ → Bytes → Except Fault (Lexed × Bytes)
  | 0, _ => .error .loop
  | n + 1, w =>
    match Lex.scan rules w with
    | none => .ok (.eof, w)
    | some (len, action) => do
      match ← action.run (w.take len) with
      | some tok => return (.token tok, w.drop len)
      | none => if action = .other then return (.error, w.drop len) else yylex n (w.drop len)

/-- `get_next_token`. Every rule takes a byte or more. -/
def getNextToken (w : Bytes) : Except Fault (Lexed × Bytes) := yylex (w.length + 1) w

/-! ## Whole files -/

/-- A match of a rule, with its action. -/
abbrev Lexeme := Action × Bytes

/-- The file `w` is split into `ls` by the rules. -/
abbrev Lexemes (w : Bytes) (ls : List Lexeme) : Prop := Lex.Splits rules w ls

/-- The scanner goes on behind the lexeme: a rule but the last one matches it, and if it is a string
it fits into a token. -/
def Lexeme.Good (l : Lexeme) : Prop := l.1 ≠ .other ∧ ∃ o, l.1.run l.2 = .ok o

/-- The token of a lexeme, if it is one. A string of 256 bytes or more gives none, as its rule writes
outside of its token; `Lexeme.Good` excludes it. -/
def Lexeme.token (l : Lexeme) : Option Token :=
  match l.1.run l.2 with
  | .ok o => o
  | .error _ => none

/-- The tokens of a file. Of lexemes that are not all good, those that are no tokens or do not fit into
one are left out. -/
def tokens (ls : List Lexeme) : List Token := ls.filterMap Lexeme.token

/-- What the scanner returns next, and the lexemes behind it. -/
def nextLexed : List Lexeme → Except Fault (Lexed × List Lexeme)
  | [] => .ok (.eof, [])
  | l :: ls => do
    match ← l.1.run l.2 with
    | some tok => return (.token tok, ls)
    | none => if l.1 = .other then return (.error, ls) else nextLexed ls

/-- A call of the scanner does the same in the file and in what it is split into. -/
inductive SameLexed (ls : List Lexeme) :
    Except Fault (Lexed × Bytes) → Except Fault (Lexed × List Lexeme) → Prop
  | fault (e : Fault) : SameLexed ls (.error e) (.error e)
  | ok (r : Lexed) {w : Bytes} {ls' : List Lexeme} : Lexemes w ls' →
      (∀ tok, r = .token tok → ls'.length < ls.length) → SameLexed ls (.ok (r, w)) (.ok (r, ls'))

/-- A call of the scanner, which may try more rules than there are lexemes left. -/
theorem yylex_lexemes {w : Bytes} {ls : List Lexeme} (h : Lexemes w ls) {n : ℕ}
    (hn : ls.length < n) : SameLexed ls (yylex n w) (nextLexed ls) := by
  induction h generalizing n with
  | nil =>
    obtain ⟨n, rfl⟩ := Nat.exists_eq_succ_of_ne_zero (by omega : n ≠ 0)
    have hscan : Lex.scan rules [] = none := by decide +kernel
    unfold yylex nextLexed
    rw [hscan]
    refine .ok .eof .nil fun tok htok => ?_
    cases htok
  | @cons w len action ls hlong hpos hrest ih =>
    obtain ⟨n, rfl⟩ := Nat.exists_eq_succ_of_ne_zero (by omega : n ≠ 0)
    unfold yylex nextLexed
    rw [Lex.scan_eq_some_iff.2 hlong]
    dsimp only
    rcases action.run (w.take len) with e | _ | tok
    · exact .fault e
    · simp only [ok_bind]
      split_ifs with hother
      · refine .ok .error hrest fun tok htok => ?_
        cases htok
      · have hsame := ih (Nat.lt_of_succ_lt_succ hn)
        generalize yylex n (w.drop len) = x at hsame ⊢
        generalize nextLexed ls = y at hsame ⊢
        cases hsame with
        | fault e => exact .fault e
        | ok r hw hlen =>
          exact .ok r hw fun tok htok => (hlen tok htok).trans (Nat.lt_succ_self _)
    · exact .ok (.token tok) hrest fun _ _ => Nat.lt_succ_self _

/-- A file has no more lexemes than bytes. -/
theorem Lexemes.length_le {w : Bytes} {ls : List Lexeme} (h : Lexemes w ls) :
    ls.length ≤ w.length := by
  induction h with
  | nil => exact le_rfl
  | @cons w len action ls hlong hpos hrest ih =>
    obtain ⟨-, -, -, -, -, hlen, -⟩ := hlong
    rw [List.length_drop] at ih
    simp only [List.length_cons]
    omega

end Spook.Conf
