import Spook.Conf.Scan

set_option relaxedAutoImplicit false
set_option autoImplicit false

/-!
# The configuration parser

`read_config_file` with the contexts that are registered, and the grammar of its files. Messages are
left out. What `process` returns is ignored by the code, and what it does is nothing to the parser;
the calls of the functions of the contexts are logged.

## Main definitions

* `Spook.Conf.Config` — the contexts with their statements.
* `Spook.Conf.parseToken`, `readConfigFile` — the parser.
* `Spook.Conf.Body`, `Items`, `Config.Accepts` — the grammar.

## Main results

* `Spook.Conf.isStatement_iff` — `process_statement` finds the statements of the grammar.
* `Spook.Conf.run_items` — the parser takes the tokens of the grammar.
-/

namespace Spook.Conf

/-! ## Contexts -/

/-- The types of arguments. -/
inductive ArgType
  | num
  | str
  deriving DecidableEq

/-- The type of a token that can be an argument. -/
def Token.argType : Token → Option ArgType
  | .num _ => some .num
  | .str _ => some .str
  | .semicolon | .lbrace | .rbrace => none

/-- `struct statement`. -/
structure Statement where
  directive : Bytes
  minArgs : ℕ
  maxArgs : ℕ
  types : List ArgType

/-- `struct config_context`: whether it has a `start_block` and an `end_block`. -/
structure Context where
  type : Bytes
  name : Bytes
  startBlock : Bool
  endBlock : Bool
  statements : List Statement

/-- `global_statements`, and the contexts behind `global_context`. -/
structure Config where
  globalStatements : List Statement
  contexts : List Context

/-- What the functions of the contexts return: whether the `start_block` of the block of each number
returns a pointer that is not null, and whether its `end_block` succeeds. -/
structure Blocks where
  starts : ℕ → Bool
  ends : ℕ → Bool

/-- A call: of `process` with some tokens, or of `end_block`; and that a block was entered, whose
context has an `end_block` or not. -/
inductive Call
  | process (t : List Token)
  | entered (block : ℕ) (endBlock : Bool)
  | ended (block : ℕ)
  deriving DecidableEq

/-! ## The parser -/

/-- Whether the loop of `process_statement` stops at a statement. -/
def Statement.fits (s : Statement) (directive : Bytes) (args : List Token) : Bool :=
  strCaseEq s.directive directive && s.minArgs ≤ args.length && args.length ≤ s.maxArgs &&
    args.map Token.argType == (s.types.take args.length).map some

/-- `process_statement`: whether it finds a statement. -/
def processStatement (S : List Statement) : List Token → Bool
  | .str directive :: args => S.any fun s => s.fits directive args
  | _ => false

/-- The local variables of `read_config_file`: the tokens below `cur_token`, and `cc`, where `none`
is `&global_context`; with the number of blocks so far and the calls. -/
structure ConfState where
  t : List Token
  cc : Option Context
  blocks : ℕ
  calls : List Call

/-- The number of tokens that `t` has room for. -/
def maxTokens : ℕ := 10

/-- The search for a module, from the context behind the global one on. -/
def Config.find (G : Config) (type name : Bytes) : Option Context :=
  G.contexts.find? fun cc => strCaseEq cc.type type && strCaseEq cc.name name

/-- The statements of the context `cc`. -/
def Config.statements (G : Config) : Option Context → List Statement
  | none => G.globalStatements
  | some cc => cc.statements

/-- The cases `TOKEN_NUM` and `TOKEN_STR`. -/
def pushToken (st : ConfState) (tok : Token) : Except ConfState ConfState :=
  if st.t.length + 1 = maxTokens then .error { st with t := st.t ++ [tok] }
  else .ok { st with t := st.t ++ [tok] }

/-- The case `';'`. -/
def endStatement (G : Config) (st : ConfState) : Except ConfState ConfState :=
  if processStatement (G.statements st.cc) st.t then
    .ok { st with t := [], calls := st.calls ++ [.process st.t] }
  else .error st

/-- The case `'{'`. -/
def beginBlock (G : Config) (B : Blocks) (st : ConfState) : Except ConfState ConfState :=
  match st.t with
  | [.str type, .str name] =>
    if st.cc.isSome then .error st
    else
      match G.find type name with
      | none => .error st
      | some cc =>
        if cc.startBlock && !B.starts st.blocks then .error { st with cc := some cc }
        else .ok { t := [], cc := some cc, blocks := st.blocks + 1
                   calls := st.calls ++ [.entered st.blocks cc.endBlock] }
  | _ => .error st

/-- The case `'}'`. -/
def endBlock (B : Blocks) (st : ConfState) : Except ConfState ConfState :=
  if st.t ≠ [] then .error st
  else
    match st.cc with
    | none => .error st
    | some cc =>
      if cc.endBlock then
        if B.ends (st.blocks - 1) then
          .ok { st with cc := none, calls := st.calls ++ [.ended (st.blocks - 1)] }
        else .error { st with calls := st.calls ++ [.ended (st.blocks - 1)] }
      else .ok { st with cc := none }

/-- The `switch` of `read_config_file`. An error is a return of `-1`. -/
def parseToken (G : Config) (B : Blocks) (st : ConfState) : Token → Except ConfState ConfState
  | .num v => pushToken st (.num v)
  | .str s => pushToken st (.str s)
  | .semicolon => endStatement G st
  | .lbrace => beginBlock G B st
  | .rbrace => endBlock B st

/-- The loop of `read_config_file`, at most `n` times. It ends with `0` at the end of the file and
at an error of the scanner alike. -/
def readLoop (G : Config) (B : Blocks) : ℕ → Bytes → ConfState → Except Fault (ℤ × ConfState)
  | 0, _, _ => .error .loop
  | n + 1, w, st => do
    match ← getNextToken w with
    | (.eof, _) | (.error, _) => return (0, st)
    | (.token tok, w') =>
      match parseToken G B st tok with
      | .error st' => return (-1, st')
      | .ok st' => readLoop G B n w' st'

/-- The variables of `read_config_file` at first. -/
def ConfState.init : ConfState := { t := [], cc := none, blocks := 0, calls := [] }

/-- `read_config_file` of a file that can be opened or not. -/
def readConfigFile (G : Config) (B : Blocks) : Option Bytes → Except Fault (ℤ × ConfState)
  | none => .ok (-1, .init)
  | some w => readLoop G B (w.length + 1) w .init

/-! ## The grammar -/

/-- A statement without its semicolon: a directive and arguments as one of the statements wants
them, at most nine tokens in all. -/
def IsStatement (S : List Statement) (ws : List Token) : Prop :=
  ws.length < maxTokens ∧ ∃ directive args, ws = .str directive :: args ∧ ∃ s ∈ S,
    strCaseEq s.directive directive = true ∧ s.minArgs ≤ args.length ∧ args.length ≤ s.maxArgs ∧
    ∀ (i : ℕ) (arg : Token), args[i]? = some arg →
      ∃ type, s.types[i]? = some type ∧ arg.argType = some type

/-- Statements. -/
inductive Body (S : List Statement) : List Token → Prop
  | nil : Body S []
  | statement {ws toks : List Token} : IsStatement S ws → Body S toks →
      Body S (ws ++ .semicolon :: toks)

/-- Statements and blocks, which are numbered from `k` on, and whose functions do not refuse
them. -/
inductive Items (G : Config) (B : Blocks) : ℕ → List Token → ℕ → Prop
  | nil (k : ℕ) : Items G B k [] k
  | statement {k k' : ℕ} {ws toks : List Token} : IsStatement G.globalStatements ws →
      Items G B k toks k' → Items G B k (ws ++ .semicolon :: toks) k'
  | block {k k' : ℕ} {type name : Bytes} {cc : Context} {body toks : List Token} :
      G.find type name = some cc → (cc.startBlock = true → B.starts k = true) →
      Body cc.statements body → (cc.endBlock = true → B.ends k = true) →
      Items G B (k + 1) toks k' →
      Items G B k (.str type :: .str name :: .lbrace :: (body ++ .rbrace :: toks)) k'

/-- No function refuses a block. -/
def Blocks.willing : Blocks := ⟨fun _ => true, fun _ => true⟩

/-- The file is in the grammar: all of it is split by the rules but the last one, and its tokens are
statements and blocks. -/
def Config.Accepts (G : Config) (w : Bytes) : Prop :=
  ∃ ls, Lexemes w ls ∧ (∀ l ∈ ls, l.1 ≠ .other) ∧ ∃ k, Items G .willing 0 (tokens ls) k

/-! ## Statements -/

/-- A token that `t` may hold. -/
def Token.IsWord (tok : Token) : Prop := tok.argType ≠ none

/-- The types of arguments, compared one by one. -/
theorem map_argType_eq {args : List Token} {types : List ArgType} :
    args.map Token.argType = (types.take args.length).map some ↔
      ∀ (i : ℕ) (arg : Token), args[i]? = some arg →
        ∃ type, types[i]? = some type ∧ arg.argType = some type := by
  induction args generalizing types with
  | nil => simp
  | cons arg args ih =>
    cases types with
    | nil =>
      refine iff_of_false (by simp) fun h => ?_
      obtain ⟨type, htype, -⟩ := h 0 arg rfl
      simp at htype
    | cons type types =>
      rw [List.map_cons, List.length_cons, List.take_succ_cons, List.map_cons, List.cons.injEq, ih]
      constructor
      · rintro ⟨harg, h⟩ i arg' harg'
        cases i with
        | zero =>
          obtain rfl := Option.some.inj harg'
          exact ⟨type, rfl, harg⟩
        | succ i => exact h i arg' harg'
      · intro h
        refine ⟨?_, fun i arg' harg' => h (i + 1) arg' harg'⟩
        obtain ⟨type', htype', harg⟩ := h 0 arg rfl
        obtain rfl := Option.some.inj htype'
        exact harg

section Statements

variable {S : List Statement} {ws : List Token}

/-- `process_statement` finds the statements of the grammar. -/
theorem isStatement_iff :
    IsStatement S ws ↔ ws.length < maxTokens ∧ processStatement S ws = true := by
  refine and_congr_right fun _ => ⟨?_, fun h => ?_⟩
  · rintro ⟨directive, args, rfl, s, hs, hdir, hmin, hmax, htypes⟩
    simp only [processStatement, List.any_eq_true]
    refine ⟨s, hs, ?_⟩
    simp [Statement.fits, hdir, hmin, hmax, map_argType_eq.2 htypes]
  · match ws, h with
    | .str directive :: args, h =>
      simp only [processStatement, List.any_eq_true] at h
      obtain ⟨s, hs, hfits⟩ := h
      simp only [Statement.fits, Bool.and_eq_true, decide_eq_true_eq, beq_iff_eq] at hfits
      obtain ⟨⟨⟨hdir, hmin⟩, hmax⟩, htypes⟩ := hfits
      exact ⟨directive, args, rfl, s, hs, hdir, hmin, hmax, map_argType_eq.1 htypes⟩

/-- A statement consists of words. -/
theorem IsStatement.words (h : IsStatement S ws) : ∀ tok ∈ ws, tok.IsWord := by
  obtain ⟨-, directive, args, rfl, s, -, -, -, -, htypes⟩ := h
  intro tok htok
  rcases List.mem_cons.1 htok with rfl | htok
  · simp [Token.IsWord, Token.argType]
  · obtain ⟨i, hi⟩ := List.mem_iff_getElem?.1 htok
    obtain ⟨type, -, harg⟩ := htypes i tok hi
    simp [Token.IsWord, harg]

/-- Statements behind statements. -/
theorem Body.append {toks toks' : List Token} (h : Body S toks) (h' : Body S toks') :
    Body S (toks ++ toks') := by
  induction h with
  | nil => exact h'
  | statement hws _ ih =>
    rw [List.append_assoc, List.cons_append]
    exact .statement hws ih

end Statements

/-- Items behind items. -/
theorem Items.append {G : Config} {B : Blocks} {k k' k'' : ℕ} {toks toks' : List Token}
    (h : Items G B k toks k') (h' : Items G B k' toks' k'') : Items G B k (toks ++ toks') k'' := by
  induction h with
  | nil k => exact h'
  | statement hws _ ih =>
    rw [List.append_assoc, List.cons_append]
    exact .statement hws (ih h')
  | block hfind hstart hbody hend _ ih =>
    simp only [List.cons_append, List.append_assoc]
    exact .block hfind hstart hbody hend (ih h')

/-! ## What the parser takes -/

/-- The parser reads some tokens. -/
def run (G : Config) (B : Blocks) (st : ConfState) (toks : List Token) :
    Except ConfState ConfState :=
  toks.foldlM (parseToken G B) st

section Run

variable {G : Config} {B : Blocks} {st st' : ConfState} {ws toks toks' : List Token} {tok : Token}

/-- No tokens. -/
@[simp] theorem run_nil : run G B st [] = .ok st := rfl

/-- Tokens behind tokens. -/
theorem run_append : run G B st (toks ++ toks') = run G B st toks >>= (run G B · toks') :=
  List.foldlM_append

/-- Tokens behind tokens that were accepted. -/
theorem run_append_ok (h : run G B st toks = .ok st') :
    run G B st (toks ++ toks') = run G B st' toks' := by
  rw [run_append, h]
  rfl

/-- A single token. -/
@[simp] theorem run_singleton : run G B st [tok] = parseToken G B st tok := by
  unfold run
  rw [List.foldlM_cons]
  cases parseToken G B st tok <;> rfl

/-- Words are put behind the others. -/
theorem parseToken_word (h : tok.IsWord) : parseToken G B st tok = pushToken st tok := by
  cases tok with
  | num v | str s => rfl
  | semicolon | lbrace | rbrace => exact absurd rfl h

/-- Words are collected, as long as there is room. -/
theorem run_words (hws : ∀ tok ∈ ws, tok.IsWord) (hlen : st.t.length + ws.length < maxTokens) :
    run G B st ws = .ok { st with t := st.t ++ ws } := by
  induction ws generalizing st with
  | nil => simp
  | cons tok ws ih =>
    rw [List.length_cons] at hlen
    have hpush : run G B st [tok] = .ok { st with t := st.t ++ [tok] } := by
      rw [run_singleton, parseToken_word (hws tok List.mem_cons_self), pushToken,
        if_neg (by omega)]
    rw [← List.singleton_append, run_append_ok hpush,
      ih (fun tok' htok' => hws tok' (List.mem_cons_of_mem tok htok')) (by simp; omega)]
    simp

/-- A statement is processed. -/
theorem run_statement (hws : IsStatement (G.statements st.cc) ws) (ht : st.t = []) :
    run G B st (ws ++ [.semicolon]) = .ok { st with calls := st.calls ++ [.process ws] } := by
  have hwords : run G B st ws = .ok { st with t := st.t ++ ws } :=
    run_words hws.words (by rw [ht]; simpa using hws.1)
  rw [run_append_ok hwords, run_singleton]
  unfold parseToken endStatement
  rw [ht, List.nil_append, if_pos (isStatement_iff.1 hws).2]

/-- The statements of a body are processed. -/
theorem run_body {S : List Statement} (h : Body S toks) (hS : G.statements st.cc = S)
    (ht : st.t = []) : ∃ calls, run G B st toks = .ok { st with calls := calls } := by
  induction h generalizing st with
  | nil => exact ⟨st.calls, rfl⟩
  | @statement ws toks hws _ ih =>
    obtain ⟨calls, hrun⟩ : ∃ calls,
        run G B { st with calls := st.calls ++ [.process ws] } toks =
          .ok { st with calls := calls } := ih hS ht
    refine ⟨calls, ?_⟩
    rw [← List.singleton_append, ← List.append_assoc,
      run_append_ok (run_statement (by rwa [hS]) ht), hrun]

/-- The beginning of a block. -/
theorem run_open {type name : Bytes} {cc : Context} (ht : st.t = []) (hcc : st.cc = none)
    (hfind : G.find type name = some cc)
    (hstart : cc.startBlock = true → B.starts st.blocks = true) :
    run G B st [.str type, .str name, .lbrace] =
      .ok { t := [], cc := some cc, blocks := st.blocks + 1
            calls := st.calls ++ [.entered st.blocks cc.endBlock] } := by
  have hwords : run G B st [.str type, .str name] = .ok { st with t := [.str type, .str name] } := by
    rw [run_words (by simp [Token.IsWord, Token.argType]) (by simp [ht, maxTokens]), ht]
    rfl
  change run G B st ([.str type, .str name] ++ [.lbrace]) = _
  rw [run_append_ok hwords, run_singleton]
  unfold parseToken beginBlock
  simp only [hcc, Option.isSome_none, Bool.false_eq_true, if_false, hfind]
  rw [if_neg]
  simpa using hstart

/-- Statements and blocks are read. -/
theorem run_items {k k' : ℕ} (h : Items G B k toks k') (calls : List Call) :
    ∃ calls', run G B { t := [], cc := none, blocks := k, calls := calls } toks =
      .ok { t := [], cc := none, blocks := k', calls := calls' } := by
  induction h generalizing calls with
  | nil k => exact ⟨calls, rfl⟩
  | @statement k k' ws toks hws _ ih =>
    obtain ⟨calls', hrun⟩ := ih (calls ++ [.process ws])
    have hstatement : run G B ⟨[], none, k, calls⟩ (ws ++ [.semicolon]) =
        .ok ⟨[], none, k, calls ++ [.process ws]⟩ := run_statement hws rfl
    refine ⟨calls', ?_⟩
    rw [← List.singleton_append, ← List.append_assoc, run_append_ok hstatement, hrun]
  | @block k k' type name cc body toks hfind hstart hbody hend _ ih =>
    obtain ⟨calls₁, hbody⟩ : ∃ calls₁,
        run G B ⟨[], some cc, k + 1, calls ++ [.entered k cc.endBlock]⟩ body =
          .ok ⟨[], some cc, k + 1, calls₁⟩ := run_body hbody rfl rfl
    have hclose : ∃ calls₂, run G B ⟨[], some cc, k + 1, calls₁⟩ [.rbrace] =
        .ok ⟨[], none, k + 1, calls₂⟩ := by
      rw [run_singleton]
      unfold parseToken endBlock
      simp only [ne_eq, not_true_eq_false, if_false, Nat.add_sub_cancel]
      by_cases hcc : cc.endBlock = true
      · rw [if_pos hcc, if_pos (hend hcc)]
        exact ⟨_, rfl⟩
      · rw [if_neg hcc]
        exact ⟨_, rfl⟩
    obtain ⟨calls₂, hclose⟩ := hclose
    obtain ⟨calls', hrun⟩ := ih calls₂
    refine ⟨calls', ?_⟩
    change run G B _ ([.str type, .str name, .lbrace] ++ (body ++ ([.rbrace] ++ toks))) = _
    rw [run_append_ok (run_open rfl rfl hfind hstart), run_append_ok hbody, run_append_ok hclose,
      hrun]

end Run

end Spook.Conf
