import Spook.Conf.Parse

set_option relaxedAutoImplicit false
set_option autoImplicit false

/-!
# Which files the configuration parser accepts

The parser keeps track of the grammar as long as it reads tokens. What goes wrong is the end: the
end of the file and an error of the scanner end the loop wherever the parser is, with `0`.

## Main definitions

* `Spook.Conf.Parsed` — what the parser does with one token.
* `Spook.Conf.Consumed` — what the parser has read.
* `Spook.Conf.Tidy` — which blocks have been ended.
* `Spook.Conf.Config.Stops` — where the parser stops without an `end_block` that is due.
* `Spook.Conf.ConfCorrect` — the parser accepts the grammar, and ends the blocks.

## Main results

* `Spook.Conf.consumed_run`, `tidy_run` — they hold after any tokens.
* `Spook.Conf.exists_items_iff` — the tokens of the grammar are those that the parser takes.
* `Spook.Conf.config_accepted_iff` — for which files the parser is right.

## Notes on the design

The grammar is stated on tokens, and the parser is shown to follow it (`Consumed`) as long as it
reads. What `read_config_file` returns is decided by how the reading ends, and there are four ways
to end (`Outcome`), so that the equivalence is four cases.
-/

namespace Spook.Conf

/-! ## One token -/

/-- What the parser does with one token. -/
inductive Parsed (G : Config) (B : Blocks) (st : ConfState) :
    Token → Except ConfState ConfState → Prop
  | word {tok : Token} : tok.IsWord → st.t.length + 1 ≠ maxTokens →
      Parsed G B st tok (.ok { st with t := st.t ++ [tok] })
  | tooMany {tok : Token} : tok.IsWord → st.t.length + 1 = maxTokens →
      Parsed G B st tok (.error { st with t := st.t ++ [tok] })
  | statement : processStatement (G.statements st.cc) st.t = true →
      Parsed G B st .semicolon (.ok { st with t := [], calls := st.calls ++ [.process st.t] })
  | noStatement : processStatement (G.statements st.cc) st.t = false →
      Parsed G B st .semicolon (.error st)
  | opened {type name : Bytes} {cc : Context} : st.t = [.str type, .str name] → st.cc = none →
      G.find type name = some cc → (cc.startBlock = true → B.starts st.blocks = true) →
      Parsed G B st .lbrace (.ok { t := [], cc := some cc, blocks := st.blocks + 1
                                   calls := st.calls ++ [.entered st.blocks cc.endBlock] })
  | refused {type name : Bytes} {cc : Context} : st.t = [.str type, .str name] → st.cc = none →
      G.find type name = some cc → cc.startBlock = true → B.starts st.blocks = false →
      Parsed G B st .lbrace (.error { st with cc := some cc })
  | noBlock : (st.cc ≠ none ∨
        ∀ type name, st.t = [.str type, .str name] → G.find type name = none) →
      Parsed G B st .lbrace (.error st)
  | ended {cc : Context} : st.t = [] → st.cc = some cc → cc.endBlock = true →
      B.ends (st.blocks - 1) = true → Parsed G B st .rbrace
        (.ok { st with cc := none, calls := st.calls ++ [.ended (st.blocks - 1)] })
  | failed {cc : Context} : st.t = [] → st.cc = some cc → cc.endBlock = true →
      B.ends (st.blocks - 1) = false → Parsed G B st .rbrace
        (.error { st with calls := st.calls ++ [.ended (st.blocks - 1)] })
  | left {cc : Context} : st.t = [] → st.cc = some cc → cc.endBlock = false →
      Parsed G B st .rbrace (.ok { st with cc := none })
  | noEnd : st.t ≠ [] ∨ st.cc = none → Parsed G B st .rbrace (.error st)

section Token

variable {G : Config} {B : Blocks} {st st' : ConfState} {ws toks : List Token} {tok : Token}

/-- A word becomes a token of the statement. -/
theorem parsed_pushToken (h : tok.IsWord) : Parsed G B st tok (pushToken st tok) := by
  unfold pushToken
  split_ifs with hlen
  · exact .tooMany h hlen
  · exact .word h hlen

/-- A semicolon ends the statement and processes it. -/
theorem parsed_endStatement : Parsed G B st .semicolon (endStatement G st) := by
  unfold endStatement
  split_ifs with hstatement
  · exact .statement hstatement
  · exact .noStatement (by simpa using hstatement)

/-- An opening brace begins the block that the two tokens name. -/
theorem parsed_beginBlock : Parsed G B st .lbrace (beginBlock G B st) := by
  unfold beginBlock
  split
  · rename_i type name ht
    split_ifs with hcc
    · exact .noBlock (.inl (Option.isSome_iff_ne_none.1 hcc))
    have hcc : st.cc = none := by simpa using hcc
    split
    · rename_i hfind
      refine .noBlock (.inr fun type' name' ht' => ?_)
      rw [ht] at ht'
      cases ht'
      exact hfind
    · rename_i cc hfind
      split_ifs with hstart
      · simp only [Bool.and_eq_true, Bool.not_eq_true'] at hstart
        exact .refused ht hcc hfind hstart.1 hstart.2
      · refine .opened ht hcc hfind fun hsome => ?_
        simpa [hsome] using hstart
  · rename_i hno
    exact .noBlock (.inr fun type name ht => absurd ht (hno type name))

/-- A closing brace ends the block. -/
theorem parsed_endBlock : Parsed G B st .rbrace (endBlock B st) := by
  unfold endBlock
  by_cases ht : st.t = []
  · rw [if_neg (not_not.2 ht)]
    cases hcc : st.cc with
    | none => exact .noEnd (.inr hcc)
    | some cc =>
      dsimp only
      by_cases hend : cc.endBlock = true
      · rw [if_pos hend]
        split_ifs with hends
        · exact .ended ht hcc hend hends
        · exact hcc ▸ .failed ht hcc hend (by simpa using hends)
      · rw [if_neg hend]
        exact .left ht hcc (by simpa using hend)
  · rw [if_pos ht]
    exact .noEnd (.inl ht)

/-- **One token.** -/
theorem parsed (st : ConfState) (tok : Token) :
    Parsed G B st tok (parseToken G B st tok) := by
  cases tok with
  | num v | str s => exact parsed_pushToken (by simp [Token.IsWord, Token.argType])
  | semicolon => exact parsed_endStatement
  | lbrace => exact parsed_beginBlock
  | rbrace => exact parsed_endBlock

/-- The same of any outcome of the parser. -/
theorem parsed_of_eq {r : Except ConfState ConfState} (h : parseToken G B st tok = r) :
    Parsed G B st tok r := h ▸ parsed st tok

/-- A token that the parser takes is taken too when no function refuses a block. -/
theorem parseToken_willing (h : parseToken G B st tok = .ok st') :
    parseToken G .willing st tok = .ok st' := by
  cases parsed_of_eq h with
  | word hword hlen => rw [parseToken_word hword, pushToken, if_neg hlen]
  | statement hstatement => exact if_pos hstatement
  | opened ht hcc hfind _ =>
    unfold parseToken beginBlock
    simp [ht, hcc, hfind, Blocks.willing]
  | ended ht hcc hend _ | left ht hcc hend =>
    unfold parseToken endBlock
    simp [ht, hcc, hend, Blocks.willing]

/-- The last of some tokens. -/
theorem run_snoc_ok (h : run G B st (toks ++ [tok]) = .ok st') :
    ∃ st₁, run G B st toks = .ok st₁ ∧ parseToken G B st₁ tok = .ok st' := by
  rw [run_append] at h
  rcases hrun : run G B st toks with st₁ | st₁ <;> rw [hrun] at h
  · cases h
  · refine ⟨st₁, rfl, ?_⟩
    rw [← run_singleton]
    exact h

/-- Where the handlers let a file pass, blocks that always start and end do so too. -/
theorem run_willing (h : run G B st toks = .ok st') : run G .willing st toks = .ok st' := by
  induction toks generalizing st with
  | nil => exact h
  | cons tok toks ih =>
    rw [← List.singleton_append] at h ⊢
    rw [run_append, run_singleton] at h
    rcases hstep : parseToken G B st tok with st₁ | st₁ <;> rw [hstep] at h
    · cases h
    · have hstep' : run G .willing st [tok] = .ok st₁ := by
        rw [run_singleton, parseToken_willing hstep]
      rw [run_append_ok hstep']
      exact ih h

end Token

/-! ## What has been read -/

/-- What the parser has read outside of the blocks, or in a block of `cc`, when it has come to `k`
blocks and `t` holds `ws`. -/
inductive Consumed (G : Config) (B : Blocks) :
    List Token → Option Context → ℕ → List Token → Prop
  | outside {pre ws : List Token} {k : ℕ} : Items G B 0 pre k → (∀ tok ∈ ws, tok.IsWord) →
      ws.length < maxTokens → Consumed G B (pre ++ ws) none k ws
  | inside {pre body ws : List Token} {k : ℕ} {type name : Bytes} {cc : Context} :
      Items G B 0 pre k → G.find type name = some cc →
      (cc.startBlock = true → B.starts k = true) → Body cc.statements body →
      (∀ tok ∈ ws, tok.IsWord) → ws.length < maxTokens →
      Consumed G B (pre ++ .str type :: .str name :: .lbrace :: (body ++ ws)) (some cc) (k + 1) ws

section Consumed

variable {G : Config} {B : Blocks} {st st' : ConfState} {ws toks : List Token} {tok : Token}

/-- What has been read when `t` is empty. -/
theorem Consumed.outside_nil {k : ℕ} (h : Items G B 0 toks k) :
    Consumed G B toks none k [] := by
  have hwords : Consumed G B (toks ++ []) none k [] := .outside h (by simp) (by decide)
  rwa [List.append_nil] at hwords

/-- The parser is right behind an opening brace. -/
theorem Consumed.inside_nil {pre body : List Token} {k : ℕ} {type name : Bytes} {cc : Context}
    (hpre : Items G B 0 pre k) (hfind : G.find type name = some cc)
    (hstart : cc.startBlock = true → B.starts k = true) (hbody : Body cc.statements body) :
    Consumed G B (pre ++ .str type :: .str name :: .lbrace :: body) (some cc) (k + 1) [] := by
  have hwords : Consumed G B (pre ++ .str type :: .str name :: .lbrace :: (body ++ [])) (some cc)
      (k + 1) [] := .inside hpre hfind hstart hbody (by simp) (by decide)
  rwa [List.append_nil] at hwords

/-- A token more. -/
theorem Consumed.step (h : Consumed G B toks st.cc st.blocks st.t)
    (hstep : parseToken G B st tok = .ok st') :
    Consumed G B (toks ++ [tok]) st'.cc st'.blocks st'.t := by
  have hsnoc : ∀ {ws : List Token}, (∀ tok ∈ ws, tok.IsWord) → tok.IsWord →
      ∀ tok' ∈ ws ++ [tok], tok'.IsWord := by
    intro ws hws htok tok' htok'
    rcases List.mem_append.1 htok' with htok' | htok'
    · exact hws tok' htok'
    · rwa [List.mem_singleton.1 htok']
  obtain ⟨t, cc, blocks, calls⟩ := st
  dsimp only at h
  cases parsed_of_eq hstep with
  | word hword hlen =>
    dsimp only at hlen ⊢
    cases h with
    | outside hpre hws hlt =>
      rw [List.append_assoc]
      exact .outside hpre (hsnoc hws hword) (by simp; omega)
    | inside hpre hfind hstart hbody hws hlt =>
      have h := Consumed.inside hpre hfind hstart hbody (hsnoc hws hword) (by simp; omega)
      simpa using h
  | statement hstatement =>
    cases h with
    | outside hpre hws hlt =>
      have hitem : IsStatement G.globalStatements t := isStatement_iff.2 ⟨hlt, hstatement⟩
      have h := Consumed.outside_nil (hpre.append (.statement hitem (.nil _)))
      simpa using h
    | inside hpre hfind hstart hbody hws hlt =>
      have hitem : IsStatement _ t := isStatement_iff.2 ⟨hlt, hstatement⟩
      have h := Consumed.inside_nil hpre hfind hstart (hbody.append (.statement hitem .nil))
      simpa using h
  | opened ht hcc hfind hstart =>
    dsimp only at ht hcc hstart ⊢
    subst ht hcc
    cases h with
    | outside hpre _ _ =>
      have h := Consumed.inside_nil hpre hfind hstart .nil
      simpa using h
  | ended ht hcc hend hends =>
    dsimp only at ht hcc hends ⊢
    subst ht hcc
    cases h with
    | inside hpre hfind hstart hbody _ _ =>
      have hblock := Items.block hfind hstart hbody (fun _ => by simpa using hends) (.nil _)
      have h := Consumed.outside_nil (hpre.append hblock)
      simpa using h
  | left ht hcc hend =>
    dsimp only at ht hcc ⊢
    subst ht hcc
    cases h with
    | inside hpre hfind hstart hbody _ _ =>
      have hblock := Items.block hfind hstart hbody (fun hsome => by simp [hend] at hsome) (.nil _)
      have h := Consumed.outside_nil (hpre.append hblock)
      simpa using h

/-- After any tokens. -/
theorem consumed_run (h : run G B .init toks = .ok st) :
    Consumed G B toks st.cc st.blocks st.t := by
  induction toks using List.reverseRecOn generalizing st with
  | nil =>
    obtain rfl := Except.ok.inj h
    exact .outside (.nil 0) (by simp) (by decide)
  | append_singleton toks tok ih =>
    obtain ⟨st₁, hrun, hstep⟩ := run_snoc_ok h
    exact (ih hrun).step hstep

/-- The tokens of the grammar are those after which the parser is outside of the blocks and holds no
words. -/
theorem exists_items_iff : (∃ k, Items G B 0 toks k) ↔
    ∃ st, run G B .init toks = .ok st ∧ st.cc = none ∧ st.t = [] := by
  constructor
  · rintro ⟨k, h⟩
    obtain ⟨calls, hrun⟩ := run_items h []
    exact ⟨_, hrun, rfl, rfl⟩
  · rintro ⟨st, hrun, hcc, ht⟩
    have h := consumed_run hrun
    rw [hcc, ht] at h
    cases h with
    | outside hpre _ _ => exact ⟨_, by simpa using hpre⟩

end Consumed

/-! ## Which blocks have been ended -/

/-- `end_block` was called exactly once for each block that was entered, if its context has one. -/
def AllEnded (calls : List Call) : Prop :=
  ∀ k, Call.entered k true ∈ calls → calls.count (.ended k) = 1

/-- The blocks have numbers, and all but the one that the parser is in have been ended. -/
structure Tidy (st : ConfState) : Prop where
  entered_lt : ∀ k b, Call.entered k b ∈ st.calls → k < st.blocks
  ended_lt : ∀ k, Call.ended k ∈ st.calls → k < st.blocks
  closed : ∀ k, Call.entered k true ∈ st.calls → (st.cc = none ∨ k + 1 ≠ st.blocks) →
    st.calls.count (.ended k) = 1
  current : ∀ cc, st.cc = some cc → ∃ k, st.blocks = k + 1 ∧ Call.ended k ∉ st.calls ∧
    ∀ b, Call.entered k b ∈ st.calls ↔ b = cc.endBlock

section Tidy

variable {G : Config} {B : Blocks} {st st' : ConfState} {toks : List Token} {tok : Token}

/-- Outside of the blocks all of them have been ended. -/
theorem Tidy.allEnded (h : Tidy st) (hcc : st.cc = none) : AllEnded st.calls :=
  fun k hk => h.closed k hk (.inl hcc)

/-- In a block an `end_block` is due if there is one. -/
theorem Tidy.allEnded_iff (h : Tidy st) {cc : Context} (hcc : st.cc = some cc) :
    AllEnded st.calls ↔ cc.endBlock = false := by
  obtain ⟨k, hk, hended, hentered⟩ := h.current cc hcc
  constructor
  · intro hall
    by_contra hend
    have hone := hall k ((hentered true).2 (Bool.eq_true_of_not_eq_false hend).symm)
    rw [List.count_eq_zero.2 hended] at hone
    cases hone
  · intro hend k' hk'
    refine h.closed k' hk' (.inr fun heq => ?_)
    obtain rfl : k' = k := by omega
    have htrue := (hentered true).1 hk'
    rw [hend] at htrue
    cases htrue

/-- The last block is ended. -/
theorem Tidy.allEnded_ended (h : Tidy st) {cc : Context} (hcc : st.cc = some cc) :
    AllEnded (st.calls ++ [.ended (st.blocks - 1)]) := by
  obtain ⟨k, hk, hended, -⟩ := h.current cc hcc
  rw [hk, Nat.add_sub_cancel]
  intro k' hk'
  have hk' : Call.entered k' true ∈ st.calls := by simpa using hk'
  rw [List.count_append]
  by_cases heq : k' = k
  · rw [heq, List.count_eq_zero.2 hended]
    simp
  · rw [h.closed k' hk' (.inr fun h => heq (by omega))]
    simp [Ne.symm heq]

/-- Words do not matter, and neither does a call of `process`. -/
theorem Tidy.words (h : Tidy st) (t : List Token) : Tidy { st with t := t } :=
  ⟨h.entered_lt, h.ended_lt, h.closed, h.current⟩

/-- A statement that is processed neither begins nor ends a block. -/
theorem Tidy.processed (h : Tidy st) (ws : List Token) :
    Tidy { st with t := [], calls := st.calls ++ [.process ws] } := by
  refine ⟨fun k b hk => h.entered_lt k b (by simpa using hk),
    fun k hk => h.ended_lt k (by simpa using hk), fun k hk hcc => ?_, fun cc hcc => ?_⟩
  · dsimp only
    rw [List.count_append, h.closed k (by simpa using hk) hcc]
    simp
  · obtain ⟨k, hk, hended, hentered⟩ := h.current cc hcc
    exact ⟨k, hk, by simpa using hended, fun b => by simpa using hentered b⟩

/-- A block is entered. -/
theorem Tidy.opened (h : Tidy st) (hcc : st.cc = none) (cc : Context) :
    Tidy { t := [], cc := some cc, blocks := st.blocks + 1
           calls := st.calls ++ [.entered st.blocks cc.endBlock] } := by
  have hended : Call.ended st.blocks ∉ st.calls := fun hk => lt_irrefl _ (h.ended_lt _ hk)
  refine ⟨fun k b hk => ?_, fun k hk => ?_, fun k hk hne => ?_, fun cc' hcc' => ?_⟩
  · rcases List.mem_append.1 hk with hk | hk
    · exact (h.entered_lt k b hk).trans (Nat.lt_succ_self _)
    · simp only [List.mem_singleton, Call.entered.injEq] at hk
      rw [hk.1]
      exact Nat.lt_succ_self _
  · exact (h.ended_lt k (by simpa using hk)).trans (Nat.lt_succ_self _)
  · dsimp only at hk hne ⊢
    have hk : Call.entered k true ∈ st.calls := by
      rcases List.mem_append.1 hk with hk | hk
      · exact hk
      · simp only [List.mem_singleton, Call.entered.injEq] at hk
        rcases hne with hne | hne
        · cases hne
        · exact absurd (congrArg (· + 1) hk.1) hne
    rw [List.count_append, h.closed k hk (.inl hcc)]
    simp
  · cases hcc'
    refine ⟨st.blocks, rfl, by simpa using hended, fun b => ?_⟩
    have hnew : Call.entered st.blocks b ∉ st.calls := fun hk => lt_irrefl _ (h.entered_lt _ b hk)
    simp [hnew]

/-- A block is ended, or left without an `end_block`. -/
theorem Tidy.left (h : Tidy st) {calls : List Call} (hall : AllEnded calls)
    (hentered : ∀ k b, Call.entered k b ∈ calls → Call.entered k b ∈ st.calls)
    (hended : ∀ k, Call.ended k ∈ calls → k < st.blocks) :
    Tidy { st with cc := none, calls := calls } := by
  refine ⟨fun k b hk => h.entered_lt k b (hentered k b hk), hended, fun k hk _ => hall k hk,
    fun cc hcc => ?_⟩
  cases hcc

/-- A token more. -/
theorem Tidy.step (h : Tidy st) (hstep : parseToken G B st tok = .ok st') : Tidy st' := by
  cases parsed_of_eq hstep with
  | word => exact h.words _
  | statement => exact h.processed _
  | opened ht hcc hfind hstart => exact h.opened hcc _
  | ended ht hcc hend hends =>
    refine h.left (h.allEnded_ended hcc) (fun k b hk => by simpa using hk) fun k hk => ?_
    obtain ⟨k', hk', -⟩ := h.current _ hcc
    rcases List.mem_append.1 hk with hk | hk
    · exact h.ended_lt k hk
    · simp only [List.mem_singleton, Call.ended.injEq] at hk
      omega
  | left ht hcc hend =>
    exact h.left ((h.allEnded_iff hcc).2 hend) (fun _ _ hk => hk) fun k hk => h.ended_lt k hk

/-- After any tokens. -/
theorem tidy_run (h : run G B .init toks = .ok st) : Tidy st := by
  induction toks using List.reverseRecOn generalizing st with
  | nil =>
    obtain rfl := Except.ok.inj h
    refine ⟨fun k b hk => ?_, fun k hk => ?_, fun k hk => ?_, fun cc hcc => ?_⟩
    · cases hk
    · cases hk
    · cases hk
    · cases hcc
  | append_singleton toks tok ih =>
    obtain ⟨st₁, hrun, hstep⟩ := run_snoc_ok h
    exact (ih hrun).step hstep

end Tidy

/-! ## Where the parser stops -/

/-- Tokens that the parser cannot go on with where the statements `S` are known, a block may begin
with some words, and a block may end or not. -/
inductive Wrong (S : List Statement) (opens : List Token → Prop) (closes : Prop) :
    List Token → Prop
  | many {ws : List Token} : (∀ tok ∈ ws, tok.IsWord) → ws.length = maxTokens →
      Wrong S opens closes ws
  | statement {ws : List Token} : (∀ tok ∈ ws, tok.IsWord) → ws.length < maxTokens →
      ¬ IsStatement S ws → Wrong S opens closes (ws ++ [.semicolon])
  | lbrace {ws : List Token} : (∀ tok ∈ ws, tok.IsWord) → ws.length < maxTokens → ¬ opens ws →
      Wrong S opens closes (ws ++ [.lbrace])
  | rbrace {ws : List Token} : (∀ tok ∈ ws, tok.IsWord) → ws.length < maxTokens →
      ¬ (closes ∧ ws = []) → Wrong S opens closes (ws ++ [.rbrace])

/-- The words are the type and the name of a module. -/
def Config.Opens (G : Config) (ws : List Token) : Prop :=
  ∃ type name cc, ws = [.str type, .str name] ∧ G.find type name = some cc

/-- Statements and blocks, and then something wrong outside of the blocks or in a block without an
`end_block`, or a block that its `start_block` or its `end_block` refuses. -/
inductive Config.Stops (G : Config) (B : Blocks) : List Token → Prop
  | outside {pre rest : List Token} {k : ℕ} : Items G B 0 pre k →
      Wrong G.globalStatements G.Opens False rest → G.Stops B (pre ++ rest)
  | refused {pre : List Token} {k : ℕ} {type name : Bytes} {cc : Context} : Items G B 0 pre k →
      G.find type name = some cc → cc.startBlock = true → B.starts k = false →
      G.Stops B (pre ++ [.str type, .str name, .lbrace])
  | inside {pre body rest : List Token} {k : ℕ} {type name : Bytes} {cc : Context} :
      Items G B 0 pre k → G.find type name = some cc →
      (cc.startBlock = true → B.starts k = true) → cc.endBlock = false →
      Body cc.statements body → Wrong cc.statements (fun _ => False) True rest →
      G.Stops B (pre ++ .str type :: .str name :: .lbrace :: (body ++ rest))
  | failed {pre body : List Token} {k : ℕ} {type name : Bytes} {cc : Context} :
      Items G B 0 pre k → G.find type name = some cc →
      (cc.startBlock = true → B.starts k = true) → cc.endBlock = true → B.ends k = false →
      Body cc.statements body →
      G.Stops B (pre ++ .str type :: .str name :: .lbrace :: (body ++ [.rbrace]))

section Stops

variable {G : Config} {B : Blocks} {st st' : ConfState} {ws toks : List Token} {tok : Token}

/-- A token that stops the parser outside of the blocks, or in one, is wrong there. -/
theorem wrong_of_error {S : List Statement} {opens : List Token → Prop} {closes : Prop}
    (hws : ∀ tok ∈ st.t, tok.IsWord) (hlen : st.t.length < maxTokens)
    (hS : G.statements st.cc = S) (h : parseToken G B st tok = .error st')
    (hopens : tok = .lbrace → ¬ opens st.t) (hcloses : tok = .rbrace → ¬ (closes ∧ st.t = [])) :
    Wrong S opens closes (st.t ++ [tok]) := by
  have hword : tok.IsWord → ∀ tok' ∈ st.t ++ [tok], tok'.IsWord := by
    intro htok tok' htok'
    rcases List.mem_append.1 htok' with htok' | htok'
    · exact hws tok' htok'
    · rwa [List.mem_singleton.1 htok']
  cases parsed_of_eq h with
  | tooMany htok hmax => exact .many (hword htok) (by simpa using hmax)
  | noStatement hno =>
    refine .statement hws hlen fun hstatement => ?_
    rw [hS] at hno
    simp [(isStatement_iff.1 hstatement).2] at hno
  | refused | noBlock => exact .lbrace hws hlen (hopens rfl)
  | failed | noEnd => exact .rbrace hws hlen (hcloses rfl)

/-- A token that stops the parser where no `end_block` is due. -/
theorem stops_of_error (hrun : run G B .init toks = .ok st)
    (h : parseToken G B st tok = .error st') (hall : AllEnded st'.calls) :
    G.Stops B (toks ++ [tok]) := by
  have hconsumed := consumed_run hrun
  have htidy := tidy_run hrun
  obtain ⟨t, cc, blocks, calls⟩ := st
  dsimp only at hconsumed
  cases hconsumed with
  | @outside pre _ _ hpre hws hlen =>
    have hwrong : (tok = .lbrace → ¬ G.Opens t) → G.Stops B (pre ++ t ++ [tok]) := by
      intro hopens
      rw [List.append_assoc]
      exact .outside hpre (wrong_of_error hws hlen rfl h hopens fun _ h => h.1)
    cases parsed_of_eq h with
    | refused ht hcc hfind hsome hstart =>
      dsimp only at ht hstart
      subst ht
      have hstops := Config.Stops.refused hpre hfind hsome hstart
      simpa using hstops
    | noBlock hno =>
      refine hwrong fun _ => ?_
      rintro ⟨type, name, cc, ht, hfind⟩
      rcases hno with hno | hno
      · exact hno rfl
      · rw [hno type name ht] at hfind
        cases hfind
    | tooMany htok => exact hwrong fun heq => absurd htok (by simp [heq, Token.IsWord, Token.argType])
    | noStatement | noEnd => exact hwrong fun heq => by cases heq
    | failed _ hcc => cases hcc
  | @inside pre body _ k type name cc hpre hfind hstart hbody hws hlen =>
    have hassoc : ∀ rest : List Token, pre ++ Token.str type :: .str name :: .lbrace :: (body ++ t) ++
        rest = pre ++ Token.str type :: .str name :: .lbrace :: (body ++ (t ++ rest)) := by simp
    rw [hassoc]
    have hwrong : st'.calls = calls → (tok = .rbrace → ¬ (True ∧ t = [])) → G.Stops B
        (pre ++ Token.str type :: .str name :: .lbrace :: (body ++ (t ++ [tok]))) := by
      intro hcalls hcloses
      rw [hcalls] at hall
      exact .inside hpre hfind hstart ((htidy.allEnded_iff rfl).1 hall) hbody
        (wrong_of_error hws hlen rfl h (fun _ h => h) hcloses)
    cases parsed_of_eq h with
    | failed ht hcc hend hends =>
      dsimp only at ht hends
      subst ht
      cases hcc
      exact .failed hpre hfind hstart hend (by simpa using hends) hbody
    | noEnd hno =>
      refine hwrong rfl fun _ hclose => ?_
      rcases hno with hno | hno
      · exact hno hclose.2
      · cases hno
    | tooMany htok =>
      exact hwrong rfl fun heq => absurd htok (by simp [heq, Token.IsWord, Token.argType])
    | noStatement | noBlock => exact hwrong rfl fun heq => by cases heq
    | refused _ hcc => cases hcc

/-- Wrong tokens stop the parser at the last of them. -/
theorem error_of_wrong {opens : List Token → Prop} {closes : Prop}
    (h : Wrong (G.statements st.cc) opens closes toks) (ht : st.t = [])
    (hopens : ∀ ws, ¬ opens ws →
      beginBlock G B { st with t := ws } = .error { st with t := ws })
    (hcloses : ∀ ws, ¬ (closes ∧ ws = []) →
      endBlock B { st with t := ws } = .error { st with t := ws }) :
    ∃ ws tok st', toks = ws ++ [tok] ∧ run G B st ws = .ok { st with t := ws } ∧
      parseToken G B { st with t := ws } tok = .error st' ∧ st'.calls = st.calls := by
  have hwords : ∀ {ws : List Token}, (∀ tok ∈ ws, tok.IsWord) → ws.length < maxTokens →
      run G B st ws = .ok { st with t := ws } := by
    intro ws hws hlen
    rw [run_words hws (by simpa [ht] using hlen), ht, List.nil_append]
  cases h with
  | many hws hlen =>
    rcases List.eq_nil_or_concat toks with rfl | ⟨ws, tok, rfl⟩
    · cases hlen
    rw [List.concat_eq_append] at hws hlen ⊢
    rw [List.length_append, List.length_singleton] at hlen
    refine ⟨ws, tok, { st with t := ws ++ [tok] }, rfl,
      hwords (fun tok' htok' => hws tok' (by simp [htok'])) (by omega), ?_, rfl⟩
    rw [parseToken_word (hws tok (by simp)), pushToken, if_pos hlen]
  | @statement ws hws hlen hno =>
    refine ⟨ws, .semicolon, { st with t := ws }, rfl, hwords hws hlen, ?_, rfl⟩
    refine if_neg fun hstatement => hno (isStatement_iff.2 ⟨hlen, hstatement⟩)
  | @lbrace ws hws hlen hno =>
    exact ⟨ws, .lbrace, { st with t := ws }, rfl, hwords hws hlen, hopens ws hno, rfl⟩
  | @rbrace ws hws hlen hno =>
    exact ⟨ws, .rbrace, { st with t := ws }, rfl, hwords hws hlen, hcloses ws hno, rfl⟩

/-- Statements and blocks are read from the beginning. -/
theorem run_init {k : ℕ} (h : Items G B 0 toks k) :
    ∃ calls, run G B .init toks = .ok ⟨[], none, k, calls⟩ := run_items h []

/-- The parser in a block. -/
theorem run_inside {pre body : List Token} {k : ℕ} {type name : Bytes} {cc : Context}
    (hpre : Items G B 0 pre k) (hfind : G.find type name = some cc)
    (hstart : cc.startBlock = true → B.starts k = true) (hbody : Body cc.statements body) :
    ∃ calls, run G B .init (pre ++ ([.str type, .str name, .lbrace] ++ body)) =
      .ok ⟨[], some cc, k + 1, calls⟩ := by
  obtain ⟨calls, hrun⟩ := run_init hpre
  obtain ⟨calls', hrun'⟩ : ∃ calls',
      run G B ⟨[], some cc, k + 1, calls ++ [.entered k cc.endBlock]⟩ body =
        .ok ⟨[], some cc, k + 1, calls'⟩ := run_body hbody rfl rfl
  refine ⟨calls', ?_⟩
  rw [run_append_ok hrun, run_append_ok (run_open rfl rfl hfind hstart), hrun']

/-- The tokens stop the parser at the last of them, where no `end_block` is due.

**Proof sketch.** By what is wrong. Outside of blocks and inside of them the items before it are
read without error, and the words of the wrong statement are collected until its last token is
refused (`error_of_wrong`). A block that is refused, or whose end fails, is stopped at its brace. -/
theorem error_of_stops (h : G.Stops B toks) :
    ∃ pre tok st st', toks = pre ++ [tok] ∧ run G B .init pre = .ok st ∧
      parseToken G B st tok = .error st' ∧ AllEnded st'.calls := by
  cases h with
  | @outside pre rest k hpre hwrong =>
    obtain ⟨calls, hrun⟩ := run_init hpre
    have hbegin : ∀ ws, ¬ G.Opens ws →
        beginBlock G B ⟨ws, none, k, calls⟩ = .error ⟨ws, none, k, calls⟩ := by
      intro ws hno
      unfold beginBlock
      split
      · rename_i type name ht
        dsimp only at ht
        rw [if_neg (by simp)]
        split
        · rfl
        · rename_i cc hfind
          exact absurd ⟨type, name, cc, ht, hfind⟩ hno
      · rfl
    have hend : ∀ ws, endBlock B ⟨ws, none, k, calls⟩ = .error ⟨ws, none, k, calls⟩ := by
      intro ws
      unfold endBlock
      split_ifs <;> rfl
    have hwrong : Wrong (G.statements (ConfState.mk [] none k calls).cc) G.Opens False rest := hwrong
    obtain ⟨ws, tok, st', rfl, hws, herror, hcalls⟩ :=
      error_of_wrong hwrong rfl hbegin fun ws _ => hend ws
    refine ⟨pre ++ ws, tok, _, st', by simp, ?_, herror, ?_⟩
    · rw [run_append_ok hrun, hws]
    · rw [hcalls]
      exact (tidy_run hrun).allEnded rfl
  | @refused pre k type name cc hpre hfind hsome hstart =>
    obtain ⟨calls, hrun⟩ := run_init hpre
    have htwo : run G B .init (pre ++ [.str type, .str name]) =
        .ok ⟨[.str type, .str name], none, k, calls⟩ := by
      rw [run_append_ok hrun,
        run_words (by simp [Token.IsWord, Token.argType]) (by simp [maxTokens])]
      rfl
    refine ⟨_, .lbrace, _, ⟨[.str type, .str name], some cc, k, calls⟩, by simp, htwo, ?_, ?_⟩
    · unfold parseToken beginBlock
      simp [hfind, hsome, hstart]
    · exact (tidy_run hrun).allEnded rfl
  | @inside pre body rest k type name cc hpre hfind hstart hend hbody hwrong =>
    obtain ⟨calls, hrun⟩ := run_inside hpre hfind hstart hbody
    have hbegin : ∀ ws, beginBlock G B ⟨ws, some cc, k + 1, calls⟩ =
        .error ⟨ws, some cc, k + 1, calls⟩ := by
      intro ws
      unfold beginBlock
      split <;> rfl
    have hclose : ∀ ws, ¬ (True ∧ ws = []) → endBlock B ⟨ws, some cc, k + 1, calls⟩ =
        .error ⟨ws, some cc, k + 1, calls⟩ := by
      intro ws hno
      unfold endBlock
      rw [if_pos fun hnil => hno ⟨trivial, hnil⟩]
    have hwrong : Wrong (G.statements (ConfState.mk [] (some cc) (k + 1) calls).cc)
        (fun _ => False) True rest := hwrong
    obtain ⟨ws, tok, st', rfl, hws, herror, hcalls⟩ :=
      error_of_wrong hwrong rfl (fun ws _ => hbegin ws) hclose
    refine ⟨pre ++ ([.str type, .str name, .lbrace] ++ body) ++ ws, tok, _, st', by simp, ?_,
      herror, ?_⟩
    · rw [run_append_ok hrun, hws]
    · rw [hcalls]
      exact ((tidy_run hrun).allEnded_iff rfl).2 hend
  | @failed pre body k type name cc hpre hfind hstart hend hends hbody =>
    obtain ⟨calls, hrun⟩ := run_inside hpre hfind hstart hbody
    refine ⟨_, .rbrace, _, ⟨[], some cc, k + 1, calls ++ [.ended k]⟩, ?_, hrun, ?_, ?_⟩
    · simp
    · unfold parseToken endBlock
      simp [hend, hends]
    · exact (tidy_run hrun).allEnded_ended rfl

end Stops

/-! ## Files -/

/-- `read_config_file` from `st` on, of what is left of the file. -/
def readLexemes (G : Config) (B : Blocks) :
    List Lexeme → ConfState → Except Fault (ℤ × ConfState)
  | [], st => .ok (0, st)
  | l :: ls, st =>
    match l.1.run l.2 with
    | .error e => .error e
    | .ok none => if l.1 = .other then .ok (0, st) else readLexemes G B ls st
    | .ok (some tok) =>
      match parseToken G B st tok with
      | .error st' => .ok (-1, st')
      | .ok st' => readLexemes G B ls st'

section Files

variable {G : Config} {B : Blocks} {st st' : ConfState} {w : Bytes} {l : Lexeme}
  {ls : List Lexeme}

/-- The next token. -/
theorem readLexemes_next : readLexemes G B ls st =
    (do
      match ← nextLexed ls with
      | (.eof, _) | (.error, _) => return (0, st)
      | (.token tok, ls') =>
        match parseToken G B st tok with
        | .error st' => return (-1, st')
        | .ok st' => readLexemes G B ls' st') := by
  induction ls with
  | nil => rfl
  | cons l ls ih =>
    rw [readLexemes, nextLexed]
    rcases l.1.run l.2 with e | _ | tok
    · rfl
    · simp only [ok_bind]
      split_ifs
      · rfl
      · exact ih
    · rfl

/-- The loop reads what the file is split into. -/
theorem readLoop_eq (h : Lexemes w ls) {n : ℕ} (hn : ls.length < n) :
    readLoop G B n w st = readLexemes G B ls st := by
  induction n generalizing w ls st with
  | zero => exact absurd hn (Nat.not_lt_zero _)
  | succ n ih =>
    have hsame := yylex_lexemes h (Nat.lt_succ_of_le h.length_le)
    rw [readLexemes_next]
    unfold readLoop getNextToken
    generalize yylex (w.length + 1) w = x at hsame ⊢
    generalize nextLexed ls = y at hsame ⊢
    cases hsame with
    | fault e => rfl
    | @ok r w' ls' hw hlen =>
      simp only [ok_bind]
      cases r with
      | eof | error => rfl
      | token tok =>
        dsimp only
        cases parseToken G B st tok with
        | error st' => rfl
        | ok st' => exact ih hw ((hlen tok rfl).trans_le (Nat.le_of_lt_succ hn))

/-- `read_config_file` reads the lexemes that the scanner splits the file into. -/
theorem readConfigFile_eq (h : Lexemes w ls) :
    readConfigFile G B (some w) = readLexemes G B ls .init :=
  readLoop_eq h (Nat.lt_succ_of_le h.length_le)

/-- How `read_config_file` may end, in a file that is split into `ls`. -/
inductive Outcome (G : Config) (B : Blocks) (st : ConfState) :
    List Lexeme → Except Fault (ℤ × ConfState) → Prop
  | overrun {ls rest : List Lexeme} {l : Lexeme} {st' : ConfState} {e : Fault} :
      (∀ l ∈ ls, l.Good) → run G B st (tokens ls) = .ok st' → l.1.run l.2 = .error e →
      Outcome G B st (ls ++ l :: rest) (.error e)
  | other {ls rest : List Lexeme} {l : Lexeme} {st' : ConfState} :
      (∀ l ∈ ls, l.Good) → run G B st (tokens ls) = .ok st' → l.1 = .other →
      Outcome G B st (ls ++ l :: rest) (.ok (0, st'))
  | eof {ls : List Lexeme} {st' : ConfState} :
      (∀ l ∈ ls, l.Good) → run G B st (tokens ls) = .ok st' → Outcome G B st ls (.ok (0, st'))
  | stopped {ls rest : List Lexeme} {l : Lexeme} {tok : Token} {st₁ st' : ConfState} :
      (∀ l ∈ ls, l.Good) → run G B st (tokens ls) = .ok st₁ → l.Good → l.token = some tok →
      parseToken G B st₁ tok = .error st' → Outcome G B st (ls ++ l :: rest) (.ok (-1, st'))

/-- The tokens of two texts, one behind the other. -/
theorem tokens_append (ls ls' : List Lexeme) : tokens (ls ++ ls') = tokens ls ++ tokens ls' :=
  List.filterMap_append

/-- The tokens behind the first lexeme. -/
theorem tokens_cons (l : Lexeme) (ls : List Lexeme) : tokens (l :: ls) = tokens [l] ++ tokens ls :=
  tokens_append [l] ls

/-- A lexeme is one token, or none. -/
theorem tokens_singleton {tok : Token} (h : l.token = some tok) : tokens [l] = [tok] := by
  simp [tokens, h]

/-- A lexeme that the scanner and the parser go on behind. -/
theorem Outcome.cons {st₁ : ConfState} {r : Except Fault (ℤ × ConfState)} (hl : l.Good)
    (hrun : run G B st (tokens [l]) = .ok st₁) (h : Outcome G B st₁ ls r) :
    Outcome G B st (l :: ls) r := by
  have hgood : ∀ {ls : List Lexeme}, (∀ l ∈ ls, l.Good) → ∀ l' ∈ l :: ls, l'.Good := by
    intro ls hls l' hl'
    rcases List.mem_cons.1 hl' with rfl | hl'
    · exact hl
    · exact hls l' hl'
  have hcons : ∀ {ls : List Lexeme} {st' : ConfState}, run G B st₁ (tokens ls) = .ok st' →
      run G B st (tokens (l :: ls)) = .ok st' := by
    intro ls st' hls
    rw [tokens_cons, run_append_ok hrun, hls]
  cases h with
  | overrun hls hst hl' =>
    rw [← List.cons_append]
    exact .overrun (hgood hls) (hcons hst) hl'
  | other hls hst hl' =>
    rw [← List.cons_append]
    exact .other (hgood hls) (hcons hst) hl'
  | eof hls hst => exact .eof (hgood hls) (hcons hst)
  | stopped hls hst hl' htok herror =>
    rw [← List.cons_append]
    exact .stopped (hgood hls) (hcons hst) hl' htok herror

/-- Every file ends in one of these ways: by induction on its lexemes. -/
theorem outcome (ls : List Lexeme) : Outcome G B st ls (readLexemes G B ls st) := by
  induction ls generalizing st with
  | nil => exact .eof (by simp) rfl
  | cons l ls ih =>
    have hnil : ∀ l' ∈ ([] : List Lexeme), l'.Good := by simp
    unfold readLexemes
    rcases hl : l.1.run l.2 with e | _ | tok
    · exact .overrun hnil rfl hl
    · dsimp only
      by_cases hother : l.1 = .other
      · rw [if_pos hother]
        exact .other hnil rfl hother
      · rw [if_neg hother]
        have hnone : tokens [l] = [] := by simp [tokens, Lexeme.token, hl]
        exact .cons ⟨hother, _, hl⟩ (by rw [hnone, run_nil]) ih
    · have hgood : l.Good := by
        refine ⟨fun hother => ?_, _, hl⟩
        rw [hother] at hl
        cases hl
      have htok : l.token = some tok := by simp [Lexeme.token, hl]
      dsimp only
      cases hparse : parseToken G B st tok with
      | error st' => exact .stopped hnil rfl hgood htok hparse
      | ok st' =>
        exact .cons hgood (by rw [tokens_singleton htok, run_singleton, hparse]) ih

/-! ## The grammar and the parser -/

/-- The file is in the grammar, its strings fit into tokens, and no function refuses a block. -/
def Config.Loads (G : Config) (B : Blocks) (w : Bytes) : Prop :=
  ∃ ls, Lexemes w ls ∧ (∀ l ∈ ls, l.Good) ∧ ∃ k, Items G B 0 (tokens ls) k

/-- The file begins with something at which the parser stops without an `end_block` that is due. -/
def Config.Refuses (G : Config) (B : Blocks) (w : Bytes) : Prop :=
  ∃ ls ls', Lexemes w (ls ++ ls') ∧ (∀ l ∈ ls, l.Good) ∧ G.Stops B (tokens ls)

/-- The parser returns `0` for the files of the grammar, and has called `end_block` exactly once for
each block that it entered. -/
def ConfCorrect (G : Config) (w : Bytes) : Except Fault (ℤ × ConfState) → Prop
  | .error _ => False
  | .ok (ret, st) => (ret = 0 ↔ G.Accepts w) ∧ AllEnded st.calls

/-- The parser stops at its first error. -/
theorem run_append_error {toks : List Token} (toks' : List Token)
    (h : run G B st toks = .error st') : run G B st (toks ++ toks') = .error st' := by
  rw [run_append, h]
  rfl

/-- A file is in the grammar if it is read to its end, outside of the blocks and without words. -/
theorem loads_iff (h : Lexemes w ls) :
    G.Loads B w ↔ (∀ l ∈ ls, l.Good) ∧
      ∃ st, run G B .init (tokens ls) = .ok st ∧ st.cc = none ∧ st.t = [] := by
  rw [← exists_items_iff]
  constructor
  · rintro ⟨ls', h', hloads⟩
    rwa [h.unique h']
  · intro hloads
    exact ⟨ls, h, hloads⟩

/-- A file is in the grammar if its lexemes are known and the parser, with blocks that start and
end, comes to its end outside of blocks and statements. -/
theorem accepts_iff (h : Lexemes w ls) :
    G.Accepts w ↔ (∀ l ∈ ls, l.1 ≠ .other) ∧
      ∃ st, run G .willing .init (tokens ls) = .ok st ∧ st.cc = none ∧ st.t = [] := by
  rw [← exists_items_iff]
  constructor
  · rintro ⟨ls', h', haccepts⟩
    rwa [h.unique h']
  · intro haccepts
    exact ⟨ls, h, haccepts⟩

/-- The parser does not go beyond where a file is refused. -/
theorem run_of_refuses (h : G.Refuses B w) (hls : Lexemes w ls) :
    ∃ p q st, ls = p ++ q ∧ (∀ l ∈ p, l.Good) ∧ run G B .init (tokens p) = .error st ∧
      AllEnded st.calls := by
  obtain ⟨p, q, hpq, hgood, hstops⟩ := h
  obtain ⟨pre, tok, st, st', htoks, hrun, hstep, hall⟩ := error_of_stops hstops
  refine ⟨p, q, st', hls.unique hpq, hgood, ?_, hall⟩
  rw [htoks, run_append_ok hrun, run_singleton, hstep]

/-- A beginning that the scanner goes on behind ends before the first lexeme that it cannot go on
behind. -/
theorem begins_of_good {p q rest : List Lexeme} (hrest : ∀ l rest', rest = l :: rest' → ¬ l.Good)
    (hgood : ∀ l ∈ p, l.Good) (heq : ls ++ rest = p ++ q) : ∃ q', ls = p ++ q' := by
  rcases List.append_eq_append_iff.1 heq with ⟨a, hp, ha⟩ | ⟨c, hls, -⟩
  · cases a with
    | nil => exact ⟨[], by simpa using hp.symm⟩
    | cons l a => exact absurd (hgood l (by simp [hp])) (hrest l _ ha)
  · exact ⟨c, hls⟩

/-- A file that the parser reads to its end, or to a lexeme that it cannot go on behind, is not
refused. -/
theorem not_refuses {rest : List Lexeme} (h : Lexemes w (ls ++ rest))
    (hrest : ∀ l rest', rest = l :: rest' → ¬ l.Good) (hrun : run G B .init (tokens ls) = .ok st) :
    ¬ G.Refuses B w := by
  intro hrefuses
  obtain ⟨p, q, st', heq, hgood, herror, -⟩ := run_of_refuses hrefuses h
  obtain ⟨q', rfl⟩ := begins_of_good hrest hgood heq
  rw [tokens_append, run_append_error _ herror] at hrun
  cases hrun

/-- **The files that the configuration parser is right about**: those of the grammar that fit and
that no function refuses, and those that are not in the grammar and have something wrong where no
`end_block` is due.

**Proof sketch.** The file is split into lexemes in one way, and the parser reads them in order
(`Outcome`). Where a string overruns the buffer, or a character is unknown, neither side holds. At
the end of the file the tokens have been accepted, and `Loads` and `Accepts` say the same of the
state that is left. Where a token stops the parser, the file is not loaded, and the blocks that were
begun have all been ended exactly if the file is refused there. -/
theorem config_accepted_iff (G : Config) (B : Blocks) (w : Bytes) :
    ConfCorrect G w (readConfigFile G B (some w)) ↔
      G.Loads B w ∨ ¬ G.Accepts w ∧ G.Refuses B w := by
  obtain ⟨ls, hls⟩ := rules_total.exists_splits w
  rw [readConfigFile_eq hls]
  have houtcome : Outcome G B .init ls (readLexemes G B ls .init) := outcome ls
  generalize readLexemes G B ls .init = r at houtcome ⊢
  cases houtcome with
  | @overrun ls rest l st' e hgood hrun hl =>
    have hbad : ¬ l.Good := by
      rintro ⟨-, o, ho⟩
      rw [hl] at ho
      cases ho
    have hrest : ∀ l' rest', l :: rest = l' :: rest' → ¬ l'.Good := by
      rintro l' rest' ⟨⟩
      exact hbad
    refine iff_of_false id ?_
    rintro (hloads | ⟨-, hrefuses⟩)
    · exact hbad (((loads_iff hls).1 hloads).1 l (by simp))
    · exact not_refuses hls hrest hrun hrefuses
  | @other ls rest l st' hgood hrun hl =>
    have hbad : ¬ l.Good := fun h => h.1 hl
    have hrest : ∀ l' rest', l :: rest = l' :: rest' → ¬ l'.Good := by
      rintro l' rest' ⟨⟩
      exact hbad
    refine iff_of_false (fun h => ?_) ?_
    · exact ((accepts_iff hls).1 (h.1.1 rfl)).1 l (by simp) hl
    rintro (hloads | ⟨-, hrefuses⟩)
    · exact hbad (((loads_iff hls).1 hloads).1 l (by simp))
    · exact not_refuses hls hrest hrun hrefuses
  | @eof ls st' hgood hrun =>
    have hnot : ¬ G.Refuses B w := by
      have hls' : Lexemes w (ls ++ []) := by rwa [List.append_nil]
      refine not_refuses hls' (fun l rest' h => ?_) hrun
      cases h
    constructor
    · intro h
      -- the same tokens are read when no function refuses a block
      obtain ⟨-, st₁, hrun₁, hend⟩ := (accepts_iff hls).1 (h.1.1 rfl)
      rw [run_willing hrun] at hrun₁
      cases hrun₁
      exact .inl ((loads_iff hls).2 ⟨hgood, st', hrun, hend⟩)
    · rintro (hloads | ⟨-, hrefuses⟩)
      · obtain ⟨-, st₁, hrun₁, hcc, ht⟩ := (loads_iff hls).1 hloads
        rw [hrun] at hrun₁
        cases hrun₁
        refine ⟨iff_of_true rfl ((accepts_iff hls).2 ?_), (tidy_run hrun).allEnded hcc⟩
        exact ⟨fun l hl => (hgood l hl).1, st', run_willing hrun, hcc, ht⟩
      · exact absurd hrefuses hnot
  | @stopped ls rest l tok st₁ st' hgood hrun hl htok herror =>
    have hrunl : run G B .init (tokens (ls ++ l :: rest)) = .error st' := by
      rw [tokens_append, run_append_ok hrun, tokens_cons, tokens_singleton htok]
      refine run_append_error _ ?_
      rw [run_singleton, herror]
    have hnot : ¬ G.Loads B w := by
      intro hloads
      obtain ⟨-, st₂, hrun₂, -⟩ := (loads_iff hls).1 hloads
      rw [hrunl] at hrun₂
      cases hrun₂
    have hall : AllEnded st'.calls ↔ G.Refuses B w := by
      constructor
      · intro hall
        refine ⟨ls ++ [l], rest, by simpa using hls, ?_, ?_⟩
        · intro l' hl'
          rcases List.mem_append.1 hl' with hl' | hl'
          · exact hgood l' hl'
          · rwa [List.mem_singleton.1 hl']
        · rw [tokens_append, tokens_singleton htok]
          exact stops_of_error hrun herror hall
      · intro hrefuses
        obtain ⟨p, q, st₂, heq, -, hrun₂, hall⟩ := run_of_refuses hrefuses hls
        rw [heq, tokens_append, run_append_error _ hrun₂] at hrunl
        cases hrunl
        exact hall
    refine ⟨fun h => .inr ⟨fun haccepts => ?_, hall.1 h.2⟩, ?_⟩
    · exact absurd (h.1.2 haccepts) (by decide)
    · rintro (hloads | ⟨hno, hrefuses⟩)
      · exact absurd hloads hnot
      · exact ⟨iff_of_false (by decide) hno, hall.2 hrefuses⟩

end Files

/-- A statement that is not terminated, at the end of the file. -/
def portText : Bytes := str "port 8554"

/-- The statement `port`, and no modules. -/
def portConfig : Config := ⟨[⟨str "port", 1, 1, [.num]⟩], []⟩

/-- How the scanner splits `port 8554`. -/
theorem portText_lexemes : Lexemes portText
    [(.word, str "port"), (.whitespace, str " "), (.decimal, str "8554")] := by
  have hport : Lex.Longest rules portText 4 .word := Lex.scan_eq_some_iff.1 (by decide +kernel)
  have hblank : Lex.Longest rules (portText.drop 4) 1 .whitespace :=
    Lex.scan_eq_some_iff.1 (by decide +kernel)
  have hnum : Lex.Longest rules ((portText.drop 4).drop 1) 4 .decimal :=
    Lex.scan_eq_some_iff.1 (by decide +kernel)
  exact .cons hport (by decide) (.cons hblank (by decide) (.cons hnum (by decide) .nil))

/-- **The file is accepted though its statement is not terminated.** -/
theorem config_accepts_unterminated :
    ¬ ConfCorrect portConfig portText (readConfigFile portConfig .willing (some portText)) := by
  rw [readConfigFile_eq portText_lexemes]
  rintro ⟨haccepts, -⟩
  obtain ⟨-, st, hrun, -, ht⟩ := (accepts_iff portText_lexemes).1 (haccepts.1 rfl)
  obtain rfl := Except.ok.inj (hrun.symm.trans rfl)
  cases ht

end Spook.Conf
