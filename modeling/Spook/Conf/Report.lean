import Spook.Conf.Accept

set_option relaxedAutoImplicit false
set_option autoImplicit false

/-!
# Errors of directives

`process_statement` returns `0` whatever `process` returned. A directive that fails is reported only
when something else is wrong behind it.

## Main definitions

* `Spook.Conf.Processes` — the directives that a file makes the parser process.
* `Spook.Conf.ErrorsReported` — a directive that fails is the last one, and the parser returns `-1`.
* `Spook.Conf.Begins`, `GoesWrong` — how a file begins, and that it leaves the grammar.

## Main results

* `Spook.Conf.processes_iff` — the calls of `process` in what the parser returns.
* `Spook.Conf.errors_reported_iff` — in which files errors are reported.
-/

namespace Spook.Conf

/-- The tokens of a call of `process`. -/
def Call.processed : Call → Option (List Token)
  | .process t => some t
  | .entered _ _ | .ended _ => none

/-- The directives that were processed, in their order. -/
def processed (calls : List Call) : List (List Token) := calls.filterMap Call.processed

/-- `process` is called for the directive of this number. -/
def Processes (G : Config) (B : Blocks) (w : Bytes) (k : ℕ) : Prop :=
  ∃ ls rest st, Lexemes w (ls ++ rest) ∧ (∀ l ∈ ls, l.Good) ∧
    run G B .init (tokens ls) = .ok st ∧ k < (processed st.calls).length

/-- A directive whose `process` returns a negative number is the last one to be processed, and the
parser returns `-1`. What `process` returns is `P` of the number of the directive. -/
def ErrorsReported (G : Config) (B : Blocks) (P : ℕ → ℤ) (w : Bytes) : Prop :=
  ∀ k, Processes G B w k → P k < 0 →
    (∃ st, readConfigFile G B (some w) = .ok (-1, st)) ∧ ¬ Processes G B w (k + 1)

/-- The tokens are a beginning of the file, and of a file in the grammar. -/
def Begins (G : Config) (B : Blocks) (w : Bytes) (toks : List Token) : Prop :=
  ∃ ls rest cc k ws, Lexemes w (ls ++ rest) ∧ (∀ l ∈ ls, l.Good) ∧ tokens ls = toks ∧
    Consumed G B toks cc k ws

/-- A beginning of the file is not in the grammar. -/
def GoesWrong (G : Config) (B : Blocks) (w : Bytes) : Prop :=
  ∃ ls rest, Lexemes w (ls ++ rest) ∧ (∀ l ∈ ls, l.Good) ∧
    ∀ cc k ws, ¬ Consumed G B (tokens ls) cc k ws

/-! ## What is processed -/

section Processed

variable {G : Config} {B : Blocks} {w : Bytes} {st st' : ConfState} {toks ws : List Token}
  {cc : Option Context} {k : ℕ}

/-- What has been read is taken by the parser. -/
theorem run_consumed (h : Consumed G B toks cc k ws) :
    ∃ calls, run G B .init toks = .ok ⟨ws, cc, k, calls⟩ := by
  cases h with
  | @outside pre ws k hpre hws hlen =>
    obtain ⟨calls, hrun⟩ := run_init hpre
    refine ⟨calls, ?_⟩
    rw [run_append_ok hrun, run_words hws (by simpa using hlen)]
    rfl
  | @inside pre body ws k type name cc hpre hfind hstart hbody hws hlen =>
    obtain ⟨calls, hrun⟩ := run_inside hpre hfind hstart hbody
    refine ⟨calls, ?_⟩
    have hsplit : pre ++ .str type :: .str name :: .lbrace :: (body ++ ws) =
        pre ++ ([.str type, .str name, .lbrace] ++ body) ++ ws := by simp
    rw [hsplit, run_append_ok hrun, run_words hws (by simpa using hlen)]
    rfl

/-- The parser takes the beginnings of the files of the grammar. -/
theorem consumed_iff : (∃ cc k ws, Consumed G B toks cc k ws) ↔
    ∃ st, run G B .init toks = .ok st := by
  constructor
  · rintro ⟨cc, k, ws, h⟩
    obtain ⟨calls, hrun⟩ := run_consumed h
    exact ⟨_, hrun⟩
  · rintro ⟨st, h⟩
    exact ⟨_, _, _, consumed_run h⟩

/-- A directive is processed for each semicolon. -/
theorem length_processed (h : run G B .init toks = .ok st) :
    (processed st.calls).length = toks.count .semicolon := by
  induction toks using List.reverseRecOn generalizing st with
  | nil =>
    obtain rfl := Except.ok.inj h
    rfl
  | append_singleton toks tok ih =>
    obtain ⟨st₁, hrun, hstep⟩ := run_snoc_ok h
    have hcount := ih hrun
    rw [List.count_append, ← hcount]
    cases parsed_of_eq hstep with
    | word hword _ =>
      have hno : tok ≠ .semicolon := by
        rintro rfl
        exact hword rfl
      simp [hno]
    | statement _ | opened _ _ _ _ | ended _ _ _ _ | left _ _ _ =>
      simp [processed, Call.processed]

/-- The directives that are processed are those of a beginning in the grammar. -/
theorem processes_iff_begins :
    Processes G B w k ↔ ∃ toks, Begins G B w toks ∧ k < toks.count .semicolon := by
  constructor
  · rintro ⟨ls, rest, st, hls, hgood, hrun, hk⟩
    rw [length_processed hrun] at hk
    obtain ⟨cc, n, ws, hcons⟩ := consumed_iff.2 ⟨st, hrun⟩
    exact ⟨_, ⟨ls, rest, cc, n, ws, hls, hgood, rfl, hcons⟩, hk⟩
  · rintro ⟨_, ⟨ls, rest, cc, n, ws, hls, hgood, rfl, hcons⟩, hk⟩
    obtain ⟨st, hrun⟩ := consumed_iff.1 ⟨cc, n, ws, hcons⟩
    refine ⟨ls, rest, st, hls, hgood, hrun, ?_⟩
    rwa [length_processed hrun]

/-- The token that stops the parser is processed by nobody. -/
theorem processed_of_error {tok : Token} (h : parseToken G B st tok = .error st') :
    processed st'.calls = processed st.calls := by
  cases parsed_of_eq h with
  | failed _ _ _ _ => simp [processed, Call.processed]
  | tooMany _ _ | noStatement _ | refused _ _ _ _ _ | noBlock _ | noEnd _ => rfl

/-- How far the parser reads, and why it stops there. -/
inductive ReadsTo (G : Config) (B : Blocks) (w : Bytes) (ls rest : List Lexeme) (st : ConfState) :
    Except Fault (ℤ × ConfState) → Prop
  | ended {r : Except Fault (ℤ × ConfState)} : (∀ l rest', rest = l :: rest' → ¬ l.Good) →
      (∀ ret st', r = .ok (ret, st') → ret = 0 ∧ st' = st) → ReadsTo G B w ls rest st r
  | stopped {l : Lexeme} {rest' : List Lexeme} {st' : ConfState} : rest = l :: rest' → l.Good →
      run G B .init (tokens (ls ++ [l])) = .error st' → processed st'.calls = processed st.calls →
      ReadsTo G B w ls rest st (.ok (-1, st'))

/-- Every file is read up to some place. -/
theorem exists_readsTo (G : Config) (B : Blocks) (w : Bytes) :
    ∃ ls rest st, Lexemes w (ls ++ rest) ∧ (∀ l ∈ ls, l.Good) ∧
      run G B .init (tokens ls) = .ok st ∧
      ReadsTo G B w ls rest st (readConfigFile G B (some w)) := by
  obtain ⟨ls, hls⟩ := rules_total.exists_splits w
  rw [readConfigFile_eq hls]
  have houtcome : Outcome G B .init ls (readLexemes G B ls .init) := outcome ls
  generalize readLexemes G B ls .init = r at houtcome ⊢
  cases houtcome with
  | @overrun ls rest l st' e hgood hrun hl =>
    refine ⟨ls, l :: rest, st', hls, hgood, hrun, .ended ?_ (fun _ _ h => by cases h)⟩
    rintro l' rest' ⟨⟩ ⟨-, o, ho⟩
    rw [hl] at ho
    cases ho
  | @other ls rest l st' hgood hrun hl =>
    refine ⟨ls, l :: rest, st', hls, hgood, hrun, .ended ?_ (fun _ _ h => by cases h; simp)⟩
    rintro l' rest' ⟨⟩ h
    exact h.1 hl
  | @eof ls st' hgood hrun =>
    refine ⟨ls, [], st', by simpa using hls, hgood, hrun, .ended ?_ (fun _ _ h => by cases h; simp)⟩
    intro l rest' h
    cases h
  | @stopped ls rest l tok st₁ st' hgood hrun hl htok herror =>
    refine ⟨ls, l :: rest, st₁, hls, hgood, hrun,
      .stopped rfl hl ?_ (processed_of_error herror)⟩
    rw [tokens_append, tokens_singleton htok, run_append_ok hrun, run_singleton, herror]

/-- The parser reads all of the beginnings that are in the grammar. -/
theorem ReadsTo.begins {ls rest p q : List Lexeme} {r : Except Fault (ℤ × ConfState)}
    (h : ReadsTo G B w ls rest st r) (heq : ls ++ rest = p ++ q) (hgood : ∀ l ∈ p, l.Good)
    (hrun : run G B .init (tokens p) = .ok st') : ∃ q', ls = p ++ q' := by
  cases h with
  | ended hrest _ => exact begins_of_good hrest hgood heq
  | @stopped l rest' st₁ hrest _ herror _ =>
    subst hrest
    rcases List.append_eq_append_iff.1 heq with ⟨a, hp, ha⟩ | ⟨c, hls, -⟩
    · cases a with
      | nil => exact ⟨[], by simpa using hp.symm⟩
      | cons x a =>
        obtain ⟨rfl, -⟩ := List.cons.inj ha
        rw [hp, ← List.singleton_append, ← List.append_assoc, tokens_append,
          run_append_error _ herror] at hrun
        cases hrun
    · exact ⟨c, hls⟩

/-- **The calls of `process`** are those of the state that the parser returns with. -/
theorem processes_iff {ret : ℤ} (h : readConfigFile G B (some w) = .ok (ret, st)) (k : ℕ) :
    Processes G B w k ↔ k < (processed st.calls).length := by
  obtain ⟨ls, rest, st₁, hls, hgood, hrun, hreads⟩ := exists_readsTo G B w
  have hst : processed st.calls = processed st₁.calls := by
    rw [h] at hreads
    cases hreads with
    | ended _ hret => rw [(hret ret st rfl).2]
    | stopped _ _ _ hcalls => exact hcalls
  rw [hst]
  constructor
  · rintro ⟨p, q, st₂, hpq, hp, hrun₂, hk⟩
    obtain ⟨q', rfl⟩ := hreads.begins (hls.unique hpq) hp hrun₂
    rw [length_processed hrun₂] at hk
    rw [length_processed hrun, tokens_append, List.count_append]
    omega
  · intro hk
    exact ⟨ls, rest, st₁, hls, hgood, hrun, hk⟩

/-- The parser returns `-1` for the files that leave the grammar. -/
theorem returns_error_iff :
    (∃ st, readConfigFile G B (some w) = .ok (-1, st)) ↔ GoesWrong G B w := by
  obtain ⟨ls, rest, st₁, hls, hgood, hrun, hreads⟩ := exists_readsTo G B w
  constructor
  · rintro ⟨st, h⟩
    rw [h] at hreads
    cases hreads with
    | ended _ hret => exact absurd (hret _ _ rfl).1 (by decide)
    | @stopped l rest' _ hrest hl herror _ =>
      refine ⟨ls ++ [l], rest', by simpa [hrest] using hls, ?_, fun cc k ws hcons => ?_⟩
      · intro l' hl'
        rcases List.mem_append.1 hl' with hl' | hl'
        · exact hgood l' hl'
        · rwa [List.mem_singleton.1 hl']
      · obtain ⟨st', hrun'⟩ := consumed_iff.1 ⟨cc, k, ws, hcons⟩
        rw [herror] at hrun'
        cases hrun'
  · rintro ⟨p, q, hpq, hp, hno⟩
    generalize readConfigFile G B (some w) = r at hreads
    cases hreads with
    | ended hrest _ =>
      -- the beginning is one of what the parser has read
      obtain ⟨q', rfl⟩ := begins_of_good hrest hp (hls.unique hpq)
      rw [tokens_append, run_append] at hrun
      obtain ⟨st', hrun'⟩ : ∃ st', run G B .init (tokens p) = .ok st' := by
        rcases hrun' : run G B .init (tokens p) with st' | st'
        · rw [hrun'] at hrun
          cases hrun
        · exact ⟨st', rfl⟩
      obtain ⟨cc, k, ws, hcons⟩ := consumed_iff.2 ⟨st', hrun'⟩
      exact absurd hcons (hno cc k ws)
    | stopped _ _ _ _ => exact ⟨_, rfl⟩

end Processed

/-- **Errors of directives** are reported in a file if and only if every directive of it that fails
is the last one in the grammar, and the file leaves the grammar behind it. -/
theorem errors_reported_iff (G : Config) (B : Blocks) (P : ℕ → ℤ) (w : Bytes) :
    ErrorsReported G B P w ↔
      ∀ k toks, Begins G B w toks → k < toks.count .semicolon → P k < 0 →
        GoesWrong G B w ∧ ∀ toks', Begins G B w toks' → toks'.count .semicolon ≤ k + 1 := by
  unfold ErrorsReported
  simp only [processes_iff_begins, returns_error_iff]
  constructor
  · intro h k toks hbegins hk hP
    obtain ⟨hwrong, hlast⟩ := h k ⟨toks, hbegins, hk⟩ hP
    refine ⟨hwrong, fun toks' hbegins' => ?_⟩
    by_contra hmore
    exact hlast ⟨toks', hbegins', by omega⟩
  · rintro h k ⟨toks, hbegins, hk⟩ hP
    obtain ⟨hwrong, hlast⟩ := h k toks hbegins hk hP
    refine ⟨hwrong, ?_⟩
    rintro ⟨toks', hbegins', hk'⟩
    have hle := hlast toks' hbegins'
    omega

/-- `config_port`, with what `tcp_listen` returns. -/
def configPort (tcpListen : ℤ → ℤ) (port : ℤ) : ℤ :=
  if port ≤ 0 ∨ port > 65535 then -1 else tcpListen port

/-- A port that is none, and one that is. -/
def twoPorts : Bytes := str "port 0; port 8554;"

/-- The parser goes on behind the first, and returns 0. -/
theorem port_error_lost : ¬ ErrorsReported portConfig .willing
    (fun k => configPort (fun _ => 0) ([0, 8554].getD k 0)) twoPorts := by
  intro h
  have hread : ∃ st, readConfigFile portConfig .willing (some twoPorts) = .ok (0, st) ∧
      (processed st.calls).length = 2 := by
    have hrun : (readConfigFile portConfig .willing (some twoPorts)).toOption.map
        (fun p => (p.1, (processed p.2.calls).length)) = some (0, 2) := by decide +kernel
    rcases hr : readConfigFile portConfig .willing (some twoPorts) with e | ⟨ret, st⟩
    · rw [hr] at hrun
      cases hrun
    · rw [hr] at hrun
      obtain ⟨rfl, hlen⟩ := Prod.mk.inj (Option.some.inj hrun)
      exact ⟨st, rfl, hlen⟩
  obtain ⟨st, hst, hlen⟩ := hread
  obtain ⟨⟨st', hst'⟩, -⟩ := h 0 ((processes_iff hst 0).2 (by rw [hlen]; decide)) (by decide)
  rw [hst] at hst'
  cases hst'

end Spook.Conf
