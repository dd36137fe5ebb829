import CalcShell.Calc.Host
import CalcShell.Proofs.Calc.Foresight
import CalcShell.Proofs.Calc.Programs

/-!
# What may follow a source

A source that ends with a line end and is no program is either rejected for good or stops too early.
Where the parser did not reach the end, or the lexer rejects a character that is there, no text
makes up for it, and the error stays the same (`syntax_error_final`). Where the parser came to the
end and wanted more, one more line makes the source a program (`unfinished_repairable`): `nil` for
the expression that is missing, and a closing word for everything that is open.
-/

namespace CalcShell.Calc

/-! ## The statements of a source -/

/-- Words of the kinds `ks` and a line end behind them make `p` accept, at the end of the source. -/
def Completes {α : Type} (ks : List TokenKind) (p : Parser α) : Prop :=
  ∀ us (s : TokenStream), us.map Token.kind = ks ++ [.newline] → s.tokens = [] →
    ∃ a, p (s.behind us) = .ok (a, s)

/-- What becomes of a source that starts with the tokens `us` and a border: they are accepted; or
they are rejected for one of them or for nesting too deep, whatever follows; or they nest too deep
unless a bracket comes next; or they stop too early. In the last two cases one more line, with words
of the kinds `ks`, makes them complete. -/
inductive Outlook {α : Type} (b : Border) (p : Parser α) (us : List Token) : Prop where
  | accepts (line : b = .lineEnd)
      (h : ∀ t, t.kind = b.kind → ∀ s : TokenStream, s.tokens = [] →
        ∃ a, p (s.behind (us ++ [t])) = .ok (a, s))
  | rejects (h : ∀ t, t.kind = b.kind → ∃ text expected position, ∀ s : TokenStream,
      p (s.behind (us ++ [t])) = .error ⟨.unexpected text expected, position⟩)
  | deep (h : ∀ t, t.kind = b.kind → ∀ s : TokenStream,
      ∃ position, p (s.behind (us ++ [t])) = .error ⟨.tooDeep, position⟩)
  | brink (opener close : TokenKind) (ks : List TokenKind) (pair : (opener, close) ∈ brackets)
      (opened : LastWord opener us) (words : ks ⊆ finishers) (line : b = .lineEnd)
      (deep : ∀ t, t.kind = b.kind → ∀ s : TokenStream, (s.without [.newline]).peek.kind ≠ close →
        ∃ position, p (s.behind (us ++ [t])) = .error ⟨.tooDeep, position⟩)
      (finish : ∀ t, t.kind = b.kind → Completes (close :: ks) fun s => p (s.behind (us ++ [t])))
  | wants (ks : List TokenKind) (words : ks ⊆ finishers)
      (stops : ∀ t, t.kind = b.kind → ∀ s : TokenStream, s.tokens = [] →
        (b = .string ∧ ∃ a, p (s.behind (us ++ [t])) = .ok (a, s)) ∨
          ∃ expected, p (s.behind (us ++ [t])) = .error ⟨.endOfInput expected, s.stop⟩)
      (finish : ∀ t, t.kind = b.kind → Completes ks fun s => p (s.behind (us ++ [t])))

theorem Outlook.of_eq {α : Type} {b : Border} {p q : Parser α} {us vs : List Token}
    (h : Outlook b q vs) (hvs : vs <:+ us) (heq : ∀ t, t.kind = b.kind → ∀ s : TokenStream,
      p (s.behind (us ++ [t])) = q (s.behind (vs ++ [t]))) : Outlook b p us := by
  cases h with
  | accepts line h =>
    refine .accepts line fun t ht s hs => ?_
    rw [heq t ht]
    exact h t ht s hs
  | rejects h =>
    refine .rejects fun t ht => ?_
    obtain ⟨text, expected, position, h⟩ := h t ht
    exact ⟨text, expected, position, fun s => (heq t ht s).trans (h s)⟩
  | deep h =>
    refine .deep fun t ht s => ?_
    rw [heq t ht]
    exact h t ht s
  | brink opener close ks pair opened words line deep finish =>
    refine .brink opener close ks pair (opened.of_suffix hvs) words line (fun t ht s hs => ?_)
      fun t ht => ?_
    · rw [heq t ht]
      exact deep t ht s hs
    · rw [funext (heq t ht)]
      exact finish t ht
  | wants ks words stops finish =>
    refine .wants ks words (fun t ht s hs => ?_) fun t ht => ?_
    · rw [heq t ht]
      exact stops t ht s hs
    · rw [funext (heq t ht)]
      exact finish t ht

/-- Goes on behind the statement `a` of a source, of which `body` was read before. -/
def Parser.separated (e : Parser Expr) (body : List Stmt) (a : Stmt) : Parser Program := fun s =>
  if [.newline, .semi, .eof].contains s.peek.kind then statementsAfter e [] (a :: body) s
  else unexpected .separator s

section Statements

open Calc.Parser

variable {e : Parser Expr} (he : Foresees e) {b : Border} {us : List Token}
include he

/-- One round of reading the statements of a whole source, without a bound. -/
theorem statementsAfter_nil (body : List Stmt) (s : TokenStream) :
    statementsAfter e [] body s =
      if (s.without [.newline, .semi]).peek.kind = .eof then
        .ok (body.reverse, s.without [.newline, .semi])
      else (statement e >>= separated e body) (s.without [.newline, .semi]) := by
  rw [statementsAfter_eq he.advances, statementsRound_nil, bind_apply]
  cases statement e (s.without [.newline, .semi]) with
  | error err => rfl
  | ok x => rfl

/-- At the end of the source it is complete. -/
theorem statementsAfter_end {s : TokenStream} (hs : s.tokens = []) (body : List Stmt) :
    statementsAfter e [] body s = .ok (body.reverse, s) := by
  have hwithout : s.without [.newline, .semi] = s := by
    refine TokenStream.without_eq ?_
    rw [Starves.peek_kind hs]
    decide
  rw [statementsAfter_nil he, hwithout, if_pos (Starves.peek_kind hs)]

/-- Separators in front are skipped. -/
theorem statementsAfter_congr {s s' : TokenStream}
    (h : s.without [.newline, .semi] = s'.without [.newline, .semi]) (body : List Stmt) :
    statementsAfter e [] body s = statementsAfter e [] body s' := by
  rw [statementsAfter_nil he, statementsAfter_nil he, h]

/-- The first statement of some tokens starts behind the separators. -/
theorem statementsAfter_behind (hus : Inner us)
    (hfront : b.front (us.dropWhile fun u => [.newline, .semi].contains u.kind) ∉
      [.newline, .semi]) (body : List Stmt) {t : Token} (ht : t.kind = b.kind) (s : TokenStream) :
    statementsAfter e [] body (s.behind (us ++ [t])) = (statement e >>= separated e body)
      (s.behind ((us.dropWhile fun u => [.newline, .semi].contains u.kind) ++ [t])) := by
  rw [statementsAfter_nil he, Border.without_front ht hfront, Border.peek_kind ht, if_neg]
  exact Border.front_ne_eof (hus.subset (List.dropWhile_sublist _).subset)

/-- The words that finish a statement complete the source with the line end behind them. -/
theorem completes_of_finishes {p : Parser Stmt} {ks : List TokenKind} (h : Finishes .newline ks p)
    (body : List Stmt) : Completes ks (p >>= separated e body) := by
  intro us s hus hs
  obtain ⟨vs, ends, rfl, hvs, hends⟩ := List.map_eq_append_iff.1 hus
  obtain ⟨t, rfl⟩ : ∃ t, ends = [t] := List.length_eq_one_iff.1 (by
    rw [← List.length_map (f := Token.kind), hends, List.length_singleton])
  have ht : t.kind = .newline := List.singleton_inj.1 hends
  obtain ⟨a, ha⟩ := h vs (s.behind [t]) hvs ht
  have hpeek : (s.behind [t]).peek.kind = .newline := ht
  have hend : statementsAfter e [] (a :: body) (s.behind [t]) = .ok ((a :: body).reverse, s) := by
    rw [statementsAfter_congr he (TokenStream.behind_cons_without (by rw [ht]; decide) [] s)]
    exact statementsAfter_end he hs _
  refine ⟨(a :: body).reverse, ?_⟩
  rw [TokenStream.behind_append, bind_of_ok ha, separated, hpeek, if_pos (by decide), hend]

theorem statementsAfter_outlook (hus : Inner us) (body : List Stmt) :
    Outlook b (statementsAfter e [] body) us := by
  -- By induction on the tokens left, of which each statement takes some.
  induction hn : us.length using Nat.strongRecOn generalizing us body with
  | _ n ih =>
    have hsub := List.dropWhile_sublist (l := us) fun u => [.newline, .semi].contains u.kind
    by_cases hfront : b.front (us.dropWhile fun u => [.newline, .semi].contains u.kind) ∈
      [.newline, .semi]
    · obtain ⟨hall, hline, hborder⟩ := Border.skipped (List.Subset.refl _) hfront
      refine .accepts hline fun t ht s hs => ⟨body.reverse, ?_⟩
      rw [statementsAfter_congr he (Border.without_all (ht ▸ hborder) hall s)]
      exact statementsAfter_end he hs body
    have hround := fun t ht => statementsAfter_behind (t := t) he hus hfront body ht
    have hsuffix := List.dropWhile_suffix (l := us) fun u => [.newline, .semi].contains u.kind
    have hinner := hus.subset hsub.subset
    have hlength := hsub.length_le
    generalize (us.dropWhile fun u => [.newline, .semi].contains u.kind) = vs at *
    have hstmt : Foreseen b .newline (statement e) vs := statement_foreseen he (by decide) hinner
    refine Outlook.of_eq (q := statement e >>= separated e body) ?_ hsuffix hround
    cases hstmt with
    | takes a ws hws hsuffix h =>
      have hlt := Advances.length_le (statement_advances he.advances) h
      have hrest : ∀ t, t.kind = b.kind → ∀ s : TokenStream,
          (statement e >>= separated e body) (s.behind (vs ++ [t])) =
            separated e body a (s.behind (ws ++ [t])) := fun t ht s => bind_of_ok (h t ht s)
      by_cases hsep : [.newline, .semi, .eof].contains (b.front ws) = true
      · refine (ih _ (by omega) hws (a :: body) rfl).of_eq hsuffix fun t ht s => ?_
        rw [hrest t ht, separated, Border.peek_kind ht, if_pos hsep]
      · refine .rejects fun t ht => ?_
        obtain ⟨text, position, h⟩ := Border.unexpected hws ht .separator
        refine ⟨text, .separator, position, fun s => ?_⟩
        rw [hrest t ht, separated, Border.peek_kind ht, if_neg hsep, h]
    | rejects h =>
      refine .rejects fun t ht => ?_
      obtain ⟨text, expected, position, h⟩ := h t ht
      exact ⟨text, expected, position, fun s => bind_of_error (h s)⟩
    | deep h => exact .deep fun t ht s => (h t ht s).imp fun _ => bind_of_error
    | brink opener close ks hpair hopened h =>
      obtain ⟨hline, h⟩ := h
      have hwords : ks ⊆ finishers := (h ⟨b.kind, "", .start⟩ rfl).words
      refine .brink opener close ks hpair hopened hwords hline (fun t ht s hs => ?_) fun t ht => ?_
      · exact ((h t ht).deep s hs).imp fun _ => bind_of_error
      · exact completes_of_finishes he (h t ht).finish body
    | wants ks h =>
      have hwords : ks ⊆ finishers := (h ⟨b.kind, "", .start⟩ rfl).words
      refine .wants ks hwords (fun t ht s hs => ?_) fun t ht => ?_
      · obtain ⟨hb, a, ha⟩ | ⟨expected, hexpected⟩ := (h t ht).stops s hs
        · refine .inl ⟨hb, (a :: body).reverse, ?_⟩
          rw [bind_of_ok ha, separated, Starves.peek_kind hs, if_pos (by decide)]
          exact statementsAfter_end he hs _
        · exact .inr ⟨expected, bind_of_error hexpected⟩
      · exact completes_of_finishes he (h t ht).finish body

end Statements

/-! ## Words that finish, as text -/

/-- How a word that finishes is written, with a blank behind it. -/
def TokenKind.spelling : TokenKind → List Char
  | .kwNil => ['n', 'i', 'l', ' ']
  | .rparen => [')', ' ']
  | .rbrack => [']', ' ']
  | .kwEnd => ['e', 'n', 'd', ' ']
  | .kwThen => ['t', 'h', 'e', 'n', ' ']
  | .kwDo => ['d', 'o', ' ']
  | _ => []

theorem scan_spelling {k : TokenKind} (hk : k ∈ finishers) (q : Position) (cs : List Char) :
    ∃ c w, k.spelling = c :: (w ++ [' ']) ∧
      scan q c (w ++ ' ' :: cs) = .ok (.word k (c :: w) (' ' :: cs)) := by
  simp only [finishers, closings, List.mem_cons, List.not_mem_nil, or_false] at hk
  rcases hk with rfl | rfl | rfl | rfl | rfl | rfl
  · exact ⟨'n', ['i', 'l'], rfl, rfl⟩
  · exact ⟨')', [], rfl, rfl⟩
  · exact ⟨']', [], rfl, rfl⟩
  · exact ⟨'e', ['n', 'd'], rfl, rfl⟩
  · exact ⟨'t', ['h', 'e', 'n'], rfl, rfl⟩
  · exact ⟨'d', ['o'], rfl, rfl⟩

/-- A word that finishes stands in one line. -/
theorem spelling_inline {k : TokenKind} (hk : k ∈ finishers) : '\n' ∉ k.spelling := by
  revert k
  decide

/-- A line of words that finish has their tokens. -/
theorem lexFrom_spelled {ks : List TokenKind} (hks : ks ⊆ finishers) (q : Position) :
    ∃ s, lexFrom q (ks.flatMap TokenKind.spelling ++ ['\n']) = .ok s ∧
      s.tokens.map Token.kind = ks ++ [.newline] := by
  induction ks generalizing q with
  | nil =>
    have hscan : scan q '\n' [] = .ok (.word .newline ['\n'] []) := rfl
    have hnil : lexFrom (q.after ['\n']) [] = .ok ⟨[], q.after ['\n']⟩ := lexFrom_nil _
    exact ⟨_, lexFrom_cons_ok hscan hnil, rfl⟩
  | cons k ks ih =>
    obtain ⟨hk, hks⟩ := List.cons_subset.1 hks
    generalize hcs : ks.flatMap TokenKind.spelling ++ ['\n'] = cs at ih
    obtain ⟨c, w, hspelling, hscan⟩ := scan_spelling hk q cs
    have hgap : scan (q.after (c :: w)) ' ' cs = .ok (.gap [' '] cs) := rfl
    obtain ⟨s, hs, hkinds⟩ := ih hks ((q.after (c :: w)).after [' '])
    refine ⟨Lexeme.emit (.word k (c :: w) (' ' :: cs)) q s, ?_, ?_⟩
    · have hchars : (k :: ks).flatMap TokenKind.spelling ++ ['\n'] = c :: (w ++ ' ' :: cs) := by
        simp [hspelling, ← hcs]
      rw [hchars]
      exact lexFrom_cons_ok hscan (lexFrom_cons_ok hgap hs)
    · change k :: s.tokens.map Token.kind = _
      rw [hkinds, List.cons_append]

/-! ## Errors of the lexer -/

/-- An error of the lexer at a place in the characters `cs`, which start at `p`. -/
structure RejectedIn (p : Position) (cs : List Char) (err : SourceError) : Prop where
  /-- It stands behind the first ones of the characters. -/
  place : ∃ before, before <+: cs ∧ err.position = p.after before
  /-- The lexer has codes of its own. -/
  code : err.cause.code ∈ ["LEX001", "LEX002", "LEX003", "LEX004"]

namespace RejectedIn

variable {p : Position} {cs : List Char} {err : SourceError}

/-- An error where the characters start. -/
theorem here {cause : Cause} (h : cause.code ∈ ["LEX001", "LEX002", "LEX003", "LEX004"]) :
    RejectedIn p cs ⟨cause, p⟩ :=
  ⟨⟨[], List.nil_prefix, rfl⟩, h⟩

/-- An error behind some characters. -/
theorem behind (front : List Char) (h : RejectedIn (p.after front) cs err) :
    RejectedIn p (front ++ cs) err := by
  obtain ⟨⟨before, hbefore, hposition⟩, hcode⟩ := h
  refine ⟨⟨front ++ before, (List.prefix_append_right_inj front).2 hbefore, ?_⟩, hcode⟩
  rw [hposition, Position.after_append]

end RejectedIn

/-- A string is rejected where it opens, or for what stands in it. -/
theorem scanBody_rejectedIn {opening p : Position} {cs : List Char} {err : SourceError}
    (h : scanBody opening p cs = .error err) :
    err = ⟨.openString, opening⟩ ∨ RejectedIn p cs err := by
  fun_induction scanBody opening p cs with
  | case1 =>
    cases h
    exact .inl rfl
  | case2 => cases h
  | case3 =>
    cases h
    exact .inl rfl
  | case4 p e cs hd =>
    cases h
    exact .inr (.here (by simp [Cause.code]))
  | case5 p e cs d hd err' _ herr ih =>
    exact (ih (herr.trans h)).imp_right (RejectedIn.behind ['\\', e])
  | case6 => cases h
  | case7 p c cs hq he err' herr ih =>
    exact (ih (herr.trans h)).imp_right (RejectedIn.behind [c])
  | case8 => cases h

/-- What stands at the front of a source is rejected for the body of a string, for a number out of
range or for a character that starts nothing. -/
theorem scan_eq_error {p : Position} {c : Char} {cs : List Char} {err : SourceError}
    (h : scan p c cs = .error err) :
    (c = '"' ∧ scanBody p (p.next c) cs = .error err) ∨
      (∃ digits, err = ⟨.numberRange digits, p⟩) ∨ err = ⟨.strayChar c, p⟩ := by
  -- One case for each alternative of `scan`, in its order.
  unfold scan at h
  split at h
  · cases h
  split at h
  · cases h
  split at h
  · cases h
  split at h
  · rename_i hquote
    rw [scanString_eq] at h
    split at h
    · rename_i hbody
      cases h
      exact .inl ⟨hquote, hbody⟩
    · cases h
  split at h
  · unfold scanNumber at h
    split at h
    · cases h
      exact .inr (.inl ⟨_, rfl⟩)
    · cases h
  split at h
  · cases h
  · unfold scanSymbol at h
    split at h
    · cases h
    · split at h
      · cases h
      · cases h
        exact .inr (.inr rfl)

theorem scan_rejectedIn {p : Position} {c : Char} {cs : List Char} {err : SourceError}
    (h : scan p c cs = .error err) : RejectedIn p (c :: cs) err := by
  rcases scan_eq_error h with ⟨-, hbody⟩ | ⟨digits, rfl⟩ | rfl
  · rcases scanBody_rejectedIn hbody with rfl | hin
    · exact .here (by simp [Cause.code])
    · exact .behind [c] hin
  · exact .here (by simp [Cause.code])
  · exact .here (by simp [Cause.code])

/-- The lexer rejects a source for a place in it. -/
theorem lexFrom_rejectedIn {p : Position} {cs : List Char} {err : SourceError}
    (h : lexFrom p cs = .error err) : RejectedIn p cs err := by
  induction hn : cs.length using Nat.strongRecOn generalizing p cs with
  | _ n ih =>
    cases cs with
    | nil =>
      rw [lexFrom_nil] at h
      cases h
    | cons c cs =>
      cases hscan : scan p c cs with
      | error err' =>
        rw [lexFrom_cons_error hscan] at h
        cases h
        exact scan_rejectedIn hscan
      | ok l =>
        rw [lexFrom_cons hscan] at h
        cases hrest : lexFrom (p.after l.raw) l.rest with
        | error err' =>
          rw [hrest] at h
          cases h
          rw [← scan_append hscan]
          exact (ih l.rest.length (hn ▸ scan_rest_length hscan) hrest rfl).behind l.raw
        | ok s =>
          rw [hrest] at h
          cases h

/-- An error of the lexer, which stands at `p` or behind it. -/
def Lexical (p : Position) (err : SourceError) : Prop :=
  p.offset ≤ err.position.offset ∧ err.cause.code ∈ ["LEX001", "LEX002", "LEX003", "LEX004"]

theorem lexFrom_lexical {p : Position} {cs : List Char} {err : SourceError}
    (h : lexFrom p cs = .error err) : Lexical p err := by
  obtain ⟨⟨before, -, hposition⟩, hcode⟩ := lexFrom_rejectedIn h
  refine ⟨?_, hcode⟩
  rw [hposition, Position.after_offset]
  omega

/-! ## Sources -/

section Sources

open Calc.Parser

variable {src more : String} {err : SourceError} {s : TokenStream}

/-- What becomes of a source that has tokens and ends with a line end. -/
theorem lex_outlook (hsrc : EndsNewline src.toList) (hlex : lex src = .ok s) :
    ∃ us t, s.tokens = us ++ [t] ∧ t.kind = .newline ∧
      Outlook .lineEnd (statementsAfter expr [] []) us := by
  have hfrom := lexFrom_of_lex hlex
  have hlines : Lines s.tokens := ⟨lexFrom_endsLine hsrc hfrom, lexFrom_ne_eof hfrom⟩
  obtain ⟨us, t, htokens, ht, hus⟩ := hlines.bordered
  exact ⟨us, t, htokens, ht, statementsAfter_outlook (exprWithin_foresees maxNesting) hus []⟩

/-- The error for which a source is rejected, if it is. -/
def parseError? (src : String) : Option SourceError :=
  match parseProgram src with
  | .error err => some err
  | .ok _ => none

theorem parseError?_eq_some : parseError? src = some err ↔ parseProgram src = .error err := by
  unfold parseError?
  cases parseProgram src with
  | error err' => simp
  | ok p => simp

theorem parseError?_eq_none : parseError? src = none ↔ ∃ p, parseProgram src = .ok p := by
  unfold parseError?
  cases parseProgram src with
  | error err' => simp
  | ok p => simp

/-- The host waits for more where the code of the error says that more text may repair it. -/
theorem judge_of_error (h : parseProgram src = .error err) :
    host.judge src = if err.diagnostic.code ∈ Diagnostic.incompleteCodes
      then .incomplete (some err.render) else .complete := by
  change judge src = _
  rw [judge, h]
  simp only [SourceError.isIncomplete, Diagnostic.isIncomplete, List.contains_iff_mem]

/-- The lexer has codes of its own. -/
theorem lex_ok_of_error (h : parseProgram src = .error err)
    (hcode : err.cause.code ∉ ["LEX001", "LEX002", "LEX003", "LEX004"]) :
    ∃ s, lex src = .ok s := by
  cases hlex : lex src with
  | error err' =>
    rw [parseProgram_eq, parseWithin_of_lex hlex] at h
    cases h
    exact absurd (lexFrom_lexical (lexFrom_of_lex hlex)).2 hcode
  | ok s => exact ⟨s, rfl⟩

/-- The statements of a source are rejected for what the source is rejected for. -/
theorem statementsAfter_error {err' : SourceError} {us : List Token} (hlex : lex src = .ok s)
    (h : parseProgram src = .error err) (hus : s.tokens = us)
    (herr : statementsAfter expr [] [] (TokenStream.behind us ⟨[], s.stop⟩) = .error err') :
    err' = err := by
  rw [← hus, s.behind_self] at herr
  rw [parseProgram_eq, parseWithin_of_error hlex herr] at h
  exact Except.error.inj h

/-- For what tokens up to a last line end are rejected as a source, and what may follow them. -/
inductive Rejects (ts : List Token) (err : SourceError) : Prop
  /-- Whatever follows, it is the same error. -/
  | unexpected (code : err.cause.code = "PAR002")
      (final : ∀ t : TokenStream, statementsAfter expr [] [] (t.behind ts) = .error err)
  /-- Whatever follows, they nest too deep. -/
  | tooDeep (code : err.cause.code = "PAR003")
      (final : ∀ t : TokenStream, ∃ position,
        statementsAfter expr [] [] (t.behind ts) = .error ⟨.tooDeep, position⟩)
  /-- A word that opens items is the last one. The bracket that closes them may follow, and words
  with which the source is finished. -/
  | brink (code : err.cause.code = "PAR003") (opener close : TokenKind) (ks : List TokenKind)
      (pair : (opener, close) ∈ brackets) (opened : LastWord opener ts) (words : ks ⊆ finishers)
      (deep : ∀ t : TokenStream, (t.without [.newline]).peek.kind ≠ close → ∃ position,
        statementsAfter expr [] [] (t.behind ts) = .error ⟨.tooDeep, position⟩)
      (finish : Completes (close :: ks) fun t => statementsAfter expr [] [] (t.behind ts))
  /-- Words may follow with which the source is finished. -/
  | unfinished (code : err.cause.code = "PAR001") (ks : List TokenKind) (words : ks ⊆ finishers)
      (finish : Completes ks fun t => statementsAfter expr [] [] (t.behind ts))

theorem parseProgram_error (hsrc : EndsNewline src.toList) (hlex : lex src = .ok s)
    (h : parseProgram src = .error err) : Rejects s.tokens err := by
  obtain ⟨us, l, htokens, hl, houtlook⟩ := lex_outlook hsrc hlex
  have herror : ∀ {err' : SourceError},
      statementsAfter expr [] [] (TokenStream.behind (us ++ [l]) ⟨[], s.stop⟩) = .error err' →
        err' = err := statementsAfter_error hlex h htokens
  rw [htokens]
  cases houtlook with
  | accepts _ haccepts =>
    obtain ⟨p, hp⟩ := haccepts l hl ⟨[], s.stop⟩ rfl
    rw [← htokens, s.behind_self] at hp
    rw [parseProgram_eq, parseWithin_of_statements hlex hp rfl] at h
    cases h
  | rejects hrejects =>
    obtain ⟨text, expected, position, hrejects⟩ := hrejects l hl
    obtain rfl := herror (hrejects ⟨[], s.stop⟩)
    exact .unexpected rfl hrejects
  | deep hdeep =>
    obtain ⟨position, hposition⟩ := hdeep l hl ⟨[], s.stop⟩
    obtain rfl := herror hposition
    exact .tooDeep rfl (hdeep l hl)
  | brink opener close ks hpair hopened hwords _ hdeep hfinish =>
    obtain ⟨position, hposition⟩ := hdeep l hl ⟨[], s.stop⟩ (close_missing hpair rfl)
    obtain rfl := herror hposition
    exact .brink rfl opener close ks hpair (hopened.concat hl) hwords (hdeep l hl) (hfinish l hl)
  | wants ks hwords hstops hfinish =>
    obtain ⟨hb, -⟩ | ⟨expected, hexpected⟩ := hstops l hl ⟨[], s.stop⟩ rfl
    · cases hb
    obtain rfl := herror hexpected
    exact .unfinished rfl ks hwords (hfinish l hl)

/-- A source that the lexer rejects, other than for an open string, is rejected for the same
whatever follows. One that has tokens is followed by those of the text behind it. -/
theorem lex_append (hsrc : EndsNewline src.toList) (more : String) :
    Open (lex src) ∨ (∃ err, lex src = .error err ∧ lex (src ++ more) = .error err) ∨
      ∃ s, lex src = .ok s ∧
        lex (src ++ more) =
          (lexFrom (Position.start.after src.toList) more.toList).map
            (TokenStream.behind s.tokens) := by
  rw [lex_eq, lex_eq, String.toList_append]
  refine (lexFrom_extend hsrc more.toList).imp_right (Or.imp_right ?_)
  rintro ⟨s, hs, -, hextend⟩
  exact ⟨s, hs, hextend⟩

/-- The tokens of a source are followed by those of the text behind it. -/
theorem lex_append_ok (hsrc : EndsNewline src.toList) (hlex : lex src = .ok s) (more : String) :
    lex (src ++ more) = (lexFrom (Position.start.after src.toList) more.toList).map
      (TokenStream.behind s.tokens) := by
  rcases lex_append hsrc more with ⟨err', herr, -⟩ | ⟨err', herr, -⟩ | ⟨s', hs', happend⟩
  · rw [hlex] at herr
    cases herr
  · rw [hlex] at herr
    cases herr
  · rw [hlex] at hs'
    cases hs'
    exact happend

/-- The lexer rejects what follows a source with tokens, or finds tokens behind them. -/
theorem lex_append_cases (hsrc : EndsNewline src.toList) (hlex : lex src = .ok s) (more : String) :
    (∃ err', lex (src ++ more) = .error err') ∨
      ∃ t : TokenStream, lex (src ++ more) = .ok (t.behind s.tokens) := by
  rw [lex_append_ok hsrc hlex more]
  cases lexFrom (Position.start.after src.toList) more.toList with
  | error err' => exact .inl ⟨err', rfl⟩
  | ok t => exact .inr ⟨t, rfl⟩

/-- Words that complete the tokens of a source make it a program as one more line. -/
theorem completes_line (hsrc : EndsNewline src.toList) (hlex : lex src = .ok s)
    {ks : List TokenKind} (hks : ks ⊆ finishers)
    (hfinish : Completes ks fun t => statementsAfter expr [] [] (t.behind s.tokens)) :
    let line := String.ofList (ks.flatMap TokenKind.spelling)
    ∃ p, '\n' ∉ line.toList ∧ parseProgram (src ++ (line ++ "\n")) = .ok p ∧
      host.judge (src ++ (line ++ "\n")) = .complete := by
  intro line
  obtain ⟨t, ht, hkinds⟩ := lexFrom_spelled hks (Position.start.after src.toList)
  have hchars : (line ++ "\n").toList = ks.flatMap TokenKind.spelling ++ ['\n'] := by
    rw [String.toList_append, String.toList_ofList]
    rfl
  have happend : lex (src ++ (line ++ "\n")) = .ok (t.behind s.tokens) := by
    rw [lex_append_ok hsrc hlex, hchars, ht]
    rfl
  obtain ⟨p, hp⟩ := hfinish t.tokens ⟨[], t.stop⟩ hkinds rfl
  rw [t.behind_self] at hp
  have hprogram : parseProgram (src ++ (line ++ "\n")) = .ok p :=
    parseWithin_of_statements happend hp rfl
  refine ⟨p, ?_, hprogram, ?_⟩
  · rw [String.toList_ofList, List.mem_flatMap]
    rintro ⟨k, hk, hmem⟩
    exact absurd hmem (spelling_inline (hks hk))
  · change judge (src ++ (line ++ "\n")) = .complete
    rw [judge, hprogram]

/-- A source that ends with a line end and is rejected, other than for stopping too early or for
nesting too deep, is complete for the host, and no text behind it makes it a program. What the lexer
rejects it for stays the error. A token that was not expected stays the error as well, unless the
lexer rejects the text behind the source. -/
theorem syntax_error_final (hsrc : EndsNewline src.toList) (h : parseProgram src = .error err)
    (hcode : err.diagnostic.code ∉ ["PAR001", "LEX002", "PAR003"]) :
    host.judge src = .complete ∧ ∀ more : String,
      (∃ err', parseProgram (src ++ more) = .error err') ∧
      ((∃ err', lex src = .error err') → parseProgram (src ++ more) = .error err) ∧
      (err.diagnostic.code = "PAR002" → parseProgram (src ++ more) = .error err ∨
        ∃ err', lex (src ++ more) = .error err' ∧ src.utf8ByteSize ≤ err'.position.offset) := by
  simp only [List.mem_cons, List.not_mem_nil, or_false, not_or] at hcode
  obtain ⟨hnotEnd, hnotOpen, hnotDeep⟩ := hcode
  refine ⟨?_, fun more => ?_⟩
  · rw [judge_of_error h]
    exact if_neg (by simp [Diagnostic.incompleteCodes, hnotEnd, hnotOpen])
  rcases lex_append hsrc more with ⟨err', hlex, hopen⟩ | ⟨err', hlex, happend⟩ | ⟨s, hlex, happend⟩
  · -- The lexer rejects the source for an open string, which was ruled out.
    rw [parseProgram_eq, parseWithin_of_lex hlex] at h
    cases h
    exact absurd (congrArg Cause.code hopen) hnotOpen
  · have hmore : parseProgram (src ++ more) = .error err' := parseWithin_of_lex happend
    rw [parseProgram_eq, parseWithin_of_lex hlex] at h
    cases h
    exact ⟨⟨err, hmore⟩, fun _ => hmore, fun _ => .inl hmore⟩
  · have hnoLex : ¬∃ err', lex src = .error err' := by
      rintro ⟨err', hlex'⟩
      rw [hlex] at hlex'
      cases hlex'
    cases parseProgram_error hsrc hlex h with
    | unexpected _ hrejects =>
      cases hmore : lexFrom (Position.start.after src.toList) more.toList with
      | error err' =>
        rw [hmore] at happend
        have hoffset := (lexFrom_lexical hmore).1
        rw [Position.after_offset, String.ofList_toList] at hoffset
        refine ⟨⟨err', parseWithin_of_lex happend⟩, fun hlex => absurd hlex hnoLex, fun _ => ?_⟩
        exact .inr ⟨err', happend, by omega⟩
      | ok t =>
        rw [hmore] at happend
        have hmore := parseWithin_of_error happend (hrejects t)
        exact ⟨⟨err, hmore⟩, fun _ => hmore, fun _ => .inl hmore⟩
    | tooDeep hdeep => exact absurd hdeep hnotDeep
    | brink hdeep => exact absurd hdeep hnotDeep
    | unfinished hend => exact absurd hend hnotEnd

/-- The second comparison in the second line is not expected, and no text closes the brackets. -/
theorem syntax_error_final_comparison :
    let src := "let a = [1, f(\n  2 < 3 < 4\n"
    let err : SourceError := ⟨.unexpected "<" .comparisonEnd, ⟨23, 2, 9⟩⟩
    EndsNewline src.toList ∧ parseProgram src = .error err ∧ err.diagnostic.code = "PAR002" ∧
      host.judge src = .complete ∧ ∀ more, ∃ err', parseProgram (src ++ more) = .error err' := by
  intro src err
  have hsrc : EndsNewline src.toList := by decide +kernel
  have herr : parseProgram src = .error err := parseError?_eq_some.1 (by decide +kernel)
  obtain ⟨hjudge, hmore⟩ := syntax_error_final hsrc herr (by decide)
  exact ⟨hsrc, herr, rfl, hjudge, fun more => (hmore more).1⟩

/-- A source that ends with a line end and stops too early is not complete for the host, and one
more line makes it a program. -/
theorem unfinished_repairable (hsrc : EndsNewline src.toList) (h : parseProgram src = .error err)
    (hcode : err.diagnostic.code = "PAR001") :
    (∃ message, host.judge src = .incomplete message) ∧
      ∃ line p, '\n' ∉ line.toList ∧ parseProgram (src ++ (line ++ "\n")) = .ok p ∧
        host.judge (src ++ (line ++ "\n")) = .complete := by
  refine ⟨⟨some err.render, ?_⟩, ?_⟩
  · rw [judge_of_error h, hcode]
    exact if_pos (by decide)
  have hcode : err.cause.code = "PAR001" := hcode
  obtain ⟨s, hlex⟩ := lex_ok_of_error h (by rw [hcode]; decide)
  cases parseProgram_error hsrc hlex h with
  | unexpected hcode' => exact absurd (hcode'.symm.trans hcode) (by decide)
  | tooDeep hcode' => exact absurd (hcode'.symm.trans hcode) (by decide)
  | brink hcode' => exact absurd (hcode'.symm.trans hcode) (by decide)
  | unfinished _ ks hks hfinish => exact ⟨_, completes_line hsrc hlex hks hfinish⟩

/-- A block, a list, a call and an operator are open. -/
theorem unfinished_repairable_nested :
    let src := "while a < 3 do\n  if b then c = [1, f(2 *\n"
    let err : SourceError := ⟨.endOfInput .expression, ⟨41, 3, 1⟩⟩
    EndsNewline src.toList ∧ parseProgram src = .error err ∧ err.diagnostic.code = "PAR001" ∧
      ∃ line p, '\n' ∉ line.toList ∧ parseProgram (src ++ (line ++ "\n")) = .ok p := by
  intro src err
  have hsrc : EndsNewline src.toList := by decide +kernel
  have herr : parseProgram src = .error err := parseError?_eq_some.1 (by decide +kernel)
  obtain ⟨-, line, p, hline, hp, -⟩ := unfinished_repairable hsrc herr rfl
  exact ⟨hsrc, herr, rfl, line, p, hline, hp⟩

end Sources

end CalcShell.Calc
