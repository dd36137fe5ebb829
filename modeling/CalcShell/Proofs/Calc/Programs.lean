import CalcShell.Proofs.Calc.Lexemes
import CalcShell.Proofs.Calc.Progress

/-!
# Cutting a program behind a line end

A program that is cut behind a line end, where both parts are programs, says what the parts say one
after the other. If the first part is no program, this is only because it stops too early. To that
end the first part may nest one deeper than the whole: otherwise the parser might find that the part
nests too deep before it finds that it stops.
-/

namespace CalcShell.Calc

namespace Parser

/-- The statements of a whole source, with expressions that nest to the given depth. -/
def programWithin (depth : Nat) : Parser Program := do
  let body ← statements (exprWithin depth) []
  let _ ← expect .eof
  return body

end Parser

/-- The program that a source spells if it nests to the given depth. -/
def parseWithin (depth : Nat) (src : String) : Except SourceError Program :=
  (Parser.programWithin depth).run src

theorem parseProgram_eq (src : String) : parseProgram src = parseWithin maxNesting src := rfl

/-- A source is a program whose expressions nest less deep than the given depth. -/
def NestsBelow (depth : Nat) (src : String) : Prop := ∃ p, parseWithin (depth - 1) src = .ok p

section Top

open Calc.Parser

variable {E : SourceError → Prop} {rest : List Token} {s s' : TokenStream} {e e' : Parser Expr}

/-- One round of reading the statements of a source. -/
theorem statementsFrom_succ (e : Parser Expr) (m : Nat) (body : List Stmt) (s : TokenStream) :
    statementsFrom e [] (m + 1) body s =
      if (s.without [.newline, .semi]).peek.kind = .eof then
        .ok (body.reverse, s.without [.newline, .semi])
      else
        match statement e (s.without [.newline, .semi]) with
        | .error err => .error err
        | .ok (a, t) =>
          if [.newline, .semi, .eof].contains t.peek.kind then
            statementsFrom e [] m (a :: body) t
          else unexpected .separator t :=
  statementsRound_nil e (statementsFrom e [] m) body s

/-- At the end of a source its statements are complete. -/
theorem statementsFrom_nil (e : Parser Expr) (m : Nat) (body : List Stmt) {s : TokenStream}
    (hs : s.tokens = []) : statementsFrom e [] (m + 1) body s = .ok (body.reverse, s) := by
  have hwithout : s.without [.newline, .semi] = s := by
    rw [TokenStream.without, hs, List.dropWhile_nil, ← hs]
  rw [statementsFrom_succ, hwithout, if_pos (Starves.peek_kind hs)]

/-- What was read before is only put in front, so that it has no bearing on what is read next. -/
theorem statementsFrom_front (e : Parser Expr) (m : Nat) (front : List Stmt) (s : TokenStream) :
    statementsFrom e [] m front s =
      (statementsFrom e [] m [] s).map fun x => (front.reverse ++ x.1, x.2) := by
  induction m generalizing front s with
  | zero => rfl
  | succ m ih =>
    rw [statementsFrom_succ, statementsFrom_succ]
    split
    · simp only [Except.map, List.reverse_nil, List.append_nil]
    · cases statement e (s.without [.newline, .semi]) with
      | error err => rfl
      | ok x =>
        obtain ⟨a, t⟩ := x
        dsimp only
        split
        · rw [ih (a :: front) t, ih [a] t]
          cases statementsFrom e [] m [] t with
          | error err => rfl
          | ok x => simp [Except.map]
        · rfl

/-- The statements of a source behind those that were read before. -/
theorem statementsFrom_body {m : Nat} {body : List Stmt} {p : Program} {t : TokenStream}
    (h : statementsFrom e [] m body s = .ok (p, t)) (front : List Stmt) :
    ∃ q, p = body.reverse ++ q ∧
      statementsFrom e [] m front s = .ok (front.reverse ++ q, t) := by
  rw [statementsFrom_front] at h ⊢
  cases hread : statementsFrom e [] m [] s with
  | error err =>
    rw [hread] at h
    cases h
  | ok x =>
    rw [hread] at h
    cases h
    exact ⟨x.1, rfl, rfl⟩

/-- A source that is cut behind a line end: either the statements of the part that is left are
those read up to the cut, from where those of the rest are read, or the part stops too early. -/
theorem statementsFrom_cut (he : Mirrors E e e') {m m' : Nat} {body body' : List Stmt}
    (hcut : Cut rest s s') (hm' : s'.size < m') (hbody : Program.Alike body body') {p : Program}
    {t : TokenStream} (h : statementsFrom e [] m body s = .ok (p, t)) :
    (∃ q t' body₁ m₁ stop, statementsFrom e' [] m' body' s' = .ok (q, t') ∧ t'.tokens = [] ∧
        Program.Alike body₁.reverse q ∧
        statementsFrom e [] m₁ body₁ ⟨rest, stop⟩ = .ok (p, t)) ∨
      (rest ≠ [] ∧ ∃ err, statementsFrom e' [] m' body' s' = .error err ∧ E err) := by
  -- By induction on the rounds for the part that is left: each of them takes a statement from both
  -- streams, as long as the separators in front do not use the part up.
  induction m' generalizing m s s' body body' with
  | zero => exact absurd hm' (Nat.not_lt_zero _)
  | succ m' ih =>
    cases m with
    | zero => cases h
    | succ m =>
      rcases hcut.without [.newline, .semi] with ⟨hcut', hsize⟩ | ⟨hnone, hleft⟩
      · rw [statementsFrom_succ, if_neg hcut'.peek_ne_eof] at h
        rw [statementsFrom_succ, ← hcut'.peek_kind, if_neg hcut'.peek_ne_eof]
        split at h
        · cases h
        rename_i a u hstmt
        have hpos := hcut'.size_pos
        rcases statement_keeps he hcut' a u hstmt with
          ⟨a', u', hstmt', ha, hu, hsize'⟩ | ⟨hrest, err, herr, hE⟩
        · rw [hstmt']
          dsimp only
          rw [← hu.peek_kind]
          split at h
          · rename_i hsep
            rw [if_pos hsep]
            refine ih hu (by omega) ?_ h
            rw [Program.Alike, Stmt.eraseAll, Stmt.eraseAll, ha, hbody]
          · cases h
        · -- The statement goes on behind the cut.
          rw [herr]
          exact .inr ⟨hrest, err, rfl, hE⟩
      · -- All of the part that is left is read, and the whole goes on with the rest.
        refine .inl ⟨body'.reverse, s'.without [.newline, .semi], body, m + 1, s.stop, ?_, hnone,
          ?_, ?_⟩
        · rw [statementsFrom_succ, if_pos (Starves.peek_kind hnone)]
        · rw [Program.Alike, Stmt.eraseAll_reverse, Stmt.eraseAll_reverse, hbody]
        · have hwithout : TokenStream.without [.newline, .semi] ⟨rest, s.stop⟩ =
              s.without [.newline, .semi] :=
            congrArg (TokenStream.mk · s.stop) hleft.symm
          rw [statementsFrom_succ, hwithout, ← statementsFrom_succ]
          exact h

end Top

/-! ## Sources -/

section Sources

open Calc.Parser

variable {depth : Nat} {src : String} {p : Program} {s t : TokenStream} {err : SourceError}

/-- What makes a source a program. -/
theorem parseWithin_ok (h : parseWithin depth src = .ok p) :
    ∃ s t, lex src = .ok s ∧
      statementsFrom (exprWithin depth) [] (s.size + 1) [] s = .ok (p, t) := by
  unfold parseWithin Parser.run at h
  split at h
  · cases h
  rename_i s hlex
  split at h
  · cases h
  rename_i q u hprogram
  cases h
  obtain ⟨body, s₁, hbody, hrest⟩ := bind_ok hprogram
  obtain ⟨_, s₂, -, hpure⟩ := bind_ok hrest
  cases hpure
  exact ⟨s, s₁, hlex, hbody⟩

/-- A source all of whose tokens are statements is a program. -/
theorem parseWithin_of_statements (hlex : lex src = .ok s)
    (h : statementsFrom (exprWithin depth) [] (s.size + 1) [] s = .ok (p, t))
    (ht : t.tokens = []) : parseWithin depth src = .ok p := by
  have hbody : statements (exprWithin depth) [] s = .ok (p, t) := h
  have hend : expect .eof t = .ok (t.peek, t.advance) := expect_of_kind (Starves.peek_kind ht)
  have hprogram : programWithin depth s = .ok (p, t.advance) := by
    rw [programWithin, bind_of_ok hbody, bind_of_ok hend]
    rfl
  rw [parseWithin, Parser.run, hlex]
  simp only [hprogram]

/-- A source is rejected for its tokens. -/
theorem parseWithin_of_lex (h : lex src = .error err) : parseWithin depth src = .error err := by
  rw [parseWithin, Parser.run, h]

/-- A source is rejected for its statements. -/
theorem parseWithin_of_error (hlex : lex src = .ok s)
    (h : statementsFrom (exprWithin depth) [] (s.size + 1) [] s = .error err) :
    parseWithin depth src = .error err := by
  have hbody : statements (exprWithin depth) [] s = .error err := h
  have hprogram : programWithin depth s = .error err := bind_of_error hbody
  rw [parseWithin, Parser.run, hlex]
  simp only [hprogram]

/-- The empty source is the empty program. -/
theorem parseWithin_empty (depth : Nat) : parseWithin depth "" = .ok [] := by
  have hlex : lex "" = .ok ⟨[], .start⟩ := by
    rw [lex_eq, show "".toList = [] from rfl, lexFrom_nil]
  exact parseWithin_of_statements hlex (statementsFrom_nil _ 0 [] rfl) rfl

/-- A source that ends with a line end and has tokens, the last of which is this line end. -/
theorem lexFrom_endsLine {q : Position} {cs : List Char} (hcs : EndsNewline cs)
    (h : lexFrom q cs = .ok s) : EndsLine s.tokens := by
  rw [← List.append_nil cs] at h
  rcases lexFrom_cut hcs h with ⟨s₁, s₂, h₁, h₂, htokens, hends⟩ | ⟨err, herr, -⟩
  · rw [lexFrom_nil] at h₂
    cases h₂
    rw [htokens, List.append_nil]
    exact hends
  · rw [List.append_nil, herr] at h
    cases h

/-- The tokens of a source, apart from where they stand, have the same statements. -/
theorem parseWithin_moved {q stop : Position} {m : Nat} (hsrc : src = "" ∨ EndsNewline src.toList)
    (hlex : lexFrom q src.toList = .ok s)
    (h : statementsFrom (exprWithin depth) [] m [] ⟨s.tokens, stop⟩ = .ok (p, t)) :
    ∃ p', parseWithin depth src = .ok p' ∧ Program.Alike p p' := by
  obtain ⟨s', hlex', hwords⟩ := lexFrom_moved hlex .start
  rcases hsrc with rfl | hsrc
  · rw [show "".toList = [] from rfl, lexFrom_nil] at hlex
    cases hlex
    cases m with
    | zero => cases h
    | succ m =>
      rw [statementsFrom_nil _ m [] rfl] at h
      cases h
      exact ⟨[], parseWithin_empty depth, rfl⟩
  · -- The source is cut at its end, so that only positions differ and no error can arise.
    have hcut : Cut [] ⟨s.tokens, stop⟩ s' :=
      ⟨s.tokens, (List.append_nil _).symm, hwords, lexFrom_endsLine hsrc hlex,
        lexFrom_ne_eof hlex⟩
    have hmirrors : Mirrors (fun _ => True) (exprWithin depth) (exprWithin depth) :=
      .exprWithin (fun _ _ => trivial) (.inr ⟨Nat.le_refl _, fun _ => trivial⟩)
    rcases statementsFrom_cut hmirrors hcut (Nat.lt_succ_self _) rfl h with
      ⟨p', t', body, m₁, stop₁, hp', ht', halike, hrest⟩ | ⟨hne, -⟩
    · refine ⟨p', parseWithin_of_statements (lex_of_lexFrom hlex') hp' ht', ?_⟩
      cases m₁ with
      | zero => cases hrest
      | succ m₁ =>
        rw [statementsFrom_nil _ m₁ body rfl] at hrest
        cases hrest
        exact halike
    · exact absurd rfl hne

/-- A program that is cut behind a line end: either both parts are programs, the second one of the
same depth, and the whole says what they say; or the first part stops too early, and there is a
second part. -/
theorem parseWithin_append {u v : String} (hu : EndsNewline u.toList)
    (hv : v = "" ∨ EndsNewline v.toList) (h : parseWithin depth (u ++ v) = .ok p) :
    (∃ p₁ p₂, parseWithin (depth + 1) u = .ok p₁ ∧ parseWithin depth v = .ok p₂ ∧
        Program.Alike p (p₁ ++ p₂)) ∨
      (v ≠ "" ∧ ∃ err, parseWithin (depth + 1) u = .error err ∧ err.isIncomplete = true) := by
  obtain ⟨s, t, hlex, hstmts⟩ := parseWithin_ok h
  rw [lex_eq, String.toList_append] at hlex
  rcases lexFrom_cut hu hlex with ⟨s₁, s₂, h₁, h₂, htokens, hends⟩ | ⟨err, herr, hcause⟩
  · -- The cut is between two tokens.
    have hcut : Cut s₂.tokens s s₁ :=
      ⟨s₁.tokens, htokens, rfl, hends, lexFrom_ne_eof h₁⟩
    have hmirrors : Mirrors (fun err => err.isIncomplete = true) (exprWithin depth)
        (exprWithin (depth + 1)) := .exprWithin (fun _ _ => rfl) (.inl (Nat.lt_succ_self _))
    rcases statementsFrom_cut hmirrors hcut (Nat.lt_succ_self _) rfl hstmts with
      ⟨p₁, t₁, body, m, stop, hp₁, ht₁, halike, hrest⟩ | ⟨hne, err, herr, hincomplete⟩
    · -- It is between two statements too, and the rest is read as a source of its own.
      left
      obtain ⟨q, rfl, hq⟩ := statementsFrom_body hrest []
      obtain ⟨p₂, hp₂, halike₂⟩ := parseWithin_moved hv h₂ hq
      refine ⟨p₁, p₂, parseWithin_of_statements (lex_of_lexFrom h₁) hp₁ ht₁, hp₂, ?_⟩
      rw [Program.Alike, Stmt.eraseAll_append, Stmt.eraseAll_append, halike, ← halike₂]
      rfl
    · refine .inr ⟨?_, err, parseWithin_of_error (lex_of_lexFrom h₁) herr, hincomplete⟩
      rintro rfl
      rw [show "".toList = [] from rfl, lexFrom_nil] at h₂
      cases h₂
      exact hne rfl
  · -- The cut is within a string.
    refine .inr ⟨?_, err, parseWithin_of_lex (lex_of_lexFrom herr), ?_⟩
    · rintro rfl
      rw [show "".toList = [] from rfl, List.append_nil, herr] at hlex
      cases hlex
    · rw [SourceError.isIncomplete, SourceError.diagnostic, hcause]
      rfl

end Sources

end CalcShell.Calc
