import CalcShell.Proofs.Calc.Continuation
import CalcShell.Proofs.Calc.Displacement
import Mathlib

/-!
# One source behind another

A program that ends with a line end may be followed by any text: what the text is on its own decides
whether the whole is a program, and then the statements of the text, as far away as they are now,
follow those of the program (`parseProgram_append`). If the text is no program, its error is that of
the whole, as far away.

The tokens of the program are followed by those of the text. The parser comes to the end of the
former with the statements read so far and goes on as it does at the start of a source.
-/

namespace CalcShell.Calc

section Statements

open Calc.Parser

variable {e : Parser Expr} (he : Foresees e)
include he

/-- The parser reads lines that are statements by themselves and goes on behind them, whatever
follows. -/
theorem statementsAfter_passes {us : List Token} (hus : Inner us) {l : Token}
    (hl : l.kind = .newline) {body : List Stmt} {p : Program} {s₀ t₀ : TokenStream}
    (hs₀ : s₀.tokens = []) (h : statementsAfter e [] body (s₀.behind (us ++ [l])) = .ok (p, t₀))
    (s : TokenStream) :
    statementsAfter e [] body (s.behind (us ++ [l])) = statementsAfter e [] p.reverse s := by
  -- By induction on the tokens left, of which each statement takes some.
  induction hn : us.length using Nat.strongRecOn generalizing us body with
  | _ n ih =>
    have hsub := List.dropWhile_sublist (l := us) fun u => [.newline, .semi].contains u.kind
    by_cases hfront : Border.lineEnd.front
      (us.dropWhile fun u => [.newline, .semi].contains u.kind) ∈ [.newline, .semi]
    · -- Nothing but separators is left, which would be skipped in front of what follows as well.
      have hskip : ∀ s : TokenStream,
          statementsAfter e [] body (s.behind (us ++ [l])) = statementsAfter e [] body s := by
        intro s
        refine statementsAfter_congr he (Border.without_all (by rw [hl]; decide) ?_ s) body
        exact (Border.skipped (List.Subset.refl _) hfront).1
      rw [hskip, statementsAfter_end he hs₀] at h
      cases h
      rw [hskip, List.reverse_reverse]
    have hround := statementsAfter_behind he hus hfront body hl
    have hinner := hus.subset hsub.subset
    have hlength := hsub.length_le
    generalize (us.dropWhile fun u => [.newline, .semi].contains u.kind) = vs at *
    rw [hround] at h
    have hstmt : Foreseen .lineEnd .newline (statement e) vs :=
      statement_foreseen he (by decide) hinner
    cases hstmt with
    | takes stmt ws hws _ htakes =>
      have hlt := Advances.length_le (statement_advances he.advances) htakes
      have hrest : ∀ s : TokenStream, (statement e >>= separated e body) (s.behind (vs ++ [l])) =
          separated e body stmt (s.behind (ws ++ [l])) := fun s => bind_of_ok (htakes l hl s)
      rw [hrest, separated, Border.peek_kind (b := .lineEnd) hl] at h
      by_cases hsep : [.newline, .semi, .eof].contains (Border.lineEnd.front ws) = true
      · rw [if_pos hsep] at h
        rw [hround, hrest, separated, Border.peek_kind (b := .lineEnd) hl, if_pos hsep]
        exact ih _ (by omega) hws h rfl
      · obtain ⟨text, position, hrejects⟩ := Border.unexpected (b := .lineEnd) hws hl .separator
        rw [if_neg hsep, hrejects] at h
        cases h
    | rejects hrejects =>
      obtain ⟨text, expected, position, hrejects⟩ := hrejects l hl
      rw [bind_of_error (hrejects s₀)] at h
      cases h
    | deep hdeep =>
      obtain ⟨position, hposition⟩ := hdeep l hl s₀
      rw [bind_of_error hposition] at h
      cases h
    | brink opener close ks hpair hopened hbrink =>
      obtain ⟨position, hposition⟩ := (hbrink.2 l hl).deep s₀ (close_missing hpair hs₀)
      rw [bind_of_error hposition] at h
      cases h
    | wants ks hwants =>
      obtain ⟨hb, -⟩ | ⟨expected, hexpected⟩ := (hwants l hl).stops s₀ hs₀
      · cases hb
      · rw [bind_of_error hexpected] at h
        cases h

end Statements

section Sources

open Calc.Parser

variable {src : String} {p : Program}

/-- A program is statements up to the end of the source. -/
theorem program_eq (s : TokenStream) :
    program s =
      match statements expr [] s with
      | .error err => .error err
      | .ok (p, t) => (expect .eof t).map fun x => (p, x.2) := by
  unfold program
  rw [bind_apply]
  cases statements expr [] s with
  | error err => rfl
  | ok x =>
    refine (bind_apply _ _ x.2).trans ?_
    dsimp only
    cases expect .eof x.2 with
    | error err => rfl
    | ok y => rfl

/-- The statements of lines that are a program stand in front of those of what follows. -/
theorem program_behind {ts : List Token} (hts : Lines ts) {s₀ t₀ : TokenStream}
    (hs₀ : s₀.tokens = []) (h : statementsAfter expr [] [] (s₀.behind ts) = .ok (p, t₀))
    (s : TokenStream) :
    program (s.behind ts) = (program s).map fun x => (p ++ x.1, x.2) := by
  have hfront : statements expr [] (s.behind ts) =
      (statements expr [] s).map fun x => (p ++ x.1, x.2) := by
    obtain ⟨us, l, rfl, hl, hus⟩ := hts.bordered
    have hpasses := statementsAfter_passes (exprWithin_foresees maxNesting) hus hl hs₀ h s
    have hread := statementsFrom_front expr (s.size + 1) p.reverse s
    rw [List.reverse_reverse] at hread
    exact hpasses.trans hread
  rw [program_eq, program_eq, hfront]
  cases statements expr [] s with
  | error err => rfl
  | ok x =>
    simp only [Except.map]
    cases expect .eof x.2 with
    | error err => rfl
    | ok y => rfl

/-- Behind a program that ends with a line end a text is read as it is on its own. The places in the
text are as far away as the program reaches. -/
theorem parseProgram_append (hsrc : EndsNewline src.toList) (h : parseProgram src = .ok p)
    (more : String) :
    parseProgram (src ++ more) =
      match parseProgram more with
      | .ok q => .ok (p ++ Stmt.movedAll (distance src) q)
      | .error err => .error (err.moved (distance src)) := by
  obtain ⟨s, t, hlex, hbody⟩ := parseWithin_ok h
  have hfrom := lexFrom_of_lex hlex
  have hlines : Lines s.tokens := ⟨lexFrom_endsLine hsrc hfrom, lexFrom_ne_eof hfrom⟩
  have hread : statementsAfter expr [] [] (TokenStream.behind s.tokens ⟨[], s.stop⟩) =
      .ok (p, t) := by
    rw [s.behind_self]
    exact hbody
  have happend : lex (src ++ more) = (lexFrom (Position.start.moved (distance src))
      more.toList).map (TokenStream.behind s.tokens) := by
    rw [← Position.after_source hsrc]
    exact lex_append_ok hsrc hlex more
  rw [lexFrom_relocate] at happend
  unfold parseProgram Parser.run
  rw [happend, lex_eq]
  cases lexFrom Position.start more.toList with
  | error err => rfl
  | ok u =>
    have hprogram := program_behind hlines rfl hread (u.moved (distance src))
    rw [program_moves] at hprogram
    simp only [relocate, Except.map, hprogram]
    cases program u with
    | error err => rfl
    | ok x => rfl

/-- An assignment over two lines with a comment in it, in front of itself and of a text that is no
program. -/
theorem parseProgram_append_lines :
    let src := "x = # é\n  y;\n"
    EndsNewline src.toList ∧ parseProgram src = .ok [.assign "x" (.var "y" 11)] ∧
      parseProgram (src ++ src) = .ok [.assign "x" (.var "y" 11), .assign "x" (.var "y" 25)] ∧
      parseProgram (src ++ "1 < 2 < 3") =
        .error ⟨.unexpected "<" .comparisonEnd, ⟨20, 3, 7⟩⟩ := by
  have hsrc : EndsNewline "x = # é\n  y;\n".toList := by decide +kernel
  have hp : parseProgram "x = # é\n  y;\n" = .ok [.assign "x" (.var "y" 11)] := by cbv
  have hdistance : distance "x = # é\n  y;\n" = ⟨14, 2⟩ := by decide +kernel
  have herror : parseProgram "1 < 2 < 3" = .error ⟨.unexpected "<" .comparisonEnd, ⟨6, 1, 7⟩⟩ :=
    parseError?_eq_some.1 (by decide +kernel)
  refine ⟨hsrc, hp, ?_, ?_⟩
  · rw [parseProgram_append hsrc hp, hp, hdistance]
    rfl
  · rw [parseProgram_append hsrc hp, herror, hdistance]
    rfl

end Sources

end CalcShell.Calc
