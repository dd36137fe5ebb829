import CalcShell.Proofs.Calc.Continuation

/-!
# What the nesting limit cuts off

A source that ends with a line end and nests too deep is complete for the host, so that no more
lines are asked for. In most cases none would help: whatever text follows, it is no program
(`too_deep_final`). There is one exception. At the limit a call or a list may still have no items,
but behind its opening bracket an item is looked for before the end of the source is. So a line end
there is an error, although the closing bracket may stand in the next line, as it may in the same
one (`too_deep_early`).
-/

namespace CalcShell.Calc

open Calc.Parser

variable {src : String} {err : SourceError} {s : TokenStream}

/-- A source that ends with a line end and nests too deep is complete for the host. Either no text
behind it makes it a program, or its last token but line ends opens items. In that case every
program that it starts goes on with the closing bracket, and there is one, with one more line. -/
theorem too_deep_final (hsrc : EndsNewline src.toList) (h : parseProgram src = .error err)
    (hcode : err.diagnostic.code = "PAR003") :
    host.judge src = .complete ∧ ∃ s, lex src = .ok s ∧
      ((∀ more, ∃ err', parseProgram (src ++ more) = .error err' ∧
          (lex (src ++ more) = .error err' ∨ err'.diagnostic.code = "PAR003")) ∨
        ∃ opener close, (opener, close) ∈ brackets ∧ LastWord opener s.tokens ∧
          (∀ more p, parseProgram (src ++ more) = .ok p → ∃ t : TokenStream,
            lex (src ++ more) = .ok (t.behind s.tokens) ∧
              (t.without [.newline]).peek.kind = close) ∧
          ∃ line p, line.toList.head?.bind TokenKind.single? = some close ∧ '\n' ∉ line.toList ∧
            parseProgram (src ++ (line ++ "\n")) = .ok p) := by
  refine ⟨?_, ?_⟩
  · rw [judge_of_error h, hcode]
    exact if_neg (by decide)
  have hcode : err.cause.code = "PAR003" := hcode
  obtain ⟨s, hlex⟩ := lex_ok_of_error h (by rw [hcode]; decide)
  refine ⟨s, hlex, ?_⟩
  cases parseProgram_error hsrc hlex h with
  | unexpected hcode' => exact absurd (hcode'.symm.trans hcode) (by decide)
  | unfinished hcode' => exact absurd (hcode'.symm.trans hcode) (by decide)
  | tooDeep _ hdeep =>
    refine .inl fun more => ?_
    rcases lex_append_cases hsrc hlex more with ⟨err', hmore⟩ | ⟨t, hmore⟩
    · exact ⟨err', parseWithin_of_lex hmore, .inl hmore⟩
    · obtain ⟨position, hposition⟩ := hdeep t
      exact ⟨_, parseWithin_of_error hmore hposition, .inr rfl⟩
  | brink _ opener close ks hpair hopened hks hdeep hfinish =>
    have hword : close ∈ finishers := List.mem_cons_of_mem _ (closings_of_mem hpair)
    obtain ⟨p, hline, hp, -⟩ :=
      completes_line hsrc hlex (List.cons_subset.2 ⟨hword, hks⟩) hfinish
    refine .inr ⟨opener, close, hpair, hopened, fun more q hq => ?_, _, p, ?_, hline, hp⟩
    · rcases lex_append_cases hsrc hlex more with ⟨err', hmore⟩ | ⟨t, hmore⟩
      · rw [parseProgram_eq, parseWithin_of_lex hmore] at hq
        cases hq
      · refine ⟨t, hmore, by_contra fun hpeek => ?_⟩
        obtain ⟨position, hposition⟩ := hdeep t hpeek
        rw [parseProgram_eq, parseWithin_of_error hmore hposition] at hq
        cases hq
    · rw [String.toList_ofList]
      obtain ⟨-, rfl⟩ | ⟨-, rfl⟩ := eq_of_mem_brackets hpair <;> rfl

/-! ## Sources at the limit -/

/-- The tokens of a character that stands `n` times and is a word each time. -/
def repeated (kind : TokenKind) (c : Char) : Nat → Position → List Token
  | 0, _ => []
  | n + 1, p => ⟨kind, String.ofList [c], p⟩ :: repeated kind c n (p.after [c])

theorem lexFrom_repeated {kind : TokenKind} {c : Char}
    (hscan : ∀ (p : Position) cs, scan p c cs = .ok (.word kind [c] cs)) (n : Nat) {p : Position}
    {cs : List Char} (h : lexFrom (p.after (List.replicate n c)) cs = .ok s) :
    lexFrom p (List.replicate n c ++ cs) = .ok (s.behind (repeated kind c n p)) := by
  induction n generalizing p with
  | zero => exact h
  | succ n ih => exact lexFrom_cons_ok (hscan p _) (ih h)

/-- A last line end. -/
theorem lexFrom_newline (p : Position) :
    lexFrom p ['\n'] = .ok ⟨[⟨.newline, "\n", p⟩], p.after ['\n']⟩ :=
  lexFrom_cons_ok (l := .word .newline ['\n'] []) rfl (lexFrom_nil _)

theorem scan_lparen (p : Position) (cs : List Char) :
    scan p '(' cs = .ok (.word .lparen ['('] cs) := by
  cases cs <;> rfl

theorem scan_lbrack (p : Position) (cs : List Char) :
    scan p '[' cs = .ok (.word .lbrack ['['] cs) := by
  cases cs <;> rfl

theorem scan_rbrack (p : Position) (cs : List Char) :
    scan p ']' cs = .ok (.word .rbrack [']'] cs) := by
  cases cs <;> rfl

/-- A number in as many brackets as may nest, one too many for the number. No text closes them. -/
theorem too_deep_final_number :
    let src := String.ofList (List.replicate maxNesting '(' ++ ['1', '\n'])
    let err : SourceError := ⟨.tooDeep, ⟨128, 1, 129⟩⟩
    EndsNewline src.toList ∧ parseProgram src = .error err ∧ err.diagnostic.code = "PAR003" ∧
      host.judge src = .complete ∧ ∀ more, ∃ err', parseProgram (src ++ more) = .error err' := by
  intro src err
  have hsrc : EndsNewline src.toList := by decide +kernel
  have hnumber : lexFrom (⟨128, 1, 129⟩ : Position) ['1', '\n'] =
      .ok ⟨[⟨.int, "1", ⟨128, 1, 129⟩⟩, ⟨.newline, "\n", ⟨129, 1, 130⟩⟩], ⟨130, 2, 1⟩⟩ :=
    lexFrom_cons_ok (l := .word .int ['1'] ['\n']) rfl (lexFrom_newline _)
  have hplace : Position.start.after (List.replicate maxNesting '(') = ⟨128, 1, 129⟩ := by
    decide +kernel
  rw [← hplace] at hnumber
  have hlex := lexFrom_repeated scan_lparen maxNesting hnumber
  rw [← String.toList_ofList (l := List.replicate maxNesting '(' ++ ['1', '\n'])] at hlex
  replace hlex := lex_of_lexFrom hlex
  have herr : parseProgram src = .error err := by
    refine parseError?_eq_some.1 ?_
    rw [parseError?, parseProgram, run, hlex]
    decide +kernel
  obtain ⟨hjudge, s, hs, hmore⟩ := too_deep_final hsrc herr rfl
  rw [hlex] at hs
  cases hs
  refine ⟨hsrc, herr, rfl, hjudge, fun more => ?_⟩
  rcases hmore with hmore | ⟨opener, close, hpair, hopened, -⟩
  · exact (hmore more).imp fun _ => And.left
  · -- The last word is the number.
    exfalso
    obtain ⟨rfl, -⟩ | ⟨rfl, -⟩ := eq_of_mem_brackets hpair <;> revert hopened <;> decide +kernel

/-- Lists in lists, as deep as they may nest, are a program also with a line end in the innermost
one. Up to that line end they are rejected for nesting too deep. -/
theorem too_deep_early :
    let src := String.ofList (List.replicate maxNesting '[' ++ ['\n'])
    let more := String.ofList (List.replicate maxNesting ']' ++ ['\n'])
    EndsNewline src.toList ∧
      (∃ err, parseProgram src = .error err ∧ err.diagnostic.code = "PAR003") ∧
      ∃ p, parseProgram (src ++ more) = .ok p := by
  intro src more
  have hsrc : EndsNewline src.toList := by decide +kernel
  have hlex := lexFrom_repeated (p := Position.start) scan_lbrack maxNesting (lexFrom_newline _)
  rw [← String.toList_ofList (l := List.replicate maxNesting '[' ++ ['\n'])] at hlex
  replace hlex := lex_of_lexFrom hlex
  have hmore := lexFrom_repeated (p := Position.start.after src.toList) scan_rbrack maxNesting
    (lexFrom_newline _)
  rw [← String.toList_ofList (l := List.replicate maxNesting ']' ++ ['\n'])] at hmore
  have happend := lex_append_ok hsrc hlex more
  rw [show more.toList = (String.ofList (List.replicate maxNesting ']' ++ ['\n'])).toList from rfl,
    hmore] at happend
  refine ⟨hsrc, ⟨⟨.tooDeep, ⟨129, 2, 1⟩⟩, parseError?_eq_some.1 ?_, rfl⟩, ?_⟩
  · rw [parseError?, parseProgram, run, hlex]
    decide +kernel
  · refine parseError?_eq_none.1 ?_
    rw [parseError?, parseProgram, run, happend]
    decide +kernel

end CalcShell.Calc
