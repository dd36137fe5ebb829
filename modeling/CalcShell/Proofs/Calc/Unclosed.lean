import CalcShell.Proofs.Calc.Continuation

/-!
# Sources that end within a string

A source that ends within a string is not complete for the host, whatever stands in front of the
string: the lexer rejects the source, and the parser sees none of it. Whether more lines can help is
decided by the tokens in front. They can if and only if the parser accepts the source with the
string closed at once, or wants more (`open_string_awaited`), and then one more line is enough.
Otherwise the host goes on asking for lines in vain (`open_string_hopeless`).

The tokens in front and the string are tokens up to a border. What the parser makes of them is known
before the string has an end.
-/

namespace CalcShell.Calc

open Calc.Parser

/-! ## Strings that are open -/

/-- The characters `cs` are the start of the body of a string. They stand for `value`. -/
inductive StringStart : List Char → List Char → Prop where
  | nil : StringStart [] []
  | escape {e d : Char} {cs value : List Char} : unescape? e = some d → StringStart cs value →
      StringStart ('\\' :: e :: cs) (d :: value)
  | plain {c : Char} {cs value : List Char} : c ≠ '"' → c ≠ '\\' → StringStart cs value →
      StringStart (c :: cs) (c :: value)

/-- An open body of a string that ends with a line end is the start of one. An escape would not be
complete. -/
theorem StringStart.of_scanBody {opening p : Position} {cs : List Char} {err : SourceError}
    (h : scanBody opening p cs = .error err) (hopen : err.cause = .openString)
    (hcs : cs = [] ∨ EndsNewline cs) : ∃ value, StringStart cs value := by
  fun_induction scanBody opening p cs with
  | case1 => exact ⟨[], .nil⟩
  | case2 => cases h
  | case3 =>
    rcases hcs with hcs | hcs
    · cases hcs
    · cases hcs
  | case4 =>
    cases h
    cases hopen
  | case5 p e cs d hd err' _ herr ih =>
    obtain ⟨value, hvalue⟩ := ih (herr.trans h)
      ((hcs.resolve_left (List.cons_ne_nil _ _)).tail (by decide)).tail_or
    exact ⟨d :: value, .escape hd hvalue⟩
  | case6 => cases h
  | case7 p c cs hq he err' herr ih =>
    obtain ⟨value, hvalue⟩ := ih (herr.trans h) (hcs.resolve_left (List.cons_ne_nil _ _)).tail_or
    exact ⟨c :: value, .plain hq he hvalue⟩
  | case8 => cases h

/-- Behind the start of a body of a string its rest is read. -/
theorem StringStart.scanBody {cs value : List Char} (h : StringStart cs value)
    (opening p : Position) (vs : List Char) :
    scanBody opening p (cs ++ vs) =
      match scanBody opening (p.after cs) vs with
      | .error err => .error err
      | .ok (more, raw, rest) => .ok (value ++ more, cs ++ raw, rest) := by
  induction h generalizing p with
  | nil =>
    rw [List.nil_append, Position.after_nil]
    cases Calc.scanBody opening p vs with
    | error err => rfl
    | ok body => rfl
  | @escape e d cs value hd _ ih =>
    rw [Position.after_cons, Position.after_cons]
    have hread : Calc.scanBody opening p ('\\' :: e :: cs ++ vs) =
        match Calc.scanBody opening ((p.next '\\').next e) (cs ++ vs) with
        | .error err => .error err
        | .ok (more, raw, rest) => .ok (d :: more, '\\' :: e :: raw, rest) := by
      simp only [List.cons_append, Calc.scanBody, hd]
      rfl
    rw [hread, ih]
    cases Calc.scanBody opening (((p.next '\\').next e).after cs) vs with
    | error err => rfl
    | ok body => rfl
  | @plain c cs value hq he _ ih =>
    rw [Position.after_cons]
    have hread : Calc.scanBody opening p (c :: cs ++ vs) =
        match Calc.scanBody opening (p.next c) (cs ++ vs) with
        | .error err => .error err
        | .ok (more, raw, rest) => .ok (c :: more, c :: raw, rest) := by
      rw [List.cons_append]
      conv => lhs; unfold Calc.scanBody
      exact (if_neg hq).trans (if_neg he)
    rw [hread, ih]
    cases Calc.scanBody opening ((p.next c).after cs) vs with
    | error err => rfl
    | ok body => rfl

/-- Only a string is rejected for being open. -/
theorem scan_open {p : Position} {c : Char} {cs : List Char} {err : SourceError}
    (h : scan p c cs = .error err) (hopen : err.cause = .openString) :
    c = '"' ∧ scanBody p (p.next c) cs = .error err := by
  rcases scan_eq_error h with hbody | ⟨digits, rfl⟩ | rfl
  · exact hbody
  · cases hopen
  · cases hopen

/-- The tokens of a source that starts with `cs`, which ends within a string that opens at `q` and
stands for `value` so far: those in front of the string, `us`, the string, and those behind it. -/
def ReadsOn (p : Position) (cs : List Char) (us : List Token) (q : Position) (value : List Char) :
    Prop :=
  ∀ vs, lexFrom p (cs ++ vs) =
    match scanBody q (p.after cs) vs with
    | .error err => .error err
    | .ok (more, raw, rest) => (lexFrom (p.after (cs ++ raw)) rest).map
        (TokenStream.behind (us ++ [⟨.str, String.ofList (value ++ more), q⟩]))

namespace ReadsOn

variable {p q : Position} {c : Char} {cs value : List Char} {us : List Token}

/-- The string stands in front. -/
theorem here (h : StringStart cs value) (p : Position) : ReadsOn p ('"' :: cs) [] p value := by
  intro vs
  have hread := h.scanBody p (p.next '"') vs
  have hstring : scan p '"' (cs ++ vs) = scanString p '"' (cs ++ vs) := rfl
  rw [List.cons_append, Position.after_cons]
  generalize scanBody p ((p.next '"').after cs) vs = body at hread
  cases body with
  | error err =>
    refine lexFrom_cons_error ?_
    rw [hstring, scanString_eq, hread]
  | ok body =>
    obtain ⟨more, raw, rest⟩ := body
    have hlexeme : scan p '"' (cs ++ vs) =
        .ok ⟨some .str, String.ofList (value ++ more), '"' :: (cs ++ raw), rest⟩ := by
      rw [hstring, scanString_eq, hread]
    rw [lexFrom_cons hlexeme]
    change _ = (lexFrom (p.after ('"' :: (cs ++ raw))) rest).map _
    cases lexFrom (p.after ('"' :: (cs ++ raw))) rest with
    | error err => rfl
    | ok s => rfl

/-- Something else stands in front. -/
theorem behind {l : Lexeme} (hscan : scan p c cs = .ok l)
    (hextend : ∀ vs, scan p c (cs ++ vs) = .ok { l with rest := l.rest ++ vs })
    (h : ReadsOn (p.after l.raw) l.rest us q value) :
    ReadsOn p (c :: cs) (l.emit p ⟨us, p⟩).tokens q value := by
  intro vs
  have hchars : c :: cs = l.raw ++ l.rest := (scan_append hscan).symm
  rw [List.cons_append, lexFrom_cons (hextend vs), hchars, Position.after_append]
  dsimp only
  rw [h vs]
  cases scanBody q ((p.after l.raw).after l.rest) vs with
  | error err => rfl
  | ok body =>
    obtain ⟨more, raw, rest⟩ := body
    simp only [List.append_assoc, Position.after_append]
    cases lexFrom (((p.after l.raw).after l.rest).after raw) rest with
    | error err => rfl
    | ok s =>
      refine congrArg Except.ok ?_
      rw [TokenStream.behind_append, TokenStream.behind_append]
      exact l.emit_behind p ⟨us, p⟩ _

end ReadsOn

/-- A source that ends within a string, and what follows it. -/
theorem lexFrom_readsOn {p : Position} {cs : List Char} {err : SourceError}
    (hcs : EndsNewline cs) (h : lexFrom p cs = .error err) (hopen : err.cause = .openString) :
    ∃ us q value, ReadsOn p cs us q value := by
  induction hn : cs.length using Nat.strongRecOn generalizing p cs with
  | _ n ih =>
    cases cs with
    | nil => cases hcs
    | cons c cs =>
      cases hscan : scan p c cs with
      | error err' =>
        rw [lexFrom_cons_error hscan] at h
        cases h
        obtain ⟨rfl, hbody⟩ := scan_open hscan hopen
        obtain ⟨value, hvalue⟩ := StringStart.of_scanBody hbody hopen hcs.tail_or
        exact ⟨[], p, value, .here hvalue p⟩
      | ok l =>
        have hstays : ∀ vs, Stays vs (.ok l) (scan p c (cs ++ vs)) := by
          intro vs
          rcases scan_extend p vs hcs with ⟨err', herr, -⟩ | hstays
          · rw [hscan] at herr
            cases herr
          · rwa [hscan] at hstays
        rw [lexFrom_cons hscan] at h
        rcases (hstays []).2 with hend | ⟨hrest, -⟩
        · cases hrest : lexFrom (p.after l.raw) l.rest with
          | ok s =>
            rw [hrest] at h
            cases h
          | error err' =>
            rw [hrest] at h
            cases h
            obtain ⟨us, q, value, hreads⟩ :=
              ih l.rest.length (hn ▸ scan_rest_length hscan) hend hrest rfl
            exact ⟨_, q, value, hreads.behind hscan fun vs => (hstays vs).1⟩
        · -- Nothing is left that could be open.
          rw [hrest, lexFrom_nil] at h
          cases h

/-! ## Sources -/

section Sources

variable {src : String} {err : SourceError}

/-- The code of an open string is no other cause's. -/
theorem Cause.eq_openString {cause : Cause} (h : cause.code = "LEX002") : cause = .openString := by
  cases cause with
  | openString => rfl
  | _ => exact absurd h (by simp [Cause.code])

/-- A source that is rejected for an open string is so by the lexer. -/
theorem lex_open (hsrc : EndsNewline src.toList) (h : parseProgram src = .error err)
    (hcode : err.diagnostic.code = "LEX002") :
    lex src = .error err ∧ err.cause = .openString := by
  cases hlex : lex src with
  | error err' =>
    rw [parseProgram_eq, parseWithin_of_lex hlex] at h
    cases h
    exact ⟨rfl, Cause.eq_openString hcode⟩
  | ok s =>
    -- The parser has codes of its own.
    have hcode : err.cause.code = "LEX002" := hcode
    cases parseProgram_error hsrc hlex h with
    | unexpected hcode' => exact absurd (hcode'.symm.trans hcode) (by decide)
    | tooDeep hcode' => exact absurd (hcode'.symm.trans hcode) (by decide)
    | brink hcode' => exact absurd (hcode'.symm.trans hcode) (by decide)
    | unfinished hcode' => exact absurd (hcode'.symm.trans hcode) (by decide)

/-- The source ends within a string, behind the tokens `us`. -/
structure OpenBehind (src : String) (us : List Token) : Prop where
  inner : Inner us
  /-- The string may be closed at once. -/
  closes : ∃ (t : Token) (p : Position), t.kind = .str ∧ ∀ more, lex (src ++ ("\"" ++ more)) =
    (lexFrom p more.toList).map (TokenStream.behind (us ++ [t]))
  /-- Whatever follows, it is a string if the lexer accepts it. -/
  goesOn : ∀ more, (∃ err, lex (src ++ more) = .error err) ∨
    ∃ (t : Token) (s : TokenStream), t.kind = .str ∧
      lex (src ++ more) = .ok (s.behind (us ++ [t]))

theorem lex_openBehind (hsrc : EndsNewline src.toList) (hlex : lex src = .error err)
    (hopen : err.cause = .openString) : ∃ us, OpenBehind src us := by
  obtain ⟨us, q, value, hreads⟩ := lexFrom_readsOn hsrc (lexFrom_of_lex hlex) hopen
  have hcloses : ∀ more, lex (src ++ ("\"" ++ more)) =
      (lexFrom (Position.start.after (src.toList ++ ['"'])) more.toList).map
        (TokenStream.behind (us ++ [⟨.str, String.ofList value, q⟩])) := by
    intro more
    rw [lex_eq, String.toList_append, String.toList_append, show "\"".toList = ['"'] from rfl,
      List.singleton_append, hreads, (StringBody.close more.toList).scanBody]
    dsimp only
    rw [List.append_nil]
  refine ⟨us, ?_, ⟨_, _, rfl, hcloses⟩, fun more => ?_⟩
  · have hclosed := hcloses ""
    rw [show "".toList = [] from rfl, lexFrom_nil] at hclosed
    exact fun u hu => lexFrom_ne_eof (lexFrom_of_lex hclosed) u
      (List.mem_append_left _ (List.mem_append_left _ hu))
  · rw [lex_eq, String.toList_append, hreads]
    cases scanBody q (Position.start.after src.toList) more.toList with
    | error err => exact .inl ⟨err, rfl⟩
    | ok body =>
      obtain ⟨value', raw, rest⟩ := body
      dsimp only
      cases lexFrom (Position.start.after (src.toList ++ raw)) rest with
      | error err => exact .inl ⟨err, rfl⟩
      | ok s => exact .inr ⟨_, s, rfl, rfl⟩

namespace OpenBehind

variable {us : List Token} (h : OpenBehind src us)
include h

/-- With the string closed at once, the statements of the source are those of its tokens. -/
theorem closed_eq : ∃ (t : Token) (s : TokenStream), t.kind = .str ∧ s.tokens = [] ∧
    lex (src ++ "\"") = .ok (s.behind (us ++ [t])) := by
  obtain ⟨t, p, ht, hcloses⟩ := h.closes
  have hclosed := hcloses ""
  rw [show "\"" ++ "" = "\"" from rfl, show "".toList = [] from rfl, lexFrom_nil] at hclosed
  exact ⟨t, _, ht, rfl, hclosed⟩

/-- The tokens in front of the string, or the string, are rejected for good. -/
theorem hopeless (hfails : ∀ t : Token, t.kind = .str → ∀ s : TokenStream, ∃ err',
      statementsAfter expr [] [] (s.behind (us ++ [t])) = .error err' ∧
        err'.diagnostic.code ≠ "PAR001") :
    (∃ err', parseProgram (src ++ "\"") = .error err' ∧ err'.diagnostic.code ≠ "PAR001") ∧
      ∀ more, ∃ err', parseProgram (src ++ more) = .error err' := by
  refine ⟨?_, fun more => ?_⟩
  · obtain ⟨t, s, ht, -, hlex⟩ := h.closed_eq
    obtain ⟨err', herr, hcode⟩ := hfails t ht s
    exact ⟨err', parseWithin_of_error hlex herr, hcode⟩
  · rcases h.goesOn more with ⟨err', hlex⟩ | ⟨t, s, ht, hlex⟩
    · exact ⟨err', parseWithin_of_lex hlex⟩
    · obtain ⟨err', herr, -⟩ := hfails t ht s
      exact ⟨err', parseWithin_of_error hlex herr⟩

/-- Words that complete the tokens make the source a program, behind the end of the string. -/
theorem completes {ks : List TokenKind} (hks : ks ⊆ finishers)
    (hfinish : ∀ t : Token, t.kind = .str →
      Completes ks fun s => statementsAfter expr [] [] (s.behind (us ++ [t]))) :
    ∃ line p, '\n' ∉ line.toList ∧ parseProgram (src ++ (line ++ "\n")) = .ok p := by
  obtain ⟨t, q, ht, hcloses⟩ := h.closes
  obtain ⟨s, hs, hkinds⟩ := lexFrom_spelled hks q
  have hline := hcloses (String.ofList (ks.flatMap TokenKind.spelling) ++ "\n")
  rw [String.toList_append, String.toList_ofList, show "\n".toList = ['\n'] from rfl, hs,
    ← @String.append_assoc "\""] at hline
  obtain ⟨p, hp⟩ := hfinish t ht s.tokens ⟨[], s.stop⟩ hkinds rfl
  rw [s.behind_self] at hp
  refine ⟨_, p, ?_, parseWithin_of_statements hline hp rfl⟩
  rw [String.toList_append, show "\"".toList = ['"'] from rfl, String.toList_ofList,
    List.mem_append, List.mem_flatMap]
  rintro (hmem | ⟨k, hk, hmem⟩)
  · exact absurd hmem (by decide)
  · exact absurd hmem (spelling_inline (hks hk))

/-- What the tokens in front of the string and the string decide. -/
theorem decides :
    ((∀ err', parseProgram (src ++ "\"") = .error err' → err'.diagnostic.code = "PAR001") ∧
        ∃ line p, '\n' ∉ line.toList ∧ parseProgram (src ++ (line ++ "\n")) = .ok p) ∨
      (∃ err', parseProgram (src ++ "\"") = .error err' ∧ err'.diagnostic.code ≠ "PAR001") ∧
        ∀ more, ∃ err', parseProgram (src ++ more) = .error err' := by
  have houtlook : Outlook .string (statementsAfter expr [] []) us :=
    statementsAfter_outlook (exprWithin_foresees maxNesting) h.inner []
  cases houtlook with
  | accepts hb _ => cases hb
  | brink _ _ _ _ _ _ hb _ _ => cases hb
  | rejects hrejects =>
    refine .inr (h.hopeless fun t ht s => ?_)
    obtain ⟨text, expected, position, herr⟩ := hrejects t ht
    exact ⟨_, herr s, by simp [SourceError.diagnostic, Cause.code]⟩
  | deep hdeep =>
    refine .inr (h.hopeless fun t ht s => ?_)
    obtain ⟨position, herr⟩ := hdeep t ht s
    exact ⟨_, herr, by simp [SourceError.diagnostic, Cause.code]⟩
  | wants ks hwords hstops hfinish =>
    refine .inl ⟨fun err' herr => ?_, h.completes hwords hfinish⟩
    obtain ⟨t, s, ht, hs, hlex⟩ := h.closed_eq
    obtain ⟨-, p, hp⟩ | ⟨expected, hexpected⟩ := hstops t ht s hs
    · rw [parseProgram_eq, parseWithin_of_statements hlex hp hs] at herr
      cases herr
    · rw [parseProgram_eq, parseWithin_of_error hlex hexpected] at herr
      cases herr
      rfl

end OpenBehind

/-- A source that ends with a line end and within a string is not complete for the host. There is
text that makes it a program if and only if the source with the string closed at once is one or
stops too early. Then one more line is enough. -/
theorem open_string_awaited (hsrc : EndsNewline src.toList) (h : parseProgram src = .error err)
    (hcode : err.diagnostic.code = "LEX002") :
    (∃ message, host.judge src = .incomplete message) ∧
      ((∃ more p, parseProgram (src ++ more) = .ok p) ↔
        ∀ err', parseProgram (src ++ "\"") = .error err' → err'.diagnostic.code = "PAR001") ∧
      ((∃ more p, parseProgram (src ++ more) = .ok p) →
        ∃ line p, '\n' ∉ line.toList ∧ parseProgram (src ++ (line ++ "\n")) = .ok p) := by
  obtain ⟨hlex, hopen⟩ := lex_open hsrc h hcode
  obtain ⟨us, hbehind⟩ := lex_openBehind hsrc hlex hopen
  refine ⟨⟨some err.render, ?_⟩, ?_⟩
  · rw [judge_of_error h, hcode]
    exact if_pos (by decide)
  rcases hbehind.decides with ⟨hclosed, line, p, hline, hp⟩ | ⟨⟨err', herr, hcode'⟩, hmore⟩
  · exact ⟨⟨fun _ => hclosed, fun _ => ⟨_, p, hp⟩⟩, fun _ => ⟨line, p, hline, hp⟩⟩
  · have hnone : ¬∃ more p, parseProgram (src ++ more) = .ok p := by
      rintro ⟨more, p, hp⟩
      obtain ⟨err'', herr''⟩ := hmore more
      rw [hp] at herr''
      cases herr''
    exact ⟨⟨fun hsome => absurd hsome hnone, fun hclosed => absurd (hclosed err' herr) hcode'⟩,
      fun hsome => absurd hsome hnone⟩

/-- A list and a call are open, and a string in the call. -/
theorem open_string_awaited_nested :
    let src := "x = [1, f(\"a\n"
    let err : SourceError := ⟨.openString, ⟨10, 1, 11⟩⟩
    EndsNewline src.toList ∧ parseProgram src = .error err ∧ err.diagnostic.code = "LEX002" ∧
      (∃ message, host.judge src = .incomplete message) ∧
      ∃ line p, '\n' ∉ line.toList ∧ parseProgram (src ++ (line ++ "\n")) = .ok p := by
  intro src err
  have hsrc : EndsNewline src.toList := by decide +kernel
  have herr : parseProgram src = .error err := parseError?_eq_some.1 (by decide +kernel)
  have hclosed : parseProgram (src ++ "\"") =
      .error ⟨.endOfInput (.token .rparen), ⟨14, 2, 2⟩⟩ :=
    parseError?_eq_some.1 (by decide +kernel)
  obtain ⟨hjudge, hiff, hline⟩ := open_string_awaited hsrc herr rfl
  refine ⟨hsrc, herr, rfl, hjudge, hline (hiff.2 fun err' herr' => ?_)⟩
  rw [hclosed] at herr'
  cases herr'
  rfl

/-- A closing bracket stands in front of a string that is open. The host asks for more lines,
although no text makes the source a program. Without the string the bracket is rejected at once. -/
theorem open_string_hopeless :
    let src := ") \"abc\n"
    EndsNewline src.toList ∧
      (∃ err, parseProgram src = .error err ∧ err.diagnostic.code = "LEX002") ∧
      (∃ message, host.judge src = .incomplete message) ∧ host.judge ")\n" = .complete ∧
      ∀ more, ∃ err, parseProgram (src ++ more) = .error err := by
  intro src
  have hsrc : EndsNewline src.toList := by decide +kernel
  have herr : parseProgram src = .error ⟨.openString, ⟨2, 1, 3⟩⟩ :=
    parseError?_eq_some.1 (by decide +kernel)
  have hclosed : parseProgram (src ++ "\"") =
      .error ⟨.unexpected ")" .expression, ⟨0, 1, 1⟩⟩ :=
    parseError?_eq_some.1 (by decide +kernel)
  have hbracket : parseProgram ")\n" = .error ⟨.unexpected ")" .expression, ⟨0, 1, 1⟩⟩ :=
    parseError?_eq_some.1 (by decide +kernel)
  obtain ⟨hlex, hopen⟩ := lex_open hsrc herr rfl
  obtain ⟨us, hbehind⟩ := lex_openBehind hsrc hlex hopen
  refine ⟨hsrc, ⟨_, herr, rfl⟩, ⟨_, (judge_of_error herr).trans (if_pos (by decide))⟩,
    (judge_of_error hbracket).trans (if_neg (by decide)), ?_⟩
  · rcases hbehind.decides with ⟨hclosed', -⟩ | ⟨-, hmore⟩
    · exact absurd (hclosed' _ hclosed) (by decide)
    · exact hmore

end Sources

end CalcShell.Calc
