import CalcShell.Proofs.Calc.Places

/-!
# Cutting a source behind a line end

A token never goes on behind a line end, apart from a string. So a source that is cut behind a line
end has the same tokens as the two parts of it, unless the cut is within a string, and then the
first part is rejected for that. Where a source starts makes no difference to the kinds and texts of
its tokens.
-/

namespace CalcShell.Calc

open Text (isAsciiDigit)

/-- The stream with tokens in front. -/
def TokenStream.behind (ts : List Token) (s : TokenStream) : TokenStream :=
  ⟨ts ++ s.tokens, s.stop⟩

/-- What a parser sees of a token. -/
def Token.word (t : Token) : TokenKind × String := (t.kind, t.text)

/-- What a parser sees of tokens. -/
def words (ts : List Token) : List (TokenKind × String) := ts.map Token.word

@[simp]
theorem words_nil : words [] = [] := rfl

@[simp]
theorem words_cons (t : Token) (ts : List Token) : words (t :: ts) = t.word :: words ts := rfl

/-- The last of some tokens is a line end. -/
def EndsLine (ts : List Token) : Prop := ∃ t, ts.getLast? = some t ∧ t.kind = .newline

/-- The last of some characters is a line end. -/
def EndsNewline (cs : List Char) : Prop := cs.getLast? = some '\n'

instance (cs : List Char) : Decidable (EndsNewline cs) :=
  inferInstanceAs (Decidable (cs.getLast? = some '\n'))

section EndsNewline

variable {c : Char} {cs ds : List Char}

/-- Behind the first character, which is not the last one. -/
theorem EndsNewline.tail (h : EndsNewline (c :: cs)) (hc : c ≠ '\n') : EndsNewline cs := by
  cases cs with
  | nil => exact absurd (Option.some.inj h) hc
  | cons d ds => rwa [EndsNewline, List.getLast?_cons_cons] at h

theorem EndsNewline.tail_or (h : EndsNewline (c :: cs)) : cs = [] ∨ EndsNewline cs := by
  cases cs with
  | nil => exact .inl rfl
  | cons d ds =>
    rw [EndsNewline, List.getLast?_cons_cons] at h
    exact .inr h

/-- Behind characters that a line end is not among. -/
theorem EndsNewline.dropWhile {p : Char → Bool} (hp : p '\n' = false) (h : EndsNewline cs) :
    EndsNewline (cs.dropWhile p) := by
  induction cs with
  | nil => cases h
  | cons c cs ih =>
    rw [List.dropWhile_cons]
    split
    · rename_i hc
      refine ih (h.tail ?_)
      rintro rfl
      rw [hp] at hc
      cases hc
    · exact h

/-- Characters that a line end is not among are found before the last line end. -/
theorem EndsNewline.takeWhile_append {p : Char → Bool} (hp : p '\n' = false)
    (h : EndsNewline cs) (ds : List Char) :
    (cs ++ ds).takeWhile p = cs.takeWhile p ∧ (cs ++ ds).dropWhile p = cs.dropWhile p ++ ds := by
  induction cs with
  | nil => cases h
  | cons c cs ih =>
    by_cases hc : p c = true
    · have hne : c ≠ '\n' := by
        rintro rfl
        rw [hp] at hc
        cases hc
      obtain ⟨htake, hdrop⟩ := ih (h.tail hne)
      simp only [List.cons_append, List.takeWhile_cons, List.dropWhile_cons, hc, if_true, htake,
        hdrop, and_self]
    · simp only [List.cons_append, List.takeWhile_cons, List.dropWhile_cons, hc, if_false,
        Bool.false_eq_true, and_self]

end EndsNewline

/-! ## Strings -/

/-- The characters `cs` start with the body of a string, which stands for `value` and is written
`raw`, and go on with `rest`. -/
inductive StringBody : List Char → List Char → List Char → List Char → Prop where
  | close (cs : List Char) : StringBody ('"' :: cs) [] ['"'] cs
  | escape {e d : Char} {cs value raw rest : List Char} : unescape? e = some d →
      StringBody cs value raw rest →
      StringBody ('\\' :: e :: cs) (d :: value) ('\\' :: e :: raw) rest
  | plain {c : Char} {cs value raw rest : List Char} : c ≠ '"' → c ≠ '\\' →
      StringBody cs value raw rest → StringBody (c :: cs) (c :: value) (c :: raw) rest

/-- What is read as the body of a string is one. -/
theorem StringBody.of_scanBody {opening p : Position} {cs value raw rest : List Char}
    (h : scanBody opening p cs = .ok (value, raw, rest)) : StringBody cs value raw rest := by
  fun_induction scanBody opening p cs generalizing value raw rest with
  | case1 => cases h
  | case2 =>
    cases h
    exact .close _
  | case3 => cases h
  | case4 => cases h
  | case5 => cases h
  | case6 _ _ _ d hd _ _ _ _ hs ih =>
    cases h
    exact .escape hd (ih hs)
  | case7 => cases h
  | case8 _ _ _ hq he _ _ _ hs ih =>
    cases h
    exact .plain hq he (ih hs)

/-- Every body of a string is read as one, wherever it stands. -/
theorem StringBody.scanBody {cs value raw rest : List Char} (h : StringBody cs value raw rest)
    (opening p : Position) : scanBody opening p cs = .ok (value, raw, rest) := by
  induction h generalizing p with
  | close cs =>
    unfold Calc.scanBody
    simp
  | escape hd _ ih => simp [Calc.scanBody, hd, ih]
  | plain hq he _ ih =>
    unfold Calc.scanBody
    simp [hq, he, ih]

/-- The body of a string stays one whatever follows. -/
theorem StringBody.append {cs value raw rest : List Char} (h : StringBody cs value raw rest)
    (vs : List Char) : StringBody (cs ++ vs) value raw (rest ++ vs) := by
  induction h with
  | close cs => exact .close _
  | escape hd _ ih => exact .escape hd ih
  | plain hq he _ ih => exact .plain hq he ih

/-- A line end at the end is behind the string. -/
theorem StringBody.endsNewline {cs value raw rest : List Char} (h : StringBody cs value raw rest)
    (hcs : cs = [] ∨ EndsNewline cs) : EndsNewline rest := by
  induction h with
  | close cs => exact (hcs.resolve_left (List.cons_ne_nil _ _)).tail (by decide)
  | escape _ _ ih =>
    exact ih ((hcs.resolve_left (List.cons_ne_nil _ _)).tail (by decide)).tail_or
  | plain _ _ _ ih => exact ih (hcs.resolve_left (List.cons_ne_nil _ _)).tail_or

/-- A body of a string that is rejected is open, or is rejected whatever follows. -/
theorem scanBody_extend_error {opening p : Position} {cs : List Char} {err : SourceError}
    (h : scanBody opening p cs = .error err) (vs : List Char) :
    err.cause = .openString ∨ scanBody opening p (cs ++ vs) = .error err := by
  fun_induction scanBody opening p cs with
  | case1 =>
    cases h
    exact .inl rfl
  | case2 => cases h
  | case3 =>
    cases h
    exact .inl rfl
  | case4 p e cs hd =>
    right
    simpa [scanBody, hd] using h
  | case5 p e cs d hd err' _ herr ih =>
    refine (ih (herr.trans h)).imp_right fun hbody => ?_
    simp [scanBody, hd, hbody]
  | case6 => cases h
  | case7 p c cs hq he err' herr ih =>
    refine (ih (herr.trans h)).imp_right fun hbody => ?_
    rw [List.cons_append]
    unfold scanBody
    simp [hq, he, hbody]
  | case8 => cases h

/-! ## Tokens -/

section Moved

variable {p : Position} {c : Char} {cs : List Char} {l : Lexeme}

theorem scanString_moved (h : scanString p c cs = .ok l) (q : Position) :
    scanString q c cs = .ok l := by
  rw [scanString_eq] at h ⊢
  split at h
  · cases h
  · rename_i hbody
    rw [(StringBody.of_scanBody hbody).scanBody]
    exact h

theorem scanNumber_moved (h : scanNumber p c cs = .ok l) (q : Position) :
    scanNumber q c cs = .ok l := by
  unfold scanNumber at h ⊢
  split at h
  · cases h
  · exact h

theorem scanSymbol_moved (h : scanSymbol p c cs = .ok l) (q : Position) :
    scanSymbol q c cs = .ok l := by
  unfold scanSymbol at h ⊢
  split at h
  · exact h
  · split at h
    · exact h
    · cases h

/-- What stands at the front of a source does not depend on where the source starts. -/
theorem scan_moved (h : scan p c cs = .ok l) (q : Position) : scan q c cs = .ok l := by
  unfold scan at h ⊢
  by_cases hgap : isGapChar c = true
  · rwa [if_pos hgap] at h ⊢
  by_cases hhash : c = '#'
  · rwa [if_neg hgap, if_pos hhash] at h ⊢
  by_cases hnl : c = '\n'
  · rwa [if_neg hgap, if_neg hhash, if_pos hnl] at h ⊢
  rw [if_neg hgap, if_neg hhash, if_neg hnl] at h ⊢
  by_cases hquote : c = '"'
  · rw [if_pos hquote] at h ⊢
    exact scanString_moved h q
  by_cases hdigit : isAsciiDigit c = true
  · rw [if_neg hquote, if_pos hdigit] at h ⊢
    exact scanNumber_moved h q
  by_cases hname : isNameStart c = true
  · rwa [if_neg hquote, if_neg hdigit, if_pos hname] at h ⊢
  · rw [if_neg hquote, if_neg hdigit, if_neg hname] at h ⊢
    exact scanSymbol_moved h q

end Moved

/-- What stands at the front of a source, `x`, is the same, `y`, if `vs` follow the source. What is
left of the source still ends with a line end, or was ended by this one. -/
def Stays (vs : List Char) (x y : Except SourceError Lexeme) : Prop :=
  match x with
  | .error err => y = .error err
  | .ok l => y = .ok { l with rest := l.rest ++ vs } ∧
      (EndsNewline l.rest ∨ l.rest = [] ∧ l.kind = some .newline)

/-- The source is rejected, since it ends within a string. -/
def Open {α : Type} (x : Except SourceError α) : Prop :=
  ∃ err, x = .error err ∧ err.cause = .openString

section Append

variable {c : Char} {us : List Char} (hus : EndsNewline us) (p : Position) (vs : List Char)
include hus

theorem scanString_extend :
    Open (scanString p c us) ∨ Stays vs (scanString p c us) (scanString p c (us ++ vs)) := by
  rw [scanString_eq, scanString_eq]
  cases h : scanBody p (p.next c) us with
  | error err =>
    rcases scanBody_extend_error h vs with hopen | herr
    · exact .inl ⟨err, rfl, hopen⟩
    · rw [herr]
      exact .inr rfl
  | ok body =>
    obtain ⟨value, raw, rest⟩ := body
    have hbody := StringBody.of_scanBody h
    rw [(hbody.append vs).scanBody]
    exact .inr ⟨rfl, .inl (hbody.endsNewline (.inr hus))⟩

theorem scanNumber_extend : Stays vs (scanNumber p c us) (scanNumber p c (us ++ vs)) := by
  have hdigit : isAsciiDigit '\n' = false := by decide
  obtain ⟨htake, hdrop⟩ := hus.takeWhile_append hdigit vs
  unfold scanNumber
  rw [htake, hdrop]
  cases Number.ofDigits? (c :: us.takeWhile isAsciiDigit) with
  | none => rfl
  | some n => exact ⟨rfl, .inl (hus.dropWhile hdigit)⟩

theorem scanName_extend : Stays vs (.ok (scanName c us)) (.ok (scanName c (us ++ vs))) := by
  have hname : isNameChar '\n' = false := by decide
  obtain ⟨htake, hdrop⟩ := hus.takeWhile_append hname vs
  unfold scanName
  rw [htake, hdrop]
  exact ⟨rfl, .inl (hus.dropWhile hname)⟩

omit hus in
/-- No operator has a line end in it. -/
theorem pair?_newline (c : Char) : TokenKind.pair? c '\n' = none := by
  unfold TokenKind.pair?
  split <;> simp_all

theorem scanSymbol_extend : Stays vs (scanSymbol p c us) (scanSymbol p c (us ++ vs)) := by
  cases us with
  | nil => cases hus
  | cons d us =>
    unfold scanSymbol
    simp only [List.cons_append, List.head?_cons, Option.bind_some]
    cases hpair : TokenKind.pair? c d with
    | some kind =>
      -- The second character of an operator is not the line end at the end of the part.
      have hd : d ≠ '\n' := by
        rintro rfl
        rw [pair?_newline] at hpair
        cases hpair
      exact ⟨rfl, .inl (hus.tail hd)⟩
    | none =>
      cases TokenKind.single? c with
      | some kind => exact ⟨rfl, .inl hus⟩
      | none => rfl

omit hus in
/-- What stands at the front of a source that ends with a line end stays whatever follows, unless it
is a string that is open. -/
theorem scan_extend (hends : EndsNewline (c :: us)) :
    Open (scan p c us) ∨ Stays vs (scan p c us) (scan p c (us ++ vs)) := by
  unfold scan
  by_cases hnl : c = '\n'
  · subst hnl
    exact .inr ⟨rfl, hends.tail_or.symm.imp_right fun hus => ⟨hus, rfl⟩⟩
  -- Anything but a line end goes on in front of the last one.
  have hus := hends.tail hnl
  by_cases hgap : isGapChar c = true
  · rw [if_pos hgap, if_pos hgap]
    exact .inr ⟨rfl, .inl hus⟩
  rw [if_neg hgap, if_neg hgap]
  by_cases hhash : c = '#'
  · rw [if_pos hhash, if_pos hhash]
    obtain ⟨htake, hdrop⟩ := hus.takeWhile_append (p := fun d => d ≠ '\n') (by decide) vs
    rw [htake, hdrop]
    exact .inr ⟨rfl, .inl (hus.dropWhile (by decide))⟩
  rw [if_neg hhash, if_neg hhash, if_neg hnl, if_neg hnl]
  by_cases hquote : c = '"'
  · rw [if_pos hquote, if_pos hquote]
    exact scanString_extend hus p vs
  rw [if_neg hquote, if_neg hquote]
  by_cases hdigit : isAsciiDigit c = true
  · rw [if_pos hdigit, if_pos hdigit]
    exact .inr (scanNumber_extend hus p vs)
  rw [if_neg hdigit, if_neg hdigit]
  by_cases hname : isNameStart c = true
  · rw [if_pos hname, if_pos hname]
    exact .inr (scanName_extend hus vs)
  · rw [if_neg hname, if_neg hname]
    exact .inr (scanSymbol_extend hus p vs)

end Append

/-! ## Sources -/

/-- The tokens of a source behind what stands at its front. -/
theorem lexFrom_cons {p : Position} {c : Char} {cs : List Char} {l : Lexeme}
    (h : scan p c cs = .ok l) :
    lexFrom p (c :: cs) =
      match lexFrom (p.after l.raw) l.rest with
      | .error e => .error e
      | .ok s => .ok (l.emit p s) := by
  rw [lexFrom_scan, h]
  rfl

theorem lexFrom_cons_ok {p : Position} {c : Char} {cs : List Char} {l : Lexeme} {s : TokenStream}
    (h : scan p c cs = .ok l) (hrest : lexFrom (p.after l.raw) l.rest = .ok s) :
    lexFrom p (c :: cs) = .ok (l.emit p s) := by
  rw [lexFrom_cons h, hrest]

/-- A source that starts with something else is rejected. -/
theorem lexFrom_cons_error {p : Position} {c : Char} {cs : List Char} {err : SourceError}
    (h : scan p c cs = .error err) : lexFrom p (c :: cs) = .error err := by
  rw [lexFrom]
  split
  · rename_i hs
    rw [h] at hs
    cases hs
    rfl
  · rename_i hs
    rw [h] at hs
    cases hs

/-- What a source with tokens starts with. -/
theorem lexFrom_cons_inv {p : Position} {c : Char} {cs : List Char} {s : TokenStream}
    (h : lexFrom p (c :: cs) = .ok s) :
    ∃ l t, scan p c cs = .ok l ∧ lexFrom (p.after l.raw) l.rest = .ok t ∧ s = l.emit p t := by
  cases hs : scan p c cs with
  | error err =>
    rw [lexFrom_cons_error hs] at h
    cases h
  | ok l =>
    rw [lexFrom_cons hs] at h
    cases ht : lexFrom (p.after l.raw) l.rest with
    | error err =>
      rw [ht] at h
      cases h
    | ok t =>
      rw [ht] at h
      cases h
      exact ⟨l, t, rfl, ht, rfl⟩

/-- What a parser sees of the tokens of a source does not depend on where the source starts. -/
theorem lexFrom_moved {p : Position} {cs : List Char} {s : TokenStream}
    (h : lexFrom p cs = .ok s) (q : Position) :
    ∃ t, lexFrom q cs = .ok t ∧ words t.tokens = words s.tokens := by
  -- By induction on the length, since what is read next starts behind a token of any length.
  induction hn : cs.length using Nat.strongRecOn generalizing p q cs s with
  | _ n ih =>
    cases cs with
    | nil =>
      rw [lexFrom_nil] at h
      cases h
      exact ⟨⟨[], q⟩, lexFrom_nil q, rfl⟩
    | cons c cs =>
      obtain ⟨l, t, hscan, hrest, rfl⟩ := lexFrom_cons_inv h
      obtain ⟨t', ht', hwords⟩ := ih l.rest.length (hn ▸ scan_rest_length hscan) hrest
        (q.after l.raw) rfl
      refine ⟨l.emit q t', ?_, ?_⟩
      · rw [lexFrom_cons (scan_moved hscan q), ht']
      · unfold Lexeme.emit
        cases l.kind with
        | none => exact hwords
        | some kind =>
          rw [words_cons, words_cons, hwords]
          rfl

/-- A token in front of tokens in two parts. -/
theorem Lexeme.emit_behind (l : Lexeme) (p : Position) (s t : TokenStream) :
    l.emit p (t.behind s.tokens) = t.behind (l.emit p s).tokens := by
  unfold emit
  cases l.kind with
  | none => rfl
  | some kind => rfl

/-- A token in front of tokens that end with a line end. -/
theorem EndsLine.emit {s : TokenStream} (h : EndsLine s.tokens) (l : Lexeme) (p : Position) :
    EndsLine (l.emit p s).tokens := by
  unfold Lexeme.emit
  cases l.kind with
  | none => exact h
  | some kind =>
    obtain ⟨t, ht, hkind⟩ := h
    refine ⟨t, ?_, hkind⟩
    rw [List.getLast?_cons, ht]
    rfl

/-- A source that ends with a line end, and what may follow it: the source ends within a string, or
it is rejected whatever follows, or what follows is read as it is from there. -/
theorem lexFrom_extend {p : Position} {us : List Char} (hus : EndsNewline us) (vs : List Char) :
    Open (lexFrom p us) ∨ (∃ err, lexFrom p us = .error err ∧ lexFrom p (us ++ vs) = .error err) ∨
      ∃ s, lexFrom p us = .ok s ∧ EndsLine s.tokens ∧
        lexFrom p (us ++ vs) = (lexFrom (p.after us) vs).map (TokenStream.behind s.tokens) := by
  induction hn : us.length using Nat.strongRecOn generalizing p us with
  | _ n ih =>
    cases us with
    | nil => cases hus
    | cons c us =>
      rw [List.cons_append]
      rcases scan_extend p vs hus with ⟨err, herr, hopen⟩ | hstays
      · exact .inl ⟨err, lexFrom_cons_error herr, hopen⟩
      cases hscan : scan p c us with
      | error err =>
        rw [hscan] at hstays
        exact .inr (.inl ⟨err, lexFrom_cons_error hscan, lexFrom_cons_error hstays⟩)
      | ok l =>
        rw [hscan] at hstays
        obtain ⟨hextend, hend⟩ := hstays
        have hafter : p.after (c :: us) = (p.after l.raw).after l.rest := by
          rw [← scan_append hscan, Position.after_append]
        rw [lexFrom_cons hscan, lexFrom_cons hextend, hafter]
        rcases hend with hend | ⟨hrest, hkind⟩
        · have hlength : l.rest.length < n := hn ▸ scan_rest_length hscan
          rcases ih l.rest.length hlength hend rfl with ⟨err, herr, hopen⟩ | ⟨err, herr, herr'⟩ |
            ⟨s, hs, hline, hrest⟩
          · rw [herr]
            exact .inl ⟨err, rfl, hopen⟩
          · refine .inr (.inl ⟨err, ?_, ?_⟩)
            · rw [herr]
            · rw [herr']
          · refine .inr (.inr ⟨l.emit p s, ?_, hline.emit l p, ?_⟩)
            · rw [hs]
            · rw [hrest]
              cases lexFrom ((p.after l.raw).after l.rest) vs with
              | error err => rfl
              | ok t => exact congrArg Except.ok (l.emit_behind p s t)
        · -- The line end is all that is left of the source.
          refine .inr (.inr ⟨l.emit p ⟨[], p.after l.raw⟩, ?_, ?_, ?_⟩)
          · rw [hrest, lexFrom_nil]
          · rw [Lexeme.emit, hkind]
            exact ⟨_, rfl, rfl⟩
          · simp only [hrest, List.nil_append, Position.after_nil]
            cases lexFrom (p.after l.raw) vs with
            | error err => rfl
            | ok t => exact congrArg Except.ok (l.emit_behind p ⟨[], _⟩ t)

/-- A source that is cut behind a line end has the tokens of its parts, unless the cut is within a
string. -/
theorem lexFrom_cut {p : Position} {us vs : List Char} {s : TokenStream} (hus : EndsNewline us)
    (h : lexFrom p (us ++ vs) = .ok s) :
    (∃ s₁ s₂, lexFrom p us = .ok s₁ ∧ lexFrom (p.after us) vs = .ok s₂ ∧
        s.tokens = s₁.tokens ++ s₂.tokens ∧ EndsLine s₁.tokens) ∨
      ∃ err, lexFrom p us = .error err ∧ err.cause = .openString := by
  rcases lexFrom_extend hus vs with hopen | ⟨err, -, herr⟩ | ⟨s₁, hs₁, hline, hextend⟩
  · exact .inr hopen
  · rw [herr] at h
    cases h
  · rw [hextend] at h
    cases hs₂ : lexFrom (p.after us) vs with
    | error err =>
      rw [hs₂] at h
      cases h
    | ok s₂ =>
      rw [hs₂] at h
      cases h
      exact .inl ⟨s₁, s₂, hs₁, rfl, rfl, hline⟩

end CalcShell.Calc
