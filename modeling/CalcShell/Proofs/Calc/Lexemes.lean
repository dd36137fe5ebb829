import CalcShell.Proofs.Calc.LineEnds

/-!
# A source is its tokens and the gaps between them

Reading tokens loses nothing of a source and adds nothing to it: the source is the characters that
its tokens are written with, in order, with blanks and comments between them (`Tiles`). Each token
stands where its position says, and its characters spell its kind and text, as many of them as there
are (`Spelling`). The main statement is `lex_tiles`.
-/

namespace CalcShell.Calc

open Text (isAsciiDigit ofDigits)

/-! ## Gaps and spellings -/

/-- Blanks, or blanks and a comment, in front of the characters `rest`. A comment goes up to the end
of its line or of the source. -/
inductive Gap : List Char → List Char → Prop where
  | nil (rest : List Char) : Gap [] rest
  | blank {c : Char} {gap rest : List Char} : c = ' ' ∨ c = '\t' ∨ c = '\r' → Gap gap rest →
    Gap (c :: gap) rest
  | comment {cs rest : List Char} : '\n' ∉ cs → (∀ c ∈ rest.head?, c = '\n') → Gap ('#' :: cs) rest

/-- What the characters between the quotes of a string stand for. There is nothing they stand for if
there is a quote among them without a backslash, or a backslash that escapes nothing. -/
def unescaped? : List Char → Option (List Char)
  | [] => some []
  | c :: cs =>
    if c = '"' then none
    else if c = '\\' then
      match cs with
      | [] => none
      | e :: cs =>
        match unescape? e with
        | none => none
        | some d => (unescaped? cs).map fun value => d :: value
    else (unescaped? cs).map fun value => c :: value

/-- The characters `raw` in front of `rest` are a whole word. -/
structure WholeWord (raw rest : List Char) : Prop where
  /-- It starts as names do. -/
  start : ∃ c ∈ raw.head?, isNameStart c = true
  /-- It goes on as names do. -/
  chars : ∀ c ∈ raw.tail, isNameChar c = true
  /-- Nothing behind it would go on with it. -/
  whole : ∀ c ∈ rest.head?, isNameChar c = false

/-- The characters `raw` in front of `rest` are a whole run of digits. -/
structure WholeDigits (raw rest : List Char) : Prop where
  /-- There is a digit. -/
  ne_nil : raw ≠ []
  /-- There are only digits. -/
  digits : ∀ c ∈ raw, isAsciiDigit c = true
  /-- There is no digit behind them. -/
  whole : ∀ c ∈ rest.head?, isAsciiDigit c = false

/-- A token of the kind and the text is written with the characters `raw` in front of `rest`. -/
inductive Spelling : TokenKind → String → List Char → List Char → Prop where
  | newline (rest : List Char) : Spelling .newline "\n" ['\n'] rest
  /-- An operator of two characters. -/
  | pair {kind : TokenKind} {c d : Char} (rest : List Char) : TokenKind.pair? c d = some kind →
    Spelling kind (String.ofList [c, d]) [c, d] rest
  /-- An operator or mark of one character, where there is none of two. -/
  | single {kind : TokenKind} {c : Char} {rest : List Char} : TokenKind.single? c = some kind →
    (∀ d ∈ rest.head?, TokenKind.pair? c d = none) → Spelling kind (String.ofList [c]) [c] rest
  | number {raw rest : List Char} : WholeDigits raw rest → (ofDigits raw : Int) ≤ maxNumber →
    Spelling .int (String.ofList raw) raw rest
  | keyword {kind : TokenKind} {raw rest : List Char} : WholeWord raw rest →
    TokenKind.keyword? (String.ofList raw) = some kind → Spelling kind (String.ofList raw) raw rest
  | name {raw rest : List Char} : WholeWord raw rest →
    TokenKind.keyword? (String.ofList raw) = none → Spelling .ident (String.ofList raw) raw rest
  | string {inner value : List Char} (rest : List Char) : unescaped? inner = some value →
    Spelling .str (String.ofList value) ('"' :: inner ++ ['"']) rest

/-- The characters, which start at the position, are those of the tokens, each at the token's own
position, with gaps before, between and behind them. -/
inductive Tiles : Position → List Char → List Token → Prop where
  | stop {p : Position} {gap : List Char} : Gap gap [] → Tiles p gap []
  | token {p : Position} {gap raw rest : List Char} {t : Token} {ts : List Token} :
    Gap gap (raw ++ rest) → t.position = p.after gap → Spelling t.kind t.text raw rest →
    Tiles (t.position.after raw) rest ts → Tiles p (gap ++ (raw ++ rest)) (t :: ts)

/-! ## What stands at the front -/

/-- What stands at the front of a source is a gap or spells a token. -/
def Lexeme.Faithful (l : Lexeme) : Prop :=
  match l.kind with
  | none => Gap l.raw l.rest
  | some kind => Spelling kind l.text l.raw l.rest

/-- A whole word spells a keyword, or else a name. -/
theorem WholeWord.spelling {raw rest : List Char} (h : WholeWord raw rest) :
    Spelling (wordKind raw) (String.ofList raw) raw rest := by
  unfold wordKind
  cases hkeyword : TokenKind.keyword? (String.ofList raw) with
  | none => exact .name h hkeyword
  | some kind => exact .keyword h hkeyword

/-- The body of a string is what is between the quotes, and the closing quote. -/
theorem StringBody.unescaped {cs value raw rest : List Char} (h : StringBody cs value raw rest) :
    ∃ inner, raw = inner ++ ['"'] ∧ unescaped? inner = some value := by
  induction h with
  | close cs => exact ⟨[], rfl, rfl⟩
  | @escape e d cs value raw rest hd _ ih =>
    obtain ⟨inner, rfl, hinner⟩ := ih
    refine ⟨'\\' :: e :: inner, rfl, ?_⟩
    simp [unescaped?, hd, hinner]
  | @plain c cs value raw rest hq he _ ih =>
    obtain ⟨inner, rfl, hinner⟩ := ih
    refine ⟨c :: inner, rfl, ?_⟩
    unfold unescaped?
    simp [hq, he, hinner]

section Front

variable {p : Position} {c : Char} {cs : List Char} {l : Lexeme}

/-- Behind all characters of a class at the front there is none of the class. -/
theorem head?_dropWhile {q : Char → Bool} : ∀ d ∈ (cs.dropWhile q).head?, q d = false := by
  intro d hd
  have hnot := List.head?_dropWhile_not q cs
  rw [Option.mem_def.1 hd] at hnot
  exact hnot

theorem scanString_faithful (h : scanString p '"' cs = .ok l) : l.Faithful := by
  rw [scanString_eq] at h
  split at h
  · cases h
  · rename_i value raw rest hbody
    cases h
    obtain ⟨inner, rfl, hinner⟩ := (StringBody.of_scanBody hbody).unescaped
    exact .string rest hinner

theorem scanNumber_faithful (hc : isAsciiDigit c = true) (h : scanNumber p c cs = .ok l) :
    l.Faithful := by
  unfold scanNumber at h
  split at h
  · cases h
  · rename_i n hn
    cases h
    refine .number ⟨List.cons_ne_nil _ _, ?_, head?_dropWhile⟩ ?_
    · intro d hd
      rcases List.mem_cons.1 hd with rfl | hd
      · exact hc
      · exact List.all_eq_true.1 List.all_takeWhile d hd
    · have hvalue : n.toInt = ofDigits (c :: cs.takeWhile isAsciiDigit) :=
        Number.ofInt?_eq_some.1 hn
      rw [← hvalue]
      exact n.le_max

theorem scanName_faithful (hc : isNameStart c = true) : (scanName c cs).Faithful :=
  WholeWord.spelling ⟨⟨c, rfl, hc⟩, List.all_eq_true.1 List.all_takeWhile, head?_dropWhile⟩

theorem scanSymbol_faithful (h : scanSymbol p c cs = .ok l) : l.Faithful := by
  unfold scanSymbol at h
  cases cs with
  | nil =>
    split at h
    · rename_i hpair
      cases hpair
    · split at h
      · rename_i kind hsingle
        cases h
        exact .single hsingle fun _ hd => nomatch hd
      · cases h
  | cons d ds =>
    split at h
    · rename_i kind hpair
      cases h
      exact .pair ds hpair
    · rename_i hpair
      split at h
      · rename_i kind hsingle
        cases h
        refine .single hsingle fun e he => ?_
        cases he
        exact hpair
      · cases h

theorem scan_faithful (h : scan p c cs = .ok l) : l.Faithful := by
  -- One case for each alternative of `scan`, in its order.
  unfold scan at h
  split at h
  · rename_i hgap
    cases h
    simp only [isGapChar, Bool.or_eq_true, decide_eq_true_eq, or_assoc] at hgap
    exact .blank hgap (.nil cs)
  split at h
  · rename_i hhash
    cases h
    subst hhash
    refine .comment ?_ ?_
    · intro hmem
      have hne := List.all_eq_true.1 List.all_takeWhile _ hmem
      simp at hne
    · intro d hd
      simpa using head?_dropWhile d hd
  split at h
  · rename_i hnl
    cases h
    subst hnl
    exact .newline cs
  split at h
  · rename_i hquote
    subst hquote
    exact scanString_faithful h
  split at h
  · rename_i hdigit
    exact scanNumber_faithful hdigit h
  split at h
  · rename_i hname
    cases h
    exact scanName_faithful hname
  · exact scanSymbol_faithful h

end Front

/-! ## What spells a token is read as it

The first character decides what is read: those that start names, digits and those that start
operators and marks are three classes, with no gap, line end or quote in them.
-/

/-- The code point of a digit. -/
theorem toNat_of_digit {c : Char} (h : isAsciiDigit c = true) : 48 ≤ c.toNat ∧ c.toNat ≤ 57 := by
  simp only [isAsciiDigit, Bool.and_eq_true, decide_eq_true_eq] at h
  exact h

/-- A digit starts no name. -/
theorem isNameStart_of_digit {c : Char} (h : isAsciiDigit c = true) : isNameStart c = false := by
  have hc := toNat_of_digit h
  have hletter : Text.isAlphabetic c = false := by
    change Text.Ranges.mem ((65, 90) :: _) c.toNat = false
    rw [Text.Ranges.mem, if_pos (by omega)]
  have hline : c ≠ '_' := by
    rintro rfl
    exact absurd h (by decide)
  rw [isNameStart, hletter, Bool.false_or, decide_eq_false hline]

/-- Digits may stand in a name. -/
theorem isNameChar_of_digit {c : Char} (h : isAsciiDigit c = true) : isNameChar c = true := by
  have hc := toNat_of_digit h
  have hnumber : Text.isNumeric c = true := by
    change Text.Ranges.mem ((48, 57) :: _) c.toNat = true
    rw [Text.Ranges.mem, if_neg (by omega), if_pos hc.2]
  rw [isNameChar, Text.isAlphanumeric, hnumber, Bool.or_true, Bool.true_or]

/-- A character of a class with neither gaps nor line ends, quotes and comments in it starts a
number, a name or a symbol. -/
theorem scan_of_class {P : Char → Bool} {c : Char} (h : P c = true)
    (hP : [' ', '\t', '\r', '#', '\n', '"'].all (!P ·) = true) (p : Position) (cs : List Char) :
    scan p c cs =
      if isAsciiDigit c then scanNumber p c cs
      else if isNameStart c then .ok (scanName c cs)
      else scanSymbol p c cs := by
  have hne : ∀ d ∈ [' ', '\t', '\r', '#', '\n', '"'], c ≠ d := by
    rintro d hd rfl
    have hc := List.all_eq_true.1 hP c hd
    rw [h] at hc
    cases hc
  have hgap : ¬isGapChar c = true := by
    simp only [isGapChar, Bool.or_eq_true, decide_eq_true_eq, not_or]
    exact ⟨⟨hne ' ' (by decide), hne '\t' (by decide)⟩, hne '\r' (by decide)⟩
  unfold scan
  rw [if_neg hgap, if_neg (hne '#' (by decide)), if_neg (hne '\n' (by decide)),
    if_neg (hne '"' (by decide))]

/-- A character that starts names starts one. -/
theorem scan_name {c : Char} (h : isNameStart c = true) (p : Position) (cs : List Char) :
    scan p c cs = .ok (scanName c cs) := by
  have hdigit : ¬isAsciiDigit c = true := by
    intro hdigit
    rw [isNameStart_of_digit hdigit] at h
    cases h
  rw [scan_of_class h (by decide), if_neg hdigit, if_pos h]

/-- A digit starts a number. -/
theorem scan_digit {c : Char} (h : isAsciiDigit c = true) (p : Position) (cs : List Char) :
    scan p c cs = scanNumber p c cs := by
  rw [scan_of_class h (by decide), if_pos h]

/-- Whether a character starts a symbol, if anything: it starts neither a gap nor a line end,
string, number or name. -/
def startsSymbol (c : Char) : Bool :=
  !(isGapChar c || c = '#' || c = '\n' || c = '"' || isAsciiDigit c || isNameStart c)

theorem scan_symbol {c : Char} (h : startsSymbol c = true) (p : Position) (cs : List Char) :
    scan p c cs = scanSymbol p c cs := by
  simp only [startsSymbol, Bool.not_eq_true', Bool.or_eq_false_iff, decide_eq_false_iff_not] at h
  obtain ⟨⟨⟨⟨⟨hgap, hhash⟩, hnl⟩, hquote⟩, hdigit⟩, hname⟩ := h
  unfold scan
  rw [if_neg (by rw [hgap]; decide), if_neg hhash, if_neg hnl, if_neg hquote,
    if_neg (by rw [hdigit]; decide), if_neg (by rw [hname]; decide)]

/-- Characters of a class end where others follow. -/
theorem takeWhile_append_of_all {q : Char → Bool} {cs rest : List Char} (hcs : cs.all q = true)
    (hrest : ∀ c ∈ rest.head?, q c = false) :
    (cs ++ rest).takeWhile q = cs ∧ (cs ++ rest).dropWhile q = rest := by
  rw [List.all_eq_true] at hcs
  have hnone : rest.takeWhile q = [] ∧ rest.dropWhile q = rest := by
    cases rest with
    | nil => exact ⟨rfl, rfl⟩
    | cons c rest =>
      have hc := hrest c rfl
      simp [hc]
  rw [List.takeWhile_append_of_pos hcs, List.dropWhile_append_of_pos hcs, hnone.1, hnone.2,
    List.append_nil]
  exact ⟨rfl, rfl⟩

/-- What an operator or mark starts with starts nothing else. -/
theorem startsSymbol_of_single? {c : Char} {kind : TokenKind}
    (h : TokenKind.single? c = some kind) : startsSymbol c = true := by
  unfold TokenKind.single? at h
  split at h
  -- The last case is that of no mark.
  case h_16 => cases h
  all_goals decide

theorem startsSymbol_of_pair? {c d : Char} {kind : TokenKind}
    (h : TokenKind.pair? c d = some kind) : startsSymbol c = true := by
  unfold TokenKind.pair? at h
  split at h
  case h_7 => cases h
  all_goals decide

/-- Characters that stand for others and a closing quote are the body of a string. -/
theorem StringBody.of_unescaped {inner value : List Char} (h : unescaped? inner = some value)
    (rest : List Char) : StringBody (inner ++ '"' :: rest) value (inner ++ ['"']) rest := by
  fun_induction unescaped? inner generalizing value with
  | case1 =>
    cases h
    exact .close rest
  | case2 => cases h
  | case3 => cases h
  | case4 => cases h
  | case5 _ _ _ hd _ ih =>
    obtain ⟨more, hmore, rfl⟩ := Option.map_eq_some_iff.1 h
    exact .escape hd (ih hmore)
  | case6 c cs hquote hslash ih =>
    obtain ⟨more, hmore, rfl⟩ := Option.map_eq_some_iff.1 h
    exact .plain hquote hslash (ih hmore)

/-- A whole word is read as one. -/
theorem WholeWord.scan {raw rest : List Char} (h : WholeWord raw rest) :
    ∃ c cs, raw = c :: cs ∧
      ∀ p : Position, Calc.scan p c (cs ++ rest) = .ok (.word (wordKind raw) raw rest) := by
  obtain ⟨c, hc, hstart⟩ := h.start
  cases raw with
  | nil => cases hc
  | cons _ cs =>
    cases hc
    refine ⟨c, cs, rfl, fun p => ?_⟩
    have hcs : cs.all isNameChar = true := List.all_eq_true.2 h.chars
    obtain ⟨htake, hdrop⟩ := takeWhile_append_of_all hcs h.whole
    rw [scan_name hstart, scanName, htake, hdrop]

/-- What spells a token is read as the token. -/
theorem Spelling.scan {kind : TokenKind} {text : String} {raw rest : List Char}
    (h : Spelling kind text raw rest) :
    ∃ c cs, raw = c :: cs ∧
      ∀ p : Position, Calc.scan p c (cs ++ rest) = .ok ⟨some kind, text, raw, rest⟩ := by
  cases h with
  | newline => exact ⟨'\n', [], rfl, fun _ => rfl⟩
  | @pair _ c d _ hpair =>
    refine ⟨c, [d], rfl, fun p => ?_⟩
    have hhead : ([d] ++ rest).head?.bind (TokenKind.pair? c) = some kind := hpair
    rw [scan_symbol (startsSymbol_of_pair? hpair), scanSymbol, hhead]
    rfl
  | @single _ c _ hsingle hpair =>
    refine ⟨c, [], rfl, fun p => ?_⟩
    have hhead : rest.head?.bind (TokenKind.pair? c) = none := Option.bind_eq_none_iff.2 hpair
    rw [List.nil_append, scan_symbol (startsSymbol_of_single? hsingle), scanSymbol, hhead]
    simp only [hsingle, Lexeme.word]
  | number hdigits hmax =>
    cases raw with
    | nil => exact absurd rfl hdigits.ne_nil
    | cons c cs =>
      refine ⟨c, cs, rfl, fun p => ?_⟩
      have hcs : cs.all isAsciiDigit = true :=
        List.all_eq_true.2 fun d hd => hdigits.digits d (List.mem_cons_of_mem c hd)
      have hvalue : Number.ofDigits? (c :: cs) =
          some ⟨ofDigits (c :: cs), by unfold minNumber; omega, hmax⟩ := Number.ofInt?_eq_some.2 rfl
      obtain ⟨htake, hdrop⟩ := takeWhile_append_of_all hcs hdigits.whole
      rw [scan_digit (hdigits.digits c List.mem_cons_self), scanNumber, htake, hdrop, hvalue]
      rfl
  | keyword hword hkeyword =>
    obtain ⟨c, cs, hraw, hscan⟩ := hword.scan
    refine ⟨c, cs, hraw, fun p => ?_⟩
    rw [hscan p, wordKind, hkeyword]
    rfl
  | name hword hkeyword =>
    obtain ⟨c, cs, hraw, hscan⟩ := hword.scan
    refine ⟨c, cs, hraw, fun p => ?_⟩
    rw [hscan p, wordKind, hkeyword]
    rfl
  | @string inner value _ hinner =>
    refine ⟨'"', inner ++ ['"'], rfl, fun p => ?_⟩
    have hbody := (StringBody.of_unescaped hinner rest).scanBody p (p.next '"')
    change scanString p '"' ((inner ++ ['"']) ++ rest) = _
    rw [List.append_assoc, List.singleton_append, scanString_eq, hbody]
    rfl

/-- A token in front of what has tokens. -/
theorem Spelling.lexFrom {p : Position} {kind : TokenKind} {text : String} {raw rest : List Char}
    {s : TokenStream} (h : Spelling kind text raw rest)
    (hrest : lexFrom (p.after raw) rest = .ok s) :
    lexFrom p (raw ++ rest) = .ok (s.behind [⟨kind, text, p⟩]) := by
  obtain ⟨c, cs, rfl, hscan⟩ := h.scan
  exact lexFrom_cons_ok (hscan p) hrest

/-! ## Sources -/

/-- No gap ends at a line end or the end of a source but the empty one. -/
theorem Gap.eq_nil {gap rest : List Char} (h : Gap gap rest)
    (hend : ∀ c ∈ (gap ++ rest).head?, c = '\n') : gap = [] := by
  cases h with
  | nil => rfl
  | @blank c gap _ hc _ =>
    have hnl : c = '\n' := hend c rfl
    subst hnl
    exact absurd hc (by decide)
  | comment _ _ => exact absurd (hend '#' rfl) (by decide)

/-- Two gaps one after the other are a gap. -/
theorem Gap.append {gap more rest : List Char} (h : Gap gap (more ++ rest))
    (hmore : Gap more rest) : Gap (gap ++ more) rest := by
  generalize hbehind : more ++ rest = behind at h
  induction h with
  | nil => exact hmore
  | blank hc _ ih => exact .blank hc (ih hbehind)
  | @comment cs behind hcs hend =>
    subst hbehind
    -- Behind a comment the source ends, or a line end stands there.
    obtain rfl := hmore.eq_nil hend
    rw [List.append_nil]
    exact .comment hcs hend

/-- A gap in front of tokens and gaps. -/
theorem Tiles.behind_gap {p : Position} {gap cs : List Char} {ts : List Token} (hgap : Gap gap cs)
    (h : Tiles (p.after gap) cs ts) : Tiles p (gap ++ cs) ts := by
  cases h with
  | stop hmore =>
    rw [← List.append_nil cs] at hgap
    exact .stop (hgap.append hmore)
  | token hmore ht hspelling hrest =>
    rw [← List.append_assoc]
    refine .token (hgap.append hmore) ?_ hspelling hrest
    rw [ht, Position.after_append]

/-- A token is written with a character at least. -/
theorem Spelling.ne_nil {kind : TokenKind} {text : String} {raw rest : List Char}
    (h : Spelling kind text raw rest) : raw ≠ [] := by
  obtain ⟨c, cs, rfl, -⟩ := h.scan
  exact List.cons_ne_nil c cs

/-- The tokens of a source are its characters but for gaps, and the source ends where it stops. -/
theorem lexFrom_tiles {p : Position} {cs : List Char} {s : TokenStream}
    (h : lexFrom p cs = .ok s) : Tiles p cs s.tokens ∧ s.stop = p.after cs := by
  induction hn : cs.length using Nat.strongRecOn generalizing p cs s with
  | _ n ih =>
    cases cs with
    | nil =>
      rw [lexFrom_nil] at h
      cases h
      exact ⟨.stop (.nil []), rfl⟩
    | cons c cs =>
      obtain ⟨l, t, hscan, hrest, rfl⟩ := lexFrom_cons_inv h
      obtain ⟨htiles, hstop⟩ := ih l.rest.length (hn ▸ scan_rest_length hscan) hrest rfl
      have hfront := scan_faithful hscan
      rw [← scan_append hscan, Position.after_append, ← hstop]
      unfold Lexeme.Faithful at hfront
      unfold Lexeme.emit
      cases hkind : l.kind with
      | none =>
        rw [hkind] at hfront
        exact ⟨htiles.behind_gap hfront, rfl⟩
      | some kind =>
        rw [hkind] at hfront
        have hgap : Gap [] (l.raw ++ l.rest) := .nil _
        exact ⟨.token hgap rfl hfront htiles, rfl⟩

/-- Each token stands behind the characters that its position tells, written with its own. -/
theorem Tiles.placed {p : Position} {cs : List Char} {ts : List Token} (h : Tiles p cs ts) :
    ∀ t ∈ ts, ∃ before raw rest, cs = before ++ (raw ++ rest) ∧ t.position = p.after before ∧
      Spelling t.kind t.text raw rest := by
  induction h with
  | stop _ => exact fun _ ht => absurd ht List.not_mem_nil
  | @token p gap raw rest t ts _ hposition hspelling _ ih =>
    intro u hu
    rcases List.mem_cons.1 hu with rfl | hu
    · exact ⟨gap, raw, rest, rfl, hposition, hspelling⟩
    · obtain ⟨before, raw', rest', hrest, hposition', hspelling'⟩ := ih u hu
      refine ⟨gap ++ (raw ++ before), raw', rest', ?_, ?_, hspelling'⟩
      · rw [hrest, List.append_assoc, List.append_assoc]
      · rw [hposition', hposition, Position.after_append, Position.after_append]

/-- The characters of each token stand in the source. -/
theorem Tiles.spelled {p : Position} {cs : List Char} {ts : List Token} (h : Tiles p cs ts) :
    ∀ t ∈ ts, ∃ raw rest, raw <:+: cs ∧ Spelling t.kind t.text raw rest := by
  intro t ht
  obtain ⟨before, raw, rest, rfl, -, hspelling⟩ := h.placed t ht
  exact ⟨raw, rest, ⟨before, rest, List.append_assoc before raw rest⟩, hspelling⟩

/-! ## Kinds -/

/-- The kinds of the tokens that are no words. -/
def plainKinds : List TokenKind :=
  [.newline, .semi, .lparen, .rparen, .lbrack, .rbrack, .comma, .equal, .equalEqual, .notEqual,
    .less, .lessEqual, .greater, .greaterEqual, .plus, .minus, .star, .slash, .percent, .bang,
    .andAnd, .orOr, .int, .str]

/-- The kinds of operators and marks. -/
def symbolKinds : List TokenKind :=
  [.semi, .lparen, .rparen, .lbrack, .rbrack, .comma, .equal, .equalEqual, .notEqual, .less,
    .lessEqual, .greater, .greaterEqual, .plus, .minus, .star, .slash, .percent, .bang, .andAnd,
    .orOr]

theorem symbolKinds_subset : symbolKinds ⊆ plainKinds := by decide

theorem mem_symbolKinds_of_pair? {c d : Char} {kind : TokenKind}
    (h : TokenKind.pair? c d = some kind) : kind ∈ symbolKinds := by
  unfold TokenKind.pair? at h
  split at h <;> cases h <;> decide

theorem mem_symbolKinds_of_single? {c : Char} {kind : TokenKind}
    (h : TokenKind.single? c = some kind) : kind ∈ symbolKinds := by
  unfold TokenKind.single? at h
  split at h <;> cases h <;> decide

/-- A token is no word, or it has the kind of its word. -/
theorem Spelling.plain_or_word {kind : TokenKind} {text : String} {raw rest : List Char}
    (h : Spelling kind text raw rest) : kind ∈ plainKinds ∨ kind = wordKind raw := by
  cases h with
  | newline => exact .inl (by decide)
  | pair _ hpair => exact .inl (symbolKinds_subset (mem_symbolKinds_of_pair? hpair))
  | single hsingle _ => exact .inl (symbolKinds_subset (mem_symbolKinds_of_single? hsingle))
  | number _ _ => exact .inl (by decide)
  | keyword _ hkeyword =>
    right
    rw [wordKind, hkeyword]
    rfl
  | name _ hkeyword =>
    right
    rw [wordKind, hkeyword]
    rfl
  | string _ _ => exact .inl (by decide)

/-- No word stands for the end of a source. -/
theorem wordKind_ne_eof (word : List Char) : wordKind word ≠ .eof := by
  unfold wordKind TokenKind.keyword?
  split <;> decide

/-- No token of a source stands for its end. -/
theorem lexFrom_ne_eof {p : Position} {cs : List Char} {s : TokenStream}
    (h : lexFrom p cs = .ok s) : ∀ t ∈ s.tokens, t.kind ≠ .eof := by
  intro t ht
  obtain ⟨raw, rest, -, hspelling⟩ := (lexFrom_tiles h).1.spelled t ht
  rcases hspelling.plain_or_word with hplain | hword
  · intro heof
    rw [heof] at hplain
    exact absurd hplain (by decide)
  · rw [hword]
    exact wordKind_ne_eof raw

/-! ## Places -/

/-- Characters move a place on. -/
theorem Position.offset_le_after (p : Position) (cs : List Char) :
    p.offset ≤ (p.after cs).offset := by
  rw [after_offset]
  omega

theorem Position.offset_lt_after (p : Position) {cs : List Char} (h : cs ≠ []) :
    p.offset < (p.after cs).offset := by
  cases cs with
  | nil => exact absurd rfl h
  | cons c cs =>
    have hnext := (p.next c).offset_le_after cs
    have hsize := c.utf8Size_pos
    rw [next_offset] at hnext
    rw [after_cons]
    omega

/-- Tokens stand between the start and the end of their characters, each behind the one before. -/
theorem Tiles.increasing {p : Position} {cs : List Char} {ts : List Token} (h : Tiles p cs ts) :
    (∀ t ∈ ts, p.offset ≤ t.position.offset ∧ t.position.offset < (p.after cs).offset) ∧
      ts.Pairwise fun t u => t.position.offset < u.position.offset := by
  induction h with
  | stop _ => exact ⟨fun _ ht => absurd ht List.not_mem_nil, .nil⟩
  | @token p gap raw rest t ts _ ht hspelling _ ih =>
    obtain ⟨hbetween, hpairwise⟩ := ih
    have hgap := p.offset_le_after gap
    have hraw := t.position.offset_lt_after hspelling.ne_nil
    have hrest := (t.position.after raw).offset_le_after rest
    rw [Position.after_append, Position.after_append, ← ht]
    rw [← ht] at hgap
    constructor
    · intro u hu
      rcases List.mem_cons.1 hu with rfl | hu
      · omega
      · have := hbetween u hu
        omega
    · refine .cons ?_ hpairwise
      intro u hu
      have := hbetween u hu
      omega

/-- The tokens of a source and the gaps between them are the source. Only the last token is the end
of the source, which stands behind its last byte, and each token stands before the next. -/
theorem lex_tiles {src : String} {s : TokenStream} (h : lex src = .ok s) :
    Tiles .start src.toList s.tokens ∧
      s.all = s.tokens ++ [⟨.eof, "", Position.start.after src.toList⟩] ∧
      (∀ t ∈ s.tokens, t.kind ≠ .eof) ∧
      (Position.start.after src.toList).offset = src.utf8ByteSize ∧
      s.all.Pairwise fun t u => t.position.offset < u.position.offset := by
  obtain ⟨htiles, hstop⟩ := lexFrom_tiles (lexFrom_of_lex h)
  obtain ⟨hbetween, hpairwise⟩ := htiles.increasing
  have hall : s.all = s.tokens ++ [⟨.eof, "", Position.start.after src.toList⟩] := by
    unfold TokenStream.all TokenStream.last
    rw [hstop]
  refine ⟨htiles, hall, lexFrom_ne_eof (lexFrom_of_lex h), ?_, ?_⟩
  · rw [Position.after_offset, String.ofList_toList]
    exact Nat.zero_add _
  · rw [hall, List.pairwise_append]
    refine ⟨hpairwise, List.pairwise_singleton _ _, fun t ht u hu => ?_⟩
    rw [List.mem_singleton.1 hu]
    exact (hbetween t ht).2

/-- A name with a character of two bytes, an operator of two characters, a string with an escaped
quote and a number sign in it, a comment and a keyword. -/
theorem lex_tiles_comment :
    let s : TokenStream := ⟨[⟨.ident, "né", ⟨0, 1, 1⟩⟩, ⟨.lessEqual, "<=", ⟨3, 1, 3⟩⟩,
      ⟨.str, "a\"#", ⟨5, 1, 5⟩⟩, ⟨.newline, "\n", ⟨13, 1, 13⟩⟩, ⟨.kwIf, "if", ⟨14, 2, 1⟩⟩],
      ⟨16, 2, 3⟩⟩
    lex "né<=\"a\\\"#\"#!\nif" = .ok s ∧ Tiles .start "né<=\"a\\\"#\"#!\nif".toList s.tokens ∧
      s.all.Pairwise fun t u => t.position.offset < u.position.offset := by
  intro s
  generalize hsrc : "né<=\"a\\\"#\"#!\nif" = src
  have hlex : lex src = .ok s := by
    have hsome : (lex src).toOption = some s := by
      rw [← hsrc]
      decide +kernel
    cases hx : lex src with
    | error err =>
      rw [hx] at hsome
      cases hsome
    | ok t =>
      rw [hx] at hsome
      exact congrArg Except.ok (Option.some.inj hsome)
  obtain ⟨htiles, -, -, -, hpairwise⟩ := lex_tiles hlex
  exact ⟨hlex, htiles, hpairwise⟩

end CalcShell.Calc
