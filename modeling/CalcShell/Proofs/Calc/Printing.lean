import CalcShell.Proofs.Calc.Grammar

/-!
# Writing trees as text

`Program.print` writes a tree on one line, with single blanks, and with parentheses only where the
tree would be read otherwise. Not every tree can be written: names must be names, and a minus in
front of a number would be read as part of the number (`writable`).

The text of a writable tree has the words that `Expr.words` gives beside it (`lex_print`). A piece
of text has its words whatever follows, as long as the last word cannot go on in it (`Lexes`), so
that the words of a text are found piece by piece.
-/

namespace CalcShell.Calc

open Text (ofDigits)

/-! ## The printer -/

/-- How an operator is written. -/
def UnaryOp.symbol : UnaryOp → String
  | .neg => "-"
  | .not => "!"

/-- The levels as numbers, the loosest first. -/
def Tier.rank : Tier → Nat
  | .or => 0
  | .and => 1
  | .comparison => 2
  | .additive => 3
  | .multiplicative => 4

/-- The level of the operator with two operands on top of an expression, or one above all levels. -/
def Expr.rank : Expr → Nat
  | .binary op _ _ => op.tier.rank
  | _ => 5

/-- A left operand of `op` stands in parentheses if it binds looser, or if both are comparisons. -/
def Expr.wrapsLeft (op : BinaryOp) (l : Expr) : Bool :=
  l.rank < op.tier.rank || (l.rank == op.tier.rank && op.tier == .comparison)

/-- A right operand of `op` stands in parentheses if it does not bind tighter. -/
def Expr.wrapsRight (op : BinaryOp) (r : Expr) : Bool := r.rank ≤ op.tier.rank

/-- The operand of an operator in front stands in parentheses if it has an operator with two
operands on top. -/
def Expr.wrapsOperand : Expr → Bool
  | .binary _ _ _ => true
  | _ => false

/-- What is indexed stands in parentheses if it has an operator on top or a sign in front. -/
def Expr.wrapsTarget : Expr → Bool
  | .binary _ _ _ => true
  | .unary _ _ => true
  | .int n => n.toInt < 0
  | _ => false

/-- A text in parentheses, if they are needed. -/
def wrap (needed : Bool) (text : String) : String := if needed then "(" ++ text ++ ")" else text

/-- A character of a string, as it is written between the quotes. -/
def printChar (c : Char) : List Char :=
  if c = '"' then ['\\', '"'] else if c = '\\' then ['\\', '\\'] else [c]

/-- A string in quotes. -/
def printString (s : String) : String :=
  String.ofList ('"' :: (s.toList.flatMap printChar ++ ['"']))

mutual

/-- The text of an expression. -/
def Expr.print : Expr → String
  | .nil => "nil"
  | .bool b => if b then "true" else "false"
  | .int n => n.render
  | .str s => printString s
  | .receiver => "self"
  | .var name _ => name
  | .list items => "[" ++ Expr.printItems items ++ "]"
  | .unary op e => op.symbol ++ wrap e.wrapsOperand e.print
  | .binary op l r =>
    wrap (l.wrapsLeft op) l.print ++ (" " ++ op.symbol ++ " ") ++ wrap (r.wrapsRight op) r.print
  | .index t i => wrap t.wrapsTarget t.print ++ "[" ++ i.print ++ "]"
  | .call name args => name ++ "(" ++ Expr.printItems args ++ ")"
  | .block body => "do" ++ Stmt.printBody body ++ "end"
  | .cond t yes none => "if " ++ t.print ++ " then" ++ Stmt.printBody yes ++ "end"
  | .cond t yes (some no) =>
    "if " ++ t.print ++ " then" ++ Stmt.printBody yes ++ "else" ++ Stmt.printBody no ++ "end"
  | .loop t body => "while " ++ t.print ++ " do" ++ Stmt.printBody body ++ "end"

/-- The text of expressions with commas between them. -/
def Expr.printItems : List Expr → String
  | [] => ""
  | e :: es => e.print ++ Expr.printMore es

/-- The text of expressions behind others. -/
def Expr.printMore : List Expr → String
  | [] => ""
  | e :: es => ", " ++ e.print ++ Expr.printMore es

/-- The text of a statement. -/
def Stmt.print : Stmt → String
  | .define name e => "let " ++ name ++ " = " ++ e.print
  | .assign name e => name ++ " = " ++ e.print
  | .expr e => e.print

/-- The text of statements behind others. -/
def Stmt.printMore : List Stmt → String
  | [] => ""
  | s :: ss => "; " ++ s.print ++ Stmt.printMore ss

/-- The text of statements with blanks around it. -/
def Stmt.printBody : List Stmt → String
  | [] => " "
  | s :: ss => " " ++ s.print ++ Stmt.printMore ss ++ " "

end

/-- The text of a program. -/
def Program.print : Program → String
  | [] => ""
  | s :: ss => s.print ++ Stmt.printMore ss

/-! ## Trees that can be written -/

/-- Whether a text is a name: a letter or `_` and then letters, numbers and `_`, but no keyword. -/
def isName (name : String) : Bool :=
  match name.toList with
  | [] => false
  | c :: cs => isNameStart c && cs.all isNameChar && (TokenKind.keyword? name).isNone

/-- Whether a minus in front of the expression is read as part of it. -/
def Expr.isNumber : Expr → Bool
  | .int _ => true
  | _ => false

mutual

/-- Whether the names of an expression are names, its numbers are above the least one and no minus
stands directly in front of a number. -/
def Expr.writable : Expr → Bool
  | .nil | .bool _ | .str _ | .receiver => true
  | .int n => minNumber < n.toInt
  | .var name _ => isName name
  | .list items => Expr.writableAll items
  | .unary op e => !(op == .neg && e.isNumber) && e.writable
  | .binary _ l r => l.writable && r.writable
  | .index t i => t.writable && i.writable
  | .call name args => isName name && Expr.writableAll args
  | .block body => Stmt.writableAll body
  | .cond t yes none => t.writable && Stmt.writableAll yes
  | .cond t yes (some no) => t.writable && Stmt.writableAll yes && Stmt.writableAll no
  | .loop t body => t.writable && Stmt.writableAll body

/-- Whether all of some expressions can be written. -/
def Expr.writableAll : List Expr → Bool
  | [] => true
  | e :: es => e.writable && Expr.writableAll es

/-- Whether a statement can be written. -/
def Stmt.writable : Stmt → Bool
  | .define name e => isName name && e.writable
  | .assign name e => isName name && e.writable
  | .expr e => e.writable

/-- Whether all of some statements can be written. -/
def Stmt.writableAll : List Stmt → Bool
  | [] => true
  | s :: ss => s.writable && Stmt.writableAll ss

end

mutual

/-- The number of expressions that are inside of one another below the top. -/
def Expr.height : Expr → Nat
  | .nil | .bool _ | .int _ | .str _ | .receiver | .var _ _ => 0
  | .list items => Expr.heightAll items + 1
  | .unary _ e => e.height + 1
  | .binary _ l r => max l.height r.height + 1
  | .index t i => max t.height i.height + 1
  | .call _ args => Expr.heightAll args + 1
  | .block body => Stmt.heightAll body + 1
  | .cond t yes none => max t.height (Stmt.heightAll yes) + 1
  | .cond t yes (some no) => max t.height (max (Stmt.heightAll yes) (Stmt.heightAll no)) + 1
  | .loop t body => max t.height (Stmt.heightAll body) + 1

/-- The greatest height of some expressions. -/
def Expr.heightAll : List Expr → Nat
  | [] => 0
  | e :: es => max e.height (Expr.heightAll es)

/-- The height of the expression of a statement. -/
def Stmt.height : Stmt → Nat
  | .define _ e => e.height
  | .assign _ e => e.height
  | .expr e => e.height

/-- The greatest height of some statements. -/
def Stmt.heightAll : List Stmt → Nat
  | [] => 0
  | s :: ss => max s.height (Stmt.heightAll ss)

end

/-! ## The words of a tree -/

/-- What a parser sees of a token: its kind and its text. -/
abbrev Word := TokenKind × String

/-- The word of an operator. -/
def UnaryOp.word (op : UnaryOp) : Word := (op.kind, op.symbol)

/-- The word of an operator. -/
def BinaryOp.word (op : BinaryOp) : Word := (op.kind, op.symbol)

/-- The words of a number: a sign and digits. -/
def numberWords (n : Number) : List Word :=
  if n.toInt < 0 then [(.minus, "-"), (.int, Nat.repr n.toInt.natAbs)]
  else [(.int, Nat.repr n.toInt.natAbs)]

/-- Words in parentheses, if they are needed. -/
def wrapWords (needed : Bool) (ws : List Word) : List Word :=
  if needed then [(.lparen, "(")] ++ ws ++ [(.rparen, ")")] else ws

mutual

/-- The words of an expression. -/
def Expr.words : Expr → List Word
  | .nil => [(.kwNil, "nil")]
  | .bool b => if b then [(.kwTrue, "true")] else [(.kwFalse, "false")]
  | .int n => numberWords n
  | .str s => [(.str, s)]
  | .receiver => [(.kwSelf, "self")]
  | .var name _ => [(.ident, name)]
  | .list items => [(.lbrack, "[")] ++ Expr.itemWords items ++ [(.rbrack, "]")]
  | .unary op e => [op.word] ++ wrapWords e.wrapsOperand e.words
  | .binary op l r =>
    wrapWords (l.wrapsLeft op) l.words ++ [op.word] ++ wrapWords (r.wrapsRight op) r.words
  | .index t i => wrapWords t.wrapsTarget t.words ++ [(.lbrack, "[")] ++ i.words ++ [(.rbrack, "]")]
  | .call name args =>
    [(.ident, name)] ++ [(.lparen, "(")] ++ Expr.itemWords args ++ [(.rparen, ")")]
  | .block body => [(.kwDo, "do")] ++ Stmt.bodyWords body ++ [(.kwEnd, "end")]
  | .cond t yes none =>
    [(.kwIf, "if")] ++ t.words ++ [(.kwThen, "then")] ++ Stmt.bodyWords yes ++ [(.kwEnd, "end")]
  | .cond t yes (some no) =>
    [(.kwIf, "if")] ++ t.words ++ [(.kwThen, "then")] ++ Stmt.bodyWords yes ++
      [(.kwElse, "else")] ++ Stmt.bodyWords no ++ [(.kwEnd, "end")]
  | .loop t body =>
    [(.kwWhile, "while")] ++ t.words ++ [(.kwDo, "do")] ++ Stmt.bodyWords body ++ [(.kwEnd, "end")]

/-- The words of expressions with commas between them. -/
def Expr.itemWords : List Expr → List Word
  | [] => []
  | e :: es => e.words ++ Expr.moreWords es

/-- The words of expressions behind others. -/
def Expr.moreWords : List Expr → List Word
  | [] => []
  | e :: es => [(.comma, ",")] ++ e.words ++ Expr.moreWords es

/-- The words of a statement. -/
def Stmt.words : Stmt → List Word
  | .define name e => [(.kwLet, "let")] ++ [(.ident, name)] ++ [(.equal, "=")] ++ e.words
  | .assign name e => [(.ident, name)] ++ [(.equal, "=")] ++ e.words
  | .expr e => e.words

/-- The words of statements behind others. -/
def Stmt.moreWords : List Stmt → List Word
  | [] => []
  | s :: ss => [(.semi, ";")] ++ s.words ++ Stmt.moreWords ss

/-- The words of statements. -/
def Stmt.bodyWords : List Stmt → List Word
  | [] => []
  | s :: ss => s.words ++ Stmt.moreWords ss

end

/-! ## Pieces of text -/

/-- In front of characters that `F` holds of, a piece of text has the words `ws`, and what follows
has its own. -/
def Lexes (F : List Char → Prop) (text : String) (ws : List Word) : Prop :=
  ∀ (p : Position) rest t, F rest → lexFrom (p.after text.toList) rest = .ok t →
    ∃ ts, Calc.words ts = ws ∧ lexFrom p (text.toList ++ rest) = .ok (t.behind ts)

/-- A name or number does not go on in the characters. -/
def Apart (rest : List Char) : Prop := ∀ c ∈ rest.head?, isNameChar c = false

/-- No restriction on what follows. -/
def Anything (_ : List Char) : Prop := True

/-- Whether a text starts with a character of a class. -/
def starts (q : Char → Bool) (text : String) : Bool := text.toList.head?.any q

theorem starts_append {q : Char → Bool} {a : String} (h : starts q a = true) (b : String) :
    starts q (a ++ b) = true := by
  unfold starts at h ⊢
  rw [String.toList_append]
  cases hcs : a.toList with
  | nil => rw [hcs] at h; cases h
  | cons c cs => rwa [hcs] at h

namespace Lexes

variable {F G : List Char → Prop} {a b : String} {ws vs : List Word}

theorem mono (h : Lexes F a ws) (hF : ∀ rest, G rest → F rest) : Lexes G a ws :=
  fun p rest t hrest => h p rest t (hF rest hrest)

/-- A piece behind another one, in which the last word of the first one does not go on. -/
theorem append (ha : Lexes F a ws) (hb : Lexes G b vs)
    (hF : ∀ rest, G rest → F (b.toList ++ rest)) : Lexes G (a ++ b) (ws ++ vs) := by
  intro p rest t hrest ht
  rw [String.toList_append, Position.after_append] at ht
  obtain ⟨us, hus, hlex⟩ := hb (p.after a.toList) rest t hrest ht
  obtain ⟨ts, hts, hlex'⟩ := ha p (b.toList ++ rest) _ (hF rest hrest) hlex
  refine ⟨ts ++ us, ?_, ?_⟩
  · rw [← hts, ← hus, Calc.words, Calc.words, Calc.words, List.map_append]
  · rw [String.toList_append, List.append_assoc, hlex', TokenStream.behind, TokenStream.behind,
      TokenStream.behind, List.append_assoc]

/-- A piece behind one that nothing goes on in. -/
theorem next (ha : Lexes Anything a ws) (hb : Lexes G b vs) : Lexes G (a ++ b) (ws ++ vs) :=
  ha.append hb fun _ _ => trivial

/-- A piece behind a name or number, which does not go on in it. -/
theorem next_apart (ha : Lexes Apart a ws) (hb : Lexes G b vs)
    (h : starts (!isNameChar ·) b = true) : Lexes G (a ++ b) (ws ++ vs) := by
  refine ha.append hb fun rest _ => ?_
  unfold starts at h
  cases hcs : b.toList with
  | nil => rw [hcs] at h; cases h
  | cons c cs =>
    intro d hd
    cases hd
    rw [hcs] at h
    simpa using h

theorem empty : Lexes F "" [] := by
  intro p rest t _ ht
  exact ⟨[], rfl, ht⟩

/-- A piece that spells a token. -/
theorem of_spelling {k : TokenKind} {text : String}
    (h : ∀ rest, F rest → Spelling k text a.toList rest) : Lexes F a [(k, text)] := by
  intro p rest t hrest ht
  exact ⟨[⟨k, text, p⟩], rfl, (h rest hrest).lexFrom ht⟩

end Lexes

/-! ## Single words -/

theorem lexes_blank {F : List Char → Prop} : Lexes F " " [] := by
  intro p rest t _ ht
  exact ⟨[], rfl, lexFrom_cons_ok (l := .gap [' '] rest) rfl ht⟩

/-- A mark of one character, in front of what makes no pair with it. -/
theorem lexes_symbol {F : List Char → Prop} {text : String} {c : Char} {k : TokenKind}
    (htext : text.toList = [c]) (hk : TokenKind.single? c = some k)
    (hpair : ∀ rest, F rest → ∀ d ∈ rest.head?, TokenKind.pair? c d = none) :
    Lexes F text [(k, text)] := by
  refine .of_spelling fun rest hrest => ?_
  have hspelling := Spelling.single hk (hpair rest hrest)
  rwa [← htext, String.ofList_toList] at hspelling

/-- A mark of two characters. -/
theorem lexes_pair {F : List Char → Prop} {text : String} {c d : Char} {k : TokenKind}
    (htext : text.toList = [c, d]) (hk : TokenKind.pair? c d = some k) :
    Lexes F text [(k, text)] := by
  refine .of_spelling fun rest _ => ?_
  have hspelling := Spelling.pair rest hk
  rwa [← htext, String.ofList_toList] at hspelling

/-- A name or keyword. -/
theorem lexes_word {a : String} {c : Char} {cs : List Char} (ha : a.toList = c :: cs)
    (hc : isNameStart c = true) (hcs : cs.all isNameChar = true) :
    Lexes Apart a [(wordKind a.toList, a)] := by
  refine .of_spelling fun rest hrest => ?_
  have hword : WholeWord a.toList rest := by
    rw [ha]
    exact ⟨⟨c, rfl, hc⟩, List.all_eq_true.1 hcs, hrest⟩
  have hspelling := hword.spelling
  rwa [String.ofList_toList] at hspelling

/-- A keyword. -/
theorem lexes_keyword {a : String} {k : TokenKind} (h : TokenKind.keyword? a = some k) :
    Lexes Apart a [(k, a)] := by
  unfold TokenKind.keyword? at h
  split at h <;> cases h <;> exact lexes_word rfl (by decide) (by decide)

/-- A number is written in digits, in front of what does not go on with it. -/
theorem wholeDigits_repr (n : Nat) {rest : List Char} (hrest : Apart rest) :
    WholeDigits (Nat.repr n).toList rest where
  ne_nil := by
    rw [Nat.toList_repr]
    exact Nat.toDigits_ne_nil
  digits := by
    intro c hc
    rw [Nat.toList_repr] at hc
    exact Nat.isDigit_of_mem_toDigits (by decide) (by decide) hc
  whole := by
    intro c hc
    rw [← Bool.not_eq_true]
    intro hdigit
    have hname := hrest c hc
    rw [isNameChar_of_digit hdigit] at hname
    cases hname

/-- The digits of a number. -/
theorem lexes_digits {n : Nat} (hn : (n : Int) ≤ maxNumber) :
    Lexes Apart (Nat.repr n) [(.int, Nat.repr n)] := by
  have hvalue : ofDigits (Nat.repr n).toList = n := by
    rw [Nat.toList_repr]
    exact Nat.ofDigitChars_toDigits (by decide) (by decide)
  refine .of_spelling fun rest hrest => ?_
  have hspelling := Spelling.number (wholeDigits_repr n hrest) (by rwa [hvalue])
  rwa [String.ofList_toList] at hspelling

/-- Between quotes the characters `raw` stand for `c`: they are `c` itself or an escape. -/
def Denotes (raw : List Char) (c : Char) : Prop :=
  (raw = [c] ∧ c ≠ '"' ∧ c ≠ '\\') ∨ ∃ e, raw = ['\\', e] ∧ unescape? e = some c

/-- The characters between the quotes stand for those of the string if each stands for its own. -/
theorem unescaped?_flatMap {write : Char → List Char} {cs : List Char}
    (h : ∀ c ∈ cs, Denotes (write c) c) : unescaped? (cs.flatMap write) = some cs := by
  induction cs with
  | nil => rfl
  | cons c cs ih =>
    have ih := ih fun d hd => h d (List.mem_cons_of_mem c hd)
    rw [List.flatMap_cons]
    rcases h c List.mem_cons_self with ⟨hplain, hquote, hslash⟩ | ⟨e, he, hc⟩
    · rw [hplain]
      unfold unescaped?
      simp [hquote, hslash, ih]
    · rw [he]
      simp [unescaped?, hc, ih]

/-- A string each of whose characters is written as what stands for it. -/
theorem lexes_denoted {write : Char → List Char} {s : String}
    (h : ∀ c ∈ s.toList, Denotes (write c) c) :
    Lexes Anything (String.ofList ('"' :: (s.toList.flatMap write ++ ['"']))) [(.str, s)] := by
  refine .of_spelling fun rest _ => ?_
  have hspelling := Spelling.string rest (unescaped?_flatMap h)
  rw [String.ofList_toList] at hspelling
  rwa [String.toList_ofList]

theorem printChar_denotes (c : Char) : Denotes (printChar c) c := by
  unfold printChar
  by_cases hquote : c = '"'
  · subst hquote
    exact .inr ⟨'"', rfl, rfl⟩
  by_cases hslash : c = '\\'
  · subst hslash
    exact .inr ⟨'\\', rfl, rfl⟩
  rw [if_neg hquote, if_neg hslash]
  exact .inl ⟨rfl, hquote, hslash⟩

theorem lexes_string (s : String) : Lexes Anything (printString s) [(.str, s)] :=
  lexes_denoted fun c _ => printChar_denotes c

/-- Nothing makes a pair with a blank. -/
theorem pair?_blank (c : Char) : TokenKind.pair? c ' ' = none := by
  unfold TokenKind.pair?
  split <;> simp_all

/-- A mark of one character and a blank. -/
theorem lexes_symbol_blank {F : List Char → Prop} {a : String} {c : Char} {k : TokenKind}
    (ha : a.toList = [c]) (hk : TokenKind.single? c = some k) : Lexes F (a ++ " ") [(k, a)] := by
  have hsymbol : Lexes (fun rest => rest.head? = some ' ') a [(k, a)] := by
    refine lexes_symbol ha hk fun rest hrest d hd => ?_
    rw [hrest] at hd
    cases hd
    exact pair?_blank c
  exact hsymbol.append lexes_blank fun _ _ => rfl

/-- A mark of one character that starts no pair. -/
theorem lexes_mark {F : List Char → Prop} {text : String} {c : Char} {k : TokenKind}
    (htext : text.toList = [c]) (hk : TokenKind.single? c = some k)
    (hpair : ∀ d, TokenKind.pair? c d = none) : Lexes F text [(k, text)] :=
  lexes_symbol htext hk fun _ _ d _ => hpair d

theorem lexes_lparen {F : List Char → Prop} : Lexes F "(" [(.lparen, "(")] :=
  lexes_mark rfl rfl fun _ => rfl

theorem lexes_rparen {F : List Char → Prop} : Lexes F ")" [(.rparen, ")")] :=
  lexes_mark rfl rfl fun _ => rfl

theorem lexes_lbrack {F : List Char → Prop} : Lexes F "[" [(.lbrack, "[")] :=
  lexes_mark rfl rfl fun _ => rfl

theorem lexes_rbrack {F : List Char → Prop} : Lexes F "]" [(.rbrack, "]")] :=
  lexes_mark rfl rfl fun _ => rfl

theorem lexes_minus {F : List Char → Prop} : Lexes F "-" [(.minus, "-")] :=
  lexes_mark rfl rfl fun _ => rfl

theorem lexes_comma {F : List Char → Prop} : Lexes F ", " [(.comma, ",")] :=
  lexes_symbol_blank (a := ",") rfl rfl

theorem lexes_operator (op : BinaryOp) : Lexes Anything (" " ++ op.symbol ++ " ") [op.word] := by
  rw [String.append_assoc]
  refine lexes_blank.next ?_
  cases op with
  | add => exact lexes_symbol_blank rfl rfl
  | sub => exact lexes_symbol_blank rfl rfl
  | mul => exact lexes_symbol_blank rfl rfl
  | div => exact lexes_symbol_blank rfl rfl
  | rem => exact lexes_symbol_blank rfl rfl
  | lt => exact lexes_symbol_blank rfl rfl
  | gt => exact lexes_symbol_blank rfl rfl
  | eq => exact (lexes_pair rfl rfl).next lexes_blank
  | ne => exact (lexes_pair rfl rfl).next lexes_blank
  | le => exact (lexes_pair rfl rfl).next lexes_blank
  | ge => exact (lexes_pair rfl rfl).next lexes_blank
  | and => exact (lexes_pair rfl rfl).next lexes_blank
  | or => exact (lexes_pair rfl rfl).next lexes_blank

theorem lexes_isName {name : String} (h : isName name = true) :
    Lexes Apart name [(.ident, name)] := by
  unfold isName at h
  split at h
  · cases h
  rename_i c cs hcs
  simp only [Bool.and_eq_true, Option.isNone_iff_eq_none] at h
  have hkind : wordKind name.toList = .ident := by
    rw [wordKind, String.ofList_toList, h.2]
    rfl
  rw [← hkind]
  exact lexes_word hcs h.1.1 h.1.2

theorem lexes_number {n : Number} (h : minNumber < n.toInt) :
    Lexes Apart n.render (numberWords n) := by
  obtain ⟨n, hmin, hmax⟩ := n
  change minNumber < n at h
  have hrange : (n.natAbs : Int) ≤ maxNumber := by
    unfold maxNumber at hmax ⊢
    unfold minNumber at h
    omega
  unfold Number.render numberWords
  cases n with
  | ofNat m => exact lexes_digits hrange
  | negSucc m =>
    rw [if_pos (Int.negSucc_lt_zero m)]
    exact lexes_minus.next (lexes_digits hrange)

/-! ## The words of a text -/

theorem wrap_lexes {text : String} {ws : List Word} (h : Lexes Apart text ws) (b : Bool) :
    Lexes Apart (wrap b text) (wrapWords b ws) := by
  cases b with
  | false => exact h
  | true => exact (lexes_lparen.next h).next_apart lexes_rparen (by decide)

theorem starts_wrap {q : Char → Bool} (hq : q '(' = true) {text : String}
    (h : starts q text = true) (b : Bool) : starts q (wrap b text) = true := by
  cases b with
  | false => exact h
  | true =>
    have hopen : starts q "(" = true := hq
    exact starts_append (starts_append hopen text) ")"

theorem starts_of_isName {q : Char → Bool} (hq : ∀ c, isNameStart c = true → q c = true)
    {name : String} (h : isName name = true) : starts q name = true := by
  unfold isName at h
  unfold starts
  cases hcs : name.toList with
  | nil => rw [hcs] at h; cases h
  | cons c cs =>
    rw [hcs] at h
    simp only [Bool.and_eq_true] at h
    exact hq c h.1.1

/-- A number starts with a digit or a minus. -/
theorem starts_render (n : Number) : starts (· ≠ '=') n.render = true := by
  obtain ⟨n, hmin, hmax⟩ := n
  cases n with
  | ofNat n =>
    have hdigits : WholeDigits (Nat.repr n).toList [] := wholeDigits_repr n fun _ hc => nomatch hc
    change (Nat.repr n).toList.head?.any (· ≠ '=') = true
    cases hcs : (Nat.repr n).toList with
    | nil => exact absurd hcs hdigits.ne_nil
    | cons c cs =>
      refine decide_eq_true ?_
      rintro rfl
      rw [hcs] at hdigits
      exact absurd (hdigits.digits '=' List.mem_cons_self) (by decide)
  | negSucc n =>
    have hminus : starts (· ≠ '=') "-" = true := by decide
    exact starts_append hminus _

/-- An expression does not start with `=`, which would make a pair with `!`. -/
theorem Expr.starts_print : ∀ {e : Expr}, e.writable = true → starts (· ≠ '=') e.print = true
  | .nil, _ => by decide
  | .bool true, _ => by decide
  | .bool false, _ => by decide
  | .int n, _ => starts_render n
  | .str s, _ => by
    rw [Expr.print, printString, starts, String.toList_ofList]
    rfl
  | .receiver, _ => by decide
  | .var name _, h => starts_of_isName isNameStart_ne h
  | .list items, _ => starts_append (starts_append (by decide) _) _
  | .unary .neg e, _ => starts_append (by decide) _
  | .unary .not e, _ => starts_append (by decide) _
  | .binary op l r, h => by
    simp only [Expr.writable, Bool.and_eq_true] at h
    have hl := starts_wrap rfl (Expr.starts_print h.1) (l.wrapsLeft op)
    exact starts_append (starts_append hl _) _
  | .index t i, h => by
    simp only [Expr.writable, Bool.and_eq_true] at h
    have ht := starts_wrap rfl (Expr.starts_print h.1) t.wrapsTarget
    exact starts_append (starts_append (starts_append ht _) _) _
  | .call name args, h => by
    simp only [Expr.writable, Bool.and_eq_true] at h
    have hname := starts_of_isName isNameStart_ne h.1
    exact starts_append (starts_append (starts_append hname _) _) _
  | .block body, _ => starts_append (starts_append (by decide) _) _
  | .cond t yes none, _ =>
    starts_append (starts_append (starts_append (starts_append (by decide) _) _) _) _
  | .cond t yes (some no), _ =>
    starts_append (starts_append (starts_append (starts_append
      (starts_append (starts_append (by decide) _) _) _) _) _) _
  | .loop t body, _ =>
    starts_append (starts_append (starts_append (starts_append (by decide) _) _) _) _
where
  isNameStart_ne (c : Char) (h : isNameStart c = true) : (decide (c ≠ '=')) = true := by
    rw [decide_eq_true_eq]
    rintro rfl
    exact absurd h (by decide)

/-- The text of a body starts with a blank. -/
theorem Stmt.starts_printBody {q : Char → Bool} (hq : q ' ' = true) (body : List Stmt) :
    starts q (Stmt.printBody body) = true := by
  have hblank : starts q " " = true := hq
  cases body with
  | nil => exact hblank
  | cons s ss => exact starts_append (starts_append (starts_append hblank _) _) _

/-- An operator and its operand, which makes no pair with it. -/
theorem lexes_unary (op : UnaryOp) {text : String} {ws : List Word} (h : Lexes Apart text ws)
    (hstarts : starts (· ≠ '=') text = true) :
    Lexes Apart (op.symbol ++ text) ([op.word] ++ ws) := by
  cases op with
  | neg => exact lexes_minus.next h
  | not =>
    have hbang : Lexes (fun rest => ∀ c ∈ rest.head?, c ≠ '=') "!" [(.bang, "!")] := by
      refine lexes_symbol (c := '!') rfl rfl fun rest hrest d hd => ?_
      have hne := hrest d hd
      unfold TokenKind.pair?
      split <;> simp_all
    refine hbang.append h fun rest _ => ?_
    unfold starts at hstarts
    cases hcs : text.toList with
    | nil => rw [hcs] at hstarts; cases hstarts
    | cons c cs =>
      intro d hd
      cases hd
      rw [hcs] at hstarts
      simpa using hstarts

theorem lexes_equal {F : List Char → Prop} : Lexes F " = " [(.equal, "=")] :=
  Lexes.next (a := " ") lexes_blank (lexes_symbol_blank (a := "=") rfl rfl)

/-- A keyword and a blank behind it. -/
theorem lexes_word_blank {F : List Char → Prop} {a : String} {k : TokenKind}
    (h : Lexes Apart a [(k, a)]) : Lexes F (a ++ " ") [(k, a)] :=
  h.next_apart lexes_blank (by decide)

mutual

/-- The text of an expression has its words. -/
theorem Expr.lexes : ∀ {e : Expr}, e.writable = true → Lexes Apart e.print e.words
  | .nil, _ => lexes_keyword rfl
  | .bool true, _ => lexes_keyword rfl
  | .bool false, _ => lexes_keyword rfl
  | .int n, h => lexes_number (of_decide_eq_true h)
  | .str s, _ => (lexes_string s).mono fun _ _ => trivial
  | .receiver, _ => lexes_keyword rfl
  | .var name _, h => lexes_isName h
  | .list items, h => by
    rw [Expr.print, Expr.words]
    exact (lexes_lbrack.next (Expr.lexes_items h)).next_apart lexes_rbrack (by decide)
  | .unary op e, h => by
    simp only [Expr.writable, Bool.and_eq_true] at h
    rw [Expr.print, Expr.words]
    have he := wrap_lexes (Expr.lexes h.2) e.wrapsOperand
    have hstarts := starts_wrap rfl (Expr.starts_print h.2) e.wrapsOperand
    exact lexes_unary op he hstarts
  | .binary op l r, h => by
    simp only [Expr.writable, Bool.and_eq_true] at h
    rw [Expr.print, Expr.words]
    have hl := wrap_lexes (Expr.lexes h.1) (l.wrapsLeft op)
    have hr := wrap_lexes (Expr.lexes h.2) (r.wrapsRight op)
    have hstarts : starts (!isNameChar ·) (" " ++ op.symbol ++ " ") = true :=
      starts_append (starts_append (by decide) _) _
    exact (hl.next_apart (lexes_operator op) hstarts).next hr
  | .index t i, h => by
    simp only [Expr.writable, Bool.and_eq_true] at h
    rw [Expr.print, Expr.words]
    have ht := wrap_lexes (Expr.lexes h.1) t.wrapsTarget
    have hopened := (ht.next_apart lexes_lbrack (by decide)).next (Expr.lexes h.2)
    exact hopened.next_apart lexes_rbrack (by decide)
  | .call name args, h => by
    simp only [Expr.writable, Bool.and_eq_true] at h
    rw [Expr.print, Expr.words]
    exact (((lexes_isName h.1).next_apart lexes_lparen (by decide)).next
      (Expr.lexes_items h.2)).next_apart lexes_rparen (by decide)
  | .block body, h => by
    rw [Expr.print, Expr.words]
    have hdo : Lexes Apart "do" [(.kwDo, "do")] := lexes_keyword rfl
    have hend : Lexes Apart "end" [(.kwEnd, "end")] := lexes_keyword rfl
    exact (hdo.next_apart (Stmt.lexes_body h) (Stmt.starts_printBody rfl body)).next hend
  | .cond t yes none, h => by
    simp only [Expr.writable, Bool.and_eq_true] at h
    rw [Expr.print, Expr.words]
    have hif : Lexes Anything "if " [(.kwIf, "if")] :=
      lexes_word_blank (lexes_keyword (a := "if") rfl)
    have hthen : Lexes Apart " then" [(.kwThen, "then")] :=
      Lexes.next (a := " ") lexes_blank (lexes_keyword (a := "then") rfl)
    have hend : Lexes Apart "end" [(.kwEnd, "end")] := lexes_keyword rfl
    have htest := (hif.next (Expr.lexes h.1)).next_apart hthen (by decide)
    exact (htest.next_apart (Stmt.lexes_body h.2) (Stmt.starts_printBody rfl yes)).next hend
  | .cond t yes (some no), h => by
    simp only [Expr.writable, Bool.and_eq_true] at h
    rw [Expr.print, Expr.words]
    have hif : Lexes Anything "if " [(.kwIf, "if")] :=
      lexes_word_blank (lexes_keyword (a := "if") rfl)
    have hthen : Lexes Apart " then" [(.kwThen, "then")] :=
      Lexes.next (a := " ") lexes_blank (lexes_keyword (a := "then") rfl)
    have helse : Lexes Apart "else" [(.kwElse, "else")] := lexes_keyword rfl
    have hend : Lexes Apart "end" [(.kwEnd, "end")] := lexes_keyword rfl
    have htest := (hif.next (Expr.lexes h.1.1)).next_apart hthen (by decide)
    have hyes := htest.next_apart (Stmt.lexes_body h.1.2) (Stmt.starts_printBody rfl yes)
    have hno := (hyes.next helse).next_apart (Stmt.lexes_body h.2) (Stmt.starts_printBody rfl no)
    exact hno.next hend
  | .loop t body, h => by
    simp only [Expr.writable, Bool.and_eq_true] at h
    rw [Expr.print, Expr.words]
    have hwhile : Lexes Anything "while " [(.kwWhile, "while")] :=
      lexes_word_blank (lexes_keyword (a := "while") rfl)
    have hdo : Lexes Apart " do" [(.kwDo, "do")] :=
      Lexes.next (a := " ") lexes_blank (lexes_keyword (a := "do") rfl)
    have hend : Lexes Apart "end" [(.kwEnd, "end")] := lexes_keyword rfl
    have htest := (hwhile.next (Expr.lexes h.1)).next_apart hdo (by decide)
    exact (htest.next_apart (Stmt.lexes_body h.2) (Stmt.starts_printBody rfl body)).next hend

theorem Expr.lexes_items : ∀ {es : List Expr}, Expr.writableAll es = true →
    Lexes Apart (Expr.printItems es) (Expr.itemWords es)
  | [], _ => .empty
  | e :: es, h => by
    simp only [Expr.writableAll, Bool.and_eq_true] at h
    rw [Expr.printItems, Expr.itemWords]
    exact Expr.lexes_more h.2 (Expr.lexes h.1)

/-- Items behind others, which are read the same way. -/
theorem Expr.lexes_more : ∀ {es : List Expr}, Expr.writableAll es = true →
    ∀ {text : String} {ws : List Word}, Lexes Apart text ws →
      Lexes Apart (text ++ Expr.printMore es) (ws ++ Expr.moreWords es)
  | [], _, text, ws, htext => by
    rw [Expr.printMore, Expr.moreWords, String.append_empty, List.append_nil]
    exact htext
  | e :: es, h, text, ws, htext => by
    simp only [Expr.writableAll, Bool.and_eq_true] at h
    rw [Expr.printMore, Expr.moreWords, ← String.append_assoc, ← List.append_assoc]
    rw [← String.append_assoc, ← List.append_assoc]
    exact Expr.lexes_more h.2 ((htext.next_apart lexes_comma (by decide)).next (Expr.lexes h.1))

theorem Stmt.lexes : ∀ {s : Stmt}, s.writable = true → Lexes Apart s.print s.words
  | .define name e, h => by
    simp only [Stmt.writable, Bool.and_eq_true] at h
    rw [Stmt.print, Stmt.words]
    have hlet : Lexes Anything "let " [(.kwLet, "let")] :=
      lexes_word_blank (lexes_keyword (a := "let") rfl)
    exact ((hlet.next (lexes_isName h.1)).next_apart lexes_equal (by decide)).next (Expr.lexes h.2)
  | .assign name e, h => by
    simp only [Stmt.writable, Bool.and_eq_true] at h
    rw [Stmt.print, Stmt.words]
    exact ((lexes_isName h.1).next_apart lexes_equal (by decide)).next (Expr.lexes h.2)
  | .expr e, h => Expr.lexes (e := e) h

/-- Statements behind others. -/
theorem Stmt.lexes_more : ∀ {ss : List Stmt}, Stmt.writableAll ss = true →
    ∀ {text : String} {ws : List Word}, Lexes Apart text ws →
      Lexes Apart (text ++ Stmt.printMore ss) (ws ++ Stmt.moreWords ss)
  | [], _, text, ws, htext => by
    rw [Stmt.printMore, Stmt.moreWords, String.append_empty, List.append_nil]
    exact htext
  | s :: ss, h, text, ws, htext => by
    simp only [Stmt.writableAll, Bool.and_eq_true] at h
    rw [Stmt.printMore, Stmt.moreWords, ← String.append_assoc, ← List.append_assoc,
      ← String.append_assoc, ← List.append_assoc]
    have hsemi : Lexes Anything "; " [(.semi, ";")] :=
      lexes_symbol_blank (a := ";") rfl rfl
    exact Stmt.lexes_more h.2 ((htext.next_apart hsemi (by decide)).next (Stmt.lexes h.1))

theorem Stmt.lexes_body : ∀ {body : List Stmt}, Stmt.writableAll body = true →
    Lexes Anything (Stmt.printBody body) (Stmt.bodyWords body)
  | [], _ => lexes_blank
  | s :: ss, h => by
    simp only [Stmt.writableAll, Bool.and_eq_true] at h
    rw [Stmt.printBody, Stmt.bodyWords]
    have hfirst : Lexes Apart (" " ++ s.print) s.words := lexes_blank.next (Stmt.lexes h.1)
    have hall := (Stmt.lexes_more h.2 hfirst).next_apart (lexes_blank (F := Anything)) (by decide)
    rwa [List.append_nil] at hall

end

/-- The words of a piece are those of a source that is the piece. -/
theorem Lexes.lex {text : String} {ws : List Word} (h : Lexes Apart text ws) :
    ∃ s, lex text = .ok s ∧ words s.tokens = ws := by
  have hend : lexFrom (Position.start.after text.toList) [] =
      .ok ⟨[], Position.start.after text.toList⟩ := lexFrom_nil _
  obtain ⟨ts, hts, hlex⟩ := h .start [] _ (fun c hc => by cases hc) hend
  rw [List.append_nil] at hlex
  refine ⟨_, lex_of_lexFrom hlex, ?_⟩
  rw [TokenStream.behind, List.append_nil, hts]

/-- The words of the text of a program are those of the program. -/
theorem lex_print {p : Program} (h : Stmt.writableAll p = true) :
    ∃ s, lex p.print = .ok s ∧ words s.tokens = Stmt.bodyWords p := by
  have hlexes : Lexes Apart p.print (Stmt.bodyWords p) := by
    cases p with
    | nil => exact .empty
    | cons s ss =>
      simp only [Stmt.writableAll, Bool.and_eq_true] at h
      exact Stmt.lexes_more h.2 (Stmt.lexes h.1)
  exact hlexes.lex

end CalcShell.Calc
