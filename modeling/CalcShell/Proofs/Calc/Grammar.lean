import Mathlib
import CalcShell.Proofs.Calc.Lexemes
import CalcShell.Proofs.Calc.Progress

/-!
# The grammar

The language as a grammar over tokens, stated apart from the parser: `Grammar.Program ts p` says
that the tokens `ts`, the end of the source among them, derive the program `p`. A derivation fixes
the tree. Parentheses leave no trace in it, a minus in front of the tree of a number is part of the
number, and a variable keeps the offset of the token that names it.

The parser accepts nothing else (`parseProgram_derives`). Each of its functions takes tokens that
derive its result if the parsers of the inner expressions do (`Spells`), so that expressions do so
at every depth.
-/

namespace CalcShell.Calc

/-- The levels of binding of the operators with two operands, from the loosest to the tightest. -/
inductive Tier where
  | or
  | and
  | comparison
  | additive
  | multiplicative
deriving DecidableEq, Repr

/-- The next tighter level. Behind the tightest one come operands without such operators. -/
def Tier.tighter : Tier → Option Tier
  | .or => some .and
  | .and => some .comparison
  | .comparison => some .additive
  | .additive => some .multiplicative
  | .multiplicative => none

/-- The level of an operator. -/
def BinaryOp.tier : BinaryOp → Tier
  | .or => .or
  | .and => .and
  | .eq | .ne | .lt | .le | .gt | .ge => .comparison
  | .add | .sub => .additive
  | .mul | .div | .rem => .multiplicative

/-- The token of an operator with two operands. -/
def BinaryOp.kind : BinaryOp → TokenKind
  | .add => .plus
  | .sub => .minus
  | .mul => .star
  | .div => .slash
  | .rem => .percent
  | .eq => .equalEqual
  | .ne => .notEqual
  | .lt => .less
  | .le => .lessEqual
  | .gt => .greater
  | .ge => .greaterEqual
  | .and => .andAnd
  | .or => .orOr

/-- The token of an operator with one operand. -/
def UnaryOp.kind : UnaryOp → TokenKind
  | .neg => .minus
  | .not => .bang

namespace Grammar

/-- Line ends, which may be none. -/
def Newlines (ts : List Token) : Prop := ∀ t ∈ ts, t.kind = .newline

/-- Line ends and semicolons, which may be none. -/
def Separators (ts : List Token) : Prop := ∀ t ∈ ts, t.kind = .newline ∨ t.kind = .semi

mutual

/-- Tokens that derive an expression whose operators with two operands, where they are not inside of
something else, are of the level or tighter. -/
inductive Binary : Option Tier → List Token → Expr → Prop where
  | unary {ts e} : Unary ts e → Binary none ts e
  | operand {tier ts e} : Binary (Tier.tighter tier) ts e → Binary (some tier) ts e
  /-- Operators of one level follow one another, and the first one binds first. -/
  | chain {ls l o ns rs r} {op : BinaryOp} : op.tier ≠ .comparison → Binary (some op.tier) ls l →
      o.kind = op.kind → Newlines ns → Binary op.tier.tighter rs r →
      Binary (some op.tier) (ls ++ o :: (ns ++ rs)) (.binary op l r)
  /-- Of comparisons only one may stand. -/
  | compare {ls l o ns rs r} {op : BinaryOp} : op.tier = .comparison →
      Binary op.tier.tighter ls l → o.kind = op.kind → Newlines ns → Binary op.tier.tighter rs r →
      Binary (some op.tier) (ls ++ o :: (ns ++ rs)) (.binary op l r)

/-- Tokens that derive operators with one operand in front of an expression without operators. -/
inductive Unary : List Token → Expr → Prop where
  | operand {ts e} : Indexed ts e → Unary ts e
  /-- A minus in front of the tree of a number. -/
  | negative {o ts n m} : o.kind = .minus → Unary ts (.int n) → m.toInt = -n.toInt →
      Unary (o :: ts) (.int m)
  | operator {o ts e} {op : UnaryOp} : o.kind = op.kind → Unary ts e →
      (op = .neg → ∀ n, e ≠ .int n) → Unary (o :: ts) (.unary op e)

/-- Tokens that derive an expression without operators and the indexes behind it. -/
inductive Indexed : List Token → Expr → Prop where
  | primary {ts e} : Primary ts e → Indexed ts e
  | index {ts e o ns us i ns' c} : Indexed ts e → o.kind = .lbrack → Newlines ns →
      Binary (some .or) us i → Newlines ns' → c.kind = .rbrack →
      Indexed (ts ++ o :: (ns ++ us ++ ns' ++ [c])) (.index e i)

/-- Tokens that derive an expression without operators. -/
inductive Primary : List Token → Expr → Prop where
  | int {t n} : t.kind = .int → Number.ofDigits? t.text.toList = some n → Primary [t] (.int n)
  | str {t} : t.kind = .str → Primary [t] (.str t.text)
  | true {t} : t.kind = .kwTrue → Primary [t] (.bool true)
  | false {t} : t.kind = .kwFalse → Primary [t] (.bool false)
  | nil {t} : t.kind = .kwNil → Primary [t] .nil
  | receiver {t} : t.kind = .kwSelf → Primary [t] .receiver
  | var {t} : t.kind = .ident → Primary [t] (.var t.text t.position.offset)
  | call {t o ts es c} : t.kind = .ident → o.kind = .lparen → Items ts es → c.kind = .rparen →
      Primary (t :: o :: (ts ++ [c])) (.call t.text es)
  | parens {o ns ts e ns' c} : o.kind = .lparen → Newlines ns → Binary (some .or) ts e →
      Newlines ns' → c.kind = .rparen → Primary (o :: (ns ++ ts ++ ns' ++ [c])) e
  | list {o ts es c} : o.kind = .lbrack → Items ts es → c.kind = .rbrack →
      Primary (o :: (ts ++ [c])) (.list es)
  | block {d ts body c} : d.kind = .kwDo → Block ts body → c.kind = .kwEnd →
      Primary (d :: (ts ++ [c])) (.block body)
  | cond {i ts test ns th us yes c} : i.kind = .kwIf → Binary (some .or) ts test → Newlines ns →
      th.kind = .kwThen → Block us yes → c.kind = .kwEnd →
      Primary (i :: (ts ++ ns ++ th :: (us ++ [c]))) (.cond test yes none)
  | condElse {i ts test ns th us yes el vs no c} : i.kind = .kwIf → Binary (some .or) ts test →
      Newlines ns → th.kind = .kwThen → Block us yes → el.kind = .kwElse → Block vs no →
      c.kind = .kwEnd →
      Primary (i :: (ts ++ ns ++ th :: (us ++ el :: (vs ++ [c])))) (.cond test yes (some no))
  | loop {w ts test ns d us body c} : w.kind = .kwWhile → Binary (some .or) ts test →
      Newlines ns → d.kind = .kwDo → Block us body → c.kind = .kwEnd →
      Primary (w :: (ts ++ ns ++ d :: (us ++ [c]))) (.loop test body)

/-- Tokens that derive expressions with commas between them and line ends around them. A comma may
also stand behind the last one. -/
inductive Items : List Token → List Expr → Prop where
  | none {ns} : Newlines ns → Items ns []
  | last {ns ts e ns'} : Newlines ns → Binary (some .or) ts e → Newlines ns' →
      Items (ns ++ ts ++ ns') [e]
  | more {ns ts e ns' c us es} : Newlines ns → Binary (some .or) ts e → Newlines ns' →
      c.kind = .comma → Items us es → Items (ns ++ ts ++ ns' ++ c :: us) (e :: es)

/-- Tokens that derive a statement. -/
inductive Statement : List Token → Stmt → Prop where
  | define {l t q ns ts e} : l.kind = .kwLet → t.kind = .ident → q.kind = .equal → Newlines ns →
      Binary (some .or) ts e → Statement (l :: t :: q :: (ns ++ ts)) (.define t.text e)
  | assign {t q ns ts e} : t.kind = .ident → q.kind = .equal → Newlines ns →
      Binary (some .or) ts e → Statement (t :: q :: (ns ++ ts)) (.assign t.text e)
  | expr {ts e} : Binary (some .or) ts e → Statement ts (.expr e)

/-- Tokens that derive statements, at least one, with at least one separator between two. -/
inductive Statements : List Token → List Stmt → Prop where
  | one {ts a} : Statement ts a → Statements ts [a]
  | cons {ts a ss us body} : Statement ts a → Separators ss → ss ≠ [] → Statements us body →
      Statements (ts ++ ss ++ us) (a :: body)

/-- Tokens that derive the statements of a block, which may be none, with separators around them. -/
inductive Block : List Token → List Stmt → Prop where
  | empty {ss} : Separators ss → Block ss []
  | body {ss ts body ss'} : Separators ss → Statements ts body → Separators ss' →
      Block (ss ++ ts ++ ss') body

end

/-- Tokens that derive a program: a block and the end of the source. -/
inductive Program : List Token → List Stmt → Prop where
  | block {ts p eof} : Block ts p → eof.kind = .eof → Program (ts ++ [eof]) p

/-! ## Numbers

No token is the least number, and a minus in front of another number does not give it. So a minus in
front of the tree of a number always has a number to give. -/

/-- If the expression is a number, it is above the least one. -/
def AboveLeast : Expr → Prop
  | .int n => minNumber < n.toInt
  | _ => True

mutual

theorem Binary.aboveLeast : ∀ {tier ts e}, Binary tier ts e → AboveLeast e
  | _, _, _, .unary h => h.aboveLeast
  | _, _, _, .operand h => h.aboveLeast
  | _, _, _, .chain .. => trivial
  | _, _, _, .compare .. => trivial

theorem Unary.aboveLeast : ∀ {ts e}, Unary ts e → AboveLeast e
  | _, _, .operand h => h.aboveLeast
  | _, _, .negative (n := n) _ _ hm => by
    have hmax := n.le_max
    unfold maxNumber at hmax
    unfold AboveLeast minNumber
    omega
  | _, _, .operator .. => trivial

theorem Indexed.aboveLeast : ∀ {ts e}, Indexed ts e → AboveLeast e
  | _, _, .primary h => h.aboveLeast
  | _, _, .index .. => trivial

theorem Primary.aboveLeast : ∀ {ts e}, Primary ts e → AboveLeast e
  | _, _, .int _ hdigits => by
    have hn := Number.ofInt?_eq_some.1 hdigits
    rw [Int.ofNat_eq_natCast] at hn
    unfold AboveLeast minNumber
    omega
  | _, _, .parens _ _ h _ _ => h.aboveLeast
  | _, _, .str .. | _, _, .true .. | _, _, .false .. | _, _, .nil .. | _, _, .receiver .. => trivial
  | _, _, .var .. | _, _, .call .. | _, _, .list .. | _, _, .block .. => trivial
  | _, _, .cond .. | _, _, .condElse .. | _, _, .loop .. => trivial

end

end Grammar

/-! ## Taking derivable tokens -/

/-- Where `p` accepts the stream `s`, it takes tokens from the front that derive its result, in the
sense of `G`, and leaves the others. -/
def Spells {α : Type} (G : List Token → α → Prop) (p : Parser α) (s : TokenStream) : Prop :=
  ∀ a t, p s = .ok (a, t) → t.stop = s.stop ∧ ∃ used, s.tokens = used ++ t.tokens ∧ G used a

namespace Spells

open Calc.Parser Grammar

variable {α β : Type} {G : List Token → α → Prop} {s : TokenStream}

theorem pure {a : α} (h : G [] a) : Spells G (Pure.pure a) s := by
  intro b t hp
  cases hp
  exact ⟨rfl, [], rfl, h⟩

theorem of_error {p : Parser α} {err : SourceError} (h : p s = .error err) : Spells G p s := by
  intro a t hp
  rw [h] at hp
  cases hp

theorem unexpected {expected : Expected} : Spells G (Parser.unexpected expected) s :=
  of_error rfl

/-- A parser that does what another one does. -/
theorem of_eq {p q : Parser α} (h : Spells G q s) (heq : p s = q s) : Spells G p s := by
  intro a t hp
  exact h a t (heq ▸ hp)

/-- Tokens taken by one parser, and then by the other. -/
theorem bind {H : List Token → β → Prop} {p : Parser α} {f : α → Parser β} (h : Spells G p s)
    (hf : ∀ used a t, G used a → Spells (fun us b => H (used ++ us) b) (f a) t) :
    Spells H (p >>= f) s := by
  intro b u hb
  obtain ⟨a, t, hp, hfa⟩ := bind_ok hb
  obtain ⟨hstop, used, hused, ha⟩ := h a t hp
  obtain ⟨hstop', us, hus, hb'⟩ := hf used a t ha b u hfa
  exact ⟨hstop'.trans hstop, used ++ us, by rw [hused, hus, List.append_assoc], hb'⟩

/-- The result of a parser, put into a larger tree. -/
theorem map {H : List Token → β → Prop} {p : Parser α} {f : α → β} (h : Spells G p s)
    (hf : ∀ used a, G used a → H used (f a)) : Spells H (p >>= fun a => Pure.pure (f a)) s := by
  refine h.bind fun used a t ha => .pure ?_
  rw [List.append_nil]
  exact hf used a ha

theorem peek {f : Token → Parser α} (h : Spells G (f s.peek) s) :
    Spells G (Parser.peek >>= f) s := h

theorem peekSecond {f : Token → Parser α} (h : Spells G (f s.advance.peek) s) :
    Spells G (Parser.peekSecond >>= f) s := h

theorem left {f : Nat → Parser α} (h : Spells G (f s.size) s) : Spells G (Parser.left >>= f) s := h

theorem ite {c : Prop} [Decidable c] {p q : Parser α} (hp : c → Spells G p s)
    (hq : ¬c → Spells G q s) : Spells G (if c then p else q) s := by
  by_cases hc : c
  · rw [if_pos hc]
    exact hp hc
  · rw [if_neg hc]
    exact hq hc

/-- Behind the token in front, which is not the end. -/
theorem pop {f : Token → Parser α} (hs : s.peek.kind ≠ .eof)
    (h : Spells (fun us => G (s.peek :: us)) (f s.peek) s.advance) :
    Spells G (Parser.pop >>= f) s := by
  intro a t hp
  obtain ⟨hstop, used, hused, ha⟩ := h a t hp
  cases htokens : s.tokens with
  | nil => exact absurd (Starves.peek_kind htokens) hs
  | cons u us =>
    have hpeek : s.peek = u := by rw [TokenStream.peek, htokens]; rfl
    rw [TokenStream.advance, htokens] at hused
    refine ⟨hstop, s.peek :: used, ?_, ha⟩
    rw [hpeek, show us = used ++ t.tokens from hused, List.cons_append]

theorem skip {kinds : List TokenKind} {p : Parser α}
    (h : ∀ ss, (∀ t ∈ ss, t.kind ∈ kinds) → s.tokens = ss ++ (s.without kinds).tokens →
      Spells (fun us => G (ss ++ us)) p (s.without kinds)) :
    Spells G (Parser.skip kinds >>= fun _ => p) s := by
  have hkinds : ∀ t ∈ s.tokens.takeWhile fun t => kinds.contains t.kind, t.kind ∈ kinds := by
    intro t ht
    have hmem := List.all_eq_true.1 List.all_takeWhile t ht
    rwa [List.contains_iff_mem] at hmem
  have hsplit : s.tokens = (s.tokens.takeWhile fun t => kinds.contains t.kind) ++
      (s.without kinds).tokens := List.takeWhile_append_dropWhile.symm
  intro a t hp
  obtain ⟨hstop, used, hused, ha⟩ := h _ hkinds hsplit a t hp
  exact ⟨hstop, _, by rw [List.append_assoc, ← hused, ← hsplit], ha⟩

theorem skipNewlines {p : Parser α}
    (h : ∀ ns, Newlines ns → ∀ t, Spells (fun us => G (ns ++ us)) p t) :
    Spells G (Parser.skipNewlines >>= fun _ => p) s :=
  skip fun ns hns _ => h ns (fun t ht => List.mem_singleton.1 (hns t ht)) _

theorem expect {kind : TokenKind} (hkind : kind ≠ .eof) {f : Token → Parser α}
    (h : ∀ c : Token, c.kind = kind → ∀ t, Spells (fun us => G (c :: us)) (f c) t) :
    Spells G (Parser.expect kind >>= f) s := by
  by_cases hpeek : s.peek.kind = kind
  · refine (pop (f := f) (hpeek ▸ hkind) (h s.peek hpeek s.advance)).of_eq ?_
    exact bind_of_ok (expect_of_kind hpeek)
  · obtain ⟨err, herr⟩ := expect_of_ne hpeek
    exact of_error (bind_of_error herr)

theorem accept {kind : TokenKind} (hkind : kind ≠ .eof) {f : Bool → Parser α}
    (hyes : ∀ c : Token, c.kind = kind → ∀ t, Spells (fun us => G (c :: us)) (f true) t)
    (hno : Spells G (f false) s) : Spells G (Parser.accept kind >>= f) s := by
  by_cases hpeek : s.peek.kind = kind
  · refine (pop (f := fun _ => f true) (hpeek ▸ hkind) (hyes s.peek hpeek s.advance)).of_eq ?_
    exact bind_of_ok (accept_of_kind hpeek)
  · exact hno.of_eq (bind_of_ok (accept_of_ne hpeek))

/-- The closing token of a construct. -/
theorem close {kind : TokenKind} (hkind : kind ≠ .eof) {a : α}
    (h : ∀ c : Token, c.kind = kind → G [c] a) :
    Spells G (Parser.expect kind >>= fun _ => Pure.pure a) s :=
  expect hkind fun c hc _ => .pure (h c hc)

end Spells

/-! ## Operators with two operands -/

/-- What the parser knows of a level. -/
def Tier.level : Tier → Parser.Level
  | .or => Parser.orLevel
  | .and => Parser.andLevel
  | .comparison => Parser.comparisonLevel
  | .additive => Parser.additiveLevel
  | .multiplicative => Parser.multiplicativeLevel

/-- The operators of a level, by their tokens. -/
theorem Tier.operator?_eq_some {tier : Tier} {k : TokenKind} {op : BinaryOp} :
    tier.level.operator? k = some op ↔ op.tier = tier ∧ op.kind = k := by
  constructor
  · intro h
    cases tier <;> cases k <;> cases h <;> exact ⟨rfl, rfl⟩
  · rintro ⟨rfl, rfl⟩
    cases op <;> rfl

theorem Tier.chains_iff {tier : Tier} : tier.level.chains = true ↔ tier ≠ .comparison := by
  cases tier <;> decide

section Operators

open Calc.Parser Grammar

variable {o : Parser Expr}

/-- Behind an expression of a level that chains, going on with its operators gives an expression of
the level. -/
theorem operators_spells_chain {tier : Tier} (htier : tier ≠ .comparison)
    (ho : ∀ s, Spells (Binary tier.tighter) o s) (m : Nat) {ls : List Token} {l : Expr}
    (hl : Binary (some tier) ls l) (s : TokenStream) :
    Spells (fun us => Binary (some tier) (ls ++ us)) (operators tier.level o m l) s := by
  induction m generalizing ls l s with
  | zero => exact .pure (by rwa [List.append_nil])
  | succ m ih =>
    unfold operators
    refine .peek ?_
    cases hop : tier.level.operator? s.peek.kind with
    | none => exact .pure (by rwa [List.append_nil])
    | some op =>
      obtain ⟨rfl, hkind⟩ := Tier.operator?_eq_some.1 hop
      refine .pop (by rw [← hkind]; cases op <;> decide) (.skipNewlines fun ns hns t => ?_)
      refine (ho t).bind fun rs r u hr => ?_
      rw [if_pos (Tier.chains_iff.2 htier)]
      have hchain := Binary.chain htier hl hkind.symm hns hr
      simpa only [List.append_assoc, List.cons_append] using ih hchain u

/-- Behind an operand of the comparisons, one of them may follow. -/
theorem operators_spells_compare (ho : ∀ s, Spells (Binary (some .additive)) o s) (m : Nat)
    {ls : List Token} {l : Expr} (hl : Binary (some .additive) ls l) (s : TokenStream) :
    Spells (fun us => Binary (some .comparison) (ls ++ us))
      (operators Tier.comparison.level o m l) s := by
  have hnone : Binary (some .comparison) (ls ++ []) l := by
    rw [List.append_nil]
    exact .operand hl
  cases m with
  | zero => exact .pure hnone
  | succ m =>
    unfold operators
    refine .peek ?_
    cases hop : Tier.comparison.level.operator? s.peek.kind with
    | none => exact .pure hnone
    | some op =>
      obtain ⟨htier, hkind⟩ := Tier.operator?_eq_some.1 hop
      refine .pop (by rw [← hkind]; cases op <;> decide) (.skipNewlines fun ns hns t => ?_)
      refine (ho t).bind fun rs r u hr => ?_
      refine .ite (fun h => absurd h (by decide)) fun _ => .peek (.ite (fun _ => .unexpected) ?_)
      intro _
      refine .pure ?_
      have htighter : op.tier.tighter = some .additive := by rw [htier]; rfl
      have hcompare := Binary.compare htier (htighter ▸ hl) hkind.symm hns (htighter ▸ hr)
      rwa [htier, ← List.append_nil rs] at hcompare

theorem infixed_spells (tier : Tier) (ho : ∀ s, Spells (Binary tier.tighter) o s)
    (s : TokenStream) : Spells (Binary (some tier)) (infixed tier.level o) s := by
  refine (ho s).bind fun ls l t hl => .left ?_
  by_cases htier : tier = .comparison
  · subst htier
    exact operators_spells_compare ho t.size hl t
  · exact operators_spells_chain htier ho t.size (.operand hl) t

theorem binaries_spells (ho : ∀ s, Spells Unary o s) (s : TokenStream) :
    Spells (Binary (some .or)) (binaries o) s := by
  have hunary : ∀ s, Spells (Binary none) o s := by
    intro s a t hp
    obtain ⟨hstop, used, hused, ha⟩ := ho s a t hp
    exact ⟨hstop, used, hused, .unary ha⟩
  exact infixed_spells .or (infixed_spells .and (infixed_spells .comparison
    (infixed_spells .additive (infixed_spells .multiplicative hunary)))) s

end Operators

/-! ## Brackets, calls and blocks -/

section Brackets

open Calc.Parser Grammar

/-- Tokens of `G` and a closing token behind them. -/
def Grammar.Closed {α : Type} (G : List Token → α → Prop) (close : TokenKind) (ts : List Token)
    (a : α) : Prop :=
  ∃ us c, ts = us ++ [c] ∧ c.kind = close ∧ G us a

/-- Tokens of an expression and line ends around them. -/
def Grammar.Padded (ts : List Token) (e : Expr) : Prop :=
  ∃ ns us ns', ts = ns ++ us ++ ns' ∧ Newlines ns ∧ Binary (some .or) us e ∧ Newlines ns'

variable {e : Parser Expr} (he : ∀ s, Spells (Binary (some .or)) e s)
include he

theorem bracketed_spells {close : TokenKind} (hclose : close ≠ .eof) (s : TokenStream) :
    Spells (Closed Padded close) (bracketed e close) s := by
  refine .skipNewlines fun ns hns t => (he t).bind fun us a u ha => ?_
  refine .skipNewlines fun ns' hns' v => .close hclose fun c hc => ?_
  exact ⟨ns ++ us ++ ns', c, by simp only [List.append_assoc], hc, ns, us, ns', rfl, hns, ha, hns'⟩

/-- Going on with items gives those read so far and the ones that the tokens derive. -/
theorem itemsFrom_spells {close : TokenKind} (hclose : close ≠ .eof) (m : Nat)
    (items : List Expr) (s : TokenStream) :
    Spells (fun ts es => ∃ fs, es = items.reverse ++ fs ∧ Closed Items close ts fs)
      (itemsFrom e close m items) s := by
  induction m generalizing items s with
  | zero => exact .unexpected
  | succ m ih =>
    unfold itemsFrom
    refine .skipNewlines fun ns hns t => .accept hclose (fun c hc _ => .pure ?_) ?_
    · exact ⟨[], by rw [List.append_nil], ns, c, rfl, hc, .none hns⟩
    refine (he t).bind fun us a u ha => .skipNewlines fun ns' hns' v => ?_
    refine .accept (by decide) (fun c hc x => ?_) (.close hclose fun c hc => ?_)
    · intro es y hy
      obtain ⟨hstop, used, hused, fs, rfl, vs, d, rfl, hd, hvs⟩ := ih (a :: items) x es y hy
      refine ⟨hstop, vs ++ [d], hused, a :: fs, ?_, ns ++ us ++ ns' ++ c :: vs, d, ?_, hd, ?_⟩
      · rw [List.reverse_cons, List.append_assoc, List.singleton_append]
      · simp only [List.append_assoc, List.cons_append]
      · exact .more hns ha hns' hc hvs
    · refine ⟨[a], List.reverse_cons, ns ++ us ++ ns', c, ?_, hc, .last hns ha hns'⟩
      simp only [List.append_assoc]

theorem items_spells {close : TokenKind} (hclose : close ≠ .eof) (s : TokenStream) :
    Spells (Closed Items close) (items e close) s := by
  refine .left fun es t ht => ?_
  obtain ⟨hstop, used, hused, fs, rfl, hfs⟩ := itemsFrom_spells he hclose _ [] s es t ht
  exact ⟨hstop, used, hused, hfs⟩

theorem statement_spells (s : TokenStream) : Spells Statement (statement e) s := by
  unfold statement
  refine .accept (by decide) (fun l hl t => ?_) ?_
  · refine .expect (by decide) fun name hname u => .expect (by decide) fun q hq v => ?_
    exact .skipNewlines fun ns hns x => (he x).map fun us a ha => .define hl hname hq hns ha
  · refine .peek (.peekSecond (.ite (fun hassign => ?_) fun _ => (he s).map fun us a => .expr))
    simp only [Bool.and_eq_true, decide_eq_true_eq] at hassign
    obtain ⟨hident, hequal⟩ := hassign
    refine .pop (by rw [hident]; decide) (.pop (by rw [hequal]; decide) ?_)
    exact .skipNewlines fun ns hns x => (he x).map fun us a ha => .assign hident hequal hns ha

omit he in
/-- Behind the tokens of some kinds in front stands none of them. -/
theorem TokenStream.without_peek (s : TokenStream) (kinds : List TokenKind)
    (hkinds : .eof ∉ kinds) : (s.without kinds).peek.kind ∉ kinds := by
  have hhead := List.head?_dropWhile_not (fun t : Token => kinds.contains t.kind) s.tokens
  unfold TokenStream.peek TokenStream.without
  rw [List.headD_eq_head?_getD]
  generalize (s.tokens.dropWhile fun t => kinds.contains t.kind).head? = x at hhead
  cases x with
  | none => exact hkinds
  | some t => simpa using hhead

/-- Tokens that derive statements behind others. If a statement stands `before` them, they start
with a separator. -/
inductive Grammar.Tail (before : Prop) : List Token → List Stmt → Prop where
  | none {ss} : Separators ss → Tail before ss []
  | more {ss ts body ss'} : Separators ss → (before → ss ≠ []) → Statements ts body →
      Separators ss' → Tail before (ss ++ ts ++ ss') body

omit he in
/-- A statement and what stands behind it. -/
theorem Grammar.Tail.cons {before after : Prop} {ss us vs : List Token} {a : Stmt}
    {bs : List Stmt} (hss : Separators ss) (hbefore : before → ss ≠ []) (ha : Statement us a)
    (hafter : after) (hvs : Tail after vs bs) : Tail before (ss ++ (us ++ vs)) (a :: bs) := by
  cases hvs with
  | none hvs =>
    rw [← List.append_assoc]
    exact .more hss hbefore (.one ha) hvs
  | @more xs ts _ ys hxs hne hts hys =>
    have hall := Tail.more hss hbefore (.cons ha hxs (hne hafter) hts) hys
    simpa only [List.append_assoc] using hall

/-- Going on with statements gives those read so far and the ones that the tokens derive. If the
first token may end a statement, one that follows is apart from it. -/
theorem statementsFrom_spells (closers : List TokenKind) (m : Nat) (body : List Stmt)
    (s : TokenStream) :
    Spells (fun ts as => ∃ bs, as = body.reverse ++ bs ∧
        Tail (([.newline, .semi, .eof].contains s.peek.kind ||
          closers.contains s.peek.kind) = true) ts bs)
      (statementsFrom e closers m body) s := by
  induction m generalizing body s with
  | zero => exact .unexpected
  | succ m ih =>
    unfold statementsFrom
    refine .skip fun ss hss hsplit => .peek ?_
    have hseparators : Separators ss := by
      intro t ht
      simpa using hss t ht
    have hnone : ∀ before, ∃ bs, body.reverse = body.reverse ++ bs ∧ Tail before (ss ++ []) bs :=
      fun _ => ⟨[], (List.append_nil _).symm, .none (by rwa [List.append_nil])⟩
    refine .ite (fun _ => .pure (hnone _)) fun hcloser => ?_
    refine .ite (fun _ => .ite (fun _ => .pure (hnone _)) fun _ => .unexpected) fun heof => ?_
    refine (statement_spells he _).bind fun us a t ha => .peek (.ite (fun hend => ?_) fun _ => ?_)
    · -- The token in front is no separator any more, and it ends nothing.
      have hbefore : ([.newline, .semi, .eof].contains s.peek.kind ||
          closers.contains s.peek.kind) = true → ss ≠ [] := by
        rintro hfirst rfl
        have hsame : s.without [.newline, .semi] = s := by
          rw [TokenStream.without, TokenStream.mk.injEq]
          exact ⟨hsplit.symm, rfl⟩
        have hskipped := s.without_peek [.newline, .semi] (by decide)
        rw [hsame] at hcloser heof hskipped
        rw [List.contains_iff_mem] at hcloser
        simp only [List.mem_cons, List.not_mem_nil, or_false, not_or] at hskipped
        simp [hskipped, heof, hcloser] at hfirst
      intro as u hu
      obtain ⟨hstop, vs, hvs, bs, rfl, htail⟩ := ih (a :: body) t as u hu
      refine ⟨hstop, vs, hvs, a :: bs, ?_, .cons hseparators hbefore ha hend htail⟩
      rw [List.reverse_cons, List.append_assoc, List.singleton_append]
    · exact .unexpected

theorem statements_spells (closers : List TokenKind) (s : TokenStream) :
    Spells Block (statements e closers) s := by
  refine .left fun as t ht => ?_
  obtain ⟨hstop, used, hused, bs, rfl, htail⟩ := statementsFrom_spells he closers _ [] s as t ht
  refine ⟨hstop, used, hused, ?_⟩
  cases htail with
  | none hss => exact .empty hss
  | more hss _ hts hss' => exact .body hss hts hss'

theorem block_spells (s : TokenStream) : Spells (Closed Block .kwEnd) (block e) s :=
  (statements_spells he _ s).bind fun us _ _ ha =>
    .close (by decide) fun c hc => ⟨us, c, rfl, hc, ha⟩

theorem choice_spells {i : Token} (hi : i.kind = .kwIf) (s : TokenStream) :
    Spells (fun us => Primary (i :: us)) (choice e) s := by
  refine (he s).bind fun ts test t htest => .skipNewlines fun ns hns u => ?_
  refine .expect (by decide) fun th hth v => (statements_spells he _ v).bind fun us yes x hyes => ?_
  refine .accept (by decide) (fun el hel y => (block_spells he y).map ?_) (.close (by decide) ?_)
  · rintro - no ⟨vs, c, rfl, hc, hno⟩
    have hcond := Primary.condElse hi htest hns hth hyes hel hno hc
    simpa only [List.append_assoc] using hcond
  · intro c hc
    have hcond := Primary.cond hi htest hns hth hyes hc
    simpa only [List.append_assoc] using hcond

theorem loop_spells {w : Token} (hw : w.kind = .kwWhile) (s : TokenStream) :
    Spells (fun us => Primary (w :: us)) (loop e) s := by
  refine (he s).bind fun ts test t htest => .skipNewlines fun ns hns u => ?_
  refine .expect (by decide) fun d hd v => (block_spells he v).map ?_
  rintro - body ⟨us, c, rfl, hc, hbody⟩
  have hloop := Primary.loop hw htest hns hd hbody hc
  simpa only [List.append_assoc] using hloop

theorem named_spells {name : Token} (hname : name.kind = .ident) (s : TokenStream) :
    Spells (fun us => Primary (name :: us)) (named e name) s := by
  refine .accept (by decide) (fun o ho t => ?_) (.pure (.var hname))
  refine (items_spells he (by decide) t).map ?_
  rintro - args ⟨ts, c, rfl, hc, hargs⟩
  exact .call hname ho hargs hc

theorem primary_spells (s : TokenStream) : Spells Primary (primary e) s := by
  unfold primary
  refine .peek ?_
  cases hk : s.peek.kind with
  | int =>
    refine .pop (by rw [hk]; decide) ?_
    split
    · exact .pure (.int hk ‹_›)
    · exact .unexpected
  | str => exact .pop (by rw [hk]; decide) (.pure (.str hk))
  | kwTrue => exact .pop (by rw [hk]; decide) (.pure (.true hk))
  | kwFalse => exact .pop (by rw [hk]; decide) (.pure (.false hk))
  | kwNil => exact .pop (by rw [hk]; decide) (.pure (.nil hk))
  | kwSelf => exact .pop (by rw [hk]; decide) (.pure (.receiver hk))
  | ident => exact .pop (by rw [hk]; decide) (named_spells he hk _)
  | lparen =>
    refine .pop (by rw [hk]; decide) fun a t ht => ?_
    obtain ⟨hstop, -, hused, us, c, rfl, hc, ns, vs, ns', rfl, hns, ha, hns'⟩ :=
      bracketed_spells he (by decide) _ a t ht
    exact ⟨hstop, _, hused, .parens hk hns ha hns' hc⟩
  | lbrack =>
    refine .pop (by rw [hk]; decide) ((items_spells he (by decide) _).map ?_)
    rintro - es ⟨ts, c, rfl, hc, hes⟩
    exact .list hk hes hc
  | kwDo =>
    refine .pop (by rw [hk]; decide) ((block_spells he _).map ?_)
    rintro - body ⟨ts, c, rfl, hc, hbody⟩
    exact .block hk hbody hc
  | kwIf => exact .pop (by rw [hk]; decide) (choice_spells he hk _)
  | kwWhile => exact .pop (by rw [hk]; decide) (loop_spells he hk _)
  | _ => exact .unexpected

/-- Going on with indexes behind an expression that has some already. -/
theorem indexes_spells (m : Nat) {ts : List Token} {a : Expr} (ha : Indexed ts a)
    (s : TokenStream) : Spells (fun us => Indexed (ts ++ us)) (indexes e m a) s := by
  induction m generalizing ts a s with
  | zero => exact .pure (by rwa [List.append_nil])
  | succ m ih =>
    unfold indexes
    refine .accept (by decide) (fun o ho t => ?_) (.pure (by rwa [List.append_nil]))
    refine (bracketed_spells he (by decide) t).bind ?_
    rintro - i u ⟨us, c, rfl, hc, ns, vs, ns', rfl, hns, hi, hns'⟩
    have hindex := Indexed.index ha ho hns hi hns' hc
    simpa only [List.append_assoc, List.cons_append] using ih hindex u

theorem indexed_spells (s : TokenStream) : Spells Indexed (indexed e) s :=
  (primary_spells he s).bind fun _ _ t ha => .left (indexes_spells he t.size (.primary ha) t)

/-- The tree of an operator over an operand is the derived one. -/
theorem unaryOver_spells {o : Parser Expr} (ho : ∀ s, Spells Unary o s) (s : TokenStream) :
    Spells Unary (unaryOver o e) s := by
  unfold unaryOver
  refine .peek ?_
  cases hop : unaryOp? s.peek.kind with
  | none =>
    intro a t ht
    obtain ⟨hstop, used, hused, ha⟩ := indexed_spells he s a t ht
    exact ⟨hstop, used, hused, .operand ha⟩
  | some op =>
    have hkind : s.peek.kind = op.kind := by
      revert hop
      cases s.peek.kind <;> intro hop <;> cases hop <;> rfl
    refine .pop (by rw [hkind]; cases op <;> decide) ((ho _).map fun us a ha => ?_)
    unfold applyUnary
    split
    · obtain ⟨m, hm, hneg⟩ := Number.neg?_of_minNumber_lt ha.aboveLeast
      rw [hm]
      exact .negative hkind ha hneg
    · rename_i hne
      exact .operator hkind ha fun hop n hn => hne n hop hn

end Brackets

section Nesting

open Calc.Parser Grammar

theorem unary_spells (depth : Nat) (s : TokenStream) : Spells Unary (unary depth) s := by
  induction depth generalizing s with
  | zero => exact unaryOver_spells (fun _ => .of_error rfl) (fun _ => .of_error rfl) s
  | succ depth ih => exact unaryOver_spells (binaries_spells ih) ih s

theorem exprWithin_spells (depth : Nat) (s : TokenStream) :
    Spells (Binary (some .or)) (exprWithin depth) s := by
  cases depth with
  | zero => exact .of_error rfl
  | succ depth => exact binaries_spells (unary_spells depth) s

/-- The statements of a whole source take all of its tokens. -/
theorem program_derives {s : TokenStream} (hs : ∀ t ∈ s.tokens, t.kind ≠ .eof) {p : Calc.Program}
    {u : TokenStream} (h : program s = .ok (p, u)) : Grammar.Program s.all p := by
  obtain ⟨body, t, hbody, hrest⟩ := bind_ok h
  obtain ⟨hstop, used, hused, hblock⟩ :=
    statements_spells (exprWithin_spells maxNesting) [] s body t hbody
  have hend : t.peek.kind = .eof := by
    refine Decidable.byContradiction fun hne => ?_
    obtain ⟨err, herr⟩ := expect_of_ne hne
    rw [bind_of_error herr] at hrest
    cases hrest
  have hnone : t.tokens = [] := by
    cases htokens : t.tokens with
    | nil => rfl
    | cons x xs =>
      have hx : x ∈ s.tokens := by
        rw [hused, htokens]
        exact List.mem_append_right used List.mem_cons_self
      rw [TokenStream.peek, htokens] at hend
      exact absurd hend (hs x hx)
  rw [bind_of_ok (expect_of_kind hend)] at hrest
  cases hrest
  rw [TokenStream.all, hused, hnone, List.append_nil]
  exact .block hblock rfl

/-- The tokens of a source that is a program, the end of the source with them, derive the program.
-/
theorem parseProgram_derives {src : String} {p : Calc.Program} (h : parseProgram src = .ok p) :
    ∃ s, lex src = .ok s ∧ Grammar.Program s.all p := by
  unfold parseProgram Parser.run at h
  split at h
  · cases h
  rename_i s hlex
  split at h
  · cases h
  rename_i q u hprogram
  cases h
  exact ⟨s, hlex, program_derives (lexFrom_ne_eof (lexFrom_of_lex hlex)) hprogram⟩

/-- A program of two statements over two lines: an operator goes on in the next line, and a minus in
front of a number is part of it. -/
theorem parseProgram_derives_lines :
    ∃ s, lex "let x = 1 +\n-2; x" = .ok s ∧
      Grammar.Program s.all [.define "x" (.binary .add (.int ⟨1, by decide, by decide⟩)
        (.int ⟨-2, by decide, by decide⟩)), .expr (.var "x" 16)] :=
  parseProgram_derives (by cbv)

end Nesting

end CalcShell.Calc
