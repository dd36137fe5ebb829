import CalcShell.Proofs.Calc.Cutting
import Mathlib.Data.List.Forall2

/-!
# Parsers in lockstep

Two parsers read streams whose tokens correspond one by one and do the same at each of them, so that
what they give corresponds too, trees and errors (`Lockstep`). What corresponds to what is one
record, with a clause for each kind of tree and for the errors (`Pairing`). The induction over the
rules of the grammar is here, once: `Pairing.program` and `Pairing.onlyExpr`.

An operator in front of an operand may be put into the tree in more than one way (`Sign`). The two
parsers may differ in the way they do it, if only what they make corresponds. The parser itself is
the one that negates numbers at once (`programBy_negate`).
-/

namespace CalcShell.Calc

/-! ## Streams and results that correspond -/

/-- Lists correspond element by element under a function if one is the image of the other. -/
theorem forall₂_eq_map_iff {α β : Type} {f : α → β} {as : List α} {bs : List β} :
    List.Forall₂ (fun a b => f a = b) as bs ↔ as.map f = bs := by
  rw [← List.forall₂_map_left_iff (R := Eq), List.forall₂_eq_eq_eq]

/-- The tokens of two streams correspond one by one, the ends included. -/
structure TokenStream.Alongside (T : Token → Token → Prop) (s u : TokenStream) : Prop where
  tokens : List.Forall₂ T s.tokens u.tokens
  last : T s.last u.last

namespace TokenStream.Alongside

variable {T : Token → Token → Prop} {s u : TokenStream}

theorem peek (h : Alongside T s u) : T s.peek u.peek := by
  obtain ⟨ts, stop⟩ := s
  obtain ⟨us, stop'⟩ := u
  obtain ⟨htokens, hlast⟩ := h
  cases htokens with
  | nil => exact hlast
  | cons ht _ => exact ht

theorem advance (h : Alongside T s u) : Alongside T s.advance u.advance := by
  obtain ⟨ts, stop⟩ := s
  obtain ⟨us, stop'⟩ := u
  obtain ⟨htokens, hlast⟩ := h
  cases htokens with
  | nil => exact ⟨.nil, hlast⟩
  | cons _ hts => exact ⟨hts, hlast⟩

theorem size (h : Alongside T s u) : s.size = u.size := h.tokens.length_eq

/-- As many tokens are dropped from one stream as from the other. -/
theorem without (h : Alongside T s u) (hkind : ∀ t v, T t v → t.kind = v.kind)
    (kinds : List TokenKind) : Alongside T (s.without kinds) (u.without kinds) := by
  refine ⟨?_, h.last⟩
  obtain ⟨ts, stop⟩ := s
  obtain ⟨us, stop'⟩ := u
  have htokens : List.Forall₂ T ts us := h.tokens
  clear h
  unfold TokenStream.without
  dsimp only
  induction htokens with
  | nil => exact .nil
  | cons ht hts ih =>
    rw [List.dropWhile_cons, List.dropWhile_cons, hkind _ _ ht]
    split
    · exact ih
    · exact .cons ht hts

end TokenStream.Alongside

/-- Two parsers gave results in `R` and left streams that correspond, or errors in `X`. -/
inductive Tallies (T : Token → Token → Prop) (X : SourceError → SourceError → Prop) {α β : Type}
    (R : α → β → Prop) :
    Except SourceError (α × TokenStream) → Except SourceError (β × TokenStream) → Prop where
  | ok {a b s u} : R a b → s.Alongside T u → Tallies T X R (.ok (a, s)) (.ok (b, u))
  | error {err err'} : X err err' → Tallies T X R (.error err) (.error err')

/-- From streams whose tokens correspond, `p` and `q` give results in `R` or errors in `X`. -/
def Lockstep (T : Token → Token → Prop) (X : SourceError → SourceError → Prop) {α β : Type}
    (R : α → β → Prop) (p : Parser α) (q : Parser β) : Prop :=
  ∀ s u : TokenStream, s.Alongside T u → Tallies T X R (p s) (q u)

/-- What was expected where a source is rejected. -/
def Cause.expected? : Cause → Option Expected
  | .endOfInput expected | .unexpected _ expected => some expected
  | .strayChar _ | .openString | .badEscape _ | .numberRange _ | .tooDeep => none

/-- Tokens that correspond differ in nothing but their places, and so do the errors at them, where
it is no number that was expected. -/
structure Places (T : Token → Token → Prop) (X : SourceError → SourceError → Prop) : Prop where
  kind : ∀ t u, T t u → t.kind = u.kind
  text : ∀ t u, T t u → t.text = u.text
  /-- A token is not what was expected, or stands too deep. -/
  rejects : ∀ t u, T t u → ∀ cause : Cause, cause.expected? ≠ some .integer →
    X ⟨cause, t.position⟩ ⟨cause, u.position⟩

/-- Results that are in `R` are in anything that holds of `R`. -/
theorem Tallies.mono {T : Token → Token → Prop} {X : SourceError → SourceError → Prop} {α β : Type}
    {R R' : α → β → Prop} {x : Except SourceError (α × TokenStream)}
    {y : Except SourceError (β × TokenStream)} (h : Tallies T X R x y)
    (hR : ∀ a b, R a b → R' a b) : Tallies T X R' x y := by
  cases h with
  | ok hab hrest => exact .ok (hR _ _ hab) hrest
  | error herr => exact .error herr

namespace Lockstep

open Calc.Parser

variable {T : Token → Token → Prop} {X : SourceError → SourceError → Prop} {α β γ δ : Type}
  {Q : γ → δ → Prop} {R : α → β → Prop} {p : Parser α} {q : Parser β}

theorem pure {a : α} {b : β} (h : R a b) : Lockstep T X R (Pure.pure a) (Pure.pure b) :=
  fun _ _ hsu => .ok h hsu

/-- One parser after the other. -/
theorem bind {p : Parser γ} {q : Parser δ} {k : γ → Parser α} {k' : δ → Parser β}
    (h : Lockstep T X Q p q) (hk : ∀ a b, Q a b → Lockstep T X R (k a) (k' b)) :
    Lockstep T X R (p >>= k) (q >>= k') := by
  intro s u hsu
  have hpq := h s u hsu
  rw [bind_apply, bind_apply]
  generalize p s = x at hpq
  generalize q u = y at hpq
  cases hpq with
  | ok hab hrest => exact hk _ _ hab _ _ hrest
  | error herr => exact .error herr

theorem ite {c : Prop} [Decidable c] {p' : Parser α} {q' : Parser β} (h : Lockstep T X R p q)
    (h' : Lockstep T X R p' q') : Lockstep T X R (if c then p else p') (if c then q else q') := by
  split
  · exact h
  · exact h'

theorem peek {k : Token → Parser α} {k' : Token → Parser β}
    (h : ∀ t u, T t u → Lockstep T X R (k t) (k' u)) :
    Lockstep T X R (Parser.peek >>= k) (Parser.peek >>= k') :=
  fun s u hsu => h s.peek u.peek hsu.peek s u hsu

theorem peekSecond {k : Token → Parser α} {k' : Token → Parser β}
    (h : ∀ t u, T t u → Lockstep T X R (k t) (k' u)) :
    Lockstep T X R (Parser.peekSecond >>= k) (Parser.peekSecond >>= k') :=
  fun s u hsu => h s.advance.peek u.advance.peek hsu.advance.peek s u hsu

theorem left {k : Nat → Parser α} {k' : Nat → Parser β}
    (h : ∀ n, Lockstep T X R (k n) (k' n)) :
    Lockstep T X R (Parser.left >>= k) (Parser.left >>= k') := by
  intro s u hsu
  change Tallies T X R (k s.size s) (k' u.size u)
  rw [← hsu.size]
  exact h s.size s u hsu

theorem pop {k : Token → Parser α} {k' : Token → Parser β}
    (h : ∀ t u, T t u → Lockstep T X R (k t) (k' u)) :
    Lockstep T X R (Parser.pop >>= k) (Parser.pop >>= k') :=
  fun s u hsu => h s.peek u.peek hsu.peek s.advance u.advance hsu.advance

theorem reject {cause : Token → Cause}
    (h : ∀ t u, T t u → X ⟨cause t, t.position⟩ ⟨cause u, u.position⟩) :
    Lockstep T X R (Parser.reject cause) (Parser.reject cause) :=
  fun s u hsu => .error (h s.peek u.peek hsu.peek)

section Places

variable (hT : Places T X)
include hT

theorem skip (kinds : List TokenKind) (h : Lockstep T X R p q) :
    Lockstep T X R (Parser.skip kinds >>= fun _ => p) (Parser.skip kinds >>= fun _ => q) :=
  fun s u hsu => h (s.without kinds) (u.without kinds) (hsu.without hT.kind kinds)

theorem unexpected {expected : Expected} (hexpected : expected ≠ .integer) :
    Lockstep T X R (Parser.unexpected expected) (Parser.unexpected expected) := by
  refine .reject fun t u htu => ?_
  rw [← hT.kind t u htu, ← hT.text t u htu]
  refine hT.rejects t u htu _ ?_
  split
  · exact fun heq => hexpected (Option.some.inj heq)
  · exact fun heq => hexpected (Option.some.inj heq)

theorem tooDeep : Lockstep T X R Parser.tooDeep Parser.tooDeep :=
  .reject fun t u htu => hT.rejects t u htu _ (by decide)

theorem expect (kind : TokenKind) {k : Token → Parser α} {k' : Token → Parser β}
    (h : ∀ t u, T t u → Lockstep T X R (k t) (k' u)) :
    Lockstep T X R (Parser.expect kind >>= k) (Parser.expect kind >>= k') := by
  have htaken : Lockstep T X T Parser.pop Parser.pop :=
    fun s u hsu => .ok hsu.peek hsu.advance
  have hexpect : Lockstep T X T (Parser.expect kind) (Parser.expect kind) := by
    refine .peek fun t u htu => ?_
    rw [hT.kind t u htu]
    exact .ite htaken (unexpected hT (by simp))
  exact hexpect.bind h

theorem accept (kind : TokenKind) {k : Bool → Parser α} {k' : Bool → Parser β}
    (h : ∀ b, Lockstep T X R (k b) (k' b)) :
    Lockstep T X R (Parser.accept kind >>= k) (Parser.accept kind >>= k') := by
  have haccept : Lockstep T X Eq (Parser.accept kind) (Parser.accept kind) := by
    refine .peek fun t u htu => ?_
    rw [hT.kind t u htu]
    exact .ite (.pop fun _ _ _ => .pure rfl) (.pure rfl)
  refine haccept.bind fun b b' hb => ?_
  subst hb
  exact h b

end Places

/-- The result of one parser for a source is that of the other one, changed by a function, and the
error is the same. -/
theorem run_eq_map {f : α → β} {src : String} (hX : ∀ err err', X err err' → err = err')
    (hR : ∀ a b, R a b → f a = b)
    (h : ∀ s, lex src = .ok s → ∃ T, s.Alongside T s ∧ Lockstep T X R p q) :
    q.run src = (p.run src).map f := by
  unfold Parser.run
  cases hlex : lex src with
  | error err => rfl
  | ok s =>
    obtain ⟨T, hs, hpq⟩ := h s hlex
    have hrun := hpq s s hs
    dsimp only
    generalize p s = x at hrun
    generalize q s = y at hrun
    cases hrun with
    | ok hab _ => exact congrArg Except.ok (hR _ _ hab).symm
    | error herr => exact congrArg Except.error (hX _ _ herr).symm

end Lockstep

/-! ## Ways to put in an operator -/

namespace Parser

/-- A way to put an operator in front of an operand into the tree, or to reject it. -/
abbrev Sign : Type := UnaryOp → Expr → Parser Expr

/-- The negation of a number is a number; any other operator is a node. -/
def negate : Sign := fun op e => pure (applyUnary op e)

/-- An operand, with operators put in front of it by `sign`. `operand` reads what stands behind an
operator, `expr` the expressions inside. -/
def unaryOverBy (sign : Sign) (operand expr : Parser Expr) : Parser Expr := do
  match unaryOp? (← peek).kind with
  | none => indexed expr
  | some op =>
    let _ ← pop
    sign op (← operand)

/-- An operand inside of which expressions may nest to the given depth. -/
def unaryBy (sign : Sign) : Nat → Parser Expr
  | 0, s => unaryOverBy sign tooDeep tooDeep s
  | depth + 1, s => unaryOverBy sign (unaryBy sign depth) (binaries (unaryBy sign depth)) s

/-- An expression that may nest to the given depth, itself included. -/
def exprBy (sign : Sign) : Nat → Parser Expr
  | 0 => tooDeep
  | depth + 1 => binaries (unaryBy sign depth)

/-- The statements of a whole source. -/
def programBy (sign : Sign) : Parser Program := do
  let body ← statements (exprBy sign maxNesting) []
  let _ ← expect .eof
  return body

/-- One expression as a whole source, with line ends around it. -/
def onlyExprBy (sign : Sign) : Parser Expr := do
  skipNewlines
  let e ← exprBy sign maxNesting
  skipNewlines
  let _ ← expect .eof
  return e

theorem unaryBy_negate (depth : Nat) : unaryBy negate depth = unary depth := by
  induction depth with
  | zero => rfl
  | succ depth ih =>
    funext s
    rw [unaryBy, unary, ih]
    rfl

theorem exprBy_negate (depth : Nat) : exprBy negate depth = exprWithin depth := by
  cases depth with
  | zero => rfl
  | succ depth => rw [exprBy, exprWithin, unaryBy_negate]

/-- A program is read by putting in negated numbers. -/
theorem programBy_negate : programBy negate = program := by
  rw [programBy, program, exprBy_negate, expr]

theorem onlyExprBy_negate : onlyExprBy negate = onlyExpr := by
  rw [onlyExprBy, onlyExpr, exprBy_negate, expr]

end Parser

/-! ## The grammar -/

/-- Trees that are put together alike of tokens that correspond are in `E` or `S` if the trees
inside are, and errors are in `X`. -/
structure Pairing (T : Token → Token → Prop) (X : SourceError → SourceError → Prop)
    (E : Expr → Expr → Prop) (S : Stmt → Stmt → Prop) : Prop extends Places T X where
  /-- A number that is none is rejected at the token behind it. -/
  notNumber : ∀ t t', T t t' → t.kind = .int → Number.ofDigits? t.text.toList = none →
    ∀ u u', T u u' → ∀ cause, X ⟨cause, u.position⟩ ⟨cause, u'.position⟩
  nil : E .nil .nil
  bool : ∀ b, E (.bool b) (.bool b)
  int : ∀ t u, T t u → t.kind = .int → ∀ n, Number.ofDigits? t.text.toList = some n →
    E (.int n) (.int n)
  str : ∀ s, E (.str s) (.str s)
  receiver : E .receiver .receiver
  var : ∀ t u, T t u → t.kind = .ident →
    E (.var t.text t.position.offset) (.var u.text u.position.offset)
  list : ∀ es fs, List.Forall₂ E es fs → E (.list es) (.list fs)
  binary : ∀ op l r l' r', E l l' → E r r' → E (.binary op l r) (.binary op l' r')
  index : ∀ t i t' i', E t t' → E i i' → E (.index t i) (.index t' i')
  call : ∀ name es fs, List.Forall₂ E es fs → E (.call name es) (.call name fs)
  block : ∀ as bs, List.Forall₂ S as bs → E (.block as) (.block bs)
  cond : ∀ t yes t' yes', E t t' → List.Forall₂ S yes yes' →
    E (.cond t yes none) (.cond t' yes' none)
  condElse : ∀ t yes no t' yes' no', E t t' → List.Forall₂ S yes yes' → List.Forall₂ S no no' →
    E (.cond t yes (some no)) (.cond t' yes' (some no'))
  loop : ∀ t as t' bs, E t t' → List.Forall₂ S as bs → E (.loop t as) (.loop t' bs)
  define : ∀ name e e', E e e' → S (.define name e) (.define name e')
  assign : ∀ name e e', E e e' → S (.assign name e) (.assign name e')
  expr : ∀ e e', E e e' → S (.expr e) (.expr e')

namespace Pairing

open Calc.Parser

variable {T : Token → Token → Prop} {X : SourceError → SourceError → Prop}
  {E : Expr → Expr → Prop} {S : Stmt → Stmt → Prop} (h : Pairing T X E S)
include h

section Operators

variable {o o' : Parser Expr} (ho : Lockstep T X E o o')
include ho

theorem operators (level : Level) (m : Nat) {l l' : Expr} (hl : E l l') :
    Lockstep T X E (operators level o m l) (operators level o' m l') := by
  induction m generalizing l l' with
  | zero => exact .pure hl
  | succ m ih =>
    unfold Parser.operators
    refine .peek fun t u htu => ?_
    rw [h.kind t u htu]
    cases level.operator? u.kind with
    | none => exact .pure hl
    | some op =>
      refine .pop fun _ _ _ => .skip h.toPlaces [.newline] (.bind ho fun r r' hr => ?_)
      have hboth := h.binary op l r l' r' hl hr
      refine .ite (ih hboth) (.peek fun t u htu => ?_)
      rw [h.kind t u htu]
      exact .ite (.unexpected h.toPlaces (by decide)) (.pure hboth)

theorem infixed (level : Level) : Lockstep T X E (infixed level o) (infixed level o') :=
  ho.bind fun _ _ hl => .left fun n => h.operators ho level n hl

theorem binaries : Lockstep T X E (binaries o) (binaries o') :=
  h.infixed (h.infixed (h.infixed (h.infixed (h.infixed ho
    multiplicativeLevel) additiveLevel) comparisonLevel) andLevel) orLevel

end Operators

section Brackets

variable {e e' : Parser Expr} (he : Lockstep T X E e e')
include he

theorem itemsFrom (close : TokenKind) (m : Nat) {es fs : List Expr} (hes : List.Forall₂ E es fs) :
    Lockstep T X (List.Forall₂ E) (itemsFrom e close m es) (itemsFrom e' close m fs) := by
  have hdone : ∀ {es fs : List Expr}, List.Forall₂ E es fs → Lockstep T X (List.Forall₂ E)
      (pure es.reverse : Parser (List Expr)) (pure fs.reverse) :=
    fun hes => .pure (List.forall₂_reverse_iff.2 hes)
  induction m generalizing es fs with
  | zero => exact .unexpected h.toPlaces (by simp)
  | succ m ih =>
    unfold Parser.itemsFrom
    refine .skip h.toPlaces [.newline] (.accept h.toPlaces close fun closed => .ite (hdone hes) ?_)
    refine .bind he fun a b hab => .skip h.toPlaces [.newline] ?_
    have hmore := List.Forall₂.cons hab hes
    refine .accept h.toPlaces .comma fun more => .ite (ih hmore) ?_
    exact .expect h.toPlaces close fun _ _ _ => hdone hmore

theorem items (close : TokenKind) :
    Lockstep T X (List.Forall₂ E) (items e close) (items e' close) :=
  .left fun n => h.itemsFrom he close (n + 1) .nil

theorem statement : Lockstep T X S (statement e) (statement e') := by
  unfold Parser.statement
  refine .accept h.toPlaces .kwLet fun define => .ite ?_ ?_
  · refine .expect h.toPlaces .ident fun name name' hname => ?_
    refine .expect h.toPlaces .equal fun _ _ _ => .skip h.toPlaces [.newline] ?_
    rw [h.text name name' hname]
    exact .bind he fun a b hab => .pure (h.define name'.text a b hab)
  · refine .peek fun t t' ht => .peekSecond fun u u' hu => ?_
    rw [h.kind t t' ht, h.text t t' ht, h.kind u u' hu]
    refine .ite ?_ (.bind he fun a b hab => .pure (h.expr a b hab))
    refine .pop fun _ _ _ => .pop fun _ _ _ => .skip h.toPlaces [.newline] ?_
    exact .bind he fun a b hab => .pure (h.assign t'.text a b hab)

theorem statementsFrom (closers : List TokenKind) (m : Nat) {as bs : List Stmt}
    (has : List.Forall₂ S as bs) :
    Lockstep T X (List.Forall₂ S) (statementsFrom e closers m as)
      (statementsFrom e' closers m bs) := by
  have hdone : ∀ {as bs : List Stmt}, List.Forall₂ S as bs → Lockstep T X (List.Forall₂ S)
      (pure as.reverse : Parser (List Stmt)) (pure bs.reverse) :=
    fun has => .pure (List.forall₂_reverse_iff.2 has)
  induction m generalizing as bs with
  | zero => exact .unexpected h.toPlaces (by decide)
  | succ m ih =>
    unfold Parser.statementsFrom
    refine .skip h.toPlaces [.newline, .semi] (.peek fun t t' ht => ?_)
    rw [h.kind t t' ht]
    refine .ite (hdone has) (.ite ?_ ?_)
    · exact .ite (hdone has) (.unexpected h.toPlaces (by decide))
    · refine .bind (h.statement he) fun a b hab => .peek fun u u' hu => ?_
      rw [h.kind u u' hu]
      exact .ite (ih (.cons hab has)) (.unexpected h.toPlaces (by decide))

theorem statements (closers : List TokenKind) :
    Lockstep T X (List.Forall₂ S) (statements e closers) (statements e' closers) :=
  .left fun n => h.statementsFrom he closers (n + 1) .nil

theorem blockBody : Lockstep T X (List.Forall₂ S) (Parser.block e) (Parser.block e') :=
  (h.statements he _).bind fun _ _ hbody => .expect h.toPlaces .kwEnd fun _ _ _ => .pure hbody

theorem choice : Lockstep T X E (choice e) (choice e') := by
  unfold Parser.choice
  refine .bind he fun t t' ht => .skip h.toPlaces [.newline] ?_
  refine .expect h.toPlaces .kwThen fun _ _ _ => .bind (h.statements he _) fun yes yes' hyes => ?_
  refine .accept h.toPlaces .kwElse fun more => .ite ?_ ?_
  · refine .bind (h.blockBody he) fun no no' hno => ?_
    exact .pure (h.condElse t yes no t' yes' no' ht hyes hno)
  · exact .expect h.toPlaces .kwEnd fun _ _ _ => .pure (h.cond t yes t' yes' ht hyes)

theorem loopBehind : Lockstep T X E (Parser.loop e) (Parser.loop e') := by
  unfold Parser.loop
  refine .bind he fun t t' ht => .skip h.toPlaces [.newline] ?_
  refine .expect h.toPlaces .kwDo fun _ _ _ => .bind (h.blockBody he) fun as bs has => ?_
  exact .pure (h.loop t as t' bs ht has)

theorem bracketed (close : TokenKind) :
    Lockstep T X E (bracketed e close) (bracketed e' close) := by
  unfold Parser.bracketed
  refine .skip h.toPlaces [.newline] (.bind he fun a b hab => .skip h.toPlaces [.newline] ?_)
  exact .expect h.toPlaces close fun _ _ _ => .pure hab

theorem named {t u : Token} (htu : T t u) (hkind : t.kind = .ident) :
    Lockstep T X E (named e t) (named e' u) := by
  unfold Parser.named
  refine .accept h.toPlaces .lparen fun called => .ite ?_ (.pure (h.var t u htu hkind))
  rw [h.text t u htu]
  exact .bind (h.items he .rparen) fun es fs hes => .pure (h.call u.text es fs hes)

theorem primary : Lockstep T X E (primary e) (primary e') := by
  unfold Parser.primary
  refine .peek fun t t' ht => ?_
  rw [← h.kind t t' ht, ← h.text t t' ht]
  cases hkind : t.kind with
  | int =>
    refine .pop fun _ _ _ => ?_
    cases hnumber : Number.ofDigits? t.text.toList with
    | none =>
      refine .reject fun u u' hu => ?_
      rw [← h.kind u u' hu, ← h.text u u' hu]
      exact h.notNumber t t' ht hkind hnumber u u' hu _
    | some n => exact .pure (h.int t t' ht hkind n hnumber)
  | str => exact .pop fun _ _ _ => .pure (h.str t.text)
  | kwTrue => exact .pop fun _ _ _ => .pure (h.bool true)
  | kwFalse => exact .pop fun _ _ _ => .pure (h.bool false)
  | kwNil => exact .pop fun _ _ _ => .pure h.nil
  | kwSelf => exact .pop fun _ _ _ => .pure h.receiver
  | ident => exact .pop fun _ _ _ => h.named he ht hkind
  | lparen => exact .pop fun _ _ _ => h.bracketed he .rparen
  | lbrack =>
    exact .pop fun _ _ _ => .bind (h.items he .rbrack) fun es fs hes => .pure (h.list es fs hes)
  | kwDo =>
    exact .pop fun _ _ _ => .bind (h.blockBody he) fun as bs has => .pure (h.block as bs has)
  | kwIf => exact .pop fun _ _ _ => h.choice he
  | kwWhile => exact .pop fun _ _ _ => h.loopBehind he
  | _ => exact .unexpected h.toPlaces (by decide)

theorem indexes (m : Nat) {a b : Expr} (hab : E a b) :
    Lockstep T X E (indexes e m a) (indexes e' m b) := by
  induction m generalizing a b with
  | zero => exact .pure hab
  | succ m ih =>
    unfold Parser.indexes
    refine .accept h.toPlaces .lbrack fun more => .ite ?_ (.pure hab)
    exact .bind (h.bracketed he .rbrack) fun i j hij => ih (h.index a i b j hab hij)

theorem indexed : Lockstep T X E (indexed e) (indexed e') :=
  (h.primary he).bind fun _ _ hab => .left fun n => h.indexes he n hab

end Brackets

section Nesting

variable {sign sign' : Sign} (hsign : ∀ op a b, E a b → Lockstep T X E (sign op a) (sign' op b))
include hsign

theorem unaryOverBy {e e' o o' : Parser Expr} (he : Lockstep T X E e e')
    (ho : Lockstep T X E o o') :
    Lockstep T X E (unaryOverBy sign o e) (unaryOverBy sign' o' e') := by
  unfold Parser.unaryOverBy
  refine .peek fun t u htu => ?_
  rw [h.kind t u htu]
  cases unaryOp? u.kind with
  | none => exact h.indexed he
  | some op => exact .pop fun _ _ _ => .bind ho fun a b hab => hsign op a b hab

theorem unaryBy (depth : Nat) : Lockstep T X E (unaryBy sign depth) (unaryBy sign' depth) := by
  induction depth with
  | zero => exact h.unaryOverBy hsign (.tooDeep h.toPlaces) (.tooDeep h.toPlaces)
  | succ depth ih => exact h.unaryOverBy hsign (h.binaries ih) ih

theorem exprBy (depth : Nat) : Lockstep T X E (exprBy sign depth) (exprBy sign' depth) := by
  cases depth with
  | zero => exact .tooDeep h.toPlaces
  | succ depth => exact h.binaries (h.unaryBy hsign depth)

/-- What corresponds tree by tree corresponds in whole programs. -/
theorem program : Lockstep T X (List.Forall₂ S) (programBy sign) (programBy sign') :=
  (h.statements (h.exprBy hsign maxNesting) []).bind fun _ _ hp =>
    .expect h.toPlaces .eof fun _ _ _ => .pure hp

/-- What corresponds tree by tree corresponds in expressions that are whole sources. -/
theorem onlyExpr : Lockstep T X E (onlyExprBy sign) (onlyExprBy sign') :=
  .skip h.toPlaces [.newline] (.bind (h.exprBy hsign maxNesting) fun _ _ hab =>
    .skip h.toPlaces [.newline] (.expect h.toPlaces .eof fun _ _ _ => .pure hab))

end Nesting

end Pairing

end CalcShell.Calc
