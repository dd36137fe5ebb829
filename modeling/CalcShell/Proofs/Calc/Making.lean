import CalcShell.Proofs.Calc.Lockstep

/-!
# What parsers make of tokens

A parser makes trees of the tokens of a stream and of nothing else, and it rejects a stream at one
of its tokens. So a property of trees that is kept by putting trees together, and that holds of
variables and numbers which are tokens of the stream, holds of all trees that are read from it, and
likewise for errors. What this takes is one record (`Making`), with a clause for each kind of tree
and for the errors. The parser is then in lockstep with itself, where what has the property
corresponds to itself and nothing else corresponds (`Making.pairing`), and so the trees of whole
sources have it: `Making.program` and `Making.onlyExpr`.
-/

namespace CalcShell.Calc

/-- The token in front is one of the tokens, the end included. -/
theorem TokenStream.peek_mem_all (s : TokenStream) : s.peek ∈ s.all := by
  unfold peek all
  cases s.tokens with
  | nil => exact List.mem_singleton.2 rfl
  | cons t ts => exact List.mem_cons_self

/-! ## Parsers -/

/-- Errors at tokens that satisfy `T` satisfy `X`, where it is no number that was expected. -/
def RejectsAt (T : Token → Prop) (X : SourceError → Prop) : Prop :=
  ∀ t, T t → ∀ cause : Cause, cause.expected? ≠ some .integer → X ⟨cause, t.position⟩

/-- Out of a stream of tokens that satisfy `T`, the end being one of them, `p` makes a result that
satisfies `R` and leaves such tokens, or it rejects the stream for an error that satisfies `X`. -/
def Abides (T : Token → Prop) (X : SourceError → Prop) {α : Type} (R : α → Prop) (p : Parser α) :
    Prop :=
  ∀ s : TokenStream, (∀ t ∈ s.all, T t) →
    match p s with
    | .ok (a, u) => R a ∧ ∀ t ∈ u.all, T t
    | .error err => X err

/-- What satisfies `P` corresponds to itself. -/
def Same {α : Type} (P : α → Prop) (a b : α) : Prop := P a ∧ a = b

/-- A list whose elements satisfy `P` corresponds to itself. -/
theorem forall₂_same_iff {α : Type} {P : α → Prop} {as bs : List α} :
    List.Forall₂ (Same P) as bs ↔ (∀ a ∈ as, P a) ∧ as = bs := by
  unfold Same
  rw [List.forall₂_and_left, List.forall₂_eq_eq_eq]

/-- Streams of tokens that satisfy `T` correspond to themselves. -/
theorem TokenStream.alongside_same_iff {T : Token → Prop} {s u : TokenStream} :
    s.Alongside (Same T) u ↔ (∀ t ∈ s.all, T t) ∧ s = u := by
  unfold TokenStream.all
  rw [List.forall_mem_append, List.forall_mem_singleton]
  constructor
  · rintro ⟨htokens, hlast, hstop⟩
    obtain ⟨hall, heq⟩ := forall₂_same_iff.1 htokens
    refine ⟨⟨hall, hlast⟩, ?_⟩
    obtain ⟨ts, stop⟩ := s
    obtain ⟨us, stop'⟩ := u
    rw [TokenStream.mk.injEq]
    exact ⟨heq, congrArg Token.position hstop⟩
  · rintro ⟨⟨hall, hlast⟩, rfl⟩
    exact ⟨forall₂_same_iff.2 ⟨hall, rfl⟩, hlast, rfl⟩

namespace Abides

open Calc.Parser

variable {T : Token → Prop} {X : SourceError → Prop} {β : Type} {R : β → Prop} {p : Parser β}

/-- A parser in lockstep with itself. -/
theorem of_lockstep (h : Lockstep (Same T) (Same X) (Same R) p p) : Abides T X R p := by
  intro s hs
  have hp := h s s (TokenStream.alongside_same_iff.2 ⟨hs, rfl⟩)
  generalize p s = x at hp
  cases hp with
  | ok hb hrest => exact ⟨hb.1, (TokenStream.alongside_same_iff.1 hrest).1⟩
  | error herr => exact herr.1

/-- What becomes of a source, where the errors of the lexer satisfy `X` also. -/
theorem run {src : String} (hX : ∀ err, lex src = .error err → X err)
    (hp : ∀ s, lex src = .ok s → Abides (· ∈ s.all) X R p) :
    (∀ b, p.run src = .ok b → R b) ∧ ∀ err, p.run src = .error err → X err := by
  unfold Parser.run
  cases hlex : lex src with
  | error err =>
    refine ⟨fun b h => (nomatch h), fun err' h => ?_⟩
    cases h
    exact hX err hlex
  | ok s =>
    have hs := hp s hlex s fun _ ht => ht
    dsimp only
    generalize p s = x at hs
    obtain err | ⟨b, u⟩ := x
    · refine ⟨fun b h => (nomatch h), fun err' h => ?_⟩
      cases h
      exact hs
    · refine ⟨fun b' h => ?_, fun err h => nomatch h⟩
      cases h
      exact hs.1

end Abides

/-! ## The grammar -/

/-- Expressions made of tokens that satisfy `T` satisfy `E` if the trees inside do, and statements
`S`; errors at the tokens satisfy `X`. -/
structure Making (T : Token → Prop) (X : SourceError → Prop) (E : Expr → Prop) (S : Stmt → Prop) :
    Prop where
  /-- A token is not what was expected, or stands too deep. -/
  rejects : RejectsAt T X
  /-- A number that is none is rejected at the token behind it. -/
  notNumber : ∀ t, T t → t.kind = .int → Number.ofDigits? t.text.toList = none →
    ∀ u, T u → ∀ cause, X ⟨cause, u.position⟩
  nil : E .nil
  bool : ∀ b, E (.bool b)
  int : ∀ t, T t → t.kind = .int → ∀ n, Number.ofDigits? t.text.toList = some n → E (.int n)
  str : ∀ s, E (.str s)
  receiver : E .receiver
  var : ∀ t, T t → t.kind = .ident → E (.var t.text t.position.offset)
  list : ∀ es, (∀ e ∈ es, E e) → E (.list es)
  unary : ∀ op e, E e → E (Parser.applyUnary op e)
  binary : ∀ op l r, E l → E r → E (.binary op l r)
  index : ∀ t i, E t → E i → E (.index t i)
  call : ∀ name args, (∀ e ∈ args, E e) → E (.call name args)
  block : ∀ body, (∀ a ∈ body, S a) → E (.block body)
  cond : ∀ t yes, E t → (∀ a ∈ yes, S a) → E (.cond t yes none)
  condElse : ∀ t yes no, E t → (∀ a ∈ yes, S a) → (∀ a ∈ no, S a) → E (.cond t yes (some no))
  loop : ∀ t body, E t → (∀ a ∈ body, S a) → E (.loop t body)
  define : ∀ name e, E e → S (.define name e)
  assign : ∀ name e, E e → S (.assign name e)
  expr : ∀ e, E e → S (.expr e)

namespace Making

open Calc.Parser

variable {T : Token → Prop} {X : SourceError → Prop} {E : Expr → Prop} {S : Stmt → Prop}
  (h : Making T X E S)
include h

/-- Trees that are put together of trees with the properties have them and correspond to themselves.
-/
theorem pairing : Pairing (Same T) (Same X) (Same E) (Same S) where
  kind := fun _ _ ⟨_, heq⟩ => congrArg Token.kind heq
  text := fun _ _ ⟨_, heq⟩ => congrArg Token.text heq
  rejects := fun t _ ⟨ht, heq⟩ cause hcause => heq ▸ ⟨h.rejects t ht cause hcause, rfl⟩
  notNumber := fun t _ ⟨ht, _⟩ hkind hnone u _ ⟨hu, heq⟩ cause =>
    heq ▸ ⟨h.notNumber t ht hkind hnone u hu cause, rfl⟩
  nil := ⟨h.nil, rfl⟩
  bool b := ⟨h.bool b, rfl⟩
  int := fun t _ ⟨ht, _⟩ hkind n hn => ⟨h.int t ht hkind n hn, rfl⟩
  str s := ⟨h.str s, rfl⟩
  receiver := ⟨h.receiver, rfl⟩
  var := fun t _ ⟨ht, heq⟩ hkind => heq ▸ ⟨h.var t ht hkind, rfl⟩
  list es _ hes := by
    obtain ⟨hes', rfl⟩ := forall₂_same_iff.1 hes
    exact ⟨h.list es hes', rfl⟩
  binary := by
    rintro op l r _ _ ⟨hl, rfl⟩ ⟨hr, rfl⟩
    exact ⟨h.binary op l r hl hr, rfl⟩
  index := by
    rintro t i _ _ ⟨ht, rfl⟩ ⟨hi, rfl⟩
    exact ⟨h.index t i ht hi, rfl⟩
  call name es _ hes := by
    obtain ⟨hes', rfl⟩ := forall₂_same_iff.1 hes
    exact ⟨h.call name es hes', rfl⟩
  block as _ has := by
    obtain ⟨has', rfl⟩ := forall₂_same_iff.1 has
    exact ⟨h.block as has', rfl⟩
  cond := by
    rintro t yes _ _ ⟨ht, rfl⟩ hyes
    obtain ⟨hyes', rfl⟩ := forall₂_same_iff.1 hyes
    exact ⟨h.cond t yes ht hyes', rfl⟩
  condElse := by
    rintro t yes no _ _ _ ⟨ht, rfl⟩ hyes hno
    obtain ⟨hyes', rfl⟩ := forall₂_same_iff.1 hyes
    obtain ⟨hno', rfl⟩ := forall₂_same_iff.1 hno
    exact ⟨h.condElse t yes no ht hyes' hno', rfl⟩
  loop := by
    rintro t as _ _ ⟨ht, rfl⟩ has
    obtain ⟨has', rfl⟩ := forall₂_same_iff.1 has
    exact ⟨h.loop t as ht has', rfl⟩
  define := fun name e _ ⟨he, heq⟩ => heq ▸ ⟨h.define name e he, rfl⟩
  assign := fun name e _ ⟨he, heq⟩ => heq ▸ ⟨h.assign name e he, rfl⟩
  expr := fun e _ ⟨he, heq⟩ => heq ▸ ⟨h.expr e he, rfl⟩

/-- An operator is put in front of a tree that satisfies `E`. -/
theorem negate (op : UnaryOp) (a b : Expr) (hab : Same E a b) :
    Lockstep (Same T) (Same X) (Same E) (negate op a) (negate op b) := by
  obtain ⟨ha, rfl⟩ := hab
  exact .pure ⟨h.unary op a ha, rfl⟩

/-- What holds tree by tree holds of all statements of a program. -/
theorem program : Abides T X (fun ss => ∀ a ∈ ss, S a) program := by
  have hprogram := h.pairing.program h.negate
  rw [programBy_negate] at hprogram
  refine .of_lockstep fun s u hsu => ?_
  exact (hprogram s u hsu).mono fun _ _ => forall₂_same_iff.1

/-- What holds tree by tree holds of an expression that is a whole source. -/
theorem onlyExpr : Abides T X E onlyExpr := by
  have hexpr := h.pairing.onlyExpr h.negate
  rw [onlyExprBy_negate] at hexpr
  exact .of_lockstep hexpr

end Making

end CalcShell.Calc
