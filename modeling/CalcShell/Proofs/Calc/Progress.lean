import CalcShell.Proofs.Calc.Cutting

/-!
# Parsers go forward

A parser takes tokens from the front of a stream and leaves the others where they are (`Advances`),
and a parser of expressions takes at least one of them. So a loop that may take as many rounds as
there are tokens left never runs out of rounds. Its result does not depend on the bound, and the
loop meets an equation without one: `operatorsAfter_eq`, `indexesAfter_eq`, `itemsAfter_eq` and
`statementsAfter_eq`.
-/

namespace CalcShell.Calc

/-- Where `p` accepts the stream `s`, it takes at least `k` tokens from the front and leaves the
others, and the end stays in its place. -/
def Advances {α : Type} (k : Nat) (p : Parser α) (s : TokenStream) : Prop :=
  ∀ a t, p s = .ok (a, t) →
    t.stop = s.stop ∧ ∃ used, s.tokens = used ++ t.tokens ∧ k ≤ used.length

namespace Advances

open Calc.Parser

variable {α β : Type} {j k : Nat} {s : TokenStream}

theorem size_le {p : Parser α} (h : Advances k p s) {a : α} {t : TokenStream}
    (hp : p s = .ok (a, t)) : t.size + k ≤ s.size := by
  obtain ⟨-, used, hused, hk⟩ := h a t hp
  rw [TokenStream.size, TokenStream.size, hused, List.length_append]
  omega

theorem mono {p : Parser α} (h : Advances j p s) (hk : k ≤ j) : Advances k p s := by
  intro a t hp
  obtain ⟨hstop, used, hused, hj⟩ := h a t hp
  exact ⟨hstop, used, hused, Nat.le_trans hk hj⟩

theorem pure (a : α) (s : TokenStream) : Advances 0 (Pure.pure a : Parser α) s := by
  intro b t hp
  cases hp
  exact ⟨rfl, [], rfl, Nat.le_refl 0⟩

theorem of_error {p : Parser α} {err : SourceError} (h : p s = .error err) : Advances k p s := by
  intro a t hp
  rw [h] at hp
  cases hp

/-- One parser after the other takes what both take. -/
theorem bind {p : Parser α} {f : α → Parser β} (h : Advances j p s)
    (hf : ∀ a t, Advances k (f a) t) : Advances (j + k) (p >>= f) s := by
  intro b u hb
  obtain ⟨a, t, hp, hfa⟩ := bind_ok hb
  obtain ⟨hstop, used, hused, hj⟩ := h a t hp
  obtain ⟨hstop', used', hused', hk⟩ := hf a t b u hfa
  refine ⟨hstop'.trans hstop, used ++ used', ?_, ?_⟩
  · rw [hused, hused', List.append_assoc]
  · rw [List.length_append]
    omega

theorem peek {f : Token → Parser α} (h : Advances k (f s.peek) s) :
    Advances k (Parser.peek >>= f) s := h

theorem peekSecond {f : Token → Parser α} (h : Advances k (f s.advance.peek) s) :
    Advances k (Parser.peekSecond >>= f) s := h

theorem left {f : Nat → Parser α} (h : Advances k (f s.size) s) :
    Advances k (Parser.left >>= f) s := h

theorem ite {c : Prop} [Decidable c] {p q : Parser α} (hp : c → Advances k p s)
    (hq : ¬c → Advances k q s) : Advances k (if c then p else q) s := by
  by_cases hc : c
  · rw [if_pos hc]
    exact hp hc
  · rw [if_neg hc]
    exact hq hc

/-- Behind the token in front, which is not the end. -/
theorem pop {f : Token → Parser α} (hs : s.peek.kind ≠ .eof) (h : Advances k (f s.peek) s.advance) :
    Advances (k + 1) (Parser.pop >>= f) s := by
  intro a t hp
  obtain ⟨hstop, used, hused, hk⟩ := h a t hp
  cases htokens : s.tokens with
  | nil => exact absurd (Starves.peek_kind htokens) hs
  | cons u us =>
    rw [TokenStream.advance, htokens] at hused
    refine ⟨hstop, u :: used, ?_, Nat.succ_le_succ hk⟩
    rw [show us = used ++ t.tokens from hused, List.cons_append]

theorem skip {p : Parser α} (kinds : List TokenKind) (h : ∀ t, Advances k p t) :
    Advances k (Parser.skip kinds >>= fun _ => p) s := by
  intro a t hp
  obtain ⟨hstop, used, hused, hk⟩ := h (s.without kinds) a t hp
  refine ⟨hstop, (s.tokens.takeWhile fun t => kinds.contains t.kind) ++ used, ?_, ?_⟩
  · rw [List.append_assoc, ← hused]
    exact List.takeWhile_append_dropWhile.symm
  · rw [List.length_append]
    omega

theorem expect {kind : TokenKind} (hkind : kind ≠ .eof) {f : Token → Parser α}
    (h : ∀ t, Advances k (f t) s.advance) : Advances (k + 1) (Parser.expect kind >>= f) s := by
  by_cases hpeek : s.peek.kind = kind
  · have hpop := pop (f := f) (hpeek.symm ▸ hkind) (h s.peek)
    intro a t hp
    rw [bind_of_ok (expect_of_kind hpeek)] at hp
    exact hpop a t hp
  · obtain ⟨err, herr⟩ := expect_of_ne hpeek
    exact of_error (bind_of_error herr)

theorem accept {kind : TokenKind} (hkind : kind ≠ .eof) {f : Bool → Parser α}
    (hyes : Advances j (f true) s.advance) (hk : k ≤ j + 1) (hno : Advances k (f false) s) :
    Advances k (Parser.accept kind >>= f) s := by
  by_cases hpeek : s.peek.kind = kind
  · have hpop := (pop (f := fun _ => f true) (hpeek.symm ▸ hkind) hyes).mono hk
    intro a t hp
    rw [bind_of_ok (accept_of_kind hpeek)] at hp
    exact hpop a t hp
  · intro a t hp
    rw [bind_of_ok (accept_of_ne hpeek)] at hp
    exact hno a t hp

end Advances

/-! ## Operators -/

section Operators

open Calc.Parser

variable {level : Level} {o : Parser Expr} {s : TokenStream}

/-- The end of a source is no operator. -/
def Parser.Level.Ends (level : Level) : Prop := level.operator? .eof = none

theorem Parser.Level.Ends.peek_ne (h : level.Ends) {op : BinaryOp}
    (hop : level.operator? s.peek.kind = some op) : s.peek.kind ≠ .eof := by
  intro hpeek
  rw [hpeek, h] at hop
  cases hop

theorem operators_advances (hlevel : level.Ends) (ho : ∀ s, Advances 1 o s) (m : Nat) (l : Expr)
    (s : TokenStream) : Advances 0 (operators level o m l) s := by
  induction m generalizing l s with
  | zero => exact .pure l s
  | succ m ih =>
    unfold operators
    refine .peek ?_
    cases hop : level.operator? s.peek.kind with
    | none => exact .pure l s
    | some op =>
      refine (Advances.pop (hlevel.peek_ne hop) (.skip [.newline] fun t => ?_)).mono (Nat.zero_le 1)
      refine ((ho t).bind (k := 0) fun r u => ?_).mono (Nat.zero_le _)
      refine .ite (fun _ => ih _ u) fun _ => .peek (.ite (fun _ => .of_error rfl) fun _ => ?_)
      exact .pure _ u

theorem infixed_advances (level : Level) (hlevel : level.Ends) (ho : ∀ s, Advances 1 o s)
    (s : TokenStream) : Advances 1 (infixed level o) s :=
  (ho s).bind (k := 0) fun l t => .left (operators_advances hlevel ho t.size l t)

end Operators

/-! ## Brackets, calls and blocks -/

section Brackets

open Calc.Parser

variable {e : Parser Expr} (he : ∀ s, Advances 1 e s)
include he

theorem itemsFrom_advances {close : TokenKind} (hclose : close ≠ .eof) (m : Nat)
    (items : List Expr) (s : TokenStream) : Advances 0 (itemsFrom e close m items) s := by
  induction m generalizing items s with
  | zero => exact .of_error rfl
  | succ m ih =>
    unfold itemsFrom
    refine .skip [.newline] fun t => .accept hclose (.pure _ _) (Nat.zero_le 1) ?_
    refine ((he t).bind (k := 0) fun item u => ?_).mono (Nat.zero_le _)
    refine .skip [.newline] fun v => .accept (by decide) (ih _ _) (Nat.zero_le 1) ?_
    exact (Advances.expect hclose fun _ => .pure _ _).mono (Nat.zero_le 1)

theorem items_advances {close : TokenKind} (hclose : close ≠ .eof) (s : TokenStream) :
    Advances 0 (items e close) s :=
  .left (itemsFrom_advances he hclose _ [] s)

theorem bracketed_advances {close : TokenKind} (hclose : close ≠ .eof) (s : TokenStream) :
    Advances 1 (bracketed e close) s := by
  refine .skip [.newline] fun t => (he t).bind (k := 0) fun a u => .skip [.newline] fun v => ?_
  exact (Advances.expect hclose fun _ => .pure _ _).mono (Nat.zero_le 1)

theorem statement_advances (s : TokenStream) : Advances 1 (statement e) s := by
  unfold statement
  refine .accept (by decide) ?_ (Nat.le_refl 1) ?_
  · refine (Advances.expect (by decide) fun name => ?_).mono (Nat.zero_le 1)
    refine (Advances.expect (by decide) fun _ => .skip [.newline] fun t => ?_).mono (Nat.zero_le 1)
    exact ((he t).bind fun a u => .pure _ u).mono (Nat.zero_le 1)
  · refine .peek (.peekSecond ?_)
    by_cases hassign : (s.peek.kind = .ident && s.advance.peek.kind = .equal) = true
    · rw [if_pos hassign]
      have hident : s.peek.kind = .ident := by
        simp only [Bool.and_eq_true, decide_eq_true_eq] at hassign
        exact hassign.1
      have hequal : s.advance.peek.kind = .equal := by
        simp only [Bool.and_eq_true, decide_eq_true_eq] at hassign
        exact hassign.2
      refine (Advances.pop (by rw [hident]; decide) ?_).mono (k := 1) (Nat.le_add_left 1 1)
      refine (Advances.pop (by rw [hequal]; decide) ?_).mono (k := 1) (Nat.le_refl 1)
      exact .skip [.newline] fun t => ((he t).bind fun a u => .pure _ u).mono (Nat.zero_le 1)
    · rw [if_neg hassign]
      exact (he s).bind fun a u => .pure _ u

theorem statementsFrom_advances (closers : List TokenKind) (m : Nat) (body : List Stmt)
    (s : TokenStream) : Advances 0 (statementsFrom e closers m body) s := by
  induction m generalizing body s with
  | zero => exact .of_error rfl
  | succ m ih =>
    unfold statementsFrom
    refine .skip [.newline, .semi] fun t => .peek (.ite (fun _ => .pure _ t) fun _ => ?_)
    refine .ite (fun _ => .ite (fun _ => .pure _ t) fun _ => .of_error rfl) fun _ => ?_
    refine ((statement_advances he t).bind (k := 0) fun a u => .peek ?_).mono (Nat.zero_le _)
    exact .ite (fun _ => ih _ u) fun _ => .of_error rfl

theorem statements_advances (closers : List TokenKind) (s : TokenStream) :
    Advances 0 (statements e closers) s :=
  .left (statementsFrom_advances he closers _ [] s)

theorem block_advances (s : TokenStream) : Advances 0 (block e) s :=
  (statements_advances he _ s).bind fun _ _ =>
    (Advances.expect (by decide) fun _ => .pure _ _).mono (Nat.zero_le 1)

theorem choice_advances (s : TokenStream) : Advances 0 (choice e) s := by
  refine ((he s).bind (k := 0) fun test t => .skip [.newline] fun u => ?_).mono (Nat.zero_le _)
  refine (Advances.expect (by decide) fun _ => ?_).mono (Nat.zero_le 1)
  refine (statements_advances he _ _).bind fun yes v => .accept (by decide) ?_ (Nat.zero_le 1) ?_
  · exact (block_advances he _).bind fun no x => .pure _ x
  · exact (Advances.expect (by decide) fun _ => .pure _ _).mono (Nat.zero_le 1)

theorem loop_advances (s : TokenStream) : Advances 0 (loop e) s := by
  refine ((he s).bind (k := 0) fun test t => .skip [.newline] fun u => ?_).mono (Nat.zero_le _)
  refine (Advances.expect (by decide) fun _ => ?_).mono (Nat.zero_le 1)
  exact (block_advances he _).bind fun body v => .pure _ v

theorem named_advances (name : Token) (s : TokenStream) : Advances 0 (named e name) s := by
  refine .accept (by decide) ?_ (Nat.zero_le 1) (.pure _ s)
  exact (items_advances he (by decide) _).bind fun args t => .pure _ t

/-- An expression without operators takes at least the token that it starts with. -/
theorem primary_advances (s : TokenStream) : Advances 1 (primary e) s := by
  unfold primary
  refine .peek ?_
  have hpop : ∀ {f : Token → Parser Expr}, s.peek.kind ≠ .eof → Advances 0 (f s.peek) s.advance →
      Advances 1 (pop >>= f) s := fun hs h => Advances.pop hs h
  cases hk : s.peek.kind with
  | int =>
    refine hpop (by rw [hk]; decide) ?_
    split
    · exact .pure _ _
    · exact .of_error rfl
  | str => exact hpop (by rw [hk]; decide) (.pure _ _)
  | kwTrue => exact hpop (by rw [hk]; decide) (.pure _ _)
  | kwFalse => exact hpop (by rw [hk]; decide) (.pure _ _)
  | kwNil => exact hpop (by rw [hk]; decide) (.pure _ _)
  | kwSelf => exact hpop (by rw [hk]; decide) (.pure _ _)
  | ident => exact hpop (by rw [hk]; decide) (named_advances he _ _)
  | lparen =>
    exact hpop (by rw [hk]; decide) ((bracketed_advances he (by decide) _).mono (Nat.zero_le 1))
  | lbrack =>
    exact hpop (by rw [hk]; decide)
      ((items_advances he (by decide) _).bind fun items t => .pure _ t)
  | kwDo => exact hpop (by rw [hk]; decide) ((block_advances he _).bind fun body t => .pure _ t)
  | kwIf => exact hpop (by rw [hk]; decide) (choice_advances he _)
  | kwWhile => exact hpop (by rw [hk]; decide) (loop_advances he _)
  | _ => exact .of_error rfl

theorem indexes_advances (m : Nat) (a : Expr) (s : TokenStream) :
    Advances 0 (indexes e m a) s := by
  induction m generalizing a s with
  | zero => exact .pure a s
  | succ m ih =>
    unfold indexes
    refine .accept (j := 0) (by decide) ?_ (Nat.zero_le 1) (.pure a s)
    refine ((bracketed_advances he (by decide) _).bind (k := 0) fun i t => ?_).mono (Nat.zero_le _)
    exact ih _ t

theorem indexed_advances (s : TokenStream) : Advances 1 (indexed e) s :=
  (primary_advances he s).bind (k := 0) fun a t => .left (indexes_advances he t.size a t)

/-- An operand takes at least one token if what stands behind an operator and the expressions inside
do. -/
theorem unaryOver_advances {o : Parser Expr} (ho : ∀ s, Advances 1 o s) (s : TokenStream) :
    Advances 1 (unaryOver o e) s := by
  unfold unaryOver
  refine .peek ?_
  cases hop : unaryOp? s.peek.kind with
  | none => exact indexed_advances he s
  | some op =>
    have hpeek : s.peek.kind ≠ .eof := by
      intro hpeek
      rw [hpeek] at hop
      cases hop
    refine (Advances.pop hpeek ?_).mono (k := 1) (Nat.le_refl 1)
    exact ((ho _).bind (k := 0) fun a t => .pure _ t).mono (Nat.zero_le _)

end Brackets

/-! ## Loops without a bound -/

section Loops

open Calc.Parser

variable {s : TokenStream}

theorem Parser.bind_congr {α β : Type} {p : Parser α} {f g : α → Parser β}
    (h : ∀ a t, p s = .ok (a, t) → f a t = g a t) : (p >>= f) s = (p >>= g) s := by
  rw [bind_apply, bind_apply]
  generalize p s = x at h
  obtain err | ⟨a, t⟩ := x
  · rfl
  · exact h a t rfl

theorem Parser.if_congr_apply {α : Type} {c : Prop} [Decidable c] {p p' q q' : Parser α}
    (hp : p s = p' s) (hq : q s = q' s) :
    (if c then p else q : Parser α) s = (if c then p' else q' : Parser α) s := by
  rw [if_apply, if_apply, hp, hq]

theorem TokenStream.advance_size_lt (hs : s.peek.kind ≠ .eof) : s.advance.size < s.size := by
  cases htokens : s.tokens with
  | nil => exact absurd (Starves.peek_kind htokens) hs
  | cons t ts =>
    rw [advance, size, size, htokens]
    exact Nat.lt_succ_self _

theorem TokenStream.without_size_le (kinds : List TokenKind) (s : TokenStream) :
    (s.without kinds).size ≤ s.size :=
  (List.dropWhile_sublist _).length_le

/-- A round of a loop, where `again` goes on with the next one, goes on only with fewer tokens. -/
def Shrinks {α β : Type} (round : (α → Parser β) → α → Parser β) : Prop :=
  ∀ f g a s, (∀ b t, t.size < s.size → f b t = g b t) → round f a s = round g a s

/-- A loop each round of which goes on with fewer tokens does the same under every bound on its
rounds that is at least the number of tokens. -/
theorem Shrinks.unroll {α β : Type} {round : (α → Parser β) → α → Parser β} (h : Shrinks round)
    (loop : Nat → α → Parser β) (hloop : ∀ m, loop (m + 1) = round (loop m))
    (hzero : ∀ a s, s.size = 0 → loop 0 a s = round (loop 0) a s) {m : Nat} (a : α)
    (hm : s.size ≤ m) : loop m a s = round (fun b t => loop t.size b t) a s := by
  induction hn : s.size using Nat.strongRecOn generalizing m a s with
  | _ n ih =>
    -- Where fewer tokens are left, any bound will do, also the number of tokens itself.
    have hless : ∀ k, s.size ≤ k + 1 → ∀ b t, t.size < s.size → loop k b t = loop t.size b t := by
      intro k hk b t ht
      rw [ih t.size (by omega) b (by omega) rfl, ih t.size (by omega) b (Nat.le_refl _) rfl]
    cases m with
    | zero =>
      rw [hzero a s (by omega)]
      exact h _ _ a s fun b t ht => absurd ht (by omega)
    | succ m =>
      rw [hloop]
      exact h _ _ a s (hless m hm)

/-- The rounds of a loop may also be bounded by one more than the number of tokens. -/
theorem Shrinks.unroll_succ {α β : Type} {round : (α → Parser β) → α → Parser β}
    (h : Shrinks round) (loop : Nat → α → Parser β) (hloop : ∀ m, loop (m + 1) = round (loop m))
    (a : α) (s : TokenStream) :
    loop (s.size + 1) a s = round (fun b t => loop (t.size + 1) b t) a s := by
  refine h.unroll (fun m => loop (m + 1)) (fun m => hloop (m + 1)) ?_ a (Nat.le_refl _)
  intro b t ht
  change loop 1 b t = round (loop 1) b t
  rw [hloop]
  exact h _ _ b t fun _ u hu => absurd hu (by omega)

/-- A round of going on with the operators of a level. -/
def Parser.operatorsRound (level : Level) (o : Parser Expr) (again : Expr → Parser Expr)
    (l : Expr) : Parser Expr := do
  match level.operator? (← peek).kind with
  | none => pure l
  | some op =>
    let _ ← pop
    skipNewlines
    let r ← o
    if level.chains then again (.binary op l r)
    else if (level.operator? (← peek).kind).isSome then unexpected .comparisonEnd
    else pure (.binary op l r)

/-- Goes on behind the expression `l` with the operators of a level. -/
def Parser.operatorsAfter (level : Level) (o : Parser Expr) (l : Expr) : Parser Expr := do
  operators level o (← left) l

theorem operatorsRound_shrinks {level : Level} (hlevel : level.Ends) {o : Parser Expr}
    (ho : ∀ s, Advances 1 o s) : Shrinks (operatorsRound level o) := by
  intro f g l s h
  refine bind_congr fun t u hpeek => ?_
  cases hpeek
  cases hop : level.operator? s.peek.kind with
  | none => rfl
  | some op =>
    have hadvance := TokenStream.advance_size_lt (hlevel.peek_ne hop)
    have hwithout := s.advance.without_size_le [.newline]
    refine bind_congr fun _ u hpop => bind_congr fun _ v hskip => bind_congr fun r x hr => ?_
    cases hpop
    cases hskip
    have hsize : x.size + 1 ≤ (s.advance.without [.newline]).size := (ho _).size_le hr
    rw [if_apply, if_apply, h _ x (by omega)]

/-- Going on with operators takes a round and goes on. -/
theorem operatorsAfter_eq {level : Level} (hlevel : level.Ends) {o : Parser Expr}
    (ho : ∀ s, Advances 1 o s) :
    operatorsAfter level o = operatorsRound level o (operatorsAfter level o) := by
  funext l s
  refine (operatorsRound_shrinks hlevel ho).unroll (operators level o) (fun _ => rfl) ?_ l
    (Nat.le_refl _)
  intro l s hs
  have hpeek : peek s = .ok (s.peek, s) := rfl
  rw [operatorsRound, bind_of_ok hpeek, Starves.peek_kind (List.length_eq_zero_iff.1 hs), hlevel]
  rfl

variable {e : Parser Expr} (he : ∀ s, Advances 1 e s)

/-- A round of going on with indexes. -/
def Parser.indexesRound (e : Parser Expr) (again : Expr → Parser Expr) (a : Expr) :
    Parser Expr := do
  if ← accept .lbrack then again (.index a (← bracketed e .rbrack)) else pure a

/-- Goes on behind the expression `a` with indexes. -/
def Parser.indexesAfter (e : Parser Expr) (a : Expr) : Parser Expr := do
  indexes e (← left) a

/-- A round of going on with items, of which those read so far stand the last first. -/
def Parser.itemsRound (e : Parser Expr) (close : TokenKind)
    (again : List Expr → Parser (List Expr)) (items : List Expr) : Parser (List Expr) := do
  skipNewlines
  if ← accept close then return items.reverse
  let item ← e
  skipNewlines
  if ← accept .comma then again (item :: items)
  else
    let _ ← expect close
    return (item :: items).reverse

/-- Goes on behind the items read so far up to a closing bracket. -/
def Parser.itemsAfter (e : Parser Expr) (close : TokenKind) (items : List Expr) :
    Parser (List Expr) := do
  itemsFrom e close ((← left) + 1) items

/-- A round of going on with statements, of which those read so far stand the last first. -/
def Parser.statementsRound (e : Parser Expr) (closers : List TokenKind)
    (again : List Stmt → Parser (List Stmt)) (body : List Stmt) : Parser (List Stmt) := do
  skip [.newline, .semi]
  let kind := (← peek).kind
  if closers.contains kind then return body.reverse
  if kind = .eof then
    if closers.isEmpty then return body.reverse else unexpected .blockEnd
  else
    let stmt ← statement e
    let kind := (← peek).kind
    if [.newline, .semi, .eof].contains kind || closers.contains kind then again (stmt :: body)
    else unexpected .separator

/-- Goes on behind the statements read so far up to one of the closing kinds, or to the end. -/
def Parser.statementsAfter (e : Parser Expr) (closers : List TokenKind) (body : List Stmt) :
    Parser (List Stmt) := do
  statementsFrom e closers ((← left) + 1) body

/-- A round of reading the statements of a whole source. -/
theorem statementsRound_nil (e : Parser Expr) (again : List Stmt → Parser (List Stmt))
    (body : List Stmt) (s : TokenStream) :
    statementsRound e [] again body s =
      if (s.without [.newline, .semi]).peek.kind = .eof then
        .ok (body.reverse, s.without [.newline, .semi])
      else
        match statement e (s.without [.newline, .semi]) with
        | .error err => .error err
        | .ok (a, t) =>
          if [.newline, .semi, .eof].contains t.peek.kind then again (a :: body) t
          else unexpected .separator t := by
  have hskip : skip [.newline, .semi] s = .ok ((), s.without [.newline, .semi]) := rfl
  rw [statementsRound, bind_of_ok hskip]
  generalize s.without [.newline, .semi] = u
  have hpeek : peek u = .ok (u.peek, u) := rfl
  rw [bind_of_ok hpeek]
  change (if u.peek.kind = .eof then pure body.reverse
    else do
      let a ← statement e
      let t ← peek
      if ([.newline, .semi, .eof].contains t.kind || false) = true then again (a :: body)
      else unexpected .separator : Parser Program) u = _
  rw [if_apply]
  by_cases hk : u.peek.kind = .eof
  · rw [if_pos hk, if_pos hk]
    rfl
  · rw [if_neg hk, if_neg hk, bind_apply]
    generalize statement e u = x
    obtain err | ⟨a, t⟩ := x
    · rfl
    · simp only [Bool.or_false]
      exact if_apply _ _ _ t

theorem accept_congr {β : Type} {kind : TokenKind} (hkind : kind ≠ .eof) {f g : Bool → Parser β}
    (hyes : s.advance.size < s.size → f true s.advance = g true s.advance)
    (hno : f false s = g false s) : (accept kind >>= f) s = (accept kind >>= g) s := by
  by_cases hpeek : s.peek.kind = kind
  · rw [bind_of_ok (accept_of_kind hpeek), bind_of_ok (accept_of_kind hpeek)]
    exact hyes (TokenStream.advance_size_lt (hpeek.symm ▸ hkind))
  · rw [bind_of_ok (accept_of_ne hpeek), bind_of_ok (accept_of_ne hpeek)]
    exact hno

include he

theorem indexesRound_shrinks : Shrinks (indexesRound e) := by
  intro f g a s h
  refine accept_congr (by decide) (fun hadvance => ?_) rfl
  refine bind_congr fun i t hi => ?_
  have hsize := (bracketed_advances he (by decide) s.advance).size_le hi
  exact h _ t (by omega)

/-- Going on with indexes takes a round and goes on. -/
theorem indexesAfter_eq : indexesAfter e = indexesRound e (indexesAfter e) := by
  funext a s
  refine (indexesRound_shrinks he).unroll (indexes e) (fun _ => rfl) ?_ a (Nat.le_refl _)
  intro a s hs
  have hpeek : s.peek.kind ≠ .lbrack := by
    rw [Starves.peek_kind (List.length_eq_zero_iff.1 hs)]
    decide
  rw [indexesRound, bind_of_ok (accept_of_ne hpeek)]
  rfl

theorem itemsRound_shrinks {close : TokenKind} (hclose : close ≠ .eof) :
    Shrinks (itemsRound e close) := by
  intro f g items s h
  refine bind_congr fun _ t ht => accept_congr hclose (fun _ => rfl) ?_
  cases ht
  have hwithout := s.without_size_le [.newline]
  refine bind_congr fun item u hitem => bind_congr fun _ v hv => ?_
  cases hv
  have hsize : u.size + 1 ≤ (s.without [.newline]).size := (he _).size_le hitem
  have hwithout' := u.without_size_le [.newline]
  refine accept_congr (by decide) (fun hadvance => ?_) rfl
  change _ < (u.without [.newline]).size at hadvance
  exact h _ _ (by omega)

/-- Going on with items takes a round and goes on. -/
theorem itemsAfter_eq {close : TokenKind} (hclose : close ≠ .eof) :
    itemsAfter e close = itemsRound e close (itemsAfter e close) := by
  funext items s
  exact (itemsRound_shrinks he hclose).unroll_succ (itemsFrom e close) (fun _ => rfl) items s

theorem statementsRound_shrinks (closers : List TokenKind) :
    Shrinks (statementsRound e closers) := by
  intro f g body s h
  refine bind_congr fun _ t ht => bind_congr fun t' u hu => ?_
  cases ht
  cases hu
  have hwithout := s.without_size_le [.newline, .semi]
  refine if_congr_apply rfl (if_congr_apply rfl ?_)
  refine bind_congr fun stmt v hv => bind_congr fun t'' x hx => ?_
  cases hx
  have hsize : v.size + 1 ≤ (s.without [.newline, .semi]).size :=
    (statement_advances he _).size_le hv
  rw [if_apply, if_apply, h _ v (by omega)]

/-- Going on with statements takes a round and goes on. -/
theorem statementsAfter_eq (closers : List TokenKind) :
    statementsAfter e closers = statementsRound e closers (statementsAfter e closers) := by
  funext body s
  exact (statementsRound_shrinks he closers).unroll_succ (statementsFrom e closers)
    (fun _ => rfl) body s

end Loops

end CalcShell.Calc
