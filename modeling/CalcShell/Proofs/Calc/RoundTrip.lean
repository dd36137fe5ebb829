import CalcShell.Proofs.Calc.Foresight
import CalcShell.Proofs.Calc.Printing
import CalcShell.Proofs.Calc.Programs

/-!
# Reading back what was written

The text of a writable tree that is not too high is read as the tree, apart from offsets
(`parseProgram_print`).

Between the words of the text and what follows, a parser either gives its result at once or goes on
behind it: behind a left operand with more operators, and behind what is indexed with more indexes
(`Leads`). So an operand is read at its own level first, and then at every looser one
(`Leads.looser`). What follows must not be taken for a part of the expression (`Clear`).
-/

namespace CalcShell.Calc

open Calc.Parser

/-! ## Parsers on words -/

/-- The kind of the first word, or of what follows if there is none. -/
def firstKind (ws : List Word) (next : TokenKind) : TokenKind := (ws.map Prod.fst).headD next

theorem firstKind_append (ws vs : List Word) (next : TokenKind) :
    firstKind (ws ++ vs) next = firstKind ws (firstKind vs next) := by
  cases ws <;> rfl

theorem TokenStream.behind_firstKind {ts : List Token} {ws : List Word} (s : TokenStream)
    (h : words ts = ws) : (s.behind ts).peek.kind = firstKind ws s.peek.kind := by
  subst h
  cases ts <;> rfl

/-- In front of a token whose kind `F` holds of, `p` takes words and goes on behind them as `go`
does with a result that `like` holds of. -/
def Leads {α β : Type} (F : TokenKind → Prop) (ws : List Word) (p : Parser β) (go : α → Parser β)
    (like : α → Prop) : Prop :=
  ∀ ts (s : TokenStream), words ts = ws → F s.peek.kind → ∃ a, p (s.behind ts) = go a s ∧ like a

/-- In front of a token whose kind `F` holds of, `p` takes words and gives a result that `like`
holds of. -/
def Reads {α : Type} (F : TokenKind → Prop) (ws : List Word) (p : Parser α) (like : α → Prop) :
    Prop :=
  Leads F ws p pure like

namespace Leads

variable {α β γ : Type} {F G : TokenKind → Prop} {ws vs : List Word} {w : Word} {k : TokenKind}
  {text : String} {go : α → Parser β} {like : α → Prop}

theorem refl {a : α} (h : like a) : Leads F [] (go a) go like := by
  intro ts s hts _
  rw [List.map_eq_nil_iff.1 hts]
  exact ⟨a, rfl, h⟩

theorem mono {p : Parser β} (h : Leads F ws p go like) (hF : ∀ k, G k → F k) :
    Leads G ws p go like :=
  fun ts s hts hs => h ts s hts (hF _ hs)

theorem imp {p : Parser β} {like' : α → Prop} (h : Leads F ws p go like)
    (hlike : ∀ a, like a → like' a) : Leads F ws p go like' := by
  intro ts s hts hs
  obtain ⟨a, hp, ha⟩ := h ts s hts hs
  exact ⟨a, hp, hlike a ha⟩

/-- What goes on behind some words with others. -/
theorem append {p : Parser β} {mid : γ → Parser β} {like' : γ → Prop} (h : Leads G ws p mid like')
    (hF : ∀ k, F k → G (firstKind vs k)) (hmid : ∀ c, like' c → Leads F vs (mid c) go like) :
    Leads F (ws ++ vs) p go like := by
  intro ts s hts hs
  obtain ⟨ts₁, ts₂, rfl, h₁, h₂⟩ := List.map_eq_append_iff.1 hts
  have hnext : G (s.behind ts₂).peek.kind := by
    rw [s.behind_firstKind h₂]
    exact hF _ hs
  obtain ⟨c, hp, hc⟩ := h ts₁ (s.behind ts₂) h₁ hnext
  obtain ⟨a, hgo, ha⟩ := hmid c hc ts₂ s h₂ hs
  rw [TokenStream.behind_append, hp]
  exact ⟨a, hgo, ha⟩

/-- One parser after the other. -/
theorem bind {p : Parser γ} {f : γ → Parser β} {like' : γ → Prop} (h : Reads G ws p like')
    (hF : ∀ k, F k → G (firstKind vs k)) (hf : ∀ c, like' c → Leads F vs (f c) go like) :
    Leads F (ws ++ vs) (p >>= f) go like := by
  have hbind : Leads G ws (p >>= f) f like' := by
    intro ts s hts hs
    obtain ⟨c, hp, hc⟩ := h ts s hts hs
    exact ⟨c, bind_of_ok hp, hc⟩
  exact hbind.append hF hf

/-- What goes on behind all the words. -/
theorem bind_last {p : Parser γ} {f : γ → Parser β} {like' : γ → Prop} (h : Reads F ws p like')
    (hf : ∀ c, like' c → Leads F [] (f c) go like) : Leads F ws (p >>= f) go like := by
  rw [← List.append_nil ws]
  exact .bind h (fun _ hk => hk) hf

/-- The result of a parser, put into a larger tree. -/
theorem map {p : Parser γ} {f : γ → α} {like' : γ → Prop} (h : Reads F ws p like')
    (hf : ∀ c, like' c → like (f c)) : Reads F ws (p >>= fun c => pure (f c)) like :=
  .bind_last h fun c hc => .refl (hf c hc)

theorem peek {f : Token → Parser β}
    (h : ∀ t : Token, t.word = w → Leads F (w :: ws) (f t) go like) :
    Leads F (w :: ws) (Parser.peek >>= f) go like := by
  intro ts s hts hs
  cases ts with
  | nil => cases hts
  | cons t ts => exact h t (List.cons.inj hts).1 (t :: ts) s hts hs

/-- The kind of the first token is that of the first word, or of what follows. -/
theorem peekKind {f : Token → Parser β}
    (h : ∀ t : Token, (∃ k, F k ∧ t.kind = firstKind ws k) → Leads F ws (f t) go like) :
    Leads F ws (Parser.peek >>= f) go like := by
  intro ts s hts hs
  exact h (s.behind ts).peek ⟨_, hs, s.behind_firstKind hts⟩ ts s hts hs

/-- The kind of the second token is that of the second word, or of what follows. -/
theorem peekSecond {f : Token → Parser β}
    (h : ∀ u : Token, (∃ k, F k ∧ u.kind = firstKind ws k) → Leads F (w :: ws) (f u) go like) :
    Leads F (w :: ws) (Parser.peekSecond >>= f) go like := by
  intro ts s hts hs
  cases ts with
  | nil => cases hts
  | cons t ts =>
    have hsecond : (s.behind ts).peek.kind = firstKind ws s.peek.kind :=
      s.behind_firstKind (List.cons.inj hts).2
    exact h (s.behind ts).peek ⟨_, hs, hsecond⟩ (t :: ts) s hts hs

theorem pop {f : Token → Parser β} (h : ∀ t, Leads F ws (f t) go like) :
    Leads F (w :: ws) (Parser.pop >>= f) go like := by
  intro ts s hts hs
  cases ts with
  | nil => cases hts
  | cons t ts => exact h t ts s (List.cons.inj hts).2 hs

theorem expect {f : Token → Parser β} (h : ∀ t : Token, t.text = text → Leads F ws (f t) go like) :
    Leads F ((k, text) :: ws) (Parser.expect k >>= f) go like := by
  intro ts s hts hs
  have hpeek : (s.behind ts).peek.kind = k := s.behind_firstKind hts
  cases ts with
  | nil => cases hts
  | cons t ts =>
    obtain ⟨hword, hts⟩ := List.cons.inj hts
    rw [bind_of_ok (expect_of_kind hpeek)]
    exact h t (Prod.mk.inj hword).2 ts s hts hs

/-- The word that may stand there does. -/
theorem accept_yes {f : Bool → Parser β} (h : Leads F ws (f true) go like) :
    Leads F ((k, text) :: ws) (Parser.accept k >>= f) go like := by
  intro ts s hts hs
  have hpeek : (s.behind ts).peek.kind = k := s.behind_firstKind hts
  rw [bind_of_ok (accept_of_kind hpeek)]
  exact pop (w := (k, text)) (f := fun _ => f true) (fun _ => h) ts s hts hs

/-- The word that may stand there does not. -/
theorem accept_no (hk : ∀ next, F next → firstKind ws next ≠ k) {f : Bool → Parser β}
    (h : Leads F ws (f false) go like) : Leads F ws (Parser.accept k >>= f) go like := by
  intro ts s hts hs
  have hpeek : (s.behind ts).peek.kind ≠ k := by
    rw [s.behind_firstKind hts]
    exact hk _ hs
  rw [bind_of_ok (accept_of_ne hpeek)]
  exact h ts s hts hs

/-- There is nothing to skip. -/
theorem skip {kinds : List TokenKind} (hk : ∀ next, F next → firstKind ws next ∉ kinds)
    {p : Parser β} (h : Leads F ws p go like) :
    Leads F ws (Parser.skip kinds >>= fun _ => p) go like := by
  intro ts s hts hs
  have hwithout : (s.behind ts).without kinds = s.behind ts := by
    refine TokenStream.without_eq ?_
    rw [s.behind_firstKind hts]
    exact hk _ hs
  obtain ⟨a, hp, ha⟩ := h ts s hts hs
  refine ⟨a, ?_, ha⟩
  change p ((s.behind ts).without kinds) = go a s
  rw [hwithout, hp]

end Leads

theorem Reads.pure {α : Type} {F : TokenKind → Prop} {like : α → Prop} {a : α} (h : like a) :
    Reads F [] (Pure.pure a) like :=
  Leads.refl h

/-! ## What expressions start with and what follows them -/

/-- What an expression may start with. -/
def openers : List TokenKind :=
  [.kwNil, .kwTrue, .kwFalse, .int, .minus, .bang, .str, .kwSelf, .ident, .lbrack, .lparen, .kwDo,
    .kwIf, .kwWhile]

/-- Words that start as an expression does, and not as an assignment. -/
inductive Opens : List Word → Prop where
  | cons {k : TokenKind} {text : String} {ws : List Word} : k ∈ openers →
      (∀ next, next ≠ .equal → firstKind ws next ≠ .equal) → Opens ((k, text) :: ws)

theorem Opens.single {k : TokenKind} {text : String} (h : k ∈ openers) : Opens [(k, text)] :=
  .cons h fun _ hnext => hnext

theorem Opens.first {ws : List Word} (h : Opens ws) (k : TokenKind) : firstKind ws k ∈ openers := by
  cases h with
  | cons hw _ => exact hw

/-- No expression starts with a separator, a closing word or `let`. -/
theorem not_opener {k : TokenKind} (h : k ∈ openers) :
    k ∉ [.newline, .semi, .eof, .rparen, .rbrack, .kwEnd, .kwElse, .kwLet] := by
  revert k
  decide

theorem Opens.not_skipped {ws : List Word} (h : Opens ws) (k : TokenKind) :
    firstKind ws k ∉ [.newline] :=
  fun hk => not_opener (h.first k) (List.mem_cons.2 (.inl (List.mem_singleton.1 hk)))

theorem Opens.append {ws vs : List Word} (h : Opens ws)
    (hvs : ∀ k, k ≠ .equal → firstKind vs k ≠ .equal) : Opens (ws ++ vs) := by
  obtain ⟨hw, hws⟩ := h
  rw [List.cons_append]
  refine .cons hw fun k hk => ?_
  rw [firstKind_append]
  exact hws _ (hvs k hk)

/-- What follows an expression and is not taken for a part of it, by a parser for operators that
bind as tight as the rank or tighter: no bracket, and no such operator. -/
structure Clear (rank : Nat) (k : TokenKind) : Prop where
  index : k ≠ .lbrack
  call : k ≠ .lparen
  operator : ∀ op : BinaryOp, op.kind = k → op.tier.rank < rank

theorem Clear.mono {r r' : Nat} {k : TokenKind} (h : Clear r k) (hr : r ≤ r') : Clear r' k :=
  ⟨h.index, h.call, fun op hop => Nat.lt_of_lt_of_le (h.operator op hop) hr⟩

theorem Clear.operator?_eq_none {tier : Tier} {r : Nat} {k : TokenKind} (h : Clear r k)
    (hr : r ≤ tier.rank) : tier.level.operator? k = none := by
  cases hop : tier.level.operator? k with
  | none => rfl
  | some op =>
    obtain ⟨rfl, hkind⟩ := Tier.operator?_eq_some.1 hop
    exact absurd (h.operator op hkind) (by omega)

/-- Operators are no brackets, and looser than the tighter ones. -/
theorem Clear.of_operator {op : BinaryOp} {r : Nat} (hr : op.tier.rank < r) : Clear r op.kind := by
  refine ⟨by cases op <;> decide, by cases op <;> decide, fun op' hkind => ?_⟩
  have hop : op' = op := by
    revert hkind
    cases op <;> cases op' <;> decide
  rwa [hop]

/-! ## Operators with two operands -/

/-- The level of the operator with two operands on top of an expression. -/
def Expr.tier? : Expr → Option Tier
  | .binary op _ _ => some op.tier
  | _ => none

/-- The rank of a level, where operands without operators with two operands come last. -/
def rankOf : Option Tier → Nat
  | none => 5
  | some tier => tier.rank

theorem Expr.rank_eq (e : Expr) : e.rank = rankOf e.tier? := by
  cases e <;> rfl

theorem Expr.wrapsTarget_of_tier {e : Expr} {tier : Tier} (h : e.tier? = some tier) :
    e.wrapsTarget = true := by
  cases e <;> first | rfl | cases h

theorem Expr.rank_of_wrapsOperand {e : Expr} (h : e.wrapsOperand = false) : e.rank = 5 := by
  cases e <;> first | rfl | cases h

theorem Tier.rankOf_tighter (tier : Tier) : rankOf tier.tighter = tier.rank + 1 := by
  cases tier <;> rfl

theorem rankOf_le (u : Option Tier) : rankOf u ≤ 5 := by
  rcases u with _ | tier
  · exact Nat.le_refl 5
  · cases tier <;> decide

theorem rankOf_inj {u v : Option Tier} (h : rankOf u = rankOf v) : u = v := by
  rcases u with _ | u <;> rcases v with _ | v
  · rfl
  · cases v <;> cases h
  · cases u <;> cases h
  · cases u <;> cases v <;> first | rfl | cases h

/-- The parser of expressions with operators of a level and tighter ones over operands. -/
def Parser.atTier (o : Parser Expr) : Option Tier → Parser Expr
  | none => o
  | some .multiplicative => infixed multiplicativeLevel o
  | some .additive => infixed additiveLevel (infixed multiplicativeLevel o)
  | some .comparison =>
    infixed comparisonLevel (infixed additiveLevel (infixed multiplicativeLevel o))
  | some .and =>
    infixed andLevel (infixed comparisonLevel (infixed additiveLevel
      (infixed multiplicativeLevel o)))
  | some .or => binaries o

theorem Parser.atTier_some (o : Parser Expr) (tier : Tier) :
    o.atTier (some tier) = infixed tier.level (o.atTier tier.tighter) := by
  cases tier <;> rfl

theorem Tier.level_ends (tier : Tier) : tier.level.Ends := by
  cases tier <;> rfl

/-- The tree is the expression, apart from offsets. -/
def Alike (e a : Expr) : Prop := a.erase = e.erase

section Operators

variable {o : Parser Expr} {ws vs : List Word}

theorem Parser.atTier_advances (ho : ∀ s, Advances 1 o s) (tier : Option Tier) (s : TokenStream) :
    Advances 1 (o.atTier tier) s := by
  have hmul := infixed_advances multiplicativeLevel rfl ho
  have hadd := infixed_advances additiveLevel rfl hmul
  have hcompare := infixed_advances comparisonLevel rfl hadd
  have hand := infixed_advances andLevel rfl hcompare
  cases tier with
  | none => exact ho s
  | some tier =>
    cases tier with
    | multiplicative => exact hmul s
    | additive => exact hadd s
    | comparison => exact hcompare s
    | and => exact hand s
    | or => exact infixed_advances orLevel rfl hand s

/-- Goes on behind an expression with the operators of a level. -/
def Parser.goOn (o : Parser Expr) (tier : Tier) : Expr → Parser Expr :=
  operatorsAfter tier.level (o.atTier tier.tighter)

theorem Parser.goOn_eq (ho : ∀ s, Advances 1 o s) (tier : Tier) :
    o.goOn tier = operatorsRound tier.level (o.atTier tier.tighter) (o.goOn tier) :=
  operatorsAfter_eq tier.level_ends (atTier_advances ho tier.tighter)

variable {e l r : Expr}

/-- Behind an operand of a level its operators may follow. -/
theorem Leads.infixed {F : TokenKind → Prop} {tier : Tier}
    (h : Reads F ws (o.atTier tier.tighter) (Alike e)) :
    Leads F ws (o.atTier (some tier)) (o.goOn tier) (Alike e) := by
  intro ts s hts hs
  obtain ⟨a, hp, ha⟩ := h ts s hts hs
  refine ⟨a, ?_, ha⟩
  rw [atTier_some]
  exact bind_of_ok hp

/-- No operator of the level follows. -/
theorem Leads.finish (ho : ∀ s, Advances 1 o s) {tier : Tier} {p : Parser Expr}
    (h : Leads (Clear (tier.rank + 1)) ws p (o.goOn tier) (Alike e)) :
    Reads (Clear tier.rank) ws p (Alike e) := by
  intro ts s hts hs
  obtain ⟨a, hp, ha⟩ := h ts s hts (hs.mono (Nat.le_succ _))
  refine ⟨a, ?_, ha⟩
  have hpeek : Parser.peek s = .ok (s.peek, s) := rfl
  rw [hp, goOn_eq ho, operatorsRound, bind_of_ok hpeek, hs.operator?_eq_none (Nat.le_refl _)]

/-- What is read at one level is read at each looser level. -/
theorem Reads.looser (ho : ∀ s, Advances 1 o s) {u : Option Tier}
    (h : Reads (Clear (rankOf u)) ws (o.atTier u) (Alike e)) {tier : Tier}
    (htier : tier.rank < rankOf u) :
    Leads (Clear (tier.rank + 1)) ws (o.atTier (some tier)) (o.goOn tier) (Alike e) := by
  -- By induction on the number of levels between the two.
  induction hn : rankOf u - tier.rank generalizing tier with
  | zero => omega
  | succ n ih =>
    have hnext := tier.rankOf_tighter
    refine .infixed ?_
    rw [← hnext]
    by_cases heq : rankOf tier.tighter = rankOf u
    · rwa [rankOf_inj heq]
    · cases htighter : tier.tighter with
      | none =>
        have hle := rankOf_le u
        rw [htighter] at hnext heq
        change 5 = tier.rank + 1 at hnext
        change 5 ≠ rankOf u at heq
        omega
      | some next =>
        rw [htighter] at hnext heq
        change next.rank = tier.rank + 1 at hnext
        change next.rank ≠ rankOf u at heq
        exact (ih (by omega) (by omega)).finish ho

/-- What is read at one level is read at each level that is not tighter. -/
theorem Reads.at_looser (ho : ∀ s, Advances 1 o s) {u v : Option Tier}
    (h : Reads (Clear (rankOf u)) ws (o.atTier u) (Alike e)) (hv : rankOf v ≤ rankOf u) :
    Reads (Clear (rankOf v)) ws (o.atTier v) (Alike e) := by
  rcases Nat.lt_or_eq_of_le hv with hlt | heq
  · cases v with
    | none => exact absurd hlt (Nat.not_lt.2 (rankOf_le u))
    | some tier => exact (h.looser ho hlt).finish ho
  · rwa [rankOf_inj heq]

theorem Alike.binary {a b : Expr} (op : BinaryOp) (hl : Alike l a) (hr : Alike r b) :
    Alike (.binary op l r) (.binary op a b) := by
  unfold Alike at hl hr ⊢
  rw [Expr.erase, Expr.erase, hl, hr]

/-- A round takes an operator and its right operand and goes on behind them, if operators of the
level follow one another. -/
theorem Leads.round {op : BinaryOp} (hop : op.tier ≠ .comparison) (hvs : Opens vs)
    (hr : Reads (Clear (op.tier.rank + 1)) vs (o.atTier op.tier.tighter) (Alike r)) {a : Expr}
    (ha : Alike l a) (again : Expr → Parser Expr) :
    Leads (Clear (op.tier.rank + 1)) ([op.word] ++ vs)
      (operatorsRound op.tier.level (o.atTier op.tier.tighter) again a) again
      (Alike (.binary op l r)) := by
  refine .peek fun t ht => ?_
  have hkind : t.kind = op.kind := (Prod.mk.inj ht).1
  rw [hkind, Tier.operator?_eq_some.2 ⟨rfl, rfl⟩]
  refine .pop fun _ => .skip (fun k _ => hvs.not_skipped k) ?_
  refine .bind_last hr fun b hb => ?_
  rw [if_pos (Tier.chains_iff.2 hop)]
  exact .refl (ha.binary op hb)

/-- A round takes one comparison, behind which no other may follow. -/
theorem Reads.round {op : BinaryOp} (hop : op.tier = .comparison) (hvs : Opens vs)
    (hr : Reads (Clear (op.tier.rank + 1)) vs (o.atTier op.tier.tighter) (Alike r)) {a : Expr}
    (ha : Alike l a) (again : Expr → Parser Expr) :
    Reads (Clear op.tier.rank) ([op.word] ++ vs)
      (operatorsRound op.tier.level (o.atTier op.tier.tighter) again a)
      (Alike (.binary op l r)) := by
  refine .peek fun t ht => ?_
  have hkind : t.kind = op.kind := (Prod.mk.inj ht).1
  rw [hkind, Tier.operator?_eq_some.2 ⟨rfl, rfl⟩]
  refine .pop fun _ => .skip (fun k _ => hvs.not_skipped k) ?_
  refine .bind_last (hr.mono fun k hk => hk.mono (Nat.le_succ _)) fun b hb => ?_
  have hchains : ¬op.tier.level.chains = true := by
    rw [Tier.chains_iff, hop]
    decide
  rw [if_neg hchains]
  intro ts s hts hs
  rw [List.map_eq_nil_iff.1 hts]
  have hpeek : Parser.peek (s.behind []) = .ok (s.peek, s) := rfl
  rw [bind_of_ok hpeek, hs.operator?_eq_none (Nat.le_refl _)]
  exact ⟨_, rfl, ha.binary op hb⟩

/-- An expression with an operator on top that may follow itself. -/
theorem Leads.binary (ho : ∀ s, Advances 1 o s) {op : BinaryOp} (hop : op.tier ≠ .comparison)
    (hl : Leads (Clear (op.tier.rank + 1)) ws (o.atTier (some op.tier)) (o.goOn op.tier) (Alike l))
    (hvs : Opens vs)
    (hr : Reads (Clear (op.tier.rank + 1)) vs (o.atTier op.tier.tighter) (Alike r)) :
    Leads (Clear (op.tier.rank + 1)) (ws ++ [op.word] ++ vs) (o.atTier (some op.tier))
      (o.goOn op.tier) (Alike (.binary op l r)) := by
  rw [List.append_assoc]
  refine hl.append (fun _ _ => .of_operator (Nat.lt_succ_self _)) fun a ha => ?_
  have hround := Leads.round hop hvs hr ha (o.goOn op.tier)
  rwa [← congrFun (goOn_eq ho op.tier) a] at hround

/-- An expression with a comparison on top. -/
theorem Reads.comparison (ho : ∀ s, Advances 1 o s) {op : BinaryOp} (hop : op.tier = .comparison)
    (hl : Leads (Clear (op.tier.rank + 1)) ws (o.atTier (some op.tier)) (o.goOn op.tier) (Alike l))
    (hvs : Opens vs)
    (hr : Reads (Clear (op.tier.rank + 1)) vs (o.atTier op.tier.tighter) (Alike r)) :
    Reads (Clear op.tier.rank) (ws ++ [op.word] ++ vs) (o.atTier (some op.tier))
      (Alike (.binary op l r)) := by
  rw [List.append_assoc]
  refine hl.append (fun _ _ => .of_operator (Nat.lt_succ_self _)) fun a ha => ?_
  have hround := Reads.round hop hvs hr ha (o.goOn op.tier)
  rwa [← congrFun (goOn_eq ho op.tier) a] at hround

end Operators

/-! ## Brackets, calls and blocks -/

/-- What may stand behind a whole expression. -/
def closers : List TokenKind :=
  [.rparen, .rbrack, .comma, .semi, .eof, .kwThen, .kwDo, .kwEnd, .kwElse]

theorem Clear.of_closers {k : TokenKind} (h : k ∈ closers) : Clear 0 k := by
  have hindex : k ≠ .lbrack := by
    rintro rfl
    exact absurd h (by decide)
  have hcall : k ≠ .lparen := by
    rintro rfl
    exact absurd h (by decide)
  refine ⟨hindex, hcall, ?_⟩
  rintro op rfl
  exact absurd h (by cases op <;> decide)

/-- A closing bracket. -/
structure Closing (k : TokenKind) : Prop where
  clear : Clear 0 k
  not_skipped : k ∉ [.newline]
  not_comma : k ≠ .comma
  not_eof : k ≠ .eof
  not_opener : k ∉ openers

theorem Closing.rparen : Closing .rparen :=
  ⟨.of_closers (by decide), by decide, by decide, by decide, by decide⟩

theorem Closing.rbrack : Closing .rbrack :=
  ⟨.of_closers (by decide), by decide, by decide, by decide, by decide⟩

/-- No restriction on what follows. -/
def Whatever (_ : TokenKind) : Prop := True

/-- The parser reads the words of an expression as the expression. -/
structure Whole (x : Parser Expr) (e : Expr) : Prop where
  opens : Opens e.words
  reads : Reads (Clear 0) e.words x (Alike e)

/-- The parser reads the words of a statement as the statement. -/
structure WholeStmt (x : Parser Expr) (a : Stmt) : Prop where
  first : ∀ k, firstKind a.words k ∈ .kwLet :: openers
  reads : Reads (· ∈ closers) a.words (statement x) fun b => b.erase = a.erase

section Brackets

variable {x : Parser Expr} {e : Expr} {ws : List Word} {close : TokenKind} {text : String}

/-- An expression in brackets. -/
theorem Whole.bracketed (h : Whole x e) (hclose : Closing close) :
    Reads Whatever (e.words ++ [(close, text)]) (bracketed x close) (Alike e) := by
  refine .skip (fun k _ => ?_) (.bind h.reads (fun _ _ => hclose.clear) fun a ha => ?_)
  · rw [firstKind_append]
    exact h.opens.not_skipped _
  · exact .skip (fun _ _ => hclose.not_skipped) (.expect fun _ _ => .refl ha)

/-- An expression in parentheses. -/
theorem Whole.parens (h : Whole x e) :
    Reads Whatever (wrapWords true e.words) (primary x) (Alike e) := by
  refine .peek fun t ht => ?_
  have hkind : t.kind = .lparen := (Prod.mk.inj ht).1
  rw [hkind]
  exact .pop fun _ => h.bracketed .rparen

/-- An item, behind those read so far, and what goes on behind it with the word `w`. -/
theorem Whole.item (h : Whole x e) (hclose : Closing close) {items : List Expr}
    {again : List Expr → Parser (List Expr)} {like : List Expr → Prop} {w : Word}
    (hclear : Clear 0 w.1) (hskip : w.1 ∉ [.newline])
    (hrest : ∀ a, Alike e a → Reads Whatever (w :: ws) (do
      if ← accept .comma then again (a :: items)
      else
        let _ ← expect close
        return (a :: items).reverse) like) :
    Reads Whatever (e.words ++ w :: ws) (itemsRound x close again items) like := by
  refine .skip (fun k _ => ?_) (.accept_no (fun k _ => ?_) ?_)
  · rw [firstKind_append]
    exact h.opens.not_skipped _
  · rw [firstKind_append]
    intro heq
    exact hclose.not_opener (heq ▸ h.opens.first _)
  · exact .bind h.reads (fun _ _ => hclear) fun a ha => .skip (fun _ _ => hskip) (hrest a ha)

/-- Items up to a closing bracket, behind those read so far. -/
theorem itemsAfter_reads (hx : ∀ s, Advances 1 x s) (hclose : Closing close) {es : List Expr}
    (he : Whole x e) (hes : ∀ e ∈ es, Whole x e) (text : String) (items : List Expr) :
    Reads Whatever (e.words ++ Expr.moreWords es ++ [(close, text)]) (itemsAfter x close items)
      fun as => as.map Expr.erase = (items.reverse ++ e :: es).map Expr.erase := by
  induction es generalizing e items with
  | nil =>
    rw [itemsAfter_eq hx hclose.not_eof, Expr.moreWords, List.append_nil]
    refine he.item hclose hclose.clear hclose.not_skipped fun a ha => ?_
    refine Leads.accept_no ?_ (.expect fun _ _ => .refl ?_)
    · exact fun _ _ => hclose.not_comma
    have herase : a.erase = e.erase := ha
    simp [herase]
  | cons e' es ih =>
    rw [itemsAfter_eq hx hclose.not_eof, Expr.moreWords, List.append_assoc, List.append_assoc,
      List.append_assoc, List.singleton_append]
    refine he.item hclose (.of_closers (by decide)) (by decide) fun a ha => .accept_yes ?_
    have hrest := ih (hes e' List.mem_cons_self) (fun e he => hes e (List.mem_cons_of_mem e' he))
      (a :: items)
    rw [← List.append_assoc]
    refine hrest.imp fun as has => ?_
    have herase : a.erase = e.erase := ha
    rw [has]
    simp [herase]

/-- Items up to a closing bracket. -/
theorem items_reads (hx : ∀ s, Advances 1 x s) (hclose : Closing close) {es : List Expr}
    (hes : ∀ e ∈ es, Whole x e) :
    Reads Whatever (Expr.itemWords es ++ [(close, text)]) (items x close)
      fun as => Expr.eraseAll as = Expr.eraseAll es := by
  have hitems : items x close = itemsAfter x close [] := rfl
  rw [hitems]
  cases es with
  | nil =>
    rw [itemsAfter_eq hx hclose.not_eof]
    exact .skip (fun _ _ => hclose.not_skipped) (.accept_yes (Reads.pure rfl))
  | cons e es =>
    have hall := itemsAfter_reads hx hclose (hes e List.mem_cons_self)
      (fun e' he' => hes e' (List.mem_cons_of_mem e he')) text []
    refine hall.imp fun as has => ?_
    rw [Expr.eraseAll_eq_map, Expr.eraseAll_eq_map]
    exact has

/-- A statement that makes a binding. -/
theorem Whole.define (h : Whole x e) (name : String) : WholeStmt x (.define name e) := by
  refine ⟨fun _ => List.mem_cons_self, ?_⟩
  rw [Stmt.words, List.append_assoc, List.append_assoc]
  refine .accept_yes (.expect fun t ht => .expect fun _ _ => ?_)
  have hreads := h.reads.mono fun _ => Clear.of_closers
  refine .skip (fun k _ => h.opens.not_skipped k) (.map hreads fun a ha => ?_)
  rw [Stmt.erase, Stmt.erase, ht, show a.erase = e.erase from ha]

/-- A statement that changes a binding. -/
theorem Whole.assign (h : Whole x e) (name : String) : WholeStmt x (.assign name e) := by
  refine ⟨fun _ => show TokenKind.ident ∈ .kwLet :: openers by decide, ?_⟩
  rw [Stmt.words, List.append_assoc]
  refine Leads.accept_no ?_ (.peek fun t ht => .peekSecond fun u hu => ?_)
  · exact fun _ _ => show TokenKind.ident ≠ .kwLet by decide
  obtain ⟨hident, htext⟩ := Prod.mk.inj ht
  obtain ⟨_, -, hequal⟩ := hu
  have hboth : (t.kind = .ident && u.kind = .equal) = true := by
    rw [hident, hequal]
    rfl
  rw [if_pos hboth]
  refine .pop fun _ => .pop fun _ => ?_
  have hreads := h.reads.mono fun _ => Clear.of_closers
  refine .skip (fun k _ => h.opens.not_skipped k) (.map hreads fun a ha => ?_)
  rw [Stmt.erase, Stmt.erase, htext, show a.erase = e.erase from ha]

/-- An expression as a statement. -/
theorem Whole.expr (h : Whole x e) : WholeStmt x (.expr e) := by
  refine ⟨fun k => List.mem_cons_of_mem _ (h.opens.first k), ?_⟩
  have hopens := h.opens
  have hreads := h.reads.mono fun _ => Clear.of_closers
  have hlet : ∀ k, firstKind e.words k ≠ .kwLet := by
    intro k heq
    exact not_opener (h.opens.first k) (by rw [heq]; decide)
  rw [Stmt.words]
  refine Leads.accept_no (fun k _ => hlet k) ?_
  generalize e.words = ws at hopens hreads
  obtain ⟨-, hsecond⟩ := hopens
  refine .peek fun t _ => .peekSecond fun u hu => ?_
  -- The second word is not the `=` of an assignment.
  obtain ⟨k, hk, hkind⟩ := hu
  have hne : u.kind ≠ .equal := by
    rw [hkind]
    refine hsecond k ?_
    rintro rfl
    exact absurd hk (by decide)
  have hboth : ¬(t.kind = .ident && u.kind = .equal) = true := by
    simp [hne]
  rw [if_neg hboth]
  refine .map hreads fun a ha => ?_
  rw [Stmt.erase, Stmt.erase, show a.erase = e.erase from ha]

/-- There is something to skip in front. -/
theorem Leads.skip_all {α β : Type} {F : TokenKind → Prop} {go : α → Parser β} {like : α → Prop}
    {us : List Word} {kinds : List TokenKind} (hus : ∀ w ∈ us, w.1 ∈ kinds)
    (hk : ∀ next, F next → firstKind ws next ∉ kinds) {p : Parser β} (h : Leads F ws p go like) :
    Leads F (us ++ ws) (Parser.skip kinds >>= fun _ => p) go like := by
  intro ts s hts hs
  obtain ⟨ts₁, ts₂, rfl, h₁, h₂⟩ := List.map_eq_append_iff.1 hts
  have hskipped : ∀ t ∈ ts₁, kinds.contains t.kind = true := by
    intro t ht
    rw [List.contains_iff_mem]
    exact hus t.word (h₁ ▸ List.mem_map_of_mem ht)
  have hwithout : (s.behind (ts₁ ++ ts₂)).without kinds = (s.behind ts₂).without kinds := by
    rw [TokenStream.behind_append, TokenStream.without, TokenStream.without, TokenStream.behind,
      List.dropWhile_append_of_pos hskipped]
  obtain ⟨a, hp, ha⟩ := Leads.skip hk h ts₂ s h₂ hs
  refine ⟨a, ?_, ha⟩
  rw [← hp]
  change p ((s.behind (ts₁ ++ ts₂)).without kinds) = p ((s.behind ts₂).without kinds)
  rw [hwithout]

/-- What ends the statements of a block: one of the closing kinds, or the end of the source if there
are none. -/
def EndsBlock (ends : List TokenKind) (k : TokenKind) : Prop :=
  k ∈ ends ∨ (ends = [] ∧ k = .eof)

section Statements

variable {ends : List TokenKind} (hends : ends ⊆ [.kwEnd, .kwElse])
include hends

theorem EndsBlock.closes {k : TokenKind} (h : EndsBlock ends k) : k ∈ [.kwEnd, .kwElse, .eof] := by
  have hsub : ∀ k ∈ [TokenKind.kwEnd, .kwElse], k ∈ [TokenKind.kwEnd, .kwElse, .eof] := by decide
  rcases h with h | ⟨-, rfl⟩
  · exact hsub k (hends h)
  · decide

/-- No statement starts with what ends one or ends a block. -/
theorem WholeStmt.not_end {a : Stmt} (h : WholeStmt x a) (ws : List Word) (k : TokenKind) :
    firstKind (a.words ++ ws) k ∉ [.newline, .semi] ∧ firstKind (a.words ++ ws) k ≠ .eof ∧
      firstKind (a.words ++ ws) k ∉ ends := by
  have hall : ∀ j ∈ TokenKind.kwLet :: openers,
      j ∉ [.newline, .semi] ∧ j ≠ .eof ∧ j ∉ [.kwEnd, .kwElse] := by decide
  rw [firstKind_append]
  obtain ⟨hskip, heof, hend⟩ := hall _ (h.first (firstKind ws k))
  exact ⟨hskip, heof, fun hmem => hend (hends hmem)⟩

/-- A statement with separators in front, behind those read so far, and what goes on behind it. -/
theorem WholeStmt.item {a : Stmt} (h : WholeStmt x a) {us : List Word}
    (hus : ∀ w ∈ us, w.1 ∈ [.newline, .semi]) {body : List Stmt}
    {again : List Stmt → Parser (List Stmt)} {like : List Stmt → Prop}
    (hnext : ∀ k, EndsBlock ends k → EndsBlock ends (firstKind ws k) ∨ firstKind ws k = .semi)
    (hrest : ∀ b, b.erase = a.erase → Reads (EndsBlock ends) ws (again (b :: body)) like) :
    Reads (EndsBlock ends) (us ++ (a.words ++ ws)) (statementsRound x ends again body) like := by
  refine .skip_all hus (fun k _ => (h.not_end hends ws k).1) (.peekKind fun t ht => ?_)
  obtain ⟨k, -, hkind⟩ := ht
  obtain ⟨-, heof, hend⟩ := h.not_end hends ws k
  rw [← hkind] at heof hend
  rw [if_neg (by rwa [List.contains_iff_mem]), if_neg heof]
  refine .bind h.reads (fun k hk => ?_) fun b hb => .peekKind fun u hu => ?_
  · have hclosers : ∀ j ∈ [TokenKind.kwEnd, .kwElse, .eof], j ∈ closers := by decide
    rcases hnext k hk with hend | hsemi
    · exact hclosers _ (hend.closes hends)
    · rw [hsemi]
      decide
  · obtain ⟨j, hj, hukind⟩ := hu
    have hends : ([.newline, .semi, .eof].contains u.kind || ends.contains u.kind) = true := by
      rw [hukind, Bool.or_eq_true, List.contains_iff_mem, List.contains_iff_mem]
      rcases hnext j hj with (hmem | ⟨-, heof⟩) | hsemi
      · exact .inr hmem
      · rw [heof]
        exact .inl (by decide)
      · rw [hsemi]
        exact .inl (by decide)
    rw [if_pos hends]
    exact hrest b hb

/-- At the end of a block its statements are complete. -/
theorem statementsRound_end (body : List Stmt) (again : List Stmt → Parser (List Stmt)) :
    Reads (EndsBlock ends) [] (statementsRound x ends again body) (· = body.reverse) := by
  have hskip : ∀ j ∈ [TokenKind.kwEnd, .kwElse, .eof], j ∉ [.newline, .semi] := by decide
  refine .skip (fun k hk => hskip _ (hk.closes hends)) (.peekKind fun t ht => ?_)
  obtain ⟨k, hk, hkind⟩ := ht
  change t.kind = k at hkind
  rcases hk with hmem | ⟨hnone, rfl⟩
  · rw [if_pos (by rwa [List.contains_iff_mem, hkind])]
    exact Reads.pure rfl
  · rw [hnone, if_neg (by simp), if_pos hkind]
    exact Reads.pure rfl

/-- Statements with separators in front, behind those read so far. -/
theorem statementsAfter_reads (hx : ∀ s, Advances 1 x s) {as : List Stmt}
    (has : ∀ a ∈ as, WholeStmt x a) {a : Stmt} (ha : WholeStmt x a) (us : List Word)
    (hus : ∀ w ∈ us, w.1 ∈ [.newline, .semi]) (body : List Stmt) :
    Reads (EndsBlock ends) (us ++ (a.words ++ Stmt.moreWords as)) (statementsAfter x ends body)
      fun bs => bs.map Stmt.erase = (body.reverse ++ a :: as).map Stmt.erase := by
  induction as generalizing a us body with
  | nil =>
    rw [statementsAfter_eq hx]
    refine ha.item hends hus (fun k hk => .inl hk) fun b hb => ?_
    rw [statementsAfter_eq hx]
    refine (statementsRound_end hends _ _).imp fun bs hbs => ?_
    rw [hbs]
    simp [hb]
  | cons a' as ih =>
    rw [statementsAfter_eq hx, Stmt.moreWords]
    refine ha.item hends hus (fun k _ => .inr rfl) fun b hb => ?_
    rw [List.append_assoc]
    have hrest := ih (fun a ha => has a (List.mem_cons_of_mem a' ha)) (has a' List.mem_cons_self)
      [(.semi, ";")] (by decide) (b :: body)
    refine hrest.imp fun bs hbs => ?_
    rw [hbs]
    simp [hb]

/-- The statements of a block. -/
theorem statements_reads (hx : ∀ s, Advances 1 x s) {body : List Stmt}
    (h : ∀ a ∈ body, WholeStmt x a) :
    Reads (EndsBlock ends) (Stmt.bodyWords body) (statements x ends)
      fun bs => Stmt.eraseAll bs = Stmt.eraseAll body := by
  have hstatements : statements x ends = statementsAfter x ends [] := rfl
  rw [hstatements]
  cases body with
  | nil =>
    rw [statementsAfter_eq hx]
    refine (statementsRound_end hends _ _).imp fun bs hbs => ?_
    rw [hbs]
    rfl
  | cons a as =>
    have hall := statementsAfter_reads hends hx (fun b hb => h b (List.mem_cons_of_mem a hb))
      (h a List.mem_cons_self) [] (by simp) []
    refine hall.imp fun bs hbs => ?_
    rw [Stmt.eraseAll_eq_map, Stmt.eraseAll_eq_map]
    exact hbs

end Statements

variable (hx : ∀ s, Advances 1 x s)
include hx

/-- The statements of a block and the `end` behind them. -/
theorem block_reads {body : List Stmt} (h : ∀ a ∈ body, WholeStmt x a) :
    Reads Whatever (Stmt.bodyWords body ++ [(.kwEnd, "end")]) (block x)
      fun bs => Stmt.eraseAll bs = Stmt.eraseAll body := by
  have hends : [TokenKind.kwEnd] ⊆ [.kwEnd, .kwElse] := by decide
  refine .bind (statements_reads hends hx h) (fun _ _ => .inl List.mem_cons_self) fun bs hbs => ?_
  exact .expect fun _ _ => .refl hbs

/-- A choice with one body, behind its `if`. -/
theorem choice_reads {yes : List Stmt} (he : Whole x e) (h : ∀ a ∈ yes, WholeStmt x a) :
    Reads Whatever (e.words ++ (.kwThen, "then") :: (Stmt.bodyWords yes ++ [(.kwEnd, "end")]))
      (choice x) (Alike (.cond e yes none)) := by
  have hends : [TokenKind.kwElse, .kwEnd] ⊆ [.kwEnd, .kwElse] := by decide
  refine .bind he.reads (fun _ _ => .of_closers (show TokenKind.kwThen ∈ _ by decide))
    fun a ha => ?_
  refine .skip (fun _ _ => show TokenKind.kwThen ∉ _ by decide) (.expect fun _ _ => ?_)
  have hend : EndsBlock [.kwElse, .kwEnd] .kwEnd := .inl (by decide)
  refine .bind (statements_reads hends hx h) (fun _ _ => hend) fun bs hbs => ?_
  refine Leads.accept_no ?_ (.expect fun _ _ => .refl ?_)
  · exact fun _ _ => show TokenKind.kwEnd ≠ .kwElse by decide
  · unfold Alike at ha ⊢
    rw [Expr.erase, Expr.erase, ha, hbs]

/-- A choice with two bodies, behind its `if`. -/
theorem choice_reads_else {yes no : List Stmt} (he : Whole x e) (hyes : ∀ a ∈ yes, WholeStmt x a)
    (hno : ∀ a ∈ no, WholeStmt x a) :
    Reads Whatever (e.words ++ (.kwThen, "then") :: (Stmt.bodyWords yes ++
        (.kwElse, "else") :: (Stmt.bodyWords no ++ [(.kwEnd, "end")])))
      (choice x) (Alike (.cond e yes (some no))) := by
  have hends : [TokenKind.kwElse, .kwEnd] ⊆ [.kwEnd, .kwElse] := by decide
  refine .bind he.reads (fun _ _ => .of_closers (show TokenKind.kwThen ∈ _ by decide))
    fun a ha => ?_
  refine .skip (fun _ _ => show TokenKind.kwThen ∉ _ by decide) (.expect fun _ _ => ?_)
  have helse : EndsBlock [.kwElse, .kwEnd] .kwElse := .inl (by decide)
  refine .bind (statements_reads hends hx hyes) (fun _ _ => helse) fun bs hbs => ?_
  refine .accept_yes (.map (block_reads hx hno) fun cs hcs => ?_)
  unfold Alike at ha ⊢
  rw [Expr.erase, Expr.erase, ha, hbs, hcs]

/-- A loop, behind its `while`. -/
theorem loop_reads {body : List Stmt} (he : Whole x e) (h : ∀ a ∈ body, WholeStmt x a) :
    Reads Whatever (e.words ++ (.kwDo, "do") :: (Stmt.bodyWords body ++ [(.kwEnd, "end")]))
      (loop x) (Alike (.loop e body)) := by
  refine .bind he.reads (fun _ _ => .of_closers (show TokenKind.kwDo ∈ _ by decide)) fun a ha => ?_
  refine .skip (fun _ _ => show TokenKind.kwDo ∉ _ by decide) (.expect fun _ _ => ?_)
  refine .map (block_reads hx h) fun bs hbs => ?_
  unfold Alike at ha ⊢
  rw [Expr.erase, Expr.erase, ha, hbs]

/-! ### Expressions without operators -/

/-- The parser of expressions without operators reads the words of the expression, and no operator
stands in front of them. -/
structure Bare (x : Parser Expr) (e : Expr) : Prop where
  first : ∀ k, unaryOp? (firstKind e.words k) = none
  reads : Reads (· ≠ .lparen) e.words (primary x) (Alike e)

omit hx in
/-- An expression of one word. -/
theorem Bare.single {k : TokenKind} (hwords : e.words = [(k, text)]) (hk : unaryOp? k = none)
    (h : ∀ p (s : TokenStream), s.peek.kind ≠ .lparen →
      ∃ a, primary x (s.behind [⟨k, text, p⟩]) = .ok (a, s) ∧ Alike e a) : Bare x e := by
  refine ⟨fun _ => ?_, ?_⟩
  · rw [hwords]
    exact hk
  · rw [hwords]
    intro ts s hts hs
    match ts, hts with
    | [⟨_, _, p⟩], hts =>
      cases hts
      exact h p s hs

omit hx in
theorem Bare.nil : Bare x .nil := .single rfl rfl fun _ _ _ => ⟨.nil, rfl, rfl⟩

omit hx in
theorem Bare.bool (b : Bool) : Bare x (.bool b) := by
  cases b with
  | false => exact .single rfl rfl fun _ _ _ => ⟨.bool false, rfl, rfl⟩
  | true => exact .single rfl rfl fun _ _ _ => ⟨.bool true, rfl, rfl⟩

omit hx in
theorem Bare.str (text : String) : Bare x (.str text) :=
  .single rfl rfl fun _ _ _ => ⟨.str text, rfl, rfl⟩

omit hx in
theorem Bare.receiver : Bare x .receiver := .single rfl rfl fun _ _ _ => ⟨.receiver, rfl, rfl⟩

omit hx in
theorem Bare.var (name : String) (offset : Nat) : Bare x (.var name offset) := by
  refine .single rfl rfl fun p s hs => ⟨.var name p.offset, ?_, rfl⟩
  exact bind_of_ok (accept_of_ne hs)

omit hx in
/-- The digits of a number give the number. -/
theorem ofDigits?_repr {n : Nat} {m : Number} (h : m.toInt = n) :
    Number.ofDigits? (Nat.repr n).toList = some m := by
  refine Number.ofInt?_eq_some.2 ?_
  rw [Nat.toList_repr, h]
  exact congrArg Int.ofNat (Nat.ofDigitChars_toDigits (by decide) (by decide)).symm

omit hx in
theorem Bare.int {n : Number} (hn : ¬n.toInt < 0) : Bare x (.int n) := by
  have hwords : (Expr.int n).words = [(.int, Nat.repr n.toInt.natAbs)] := by
    rw [Expr.words, numberWords, if_neg hn]
  have hvalue : Number.ofDigits? (Nat.repr n.toInt.natAbs).toList = some n :=
    ofDigits?_repr (by omega)
  constructor
  · rw [hwords]
    exact fun _ => rfl
  · rw [hwords]
    refine .peek fun t ht => ?_
    obtain ⟨hkind, htext⟩ := Prod.mk.inj ht
    have hsame : Alike (.int n) (.int n) := rfl
    have hgiven : Reads (· ≠ .lparen) [] (pure (.int n) : Parser Expr) (Alike (.int n)) :=
      .refl hsame
    rw [hkind, htext, hvalue]
    exact .pop fun _ => hgiven

theorem Bare.list {items : List Expr} (h : ∀ e ∈ items, Whole x e) : Bare x (.list items) := by
  refine ⟨fun _ => rfl, .peek fun t ht => ?_⟩
  have hkind : t.kind = .lbrack := (Prod.mk.inj ht).1
  rw [hkind]
  refine .pop fun _ =>
    (Leads.map (items_reads hx .rbrack h) fun as has => ?_).mono fun _ _ => trivial
  rw [Alike, Expr.erase, Expr.erase, has]

theorem Bare.call (name : String) {args : List Expr} (h : ∀ e ∈ args, Whole x e) :
    Bare x (.call name args) := by
  refine ⟨fun _ => rfl, ?_⟩
  rw [Expr.words, List.append_assoc, List.append_assoc]
  refine .peek fun t ht => ?_
  obtain ⟨hkind, htext⟩ := Prod.mk.inj ht
  rw [hkind]
  refine .pop fun _ => .accept_yes ?_
  refine (Leads.map (items_reads hx .rparen h) fun as has => ?_).mono fun _ _ => trivial
  rw [Alike, Expr.erase, Expr.erase, has, htext]

theorem Bare.block {body : List Stmt} (h : ∀ a ∈ body, WholeStmt x a) : Bare x (.block body) := by
  refine ⟨fun _ => rfl, .peek fun t ht => ?_⟩
  have hkind : t.kind = .kwDo := (Prod.mk.inj ht).1
  rw [hkind]
  refine .pop fun _ => (Leads.map (block_reads hx h) fun as has => ?_).mono fun _ _ => trivial
  rw [Alike, Expr.erase, Expr.erase, has]

theorem Bare.cond {yes : List Stmt} (he : Whole x e) (h : ∀ a ∈ yes, WholeStmt x a) :
    Bare x (.cond e yes none) := by
  refine ⟨fun _ => rfl, ?_⟩
  rw [Expr.words]
  simp only [List.append_assoc, List.singleton_append]
  refine .peek fun t ht => ?_
  have hkind : t.kind = .kwIf := (Prod.mk.inj ht).1
  rw [hkind]
  exact .pop fun _ => (choice_reads hx he h).mono fun _ _ => trivial

theorem Bare.condElse {yes no : List Stmt} (he : Whole x e) (hyes : ∀ a ∈ yes, WholeStmt x a)
    (hno : ∀ a ∈ no, WholeStmt x a) : Bare x (.cond e yes (some no)) := by
  refine ⟨fun _ => rfl, ?_⟩
  rw [Expr.words]
  simp only [List.append_assoc, List.singleton_append]
  refine .peek fun t ht => ?_
  have hkind : t.kind = .kwIf := (Prod.mk.inj ht).1
  rw [hkind]
  exact .pop fun _ => (choice_reads_else hx he hyes hno).mono fun _ _ => trivial

theorem Bare.loop {body : List Stmt} (he : Whole x e) (h : ∀ a ∈ body, WholeStmt x a) :
    Bare x (.loop e body) := by
  refine ⟨fun _ => rfl, ?_⟩
  rw [Expr.words]
  simp only [List.append_assoc, List.singleton_append]
  refine .peek fun t ht => ?_
  have hkind : t.kind = .kwWhile := (Prod.mk.inj ht).1
  rw [hkind]
  exact .pop fun _ => (loop_reads hx he h).mono fun _ _ => trivial

/-! ### Indexes and operators with one operand -/

variable {o : Parser Expr}

omit hx in
/-- Behind an expression without operators indexes may follow. -/
theorem Leads.operand {F : TokenKind → Prop} {like : Expr → Prop}
    (hfirst : ∀ k, unaryOp? (firstKind ws k) = none) (h : Reads F ws (primary x) like) :
    Leads F ws (unaryOver o x) (indexesAfter x) like := by
  refine .peekKind fun t ht => ?_
  obtain ⟨k, -, hkind⟩ := ht
  rw [hkind, hfirst k]
  intro ts s hts hs
  obtain ⟨a, hp, ha⟩ := h ts s hts hs
  exact ⟨a, bind_of_ok hp, ha⟩

/-- An index behind what is indexed. -/
theorem Leads.index {F : TokenKind → Prop} {t i : Expr} (hF : F .lbrack) {p : Parser Expr}
    (ht : Leads F ws p (indexesAfter x) (Alike t)) (hi : Whole x i) :
    Leads Whatever (ws ++ [(.lbrack, "[")] ++ i.words ++ [(.rbrack, "]")]) p (indexesAfter x)
      (Alike (.index t i)) := by
  rw [List.append_assoc, List.append_assoc]
  refine ht.append (fun _ _ => hF) fun a ha => ?_
  have hround : ∀ again, Leads Whatever ((.lbrack, "[") :: (i.words ++ [(.rbrack, "]")]))
      (indexesRound x again a) again (Alike (.index t i)) := by
    intro again
    refine .accept_yes (.bind_last (hi.bracketed .rbrack) fun b hb => .refl ?_)
    unfold Alike at ha hb ⊢
    rw [Expr.erase, Expr.erase, ha, hb]
  rw [congrFun (indexesAfter_eq hx) a]
  exact hround _

/-- No index follows. -/
theorem Leads.unindexed {F : TokenKind → Prop} {p : Parser Expr}
    (h : Leads F ws p (indexesAfter x) (Alike e)) (hF : ∀ k, Clear 5 k → F k) :
    Reads (Clear 5) ws p (Alike e) := by
  intro ts s hts hs
  obtain ⟨a, hp, ha⟩ := h ts s hts (hF _ hs)
  refine ⟨a, ?_, ha⟩
  rw [hp, indexesAfter_eq hx, indexesRound, bind_of_ok (accept_of_ne hs.index)]
  rfl

omit hx in
/-- An operator in front of an operand that is not a number it belongs to. -/
theorem Reads.unary {op : UnaryOp} {vs : List Word} (hop : op = .neg → ∀ n, e ≠ .int n)
    (h : Reads (Clear 5) vs o (Alike e)) :
    Reads (Clear 5) ([op.word] ++ vs) (unaryOver o x) (Alike (.unary op e)) := by
  refine .peek fun t ht => ?_
  have hkind : t.kind = op.kind := (Prod.mk.inj ht).1
  have hunary : unaryOp? t.kind = some op := by
    rw [hkind]
    cases op <;> rfl
  rw [hunary]
  refine .pop fun _ => .map h fun a ha => ?_
  unfold Alike at ha ⊢
  rw [applyUnary_erase, ha, Expr.erase]
  cases op with
  | not => rfl
  | neg =>
    cases e with
    | int n => exact absurd rfl (hop rfl n)
    | cond t yes no => cases no <;> rfl
    | _ => rfl

omit hx in
/-- A number with its sign. -/
theorem Reads.negative {n : Number} (hn : n.toInt < 0) (hmin : minNumber < n.toInt)
    (ho : ∀ m : Number, ¬m.toInt < 0 → Reads (Clear 5) (numberWords m) o (Alike (.int m))) :
    Reads (Clear 5) (numberWords n) (unaryOver o x) (Alike (.int n)) := by
  obtain ⟨m, hneg, hm⟩ := Number.neg?_of_minNumber_lt hmin
  have hback : m.neg? = some n := Number.ofInt?_eq_some.2 (by omega)
  have hwords : numberWords n = (.minus, "-") :: numberWords m := by
    rw [numberWords, numberWords, if_pos hn, if_neg (by omega), hm, Int.natAbs_neg]
  rw [hwords]
  refine .peek fun t ht => ?_
  have hkind : t.kind = .minus := (Prod.mk.inj ht).1
  rw [hkind]
  refine .pop fun _ => .map (ho m (by omega)) fun a ha => ?_
  unfold Alike at ha ⊢
  rw [applyUnary_erase, ha, Expr.erase, Expr.erase, applyUnary, hback]

end Brackets

/-! ## Nesting -/

section Nesting

variable {d : Nat} {e : Expr} {ws : List Word}

theorem exprWithin_advances (d : Nat) (s : TokenStream) : Advances 1 (exprWithin d) s :=
  (exprWithin_foresees d).advances s

theorem unary_advances (d : Nat) (s : TokenStream) : Advances 1 (unary d) s :=
  (unary_foresees d).advances s

/-- What the parser of operands inside of which expressions may nest to the depth makes of the words
of an expression, at the level of its operator: it goes on behind them where more may follow. -/
inductive Understood (d : Nat) (e : Expr) : Prop where
  | bare (htier : e.tier? = none)
      (h : Leads (· ≠ .lparen) e.words (unary (d + 1)) (indexesAfter (exprWithin (d + 1)))
        (Alike e))
  | operand (htier : e.tier? = none) (htarget : e.wrapsTarget = true)
      (h : Reads (Clear 5) e.words (unary (d + 1)) (Alike e))
  | comparison (htier : e.tier? = some .comparison)
      (h : Reads (Clear e.rank) e.words ((unary (d + 1)).atTier (some .comparison)) (Alike e))
  | chain (tier : Tier) (htier : e.tier? = some tier) (hchain : tier ≠ .comparison)
      (h : Leads (Clear (tier.rank + 1)) e.words ((unary (d + 1)).atTier (some tier))
        ((unary (d + 1)).goOn tier) (Alike e))

namespace Understood

/-- The words are read at the level of the operator. -/
theorem reads (h : Understood d e) :
    Reads (Clear (rankOf e.tier?)) e.words ((unary (d + 1)).atTier e.tier?) (Alike e) := by
  cases h with
  | bare htier h =>
    rw [htier]
    exact h.unindexed (exprWithin_advances (d + 1)) fun _ hk => hk.call
  | operand htier _ h =>
    rw [htier]
    exact h
  | comparison htier h =>
    rw [← e.rank_eq, htier]
    exact h
  | chain tier htier _ h =>
    rw [htier]
    exact h.finish (unary_advances (d + 1))

/-- The words are read at every looser level, and at their own one if its operators follow one
another, and more operators may stand behind them. -/
theorem leads (h : Understood d e) {tier : Tier}
    (htier : tier.rank < e.rank ∨ (tier.rank = e.rank ∧ tier ≠ .comparison)) :
    Leads (Clear (tier.rank + 1)) e.words ((unary (d + 1)).atTier (some tier))
      ((unary (d + 1)).goOn tier) (Alike e) := by
  rcases htier with hlt | ⟨heq, hchain⟩
  · rw [e.rank_eq] at hlt
    exact h.reads.looser (unary_advances (d + 1)) hlt
  · have hown : some tier = e.tier? := rankOf_inj (heq.trans e.rank_eq)
    cases h with
    | bare hnone => rw [hnone] at hown; cases hown
    | operand hnone => rw [hnone] at hown; cases hown
    | comparison hcompare =>
      rw [hcompare] at hown
      exact absurd (Option.some.inj hown) hchain
    | chain tier' htier' _ h =>
      rw [htier'] at hown
      cases hown
      exact h

/-- The words are read at every level that is not tighter. -/
theorem reads_at (h : Understood d e) {u : Option Tier} (hu : rankOf u ≤ e.rank) :
    Reads (Clear (rankOf u)) e.words ((unary (d + 1)).atTier u) (Alike e) := by
  rw [e.rank_eq] at hu
  exact h.reads.at_looser (unary_advances (d + 1)) hu

/-- The words are read as a whole expression. -/
theorem whole (h : Understood d e) (hopens : Opens e.words) : Whole (exprWithin (d + 2)) e :=
  ⟨hopens, h.reads_at (u := some .or) (Nat.zero_le _)⟩

end Understood

/-! ### Operands in parentheses where they are needed -/

theorem Whole.parens_leads (h : Whole (exprWithin (d + 1)) e) :
    Leads Whatever (wrapWords true e.words) (unary (d + 1)) (indexesAfter (exprWithin (d + 1)))
      (Alike e) :=
  .operand (fun _ => rfl) h.parens

theorem Whole.parens_reads (h : Whole (exprWithin (d + 1)) e) :
    Reads (Clear 5) (wrapWords true e.words) (unary (d + 1)) (Alike e) :=
  h.parens_leads.unindexed (exprWithin_advances (d + 1)) fun _ _ => trivial

/-- The words are read at every level, and inside of brackets. -/
structure Parsed (d : Nat) (e : Expr) : Prop where
  outside : Understood d e
  inside : Whole (exprWithin (d + 1)) e

namespace Parsed

/-- What is indexed. -/
theorem target (h : Parsed d e) :
    Leads (· ≠ .lparen) (wrapWords e.wrapsTarget e.words) (unary (d + 1))
      (indexesAfter (exprWithin (d + 1))) (Alike e) := by
  cases hwraps : e.wrapsTarget with
  | true => exact h.inside.parens_leads.mono fun _ _ => trivial
  | false =>
    cases h.outside with
    | bare _ h => exact h
    | operand _ htarget => rw [hwraps] at htarget; cases htarget
    | comparison htier => rw [Expr.wrapsTarget_of_tier htier] at hwraps; cases hwraps
    | chain _ htier => rw [Expr.wrapsTarget_of_tier htier] at hwraps; cases hwraps

/-- The operand of an operator in front. -/
theorem operand (h : Parsed d e) :
    Reads (Clear 5) (wrapWords e.wrapsOperand e.words) (unary (d + 1)) (Alike e) := by
  cases hwraps : e.wrapsOperand with
  | true => exact h.inside.parens_reads
  | false =>
    have hrank := Expr.rank_of_wrapsOperand hwraps
    exact h.outside.reads_at (u := none) (Nat.le_of_eq hrank.symm)

/-- The left operand of an operator. -/
theorem left (h : Parsed d e) (op : BinaryOp) :
    Leads (Clear (op.tier.rank + 1)) (wrapWords (e.wrapsLeft op) e.words)
      ((unary (d + 1)).atTier (some op.tier)) ((unary (d + 1)).goOn op.tier) (Alike e) := by
  cases hwraps : e.wrapsLeft op with
  | true =>
    have hreads : Reads (Clear (rankOf none)) _ ((unary (d + 1)).atTier none) (Alike e) :=
      h.inside.parens_reads
    refine hreads.looser (unary_advances (d + 1)) ?_
    cases op <;> decide
  | false =>
    refine h.outside.leads ?_
    simp only [Expr.wrapsLeft, Bool.or_eq_false_iff, Bool.and_eq_false_iff, decide_eq_false_iff_not,
      beq_eq_false_iff_ne] at hwraps
    obtain ⟨hle, hne | hchain⟩ := hwraps
    · exact .inl (by omega)
    · rcases Nat.lt_or_eq_of_le (Nat.not_lt.1 hle) with hlt | heq
      · exact .inl hlt
      · exact .inr ⟨heq, hchain⟩

/-- The right operand of an operator. -/
theorem right (h : Parsed d e) (op : BinaryOp) :
    Reads (Clear (op.tier.rank + 1)) (wrapWords (e.wrapsRight op) e.words)
      ((unary (d + 1)).atTier op.tier.tighter) (Alike e) := by
  rw [← op.tier.rankOf_tighter]
  cases hwraps : e.wrapsRight op with
  | true =>
    have hreads : Reads (Clear (rankOf none)) _ ((unary (d + 1)).atTier none) (Alike e) :=
      h.inside.parens_reads
    exact hreads.at_looser (unary_advances (d + 1)) (rankOf_le _)
  | false =>
    refine h.outside.reads_at ?_
    simp only [Expr.wrapsRight, decide_eq_false_iff_not] at hwraps
    rw [op.tier.rankOf_tighter]
    omega

end Parsed

/-! ### What the words of an expression start with -/

theorem wrapWords_first {b : Bool} {k : TokenKind} (h : firstKind ws k ∈ openers) :
    firstKind (wrapWords b ws) k ∈ openers := by
  cases b with
  | false => exact h
  | true => exact show TokenKind.lparen ∈ openers by decide

theorem Expr.first : ∀ (e : Expr) (k : TokenKind), firstKind e.words k ∈ openers
  | .nil, _ => show TokenKind.kwNil ∈ openers by decide
  | .bool true, _ => show TokenKind.kwTrue ∈ openers by decide
  | .bool false, _ => show TokenKind.kwFalse ∈ openers by decide
  | .int n, _ => by
    rw [Expr.words, numberWords]
    split
    · exact show TokenKind.minus ∈ openers by decide
    · exact show TokenKind.int ∈ openers by decide
  | .str _, _ => show TokenKind.str ∈ openers by decide
  | .receiver, _ => show TokenKind.kwSelf ∈ openers by decide
  | .var _ _, _ => show TokenKind.ident ∈ openers by decide
  | .list _, _ => show TokenKind.lbrack ∈ openers by decide
  | .unary .neg _, _ => show TokenKind.minus ∈ openers by decide
  | .unary .not _, _ => show TokenKind.bang ∈ openers by decide
  | .binary op l r, k => by
    rw [Expr.words, List.append_assoc, firstKind_append]
    exact wrapWords_first (l.first _)
  | .index t i, k => by
    rw [Expr.words, List.append_assoc, List.append_assoc, firstKind_append]
    exact wrapWords_first (t.first _)
  | .call _ _, _ => show TokenKind.ident ∈ openers by decide
  | .block _, _ => show TokenKind.kwDo ∈ openers by decide
  | .cond _ _ none, _ => show TokenKind.kwIf ∈ openers by decide
  | .cond _ _ (some _), _ => show TokenKind.kwIf ∈ openers by decide
  | .loop _ _, _ => show TokenKind.kwWhile ∈ openers by decide

theorem ne_equal_of_opener {k : TokenKind} (h : k ∈ openers) : k ≠ .equal := by
  revert k
  decide

/-- No expression, items or statements start with `=`. -/
theorem Expr.first_ne (e : Expr) (ws : List Word) (k : TokenKind) :
    firstKind (e.words ++ ws) k ≠ .equal := by
  rw [firstKind_append]
  exact ne_equal_of_opener (e.first _)

theorem Expr.itemWords_first (es : List Expr) {w : Word} (hw : w.1 ≠ .equal) (ws : List Word)
    (k : TokenKind) : firstKind (Expr.itemWords es ++ w :: ws) k ≠ .equal := by
  cases es with
  | nil => exact hw
  | cons e es =>
    rw [Expr.itemWords, List.append_assoc]
    exact e.first_ne _ k

theorem Stmt.bodyWords_first (body : List Stmt) {w : Word} (hw : w.1 ≠ .equal) (ws : List Word)
    (k : TokenKind) : firstKind (Stmt.bodyWords body ++ w :: ws) k ≠ .equal := by
  rcases body with _ | ⟨a, as⟩
  · exact hw
  · rw [Stmt.bodyWords, List.append_assoc]
    cases a with
    | define name e => exact show TokenKind.kwLet ≠ .equal by decide
    | assign name e => exact show TokenKind.ident ≠ .equal by decide
    | expr e => exact e.first_ne _ k

theorem Opens.wrap {e : Expr} (h : Opens e.words) (b : Bool) : Opens (wrapWords b e.words) := by
  cases b with
  | false => exact h
  | true => exact .cons (by decide) fun k _ => e.first_ne _ k

theorem Expr.opens : ∀ e : Expr, Opens e.words
  | .nil => .single (by decide)
  | .bool true => .single (by decide)
  | .bool false => .single (by decide)
  | .int n => by
    rw [Expr.words, numberWords]
    split
    · exact .cons (by decide) fun _ _ => show TokenKind.int ≠ .equal by decide
    · exact .single (by decide)
  | .str _ => .single (by decide)
  | .receiver => .single (by decide)
  | .var _ _ => .single (by decide)
  | .list items => .cons (by decide) fun k _ => Expr.itemWords_first items (by decide) [] k
  | .unary op e => by
    rw [Expr.words]
    refine .cons (by cases op <;> decide) fun k _ => ?_
    exact ne_equal_of_opener (wrapWords_first (e.first k))
  | .binary op l r => by
    rw [Expr.words, List.append_assoc]
    refine (l.opens.wrap _).append fun k _ => ?_
    exact show op.kind ≠ .equal by cases op <;> decide
  | .index t i => by
    rw [Expr.words, List.append_assoc, List.append_assoc]
    exact (t.opens.wrap _).append fun k _ => show TokenKind.lbrack ≠ .equal by decide
  | .call _ _ => .cons (by decide) fun _ _ => show TokenKind.lparen ≠ .equal by decide
  | .block body => .cons (by decide) fun k _ => Stmt.bodyWords_first body (by decide) [] k
  | .cond t yes none => by
    rw [Expr.words]
    simp only [List.append_assoc]
    exact .cons (by decide) fun k _ => t.first_ne _ k
  | .cond t yes (some no) => by
    rw [Expr.words]
    simp only [List.append_assoc]
    exact .cons (by decide) fun k _ => t.first_ne _ k
  | .loop t body => by
    rw [Expr.words]
    simp only [List.append_assoc]
    exact .cons (by decide) fun k _ => t.first_ne _ k

/-! ### All expressions -/

theorem Bare.understood (h : Bare (exprWithin (d + 1)) e) (htier : e.tier? = none) :
    Understood d e :=
  .bare htier (.operand h.first h.reads)

theorem Parsed.of_understood (h : ∀ d, 2 * e.height ≤ d → Understood d e) (n : Nat)
    (hn : 2 * e.height < n) : Parsed n e := by
  cases n with
  | zero => omega
  | succ n => exact ⟨h (n + 1) (by omega), (h n (by omega)).whole e.opens⟩

/-- A number, with its sign if it has one. -/
theorem understood_int {n : Number} (hmin : minNumber < n.toInt) : Understood d (.int n) := by
  by_cases hn : n.toInt < 0
  · refine .operand rfl (decide_eq_true hn) (Reads.negative hn hmin fun m hm => ?_)
    -- The digits nest nothing, so that any depth will do.
    have hdigits : ∀ {o x : Parser Expr}, (∀ s, Advances 1 x s) →
        Reads (Clear 5) (Expr.int m).words (unaryOver o x) (Alike (.int m)) := by
      intro o x hx
      have hbare : Bare x (.int m) := .int hm
      exact (Leads.operand hbare.first hbare.reads).unindexed hx fun _ hk => hk.call
    cases d with
    | zero => exact hdigits fun _ => .of_error rfl
    | succ d => exact hdigits (exprWithin_advances (d + 1))
  · exact (Bare.int hn).understood rfl

mutual

/-- The words of an expression that is not too high are read as the expression. -/
theorem Expr.understood : ∀ e : Expr, e.writable = true → ∀ d, 2 * e.height ≤ d → Understood d e
  | .nil, _, _, _ => Bare.nil.understood rfl
  | .bool b, _, _, _ => (Bare.bool b).understood rfl
  | .int n, h, _, _ => understood_int (of_decide_eq_true h)
  | .str s, _, _, _ => (Bare.str s).understood rfl
  | .receiver, _, _, _ => Bare.receiver.understood rfl
  | .var name offset, _, _, _ => (Bare.var name offset).understood rfl
  | .list items, h, d, hd => by
    rw [Expr.height] at hd
    have hitems := Expr.wholes items h d (by omega)
    exact (Bare.list (exprWithin_advances (d + 1)) hitems).understood rfl
  | .unary op e, h, d, hd => by
    simp only [Expr.writable, Bool.and_eq_true, Bool.not_eq_true', Bool.and_eq_false_iff,
      beq_eq_false_iff_ne] at h
    rw [Expr.height] at hd
    match d, hd with
    | d + 1, hd =>
      have he := Parsed.of_understood (Expr.understood e h.2) d (by omega)
      refine .operand rfl rfl (Reads.unary ?_ he.operand)
      rintro rfl n rfl
      rcases h.1 with hop | hnumber
      · exact hop rfl
      · cases hnumber
  | .binary op l r, h, d, hd => by
    simp only [Expr.writable, Bool.and_eq_true] at h
    rw [Expr.height] at hd
    have hl := Parsed.of_understood (Expr.understood l h.1) d (by omega)
    have hr := Parsed.of_understood (Expr.understood r h.2) d (by omega)
    have ho := unary_advances (d + 1)
    by_cases hop : op.tier = .comparison
    · have hreads := Reads.comparison ho hop (hl.left op) (r.opens.wrap _) (hr.right op)
      rw [show some op.tier = some .comparison by rw [hop]] at hreads
      exact .comparison (congrArg some hop) hreads
    · exact .chain op.tier rfl hop (.binary ho hop (hl.left op) (r.opens.wrap _) (hr.right op))
  | .index t i, h, d, hd => by
    simp only [Expr.writable, Bool.and_eq_true] at h
    rw [Expr.height] at hd
    have ht := Parsed.of_understood (Expr.understood t h.1) d (by omega)
    have hi := Parsed.of_understood (Expr.understood i h.2) d (by omega)
    have hindex := Leads.index (F := (· ≠ .lparen)) (exprWithin_advances (d + 1)) (by decide)
      ht.target hi.inside
    exact .bare rfl (hindex.mono fun _ _ => trivial)
  | .call name args, h, d, hd => by
    simp only [Expr.writable, Bool.and_eq_true] at h
    rw [Expr.height] at hd
    have hargs := Expr.wholes args h.2 d (by omega)
    exact (Bare.call (exprWithin_advances (d + 1)) name hargs).understood rfl
  | .block body, h, d, hd => by
    rw [Expr.height] at hd
    have hbody := Stmt.wholes body h d (by omega)
    exact (Bare.block (exprWithin_advances (d + 1)) hbody).understood rfl
  | .cond t yes none, h, d, hd => by
    simp only [Expr.writable, Bool.and_eq_true] at h
    rw [Expr.height] at hd
    have ht := (Parsed.of_understood (Expr.understood t h.1) d (by omega)).inside
    have hyes := Stmt.wholes yes h.2 d (by omega)
    exact (Bare.cond (exprWithin_advances (d + 1)) ht hyes).understood rfl
  | .cond t yes (some no), h, d, hd => by
    simp only [Expr.writable, Bool.and_eq_true] at h
    rw [Expr.height] at hd
    have ht := (Parsed.of_understood (Expr.understood t h.1.1) d (by omega)).inside
    have hyes := Stmt.wholes yes h.1.2 d (by omega)
    have hno := Stmt.wholes no h.2 d (by omega)
    exact (Bare.condElse (exprWithin_advances (d + 1)) ht hyes hno).understood rfl
  | .loop t body, h, d, hd => by
    simp only [Expr.writable, Bool.and_eq_true] at h
    rw [Expr.height] at hd
    have ht := (Parsed.of_understood (Expr.understood t h.1) d (by omega)).inside
    have hbody := Stmt.wholes body h.2 d (by omega)
    exact (Bare.loop (exprWithin_advances (d + 1)) ht hbody).understood rfl

theorem Expr.wholes : ∀ es : List Expr, Expr.writableAll es = true →
    ∀ d, 2 * Expr.heightAll es < d → ∀ e ∈ es, Whole (exprWithin (d + 1)) e
  | [], _, _, _, _, he => absurd he List.not_mem_nil
  | e :: es, h, d, hd, e', he' => by
    simp only [Expr.writableAll, Bool.and_eq_true] at h
    rw [Expr.heightAll] at hd
    have hfirst := Parsed.of_understood (Expr.understood e h.1) d (by omega)
    have hrest := Expr.wholes es h.2 d (by omega)
    rcases List.mem_cons.1 he' with rfl | hmem
    · exact hfirst.inside
    · exact hrest e' hmem

theorem Stmt.whole : ∀ a : Stmt, a.writable = true → ∀ d, 2 * a.height < d →
    WholeStmt (exprWithin (d + 1)) a
  | .define name e, h, d, hd => by
    simp only [Stmt.writable, Bool.and_eq_true] at h
    exact (Parsed.of_understood (Expr.understood e h.2) d hd).inside.define name
  | .assign name e, h, d, hd => by
    simp only [Stmt.writable, Bool.and_eq_true] at h
    exact (Parsed.of_understood (Expr.understood e h.2) d hd).inside.assign name
  | .expr e, h, d, hd => (Parsed.of_understood (Expr.understood e h) d hd).inside.expr

theorem Stmt.wholes : ∀ body : List Stmt, Stmt.writableAll body = true →
    ∀ d, 2 * Stmt.heightAll body < d → ∀ a ∈ body, WholeStmt (exprWithin (d + 1)) a
  | [], _, _, _, _, ha => absurd ha List.not_mem_nil
  | a :: as, h, d, hd, a', ha' => by
    simp only [Stmt.writableAll, Bool.and_eq_true] at h
    rw [Stmt.heightAll] at hd
    have hfirst := Stmt.whole a h.1 d (by omega)
    have hrest := Stmt.wholes as h.2 d (by omega)
    rcases List.mem_cons.1 ha' with rfl | hmem
    · exact hfirst
    · exact hrest a' hmem

end

/-- A source with the words of statements is the program of them, apart from offsets. -/
theorem parseProgram_of_words {src : String} {s : TokenStream} {p : Program}
    (hlex : lex src = .ok s) (hwords : words s.tokens = Stmt.bodyWords p)
    (hp : ∀ a ∈ p, WholeStmt expr a) :
    ∃ q, parseProgram src = .ok q ∧ Stmt.eraseAll q = Stmt.eraseAll p := by
  have hx : ∀ s, Advances 1 expr s := exprWithin_advances maxNesting
  have hends : ([] : List TokenKind) ⊆ [.kwEnd, .kwElse] := List.nil_subset _
  have hempty : EndsBlock [] (TokenStream.peek ⟨[], s.stop⟩).kind := .inr ⟨rfl, rfl⟩
  obtain ⟨q, hq, herase⟩ := statements_reads hends hx hp s.tokens ⟨[], s.stop⟩ hwords hempty
  rw [s.behind_self] at hq
  exact ⟨q, parseWithin_of_statements hlex hq rfl, herase⟩

/-- The text of a program of height at most sixty, whose names are names, whose numbers are above
the least one and in which no minus stands directly in front of a number, is read as the program,
apart from offsets. -/
theorem parseProgram_print {p : Program} (hwritable : Stmt.writableAll p = true)
    (hheight : Stmt.heightAll p ≤ 60) :
    ∃ q, parseProgram p.print = .ok q ∧ Stmt.eraseAll q = Stmt.eraseAll p := by
  obtain ⟨s, hlex, hwords⟩ := lex_print hwritable
  exact parseProgram_of_words hlex hwords (Stmt.wholes p hwritable 127 (by omega))

/-- A product of a sum and of an index, both of whose first parts stand in parentheses. -/
theorem parseProgram_print_product :
    ∃ q, parseProgram "x = (1 + -2) * (!y)[\"a\\\"b\"]" = .ok q ∧
      Stmt.eraseAll q = Stmt.eraseAll [.assign "x" (.binary .mul
        (.binary .add (.int ⟨1, by decide, by decide⟩) (.int ⟨-2, by decide, by decide⟩))
        (.index (.unary .not (.var "y" 0)) (.str "a\"b")))] := by
  have hread := parseProgram_print (p := [.assign "x" (.binary .mul
    (.binary .add (.int ⟨1, by decide, by decide⟩) (.int ⟨-2, by decide, by decide⟩))
    (.index (.unary .not (.var "y" 0)) (.str "a\"b")))]) (by decide) (by decide)
  generalize htext : Program.print _ = text at hread
  have hprinted : "x = (1 + -2) * (!y)[\"a\\\"b\"]" = text := by
    rw [← htext]
    decide
  rwa [hprinted]

end Nesting

end CalcShell.Calc
