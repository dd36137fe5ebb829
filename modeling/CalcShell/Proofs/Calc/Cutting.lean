import CalcShell.Calc.Parser
import CalcShell.Proofs.Calc.LineEnds
import CalcShell.Proofs.Calc.Offsets

/-!
# Parsing a stream that is cut behind a line end

A stream of tokens may be cut behind a line end and be given other positions (`Cut`). Where a parser
accepts the whole stream, a parser that allows at least the same nesting either gives the same
result, up to offsets, from the part that is left, or runs out of tokens (`Keeps`). This is shown
rule by rule: each rule of the grammar keeps this if the parsers of its inner expressions do
(`Mirrors`), so that it holds of every depth by induction.

Nothing has to be skipped behind the last line end but line ends, so that the part that is left is
never used up before the parser wants a token.
-/

namespace CalcShell.Calc

/-- The stream `s'` is the front of `s` up to a line end, apart from positions, and the tokens
`rest` follow it in `s`. No token of the front stands for the end. -/
structure Cut (rest : List Token) (s s' : TokenStream) : Prop where
  front : ∃ ts, s.tokens = ts ++ rest ∧ words s'.tokens = words ts ∧ EndsLine ts ∧
    ∀ t ∈ ts, t.kind ≠ .eof

namespace Cut

variable {rest : List Token} {s s' : TokenStream}

/-- Both streams have a token, of the same kind and text, and if it is no line end, they are still
cut in the same place behind it. -/
theorem uncons (h : Cut rest s s') :
    ∃ t ts u us, s.tokens = t :: ts ∧ s'.tokens = u :: us ∧ t.kind = u.kind ∧ t.text = u.text ∧
      t.kind ≠ .eof ∧ (t.kind ≠ .newline → Cut rest ⟨ts, s.stop⟩ ⟨us, s'.stop⟩) := by
  obtain ⟨ts, hs, hwords, hends, heof⟩ := h.front
  cases ts with
  | nil =>
    obtain ⟨t, ht, -⟩ := hends
    cases ht
  | cons t ts =>
    cases hs' : s'.tokens with
    | nil =>
      rw [hs'] at hwords
      cases hwords
    | cons u us =>
      rw [hs', words_cons, words_cons] at hwords
      obtain ⟨hword, hwords⟩ := List.cons.inj hwords
      obtain ⟨hkind, htext⟩ := Prod.mk.inj hword
      refine ⟨t, ts ++ rest, u, us, hs, rfl, hkind.symm, htext.symm, heof t List.mem_cons_self, ?_⟩
      intro hnl
      refine ⟨ts, rfl, hwords, ?_, fun x hx => heof x (List.mem_cons_of_mem t hx)⟩
      -- The line end at the end is not the token in front.
      obtain ⟨l, hl, hlkind⟩ := hends
      cases ts with
      | nil =>
        cases hl
        exact absurd hlkind hnl
      | cons t' ts => exact ⟨l, by rwa [List.getLast?_cons_cons] at hl, hlkind⟩

theorem peek_kind (h : Cut rest s s') : s.peek.kind = s'.peek.kind := by
  obtain ⟨t, ts, u, us, hs, hs', hkind, -⟩ := h.uncons
  rw [TokenStream.peek, TokenStream.peek, hs, hs']
  exact hkind

theorem peek_text (h : Cut rest s s') : s.peek.text = s'.peek.text := by
  obtain ⟨t, ts, u, us, hs, hs', -, htext, -⟩ := h.uncons
  rw [TokenStream.peek, TokenStream.peek, hs, hs']
  exact htext

theorem peek_ne_eof (h : Cut rest s s') : s.peek.kind ≠ .eof := by
  obtain ⟨t, ts, u, us, hs, -, -, -, heof, -⟩ := h.uncons
  rw [TokenStream.peek, hs]
  exact heof

/-- Behind a token that is no line end. -/
theorem advance (h : Cut rest s s') (hk : s.peek.kind ≠ .newline) :
    Cut rest s.advance s'.advance := by
  obtain ⟨t, ts, u, us, hs, hs', -, -, -, hcut⟩ := h.uncons
  rw [TokenStream.peek, hs] at hk
  rw [TokenStream.advance, TokenStream.advance, hs, hs']
  exact hcut hk

theorem advance_size (h : Cut rest s s') : s'.advance.size + 1 = s'.size := by
  obtain ⟨t, ts, u, us, -, hs', -⟩ := h.uncons
  rw [TokenStream.size, TokenStream.size, TokenStream.advance, hs']
  rfl

theorem size_pos (h : Cut rest s s') : 0 < s'.size := by
  rw [← h.advance_size]
  exact Nat.succ_pos _

theorem size_eq (h : Cut rest s s') : s.size = s'.size + rest.length := by
  obtain ⟨ts, hs, hwords, -, -⟩ := h.front
  have hlength := congrArg List.length hwords
  rw [words, words, List.length_map, List.length_map] at hlength
  rw [TokenStream.size, TokenStream.size, hs, List.length_append, hlength]

end Cut

/-- Tokens that a parser sees the same of are dropped alike. -/
theorem words_dropWhile {ts us : List Token} (h : words us = words ts) (kinds : List TokenKind) :
    words (us.dropWhile fun t => kinds.contains t.kind) =
      words (ts.dropWhile fun t => kinds.contains t.kind) := by
  induction ts generalizing us with
  | nil =>
    cases us with
    | nil => rfl
    | cons u us => cases h
  | cons t ts ih =>
    cases us with
    | nil => cases h
    | cons u us =>
      rw [words_cons, words_cons] at h
      obtain ⟨hword, hrest⟩ := List.cons.inj h
      have hkind : u.kind = t.kind := (Prod.mk.inj hword).1
      rw [List.dropWhile_cons, List.dropWhile_cons, hkind]
      split
      · exact ih hrest
      · rw [words_cons, words_cons, hword, hrest]

/-- Tokens that end with a line end are all dropped, or what is left still ends with it. -/
theorem EndsLine.dropWhile {ts : List Token} (h : EndsLine ts) (p : Token → Bool) :
    ts.dropWhile p = [] ∨ EndsLine (ts.dropWhile p) := by
  induction ts with
  | nil => exact .inl rfl
  | cons t ts ih =>
    rw [List.dropWhile_cons]
    split
    · cases ts with
      | nil => exact .inl rfl
      | cons t' ts =>
        obtain ⟨l, hl, hkind⟩ := h
        rw [List.getLast?_cons_cons] at hl
        exact ih ⟨l, hl, hkind⟩
    · exact .inr h

/-- The stream without the tokens of some kinds in front. -/
def TokenStream.without (kinds : List TokenKind) (s : TokenStream) : TokenStream :=
  { s with tokens := s.tokens.dropWhile fun t => kinds.contains t.kind }

/-- Tokens are skipped alike, unless all of the part that is left is skipped. -/
theorem Cut.without {rest : List Token} {s s' : TokenStream} (h : Cut rest s s')
    (kinds : List TokenKind) :
    (Cut rest (s.without kinds) (s'.without kinds) ∧ (s'.without kinds).size ≤ s'.size) ∨
      ((s'.without kinds).tokens = [] ∧
        (s.without kinds).tokens = rest.dropWhile fun t => kinds.contains t.kind) := by
  obtain ⟨ts, hs, hwords, hends, heof⟩ := h.front
  have hdrop := words_dropWhile hwords kinds
  have hs' : (s.without kinds).tokens =
      (ts ++ rest).dropWhile fun t => kinds.contains t.kind := by
    rw [← hs]
    rfl
  rw [List.dropWhile_append] at hs'
  rcases hends.dropWhile (fun t => kinds.contains t.kind) with hnil | hends
  · right
    rw [hnil] at hdrop hs'
    exact ⟨List.map_eq_nil_iff.1 hdrop, hs'⟩
  · left
    have hne : (ts.dropWhile fun t => kinds.contains t.kind).isEmpty = false := by
      obtain ⟨t, ht, -⟩ := hends
      cases hd : ts.dropWhile fun t => kinds.contains t.kind with
      | nil =>
        rw [hd] at ht
        cases ht
      | cons _ _ => rfl
    rw [hne] at hs'
    refine ⟨⟨_, hs', hdrop, hends, ?_⟩, (List.dropWhile_sublist _).length_le⟩
    exact fun t ht => heof t ((List.dropWhile_sublist _).subset ht)

/-! ## Keeping the result of a parser -/

/-- Where `p` accepts the stream `s`, which `rest` ends, `q` gives a result like that of `p` from
the stream `s'`, which is cut off before it, and leaves at most `n` tokens; or it rejects that for
an error of `E`, but not if there is no rest. -/
def Keeps (E : SourceError → Prop) {α β : Type} (like : α → β → Prop) (rest : List Token) (n : Nat)
    (p : Parser α) (q : Parser β) (s s' : TokenStream) : Prop :=
  ∀ a t, p s = .ok (a, t) →
    (∃ b t', q s' = .ok (b, t') ∧ like a b ∧ Cut rest t t' ∧ t'.size ≤ n) ∨
      (rest ≠ [] ∧ ∃ err, q s' = .error err ∧ E err)

/-- A parser rejects a stream without tokens for an error of `E`. -/
def Starves (E : SourceError → Prop) {α : Type} (p : Parser α) : Prop :=
  ∀ s : TokenStream, s.tokens = [] → ∃ err, p s = .error err ∧ E err

namespace Parser

variable {α β : Type}

theorem bind_apply (p : Parser α) (f : α → Parser β) (s : TokenStream) :
    (p >>= f) s =
      match p s with
      | .error e => .error e
      | .ok (a, s) => f a s :=
  rfl

theorem if_apply (c : Prop) [Decidable c] (p q : Parser α) (s : TokenStream) :
    (if c then p else q : Parser α) s = if c then p s else q s := by
  split <;> rfl

/-- What a parser after another one was given. -/
theorem bind_ok {p : Parser α} {f : α → Parser β} {s t : TokenStream} {b : β}
    (h : (p >>= f) s = .ok (b, t)) : ∃ a s₁, p s = .ok (a, s₁) ∧ f a s₁ = .ok (b, t) := by
  rw [bind_apply] at h
  generalize p s = x at h ⊢
  obtain _ | ⟨a, s₁⟩ := x
  · cases h
  · exact ⟨a, s₁, rfl, h⟩

/-- A parser after another one that gave a result. -/
theorem bind_of_ok {p : Parser α} {f : α → Parser β} {s s₁ : TokenStream} {a : α}
    (h : p s = .ok (a, s₁)) : (p >>= f) s = f a s₁ := by
  rw [bind_apply, h]

theorem bind_of_error {p : Parser α} {f : α → Parser β} {s : TokenStream} {err : SourceError}
    (h : p s = .error err) : (p >>= f) s = .error err := by
  rw [bind_apply, h]

theorem expect_of_kind {kind : TokenKind} {s : TokenStream} (h : s.peek.kind = kind) :
    expect kind s = .ok (s.peek, s.advance) := by
  simp only [expect, bind_apply, peek, if_apply, if_pos h]
  rfl

theorem expect_of_ne {kind : TokenKind} {s : TokenStream} (h : s.peek.kind ≠ kind) :
    ∃ err, expect kind s = .error err := by
  simp only [expect, bind_apply, peek, if_apply, if_neg h]
  exact ⟨_, rfl⟩

theorem accept_of_kind {kind : TokenKind} {s : TokenStream} (h : s.peek.kind = kind) :
    accept kind s = .ok (true, s.advance) := by
  simp only [accept, bind_apply, peek, if_apply, if_pos h]
  rfl

theorem accept_of_ne {kind : TokenKind} {s : TokenStream} (h : s.peek.kind ≠ kind) :
    accept kind s = .ok (false, s) := by
  simp only [accept, bind_apply, peek, if_apply, if_neg h]
  rfl

end Parser

namespace Keeps

open Calc.Parser

variable {E : SourceError → Prop} {α β γ δ : Type} {like : α → β → Prop}
  {rest : List Token} {n : Nat} {s s' : TokenStream}

theorem pure {a : α} {b : β} (hcut : Cut rest s s') (h : like a b) (hn : s'.size ≤ n) :
    Keeps E like rest n (Pure.pure a) (Pure.pure b) s s' := by
  intro a' t ht
  cases ht
  exact .inl ⟨b, s', rfl, h, hcut, hn⟩

/-- A parser that rejects the stream. -/
theorem of_error {p : Parser α} {q : Parser β} {err : SourceError} (h : p s = .error err) :
    Keeps E like rest n p q s s' := by
  intro a t ht
  rw [h] at ht
  cases ht

/-- One parser after the other. -/
theorem bind {p : Parser γ} {q : Parser δ} {f : γ → Parser α} {g : δ → Parser β}
    {like' : γ → δ → Prop} {m : Nat} (h : Keeps E like' rest m p q s s')
    (hf : ∀ a b t t', like' a b → Cut rest t t' → t'.size ≤ m →
      Keeps E like rest n (f a) (g b) t t') :
    Keeps E like rest n (p >>= f) (q >>= g) s s' := by
  intro a t ht
  obtain ⟨c, s₁, hp, hf'⟩ := bind_ok ht
  rcases h c s₁ hp with ⟨d, s₁', hq, hlike, hcut, hm⟩ | ⟨hrest, err, hq, herr⟩
  · rw [bind_of_ok hq]
    exact hf c d s₁ s₁' hlike hcut hm a t hf'
  · rw [bind_of_error hq]
    exact .inr ⟨hrest, err, rfl, herr⟩

/-- What depends on the token in front. -/
theorem peek {f : Token → Parser α} {g : Token → Parser β}
    (h : Keeps E like rest n (f s.peek) (g s'.peek) s s') :
    Keeps E like rest n (Parser.peek >>= f) (Parser.peek >>= g) s s' := h

theorem peekSecond {f : Token → Parser α} {g : Token → Parser β}
    (h : Keeps E like rest n (f s.advance.peek) (g s'.advance.peek) s s') :
    Keeps E like rest n (Parser.peekSecond >>= f) (Parser.peekSecond >>= g) s s' := h

/-- What comes behind the token in front. -/
theorem pop {f : Token → Parser α} {g : Token → Parser β}
    (h : Keeps E like rest n (f s.peek) (g s'.peek) s.advance s'.advance) :
    Keeps E like rest n (Parser.pop >>= f) (Parser.pop >>= g) s s' := h

/-- What comes behind tokens that are skipped, and needs a token. -/
theorem skip {p : Parser α} {q : Parser β} (hcut : Cut rest s s') (kinds : List TokenKind)
    (hp : Starves (fun _ => True) p) (hq : Starves E q)
    (h : ∀ t t', Cut rest t t' → t'.size ≤ s'.size → Keeps E like rest n p q t t') :
    Keeps E like rest n (Parser.skip kinds >>= fun _ => p) (Parser.skip kinds >>= fun _ => q)
      s s' := by
  intro a t ht
  change p (s.without kinds) = .ok (a, t) at ht
  change (∃ b t', q (s'.without kinds) = .ok (b, t') ∧ _) ∨
    (_ ∧ ∃ err, q (s'.without kinds) = .error err ∧ _)
  rcases hcut.without kinds with ⟨hcut', hsize⟩ | ⟨hnone, hleft⟩
  · exact h _ _ hcut' hsize a t ht
  · -- The part that is left is used up, so that the one parser wants more; the other one got it.
    refine .inr ⟨?_, hq _ hnone⟩
    rintro rfl
    obtain ⟨err, herr, -⟩ := hp (s.without kinds) hleft
    rw [herr] at ht
    cases ht

/-- What comes behind a token that is expected. -/
theorem expect (hcut : Cut rest s s') {kind : TokenKind} (hk : kind ≠ .newline)
    {f : Token → Parser α} {g : Token → Parser β}
    (h : ∀ t u, t.text = u.text → Cut rest s.advance s'.advance →
      Keeps E like rest n (f t) (g u) s.advance s'.advance) :
    Keeps E like rest n (Parser.expect kind >>= f) (Parser.expect kind >>= g) s s' := by
  by_cases hpeek : s.peek.kind = kind
  · have hpeek' : s'.peek.kind = kind := hcut.peek_kind ▸ hpeek
    intro a t ht
    rw [bind_of_ok (expect_of_kind hpeek)] at ht
    rw [bind_of_ok (expect_of_kind hpeek')]
    exact h _ _ hcut.peek_text (hcut.advance (hpeek ▸ hk)) a t ht
  · obtain ⟨err, herr⟩ := expect_of_ne hpeek
    exact of_error (bind_of_error herr)

/-- What comes behind a token that may be missing. -/
theorem accept (hcut : Cut rest s s') {kind : TokenKind} (hk : kind ≠ .newline)
    {f : Bool → Parser α} {g : Bool → Parser β}
    (hyes : s.peek.kind = kind → Cut rest s.advance s'.advance →
      Keeps E like rest n (f true) (g true) s.advance s'.advance)
    (hno : s.peek.kind ≠ kind → Keeps E like rest n (f false) (g false) s s') :
    Keeps E like rest n (Parser.accept kind >>= f) (Parser.accept kind >>= g) s s' := by
  by_cases hpeek : s.peek.kind = kind
  · have hpeek' : s'.peek.kind = kind := hcut.peek_kind ▸ hpeek
    intro a t ht
    rw [bind_of_ok (accept_of_kind hpeek)] at ht
    rw [bind_of_ok (accept_of_kind hpeek')]
    exact hyes hpeek (hcut.advance (hpeek ▸ hk)) a t ht
  · have hpeek' : s'.peek.kind ≠ kind := hcut.peek_kind ▸ hpeek
    intro a t ht
    rw [bind_of_ok (accept_of_ne hpeek)] at ht
    rw [bind_of_ok (accept_of_ne hpeek')]
    exact hno hpeek a t ht

end Keeps

/-- Errors among which are all those of running out of tokens. -/
def HasEnds (E : SourceError → Prop) : Prop :=
  ∀ expected position, E ⟨.endOfInput expected, position⟩

namespace Starves

open Calc.Parser

variable {E : SourceError → Prop} {α β : Type}

theorem peek_kind {s : TokenStream} (hs : s.tokens = []) : s.peek.kind = .eof := by
  rw [TokenStream.peek, hs]
  rfl

theorem bind {p : Parser α} (h : Starves E p) (f : α → Parser β) : Starves E (p >>= f) := by
  intro s hs
  obtain ⟨err, herr, hE⟩ := h s hs
  exact ⟨err, bind_of_error herr, hE⟩

theorem unexpected (hE : HasEnds E) (expected : Expected) :
    Starves E (Parser.unexpected expected : Parser α) := by
  intro s hs
  refine ⟨_, rfl, ?_⟩
  dsimp only
  rw [if_pos (peek_kind hs)]
  exact hE _ _

/-- What depends on the token in front, at the end. -/
theorem peek {f : Token → Parser α}
    (h : ∀ s : TokenStream, s.tokens = [] → ∃ err, f s.peek s = .error err ∧ E err) :
    Starves E (Parser.peek >>= f) := h

theorem expect (hE : HasEnds E) {kind : TokenKind} (hk : kind ≠ .eof) :
    Starves E (Parser.expect kind) := by
  refine peek fun s hs => ?_
  rw [if_apply, if_neg]
  · exact unexpected hE _ s hs
  · rw [peek_kind hs]
    exact hk.symm

theorem accept {f : Bool → Parser α} {kind : TokenKind} (hk : kind ≠ .eof)
    (h : Starves E (f false)) : Starves E (Parser.accept kind >>= f) := by
  intro s hs
  have hne : s.peek.kind ≠ kind := by
    rw [peek_kind hs]
    exact hk.symm
  rw [bind_of_ok (accept_of_ne hne)]
  exact h s hs

end Starves

/-! ## Operators -/

/-- Two expressions differ only in offsets. -/
def Expr.Alike (a b : Expr) : Prop := a.erase = b.erase

/-- Two programs differ only in offsets. -/
def Program.Alike (a b : Program) : Prop := Stmt.eraseAll a = Stmt.eraseAll b

/-- Where `p` accepts a stream, `q` gives a result like that of `p` from a stream that is cut, and
takes at least one token; or it rejects that for an error of `E`. Both want at least one token. -/
structure Mirrors (E : SourceError → Prop) (p q : Parser Expr) : Prop where
  keeps : ∀ {rest s s'}, Cut rest s s' → Keeps E Expr.Alike rest (s'.size - 1) p q s s'
  fails : Starves (fun _ => True) p
  starves : Starves E q

section Operators

open Calc.Parser

variable {E : SourceError → Prop} {rest : List Token} {s s' : TokenStream} {o o' : Parser Expr}

/-- A line end is no operator. -/
def Parser.Level.Inline (level : Level) : Prop := level.operator? .newline = none

theorem operators_keeps (ho : Mirrors E o o') {level : Level} (hlevel : level.Inline)
    {n m m' : Nat} {l l' : Expr} (hcut : Cut rest s s') (hm : s.size ≤ m) (hm' : s'.size ≤ m')
    (hn : s'.size ≤ n) (hl : Expr.Alike l l') :
    Keeps E Expr.Alike rest n (operators level o m l) (operators level o' m' l') s s' := by
  -- By induction on the rounds of the one that has fewer tokens: each round takes an operator.
  induction m' generalizing m s s' l l' with
  | zero => exact absurd hcut.size_pos (by omega)
  | succ m' ih =>
    have hsize := hcut.size_eq
    have hpos := hcut.size_pos
    obtain ⟨m, rfl⟩ : ∃ k, m = k + 1 := ⟨m - 1, by omega⟩
    unfold operators
    refine Keeps.peek ?_
    rw [← hcut.peek_kind]
    cases hop : level.operator? s.peek.kind with
    | none => exact .pure hcut hl hn
    | some op =>
      -- The operator is no line end, so that the stream is still cut behind it.
      have hk : s.peek.kind ≠ .newline := by
        intro hk
        rw [hk, hlevel] at hop
        cases hop
      have hadvance := hcut.advance hk
      have hsize' := hcut.advance_size
      refine Keeps.pop (Keeps.skip hadvance [.newline] (ho.fails.bind _) (ho.starves.bind _) ?_)
      intro t t' ht hsize₁
      refine (ho.keeps ht).bind ?_
      intro r r' u u' hr hu hsize₂
      have hbinary : Expr.Alike (.binary op l r) (.binary op l' r') := by
        rw [Expr.Alike, Expr.erase, Expr.erase, hl, hr]
      have hsize₃ := hu.size_eq
      cases level.chains with
      | true => exact ih hu (by omega) (by omega) (by omega) hbinary
      | false =>
        -- A second operator is an error of both, and a line end behind the operand is none.
        refine Keeps.peek ?_
        rw [← hu.peek_kind]
        cases (level.operator? u.peek.kind).isSome with
        | true => exact .of_error rfl
        | false => exact .pure hu hbinary (by omega)

/-- Operands with operators between them. -/
theorem Mirrors.infixed (ho : Mirrors E o o') (level : Level) (hlevel : level.Inline) :
    Mirrors E (infixed level o) (infixed level o') where
  keeps hcut := by
    refine (ho.keeps hcut).bind ?_
    intro l l' t t' hl ht hsize
    have hkeeps : Keeps E Expr.Alike _ _ (operators level o t.size l)
        (operators level o' t'.size l') t t' :=
      operators_keeps ho hlevel ht (Nat.le_refl _) (Nat.le_refl _) hsize hl
    exact hkeeps
  fails := ho.fails.bind _
  starves := ho.starves.bind _

/-- Expressions of binary operators. -/
theorem Mirrors.binaries (ho : Mirrors E o o') : Mirrors E (binaries o) (binaries o') :=
  ((((ho.infixed multiplicativeLevel rfl).infixed additiveLevel rfl).infixed comparisonLevel
    rfl).infixed andLevel rfl).infixed orLevel rfl

end Operators

/-! ## Brackets, calls and blocks -/

section Brackets

open Calc.Parser

variable {E : SourceError → Prop} (hE : HasEnds E) {rest : List Token} {n : Nat}
  {s s' : TokenStream} {e e' : Parser Expr} (he : Mirrors E e e')
include hE he

/-- Items up to a closing bracket. -/
theorem itemsFrom_keeps {close : TokenKind} (hnl : close ≠ .newline) (heof : close ≠ .eof)
    {m m' : Nat} {items items' : List Expr} (hcut : Cut rest s s') (hm' : s'.size < m')
    (hn : s'.size ≤ n) (hitems : Expr.eraseAll items = Expr.eraseAll items') :
    Keeps E (fun a b => Expr.eraseAll a = Expr.eraseAll b) rest n (itemsFrom e close m items)
      (itemsFrom e' close m' items') s s' := by
  have htrue : HasEnds fun _ => True := fun _ _ => trivial
  have hreverse : ∀ {as bs : List Expr}, Expr.eraseAll as = Expr.eraseAll bs →
      Expr.eraseAll as.reverse = Expr.eraseAll bs.reverse := by
    intro as bs h
    rw [Expr.eraseAll_eq_map, Expr.eraseAll_eq_map] at h ⊢
    rw [List.map_reverse, List.map_reverse, h]
  -- Only the bound on the rounds of `e'` counts: where `e` lacks rounds it accepts nothing.
  induction m' generalizing m s s' items items' with
  | zero => exact absurd hm' (Nat.not_lt_zero _)
  | succ m' ih =>
    cases m with
    | zero => exact .of_error rfl
    | succ m =>
      unfold itemsFrom
      refine Keeps.skip hcut [.newline] (.accept heof (he.fails.bind _))
        (.accept heof (he.starves.bind _)) ?_
      intro t t' ht hsize
      have hadvance := ht.advance_size
      refine Keeps.accept ht hnl ?_ ?_
      · -- The bracket is closed.
        intro _ hcut'
        exact .pure hcut' (hreverse hitems) (by omega)
      · -- There is one more item, and then a comma or the closing bracket.
        intro _
        refine (he.keeps ht).bind ?_
        intro a a' u u' ha hu hsize'
        have hitems' : Expr.eraseAll (a :: items) = Expr.eraseAll (a' :: items') := by
          rw [Expr.eraseAll, Expr.eraseAll, hitems, ha]
        refine Keeps.skip hu [.newline] (.accept (by decide) ((Starves.expect htrue heof).bind _))
          (.accept (by decide) ((Starves.expect hE heof).bind _)) ?_
        intro v v' hv hsize''
        have hadvance' := hv.advance_size
        refine Keeps.accept hv (by decide) ?_ ?_
        · intro _ hcut'
          exact ih hcut' (by omega) (by omega) hitems'
        · intro _
          refine Keeps.expect hv hnl ?_
          intro _ _ _ hcut'
          exact .pure hcut' (hreverse hitems') (by omega)

/-- An expression in brackets. -/
theorem bracketed_keeps {close : TokenKind} (hnl : close ≠ .newline) (heof : close ≠ .eof)
    (hcut : Cut rest s s') (hn : s'.size ≤ n) :
    Keeps E Expr.Alike rest n (bracketed e close) (bracketed e' close) s s' := by
  have htrue : HasEnds fun _ => True := fun _ _ => trivial
  unfold bracketed
  refine Keeps.skip hcut [.newline] (he.fails.bind _) (he.starves.bind _) ?_
  intro t t' ht hsize
  refine (he.keeps ht).bind ?_
  intro a a' u u' ha hu hsize'
  refine Keeps.skip hu [.newline] ((Starves.expect htrue heof).bind _)
    ((Starves.expect hE heof).bind _) ?_
  intro v v' hv hsize''
  have hadvance := hv.advance_size
  refine Keeps.expect hv hnl ?_
  intro _ _ _ hcut'
  exact .pure hcut' ha (by omega)

omit hE in
/-- A statement. -/
theorem statement_keeps (hcut : Cut rest s s') :
    Keeps E (fun a b => Stmt.erase a = Stmt.erase b) rest (s'.size - 1) (statement e)
      (statement e') s s' := by
  unfold statement
  have hadvance := hcut.advance_size
  refine Keeps.accept hcut (by decide) ?_ ?_
  · -- A definition: the name and `=` are on the same side of the cut as the keyword.
    intro _ hcut₁
    have hadvance₁ := hcut₁.advance_size
    refine Keeps.expect hcut₁ (by decide) ?_
    intro name name' hname hcut₂
    have hadvance₂ := hcut₂.advance_size
    refine Keeps.expect hcut₂ (by decide) ?_
    intro _ _ _ hcut₃
    refine Keeps.skip hcut₃ [.newline] (he.fails.bind _) (he.starves.bind _) ?_
    intro t t' ht hsize
    refine (he.keeps ht).bind ?_
    intro a a' u u' ha hu hsize'
    refine .pure hu ?_ (by omega)
    rw [Stmt.erase, Stmt.erase, hname, ha]
  · -- An assignment or an expression. The second token may lie behind the cut, but only where the
    -- first one is a line end, and then it does not matter.
    intro _
    refine Keeps.peek (Keeps.peekSecond ?_)
    rw [← hcut.peek_kind, ← hcut.peek_text]
    by_cases hassign : s.peek.kind = .ident ∧ s.advance.peek.kind = .equal
    · obtain ⟨hident, hequal⟩ := hassign
      have hcut₁ := hcut.advance (hident ▸ by decide)
      have hadvance₁ := hcut₁.advance_size
      have hcut₂ := hcut₁.advance (hequal ▸ by decide)
      rw [← hcut₁.peek_kind, hident, hequal]
      refine Keeps.pop (Keeps.pop ?_)
      refine Keeps.skip hcut₂ [.newline] (he.fails.bind _) (he.starves.bind _) ?_
      intro t t' ht hsize
      refine (he.keeps ht).bind ?_
      intro a a' u u' ha hu hsize'
      refine .pure hu ?_ (by omega)
      rw [Stmt.erase, Stmt.erase, ha]
    · have hs : (s.peek.kind = .ident && s.advance.peek.kind = .equal) = false := by
        simpa using hassign
      have hs' : (s.peek.kind = .ident && s'.advance.peek.kind = .equal) = false := by
        rw [Bool.and_eq_false_imp] at hs ⊢
        intro hident
        have hcut₁ := hcut.advance (of_decide_eq_true hident ▸ by decide)
        rw [← hcut₁.peek_kind]
        exact hs hident
      rw [hs, hs']
      refine (he.keeps hcut).bind ?_
      intro a a' u u' ha hu hsize'
      refine .pure hu ?_ hsize'
      rw [Stmt.erase, Stmt.erase, ha]

/-- Statements up to one of some closing kinds. -/
theorem statementsFrom_keeps {closers : List TokenKind} (hsome : closers.isEmpty = false)
    (heof : closers.contains .eof = false) {m m' : Nat} {body body' : List Stmt}
    (hcut : Cut rest s s') (hm' : s'.size < m') (hn : s'.size ≤ n)
    (hbody : Program.Alike body body') :
    Keeps E Program.Alike rest n (statementsFrom e closers m body)
      (statementsFrom e' closers m' body') s s' := by
  have htrue : HasEnds fun _ => True := fun _ _ => trivial
  induction m' generalizing m s s' body body' with
  | zero => exact absurd hm' (Nat.not_lt_zero _)
  | succ m' ih =>
    cases m with
    | zero => exact .of_error rfl
    | succ m =>
      unfold statementsFrom
      -- Without a closing word in sight, both parsers want more.
      refine Keeps.skip hcut [.newline, .semi] ?_ ?_ ?_
      · refine .peek fun t ht => ?_
        rw [Starves.peek_kind ht, heof, hsome]
        exact Starves.unexpected htrue _ t ht
      · refine .peek fun t ht => ?_
        rw [Starves.peek_kind ht, heof, hsome]
        exact Starves.unexpected hE _ t ht
      intro t t' ht hsize
      refine Keeps.peek ?_
      rw [← ht.peek_kind]
      dsimp only
      cases closers.contains t.peek.kind with
      | true =>
        refine .pure ht ?_ (by omega)
        rw [Program.Alike, Stmt.eraseAll_reverse, Stmt.eraseAll_reverse, hbody]
      | false =>
        by_cases hk : t.peek.kind = .eof
        · rw [hsome, if_pos hk]
          exact .of_error rfl
        · rw [if_neg hk, if_neg hk]
          refine (statement_keeps he ht).bind ?_
          intro a a' u u' ha hu hsize'
          have hpos := ht.size_pos
          refine Keeps.peek ?_
          rw [← hu.peek_kind]
          -- Behind a statement a separator or a closing word has to stand, in both streams alike.
          cases [.newline, .semi, .eof].contains u.peek.kind || closers.contains u.peek.kind with
          | true =>
            refine ih hu (by omega) (by omega) ?_
            rw [Program.Alike, Stmt.eraseAll, Stmt.eraseAll, ha, hbody]
          | false => exact .of_error rfl

theorem statements_keeps {closers : List TokenKind} (hsome : closers.isEmpty = false)
    (heof : closers.contains .eof = false) (hcut : Cut rest s s') (hn : s'.size ≤ n) :
    Keeps E Program.Alike rest n (statements e closers) (statements e' closers) s s' := by
  have hkeeps : Keeps E Program.Alike rest n (statementsFrom e closers (s.size + 1) [])
      (statementsFrom e' closers (s'.size + 1) []) s s' :=
    statementsFrom_keeps hE he hsome heof hcut (Nat.lt_succ_self _) hn rfl
  exact hkeeps

/-- The statements of a block. -/
theorem block_keeps (hcut : Cut rest s s') (hn : s'.size ≤ n) :
    Keeps E Program.Alike rest n (block e) (block e') s s' := by
  unfold block
  refine (statements_keeps hE he rfl rfl hcut (Nat.le_refl _)).bind ?_
  intro body body' t t' hbody ht hsize
  have hadvance := ht.advance_size
  refine Keeps.expect ht (by decide) ?_
  intro _ _ _ hcut'
  exact .pure hcut' hbody (by omega)

/-- A choice. -/
theorem choice_keeps (hcut : Cut rest s s') (hn : s'.size ≤ n) :
    Keeps E Expr.Alike rest n (choice e) (choice e') s s' := by
  have htrue : HasEnds fun _ => True := fun _ _ => trivial
  unfold choice
  refine (he.keeps hcut).bind ?_
  intro a a' t t' ha ht hsize
  refine Keeps.skip ht [.newline] ((Starves.expect htrue (by decide)).bind _)
    ((Starves.expect hE (by decide)).bind _) ?_
  intro u u' hu hsize'
  have hadvance := hu.advance_size
  refine Keeps.expect hu (by decide) ?_
  intro _ _ _ hcut₁
  refine (statements_keeps hE he rfl rfl hcut₁ (Nat.le_refl _)).bind ?_
  intro yes yes' v v' hyes hv hsize₂
  have hadvance' := hv.advance_size
  -- The second body may be missing.
  refine Keeps.accept hv (by decide) ?_ ?_
  · intro _ hcut₂
    refine (block_keeps hE he hcut₂ (Nat.le_refl _)).bind ?_
    intro no no' x x' hno hx hsize₃
    refine .pure hx ?_ (by omega)
    rw [Expr.Alike, Expr.erase, Expr.erase, ha, hyes, hno]
  · intro _
    refine Keeps.expect hv (by decide) ?_
    intro _ _ _ hcut₂
    refine .pure hcut₂ ?_ (by omega)
    rw [Expr.Alike, Expr.erase, Expr.erase, ha, hyes]

/-- A loop. -/
theorem loop_keeps (hcut : Cut rest s s') (hn : s'.size ≤ n) :
    Keeps E Expr.Alike rest n (loop e) (loop e') s s' := by
  have htrue : HasEnds fun _ => True := fun _ _ => trivial
  unfold loop
  refine (he.keeps hcut).bind ?_
  intro a a' t t' ha ht hsize
  refine Keeps.skip ht [.newline] ((Starves.expect htrue (by decide)).bind _)
    ((Starves.expect hE (by decide)).bind _) ?_
  intro u u' hu hsize'
  have hadvance := hu.advance_size
  refine Keeps.expect hu (by decide) ?_
  intro _ _ _ hcut₁
  refine (block_keeps hE he hcut₁ (Nat.le_refl _)).bind ?_
  intro body body' v v' hbody hv hsize₂
  refine .pure hv ?_ (by omega)
  rw [Expr.Alike, Expr.erase, Expr.erase, ha, hbody]

/-- A list of items behind the opening bracket, as a part of an expression. -/
theorem items_keeps {close : TokenKind} (hnl : close ≠ .newline) (heof : close ≠ .eof)
    {f g : List Expr → Expr}
    (hfg : ∀ as bs, Expr.eraseAll as = Expr.eraseAll bs → Expr.Alike (f as) (g bs))
    (hcut : Cut rest s s') (hn : s'.size ≤ n) :
    Keeps E Expr.Alike rest n (items e close >>= fun as => pure (f as))
      (items e' close >>= fun bs => pure (g bs)) s s' := by
  have hkeeps : Keeps E (fun a b => Expr.eraseAll a = Expr.eraseAll b) rest n
      (itemsFrom e close (s.size + 1) []) (itemsFrom e' close (s'.size + 1) []) s s' :=
    itemsFrom_keeps hE he hnl heof hcut (Nat.lt_succ_self _) hn rfl
  refine Keeps.bind (p := items e close) (q := items e' close) hkeeps ?_
  intro as bs t t' h ht hsize
  exact .pure ht (hfg as bs h) hsize

/-- A variable or call. -/
theorem named_keeps {name name' : Token} (htext : name.text = name'.text) (hcut : Cut rest s s')
    (hn : s'.size ≤ n) : Keeps E Expr.Alike rest n (named e name) (named e' name') s s' := by
  unfold named
  have hadvance := hcut.advance_size
  refine Keeps.accept hcut (by decide) ?_ ?_
  · intro _ hcut₁
    refine items_keeps hE he (by decide) (by decide) ?_ hcut₁ (by omega)
    intro as bs h
    rw [Expr.Alike, Expr.erase, Expr.erase, htext, h]
  · intro _
    refine .pure hcut ?_ hn
    rw [Expr.Alike, Expr.erase, Expr.erase, htext]

/-- An expression without operators. -/
theorem primary_keeps (hcut : Cut rest s s') :
    Keeps E Expr.Alike rest (s'.size - 1) (primary e) (primary e') s s' := by
  unfold primary
  have htext := hcut.peek_text
  have hadvance := hcut.advance_size
  have hsize : s'.advance.size ≤ s'.size - 1 := by omega
  refine Keeps.peek ?_
  rw [← hcut.peek_kind]
  -- Every kind that starts an expression is taken; no line end does.
  have hcut₁ : s.peek.kind ≠ .newline → Cut rest s.advance s'.advance := hcut.advance
  cases hk : s.peek.kind with
  | int =>
    refine Keeps.pop ?_
    rw [← htext]
    cases Number.ofDigits? s.peek.text.toList with
    | none => exact .of_error rfl
    | some n => exact .pure (hcut₁ (by rw [hk]; decide)) rfl hsize
  | str =>
    refine Keeps.pop ?_
    rw [← htext]
    exact .pure (hcut₁ (by rw [hk]; decide)) rfl hsize
  | kwTrue => exact Keeps.pop (.pure (hcut₁ (by rw [hk]; decide)) rfl hsize)
  | kwFalse => exact Keeps.pop (.pure (hcut₁ (by rw [hk]; decide)) rfl hsize)
  | kwNil => exact Keeps.pop (.pure (hcut₁ (by rw [hk]; decide)) rfl hsize)
  | kwSelf => exact Keeps.pop (.pure (hcut₁ (by rw [hk]; decide)) rfl hsize)
  | ident => exact Keeps.pop (named_keeps hE he htext (hcut₁ (by rw [hk]; decide)) hsize)
  | lparen =>
    exact Keeps.pop
      (bracketed_keeps hE he (by decide) (by decide) (hcut₁ (by rw [hk]; decide)) hsize)
  | lbrack =>
    refine Keeps.pop (items_keeps hE he (by decide) (by decide) ?_ (hcut₁ (by rw [hk]; decide))
      hsize)
    intro as bs h
    rw [Expr.Alike, Expr.erase, Expr.erase, h]
  | kwDo =>
    refine Keeps.pop ((block_keeps hE he (hcut₁ (by rw [hk]; decide)) hsize).bind ?_)
    intro body body' t t' hbody ht hsize'
    refine .pure ht ?_ hsize'
    rw [Expr.Alike, Expr.erase, Expr.erase, hbody]
  | kwIf => exact Keeps.pop (choice_keeps hE he (hcut₁ (by rw [hk]; decide)) hsize)
  | kwWhile => exact Keeps.pop (loop_keeps hE he (hcut₁ (by rw [hk]; decide)) hsize)
  | _ => exact .of_error rfl

/-- Indexes behind an expression. -/
theorem indexes_keeps {m m' : Nat} {a a' : Expr} (hcut : Cut rest s s') (hm : s.size ≤ m)
    (hm' : s'.size ≤ m') (hn : s'.size ≤ n) (ha : Expr.Alike a a') :
    Keeps E Expr.Alike rest n (indexes e m a) (indexes e' m' a') s s' := by
  -- By induction on the rounds of the one that has fewer tokens: each index takes its bracket.
  induction m' generalizing m s s' a a' with
  | zero => exact absurd hcut.size_pos (by omega)
  | succ m' ih =>
    have hsize := hcut.size_eq
    have hpos := hcut.size_pos
    obtain ⟨m, rfl⟩ : ∃ k, m = k + 1 := ⟨m - 1, by omega⟩
    have hadvance := hcut.advance_size
    unfold indexes
    refine Keeps.accept hcut (by decide) ?_ ?_
    · intro _ hcut₁
      refine (bracketed_keeps hE he (by decide) (by decide) hcut₁ (Nat.le_refl _)).bind ?_
      intro i i' t t' hi ht hsize'
      have hsize₁ := ht.size_eq
      refine ih ht (by omega) (by omega) (by omega) ?_
      rw [Expr.Alike, Expr.erase, Expr.erase, ha, hi]
    · intro _
      exact .pure hcut ha hn

theorem indexed_keeps (hcut : Cut rest s s') :
    Keeps E Expr.Alike rest (s'.size - 1) (indexed e) (indexed e') s s' := by
  refine (primary_keeps hE he hcut).bind ?_
  intro a a' t t' ha ht hsize
  have hkeeps : Keeps E Expr.Alike rest (s'.size - 1) (indexes e t.size a)
      (indexes e' t'.size a') t t' :=
    indexes_keeps hE he ht (Nat.le_refl _) (Nat.le_refl _) hsize ha
  exact hkeeps

end Brackets

/-! ## Nesting -/

section Nesting

open Calc.Parser

variable {E : SourceError → Prop} {o o' e e' : Parser Expr}

/-- An operator over an expression, up to offsets. -/
theorem applyUnary_erase (op : UnaryOp) (a : Expr) :
    (applyUnary op a).erase = applyUnary op a.erase := by
  cases op with
  | neg =>
    -- The opposite of a number that is written out is a number again.
    cases a with
    | int n =>
      simp only [applyUnary, Expr.erase]
      cases n.neg? <;> rfl
    | cond t yes no => cases no <;> rfl
    | _ => rfl
  | not => rfl

/-- At the end there is no operand. -/
theorem Starves.unaryOver (hE : HasEnds E) (o e : Parser Expr) : Starves E (unaryOver o e) := by
  refine .peek fun s hs => ?_
  rw [Starves.peek_kind hs]
  obtain ⟨err, herr, hErr⟩ := Starves.unexpected (α := Expr) hE .expression s hs
  have hprimary : primary e s = .error err := by
    unfold primary
    have hpeek : Parser.peek s = .ok (s.peek, s) := rfl
    rw [bind_of_ok hpeek, Starves.peek_kind hs]
    exact herr
  exact ⟨err, bind_of_error hprimary, hErr⟩

theorem Starves.binaries (h : Starves E o) : Starves E (binaries o) :=
  ((((h.bind _).bind _).bind _).bind _).bind _

/-- An operand. -/
theorem Mirrors.unaryOver (hE : HasEnds E) (ho : Mirrors E o o') (he : Mirrors E e e') :
    Mirrors E (unaryOver o e) (unaryOver o' e') where
  keeps {rest s s'} hcut := by
    unfold Parser.unaryOver
    refine Keeps.peek ?_
    rw [← hcut.peek_kind]
    cases hop : unaryOp? s.peek.kind with
    | none => exact indexed_keeps hE he hcut
    | some op =>
      -- An operator is no line end, so that there is a token behind it.
      have hk : s.peek.kind ≠ .newline := by
        intro hk
        rw [hk] at hop
        cases hop
      have hadvance := hcut.advance_size
      refine Keeps.pop ((ho.keeps (hcut.advance hk)).bind ?_)
      intro a a' t t' ha ht hsize
      refine .pure ht ?_ (by omega)
      rw [Expr.Alike, applyUnary_erase, applyUnary_erase, ha]
  fails := .unaryOver (fun _ _ => trivial) o e
  starves := .unaryOver hE o' e'

/-- A parser that rejects everything. -/
theorem Mirrors.tooDeep {q : Parser Expr} (hq : Starves E q) : Mirrors E tooDeep q where
  keeps _ := .of_error rfl
  fails _ _ := ⟨_, rfl, trivial⟩
  starves := hq

theorem Starves.unary (hE : HasEnds E) (depth : Nat) : Starves E (unary depth) := by
  cases depth with
  | zero => exact .unaryOver hE _ _
  | succ depth => exact .unaryOver hE _ _

/-- The depth `d'` is enough for what nests to `d`: it allows more, or all errors count. -/
def Deeper (E : SourceError → Prop) (d d' : Nat) : Prop := d < d' ∨ d ≤ d' ∧ ∀ err, E err

/-- One level further in. -/
theorem Deeper.of_succ {d d' : Nat} (h : Deeper E (d + 1) d') :
    ∃ k, d' = k + 1 ∧ Deeper E d k := by
  have hpos : 0 < d' := by
    obtain h | ⟨h, -⟩ := h <;> omega
  obtain ⟨k, rfl⟩ : ∃ k, d' = k + 1 := ⟨d' - 1, by omega⟩
  exact ⟨k, rfl, h.imp Nat.lt_of_succ_lt_succ fun h => ⟨Nat.le_of_succ_le_succ h.1, h.2⟩⟩

/-- An operand, if at least the same nesting is allowed. -/
theorem Mirrors.unary (hE : HasEnds E) {d d' : Nat} (h : Deeper E d d') :
    Mirrors E (unary d) (unary d') := by
  -- By induction on the depth that the whole is allowed. Where it allows none, the one parser
  -- rejects everything, and all that matters is why the other one rejects the end of the part.
  induction d generalizing d' with
  | zero =>
    cases d' with
    | zero =>
      obtain h | ⟨-, hall⟩ := h
      · exact absurd h (Nat.lt_irrefl 0)
      · have hdeep : Mirrors E Parser.tooDeep Parser.tooDeep := .tooDeep fun _ _ => ⟨_, rfl, hall _⟩
        exact .unaryOver hE hdeep hdeep
    | succ d' =>
      have hstarves : Starves E (Parser.unary d') := .unary hE d'
      exact .unaryOver hE (.tooDeep hstarves) (.tooDeep hstarves.binaries)
  | succ d ih =>
    obtain ⟨d', rfl, hd⟩ := h.of_succ
    exact .unaryOver hE (ih hd) (ih hd).binaries

/-- An expression, if at least the same nesting is allowed. -/
theorem Mirrors.exprWithin (hE : HasEnds E) {d d' : Nat} (h : Deeper E d d') :
    Mirrors E (exprWithin d) (exprWithin d') := by
  cases d with
  | zero =>
    cases d' with
    | zero =>
      obtain h | ⟨-, hall⟩ := h
      · exact absurd h (Nat.lt_irrefl 0)
      · exact .tooDeep fun _ _ => ⟨_, rfl, hall _⟩
    | succ d' => exact .tooDeep (Starves.unary hE d').binaries
  | succ d =>
    obtain ⟨d', rfl, hd⟩ := h.of_succ
    exact (Mirrors.unary hE hd).binaries

end Nesting

end CalcShell.Calc
