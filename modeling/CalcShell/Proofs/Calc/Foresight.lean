import CalcShell.Proofs.Calc.Progress
import Mathlib.Data.List.TakeWhile

/-!
# What the tokens up to a border decide

Some tokens are given, and behind them stands a line end, or a string of which only the start is
known (`Border`). Nothing is known of what follows. A parser either takes its result from the tokens
and leaves a part of them, or it rejects them for one of them or for nesting too deep, whatever
follows; or it comes to their end and wants more (`Foreseen`). In the last case it can be told which
words to go on with: a few words of the kinds `finishers` make the parser accept (`Wants`).

One case lies between the others. Where expressions may not nest deeper, the items of a call or list
need none to be complete, but at the end of the source one is looked for before the closing bracket
(`Brink`): the tokens nest too deep there, and with the bracket behind them they do not.

Each rule of the grammar is shown to be like this if the parsers of its inner expressions are
(`Foresees`), so that expressions are at every depth.
-/

namespace CalcShell.Calc

theorem TokenStream.behind_append (ts us : List Token) (s : TokenStream) :
    s.behind (ts ++ us) = (s.behind us).behind ts := by
  rw [behind, behind, behind, List.append_assoc]

/-- A source is its tokens in front of the place where it ends. -/
theorem TokenStream.behind_self (s : TokenStream) :
    TokenStream.behind s.tokens ⟨[], s.stop⟩ = s := by
  rw [behind, List.append_nil]

/-- The token in front of a stream behind others is the first of them, if there is one. -/
theorem TokenStream.behind_peek_kind {us : List Token} {ks : List TokenKind} (s : TokenStream)
    (h : us.map Token.kind = ks) : (s.behind us).peek.kind = ks.headD s.peek.kind := by
  subst h
  cases us with
  | nil => rfl
  | cons u us => rfl

/-- A stream that starts with no token of the kinds has none to skip. -/
theorem TokenStream.without_eq {s : TokenStream} {kinds : List TokenKind}
    (h : s.peek.kind ∉ kinds) : s.without kinds = s := by
  obtain ⟨ts, stop⟩ := s
  cases ts with
  | nil => rfl
  | cons t ts =>
    have ht : kinds.contains t.kind = false := by
      rw [List.contains_eq_mem, decide_eq_false_iff_not]
      exact h
    rw [without, List.dropWhile_cons, ht]
    rfl

/-- A token of one of the kinds is skipped. -/
theorem TokenStream.behind_cons_without {t : Token} {kinds : List TokenKind} (ht : t.kind ∈ kinds)
    (ts : List Token) (s : TokenStream) :
    (s.behind (t :: ts)).without kinds = (s.behind ts).without kinds := by
  have hdrop : kinds.contains t.kind = true := List.contains_iff_mem.2 ht
  rw [without, behind, List.cons_append, List.dropWhile_cons, if_pos hdrop]
  rfl

/-- Tokens in front are skipped as far as they go. -/
theorem TokenStream.without_behind (kinds : List TokenKind) (ts : List Token) (s : TokenStream) :
    (s.behind ts).without kinds =
      (s.behind (ts.dropWhile fun t => kinds.contains t.kind)).without kinds := by
  induction ts with
  | nil => rfl
  | cons t ts ih =>
    rw [List.dropWhile_cons]
    split
    · rename_i ht
      rw [behind_cons_without (List.contains_iff_mem.1 ht), ih]
    · rfl

/-- What comes behind tokens that are skipped depends on what is left. -/
theorem Parser.skip_congr {α : Type} {kinds : List TokenKind} {p : Parser α} {s s' : TokenStream}
    (h : s.without kinds = s'.without kinds) :
    (skip kinds >>= fun _ => p) s = (skip kinds >>= fun _ => p) s' := congrArg p h

/-! ## Borders -/

/-- What stands behind some tokens: a line end, or a string of which only the start is known. -/
inductive Border where
  | lineEnd
  | string
deriving DecidableEq

/-- The kind of the token at a border. -/
def Border.kind : Border → TokenKind
  | lineEnd => .newline
  | string => .str

/-- The kind of the first token, where the border stands behind the tokens `us`. -/
def Border.front (b : Border) (us : List Token) : TokenKind := (us.map Token.kind).headD b.kind

/-- None of the tokens stands for the end of the source. -/
def Inner (us : List Token) : Prop := ∀ u ∈ us, u.kind ≠ .eof

theorem Inner.subset {us vs : List Token} (h : Inner us) (hvs : vs ⊆ us) : Inner vs :=
  fun v hv => h v (hvs hv)

theorem Inner.tail {u : Token} {us : List Token} (h : Inner (u :: us)) : Inner us :=
  h.subset (List.subset_cons_self u us)

/-- Some tokens that end with a line end, none of which stands for the end of the source. -/
structure Lines (ts : List Token) : Prop where
  ends : EndsLine ts
  inner : Inner ts

/-- Lines are some tokens with a line end at their border. -/
theorem Lines.bordered {ts : List Token} (h : Lines ts) :
    ∃ us t, ts = us ++ [t] ∧ t.kind = .newline ∧ Inner us := by
  obtain ⟨t, ht, hkind⟩ := h.ends
  obtain ⟨us, rfl⟩ := List.getLast?_eq_some_iff.1 ht
  exact ⟨us, t, rfl, hkind, h.inner.subset (List.subset_append_left us [t])⟩

namespace Border

variable {b : Border} {us : List Token} {t : Token}

/-- No other word stands at a border. -/
theorem kind_ne {k : TokenKind} (hk : k ∉ [.newline, .str]) : b.kind ≠ k := by
  rintro rfl
  cases b with
  | lineEnd => exact hk (by decide)
  | string => exact hk (by decide)

theorem front_ne_eof (hus : Inner us) : b.front us ≠ .eof := by
  cases us with
  | nil => exact kind_ne (by decide)
  | cons u us => exact hus u List.mem_cons_self

theorem peek_kind (ht : t.kind = b.kind) (s : TokenStream) :
    (s.behind (us ++ [t])).peek.kind = b.front us := by
  cases us with
  | nil => exact ht
  | cons u us => rfl

/-- Where skipping does not stop, it has come to a line end at the border. -/
theorem skipped {kinds : List TokenKind} (hkinds : kinds ⊆ [.newline, .semi])
    (h : b.front (us.dropWhile fun u => kinds.contains u.kind) ∈ kinds) :
    (us.dropWhile fun u => kinds.contains u.kind) = [] ∧ b = .lineEnd ∧ b.kind ∈ kinds := by
  have hhead := List.head?_dropWhile_not (fun u : Token => kinds.contains u.kind) us
  cases hdrop : us.dropWhile fun u => kinds.contains u.kind with
  | nil =>
    rw [hdrop] at h
    refine ⟨rfl, ?_, h⟩
    cases b with
    | lineEnd => rfl
    | string => exact absurd (hkinds h) (by decide)
  | cons v vs =>
    rw [hdrop] at h hhead
    exact absurd (List.contains_iff_mem.2 h) (Bool.eq_false_iff.1 hhead)

/-- Skipping goes on to the first token that is of no such kind, also at the border. -/
theorem without_front {kinds : List TokenKind} (ht : t.kind = b.kind)
    (h : b.front (us.dropWhile fun u => kinds.contains u.kind) ∉ kinds) (s : TokenStream) :
    (s.behind (us ++ [t])).without kinds =
      s.behind ((us.dropWhile fun u => kinds.contains u.kind) ++ [t]) := by
  rw [TokenStream.behind_append, TokenStream.without_behind, ← TokenStream.behind_append]
  exact TokenStream.without_eq ((peek_kind ht s).symm ▸ h)

/-- A line end at the border is skipped with all in front of it. -/
theorem without_all {kinds : List TokenKind} (ht : t.kind ∈ kinds)
    (h : (us.dropWhile fun u => kinds.contains u.kind) = []) (s : TokenStream) :
    (s.behind (us ++ [t])).without kinds = s.without kinds := by
  rw [TokenStream.behind_append, TokenStream.without_behind, h]
  exact TokenStream.behind_cons_without ht [] s

end Border

/-! ## Words that finish -/

/-- In front of a token of the kind `next`, `p` accepts words of the kinds `ks` and takes them. -/
def Finishes {α : Type} (next : TokenKind) (ks : List TokenKind) (p : Parser α) : Prop :=
  ∀ us s, us.map Token.kind = ks → s.peek.kind = next → ∃ a, p (s.behind us) = .ok (a, s)

namespace Finishes

open Calc.Parser

variable {α β : Type} {next kind : TokenKind} {ks js : List TokenKind}

theorem pure (a : α) : Finishes next [] (Pure.pure a : Parser α) := by
  intro us s hus _
  rw [List.map_eq_nil_iff.1 hus]
  exact ⟨a, rfl⟩

/-- One parser after the other takes the words of both. -/
theorem bind (ks js : List TokenKind) {p : Parser α} {f : α → Parser β}
    (h : Finishes (js.headD next) ks p) (hf : ∀ a, Finishes next js (f a)) :
    Finishes next (ks ++ js) (p >>= f) := by
  intro us s hus hs
  obtain ⟨us₁, us₂, rfl, h₁, h₂⟩ := List.map_eq_append_iff.1 hus
  obtain ⟨a, ha⟩ := h us₁ (s.behind us₂) h₁ (hs ▸ s.behind_peek_kind h₂)
  obtain ⟨b, hb⟩ := hf a us₂ s h₂ hs
  rw [TokenStream.behind_append, bind_of_ok ha]
  exact ⟨b, hb⟩

theorem peek {f : Token → Parser α} (h : ∀ t, t.kind = ks.headD next → Finishes next ks (f t)) :
    Finishes next ks (Parser.peek >>= f) := by
  intro us s hus hs
  exact h _ (hs ▸ s.behind_peek_kind hus) us s hus hs

theorem pop {f : Token → Parser α} (h : ∀ t, Finishes next ks (f t)) :
    Finishes next (kind :: ks) (Parser.pop >>= f) := by
  intro us s hus hs
  cases us with
  | nil => cases hus
  | cons u us => exact h u us s (List.cons.inj hus).2 hs

theorem expect {f : Token → Parser α} (h : ∀ t, Finishes next ks (f t)) :
    Finishes next (kind :: ks) (Parser.expect kind >>= f) := by
  intro us s hus hs
  have hpeek : (s.behind us).peek.kind = kind := s.behind_peek_kind hus
  rw [bind_of_ok (expect_of_kind hpeek)]
  exact pop (f := fun _ => f (s.behind us).peek) (fun _ => h _) us s hus hs

/-- The word that may stand there does. -/
theorem accept_yes {f : Bool → Parser α} (h : Finishes next ks (f true)) :
    Finishes next (kind :: ks) (Parser.accept kind >>= f) := by
  intro us s hus hs
  have hpeek : (s.behind us).peek.kind = kind := s.behind_peek_kind hus
  rw [bind_of_ok (accept_of_kind hpeek)]
  exact pop (f := fun _ => f true) (fun _ => h) us s hus hs

/-- The word that may stand there does not. -/
theorem accept_no (hkind : ks.headD next ≠ kind) {f : Bool → Parser α}
    (h : Finishes next ks (f false)) : Finishes next ks (Parser.accept kind >>= f) := by
  intro us s hus hs
  have hpeek : (s.behind us).peek.kind ≠ kind := by
    rw [s.behind_peek_kind hus, hs]
    exact hkind
  rw [bind_of_ok (accept_of_ne hpeek)]
  exact h us s hus hs

theorem skip {kinds : List TokenKind} (hkinds : ks.headD next ∉ kinds) {p : Parser α}
    (h : Finishes next ks p) : Finishes next ks (Parser.skip kinds >>= fun _ => p) := by
  intro us s hus hs
  have hwithout : (s.behind us).without kinds = s.behind us := by
    refine TokenStream.without_eq ?_
    rw [s.behind_peek_kind hus, hs]
    exact hkinds
  obtain ⟨a, ha⟩ := h us s hus hs
  refine ⟨a, ?_⟩
  change p ((s.behind us).without kinds) = .ok (a, s)
  rw [hwithout, ha]

end Finishes

/-! ## Results at the end -/

theorem Parser.expect_eq_unexpected {kind : TokenKind} {s : TokenStream}
    (h : s.peek.kind ≠ kind) : expect kind s = unexpected (.token kind) s := by
  simp only [expect, bind_apply, peek, if_apply, if_neg h]

/-- A token that is not expected is an error where it stands. -/
theorem Parser.unexpected_of_ne {α : Type} {s : TokenStream} (hs : s.peek.kind ≠ .eof)
    (expected : Expected) :
    (unexpected expected : Parser α) s =
      .error ⟨.unexpected s.peek.text expected, s.peek.position⟩ := by
  rw [unexpected, reject, if_neg hs]

theorem Parser.unexpected_of_nil {α : Type} {s : TokenStream} (hs : s.tokens = [])
    (expected : Expected) :
    (unexpected expected : Parser α) s = .error ⟨.endOfInput expected, s.stop⟩ := by
  have hpeek : s.peek = ⟨.eof, "", s.stop⟩ := by
    rw [TokenStream.peek, hs]
    rfl
  rw [unexpected, reject, hpeek, if_pos rfl]

/-- Tokens up to a border are rejected for the first of them. -/
theorem Border.unexpected {α : Type} {b : Border} {us : List Token} {t : Token} (hus : Inner us)
    (ht : t.kind = b.kind) (expected : Expected) :
    ∃ text position, ∀ s : TokenStream,
      (Parser.unexpected expected : Parser α) (s.behind (us ++ [t])) =
        .error ⟨.unexpected text expected, position⟩ := by
  have hne : ∀ s : TokenStream, (s.behind (us ++ [t])).peek.kind ≠ .eof := fun s =>
    (peek_kind ht s).symm ▸ front_ne_eof hus
  cases us with
  | nil => exact ⟨t.text, t.position, fun s => Parser.unexpected_of_ne (hne s) expected⟩
  | cons u us => exact ⟨u.text, u.position, fun s => Parser.unexpected_of_ne (hne s) expected⟩

/-- At the end of the source `p` takes nothing and has a result, or it wants more. -/
def Ends {α : Type} (p : Parser α) : Prop :=
  ∀ s : TokenStream, s.tokens = [] →
    (∃ a, p s = .ok (a, s)) ∨ ∃ expected, p s = .error ⟨.endOfInput expected, s.stop⟩

/-- What goes on behind a result: words of the kinds `ks` finish it in front of a token of the kind
`next`, and the source may also end. -/
structure Resumes {α : Type} (next : TokenKind) (ks : List TokenKind) (p : Parser α) : Prop where
  finish : Finishes next ks p
  ends : Ends p

namespace Resumes

open Calc.Parser

variable {α β : Type} {next kind : TokenKind} {ks js : List TokenKind}

theorem pure (a : α) : Resumes next [] (Pure.pure a : Parser α) :=
  ⟨.pure a, fun _ _ => .inl ⟨a, rfl⟩⟩

theorem bind (ks js : List TokenKind) {p : Parser α} {f : α → Parser β}
    (h : Resumes (js.headD next) ks p) (hf : ∀ a, Resumes next js (f a)) :
    Resumes next (ks ++ js) (p >>= f) := by
  refine ⟨.bind ks js h.finish fun a => (hf a).finish, fun s hs => ?_⟩
  obtain ⟨a, ha⟩ | ⟨expected, hexpected⟩ := h.ends s hs
  · rw [bind_of_ok ha]
    exact (hf a).ends s hs
  · exact .inr ⟨expected, bind_of_error hexpected⟩

theorem peek {f : Token → Parser α} (h : ∀ t, t.kind = ks.headD next → Finishes next ks (f t))
    (hend : ∀ t, t.kind = .eof → Ends (f t)) : Resumes next ks (Parser.peek >>= f) :=
  ⟨.peek h, fun s hs => hend s.peek (Starves.peek_kind hs) s hs⟩

theorem expect (hkind : kind ≠ .eof) {f : Token → Parser α} (h : ∀ t, Finishes next ks (f t)) :
    Resumes next (kind :: ks) (Parser.expect kind >>= f) := by
  refine ⟨.expect h, fun s hs => .inr ⟨.token kind, bind_of_error ?_⟩⟩
  have hne : s.peek.kind ≠ kind := by
    rw [Starves.peek_kind hs]
    exact hkind.symm
  exact (expect_eq_unexpected hne).trans (unexpected_of_nil hs _)

theorem accept_no (heof : kind ≠ .eof) (hkind : ks.headD next ≠ kind) {f : Bool → Parser α}
    (h : Resumes next ks (f false)) : Resumes next ks (Parser.accept kind >>= f) := by
  refine ⟨.accept_no hkind h.finish, fun s hs => ?_⟩
  have hne : s.peek.kind ≠ kind := by
    rw [Starves.peek_kind hs]
    exact heof.symm
  rw [bind_of_ok (accept_of_ne hne)]
  exact h.ends s hs

theorem skip {kinds : List TokenKind} (heof : .eof ∉ kinds) (hkinds : ks.headD next ∉ kinds)
    {p : Parser α} (h : Resumes next ks p) :
    Resumes next ks (Parser.skip kinds >>= fun _ => p) := by
  refine ⟨.skip hkinds h.finish, fun s hs => ?_⟩
  have hwithout : s.without kinds = s := by
    refine TokenStream.without_eq ?_
    rwa [Starves.peek_kind hs]
  change (∃ a, p (s.without kinds) = _) ∨ ∃ expected, p (s.without kinds) = _
  rw [hwithout]
  exact h.ends s hs

end Resumes

/-! ## Parsers that stop -/

/-- The words that close something that was opened before. -/
def closings : List TokenKind := [.rparen, .rbrack, .kwEnd, .kwThen, .kwDo]

/-- The words that finish what was left open: `nil` where an expression is missing, and the closing
words. -/
def finishers : List TokenKind := .kwNil :: closings

/-- The words that no expression goes on with. -/
def enders : List TokenKind := .newline :: closings

/-- A word that finishes is never skipped. -/
theorem not_skipped_of_mem {k : TokenKind} (h : k ∈ finishers) : k ∉ [.newline, .semi] := by
  revert k
  decide

theorem ne_eof_of_mem {k : TokenKind} (h : k ∈ finishers) : k ≠ .eof := by
  revert k
  decide

/-- At the end of the source the parser wants more. Words of the kinds `ks` finish what was left
open, in front of a token of the kind `next`. Behind a string nothing may be left open. -/
structure Wants {α : Type} (b : Border) (next : TokenKind) (ks : List TokenKind)
    (p : Parser α) : Prop where
  stops : ∀ s : TokenStream, s.tokens = [] →
    (b = .string ∧ ∃ a, p s = .ok (a, s)) ∨ ∃ expected, p s = .error ⟨.endOfInput expected, s.stop⟩
  words : ks ⊆ finishers
  /-- Behind a line end, what comes next is never skipped. -/
  first : b = .lineEnd → ks.headD next ∉ [.newline, .semi]
  finish : Finishes next ks p

/-- At the end of the source, or where it goes on without the word `close` behind line ends, the
parser finds that it nests too deep. With the word, and words of the kinds `ks` behind it, it
accepts, in front of a token of the kind `next`. -/
structure Brink {α : Type} (next close : TokenKind) (ks : List TokenKind) (p : Parser α) :
    Prop where
  deep : ∀ s : TokenStream, (s.without [.newline]).peek.kind ≠ close →
    ∃ position, p s = .error ⟨.tooDeep, position⟩
  words : ks ⊆ finishers
  finish : Finishes next (close :: ks) p

/-- Behind no tokens the parser finds that it nests too deep, or at the end it wants more. -/
inductive Halts {α : Type} (next : TokenKind) (p : Parser α) : Prop where
  | deep (h : ∀ s : TokenStream, ∃ position, p s = .error ⟨.tooDeep, position⟩)
  | wants (ks : List TokenKind) (h : Wants .lineEnd next ks p)

/-- The words that open items, and those that close them. -/
def brackets : List (TokenKind × TokenKind) := [(.lparen, .rparen), (.lbrack, .rbrack)]

theorem eq_of_mem_brackets {opener close : TokenKind} (h : (opener, close) ∈ brackets) :
    opener = .lparen ∧ close = .rparen ∨ opener = .lbrack ∧ close = .rbrack := by
  simpa [brackets] using h

theorem closings_of_mem {opener close : TokenKind} (h : (opener, close) ∈ brackets) :
    close ∈ closings := by
  obtain ⟨-, rfl⟩ | ⟨-, rfl⟩ := eq_of_mem_brackets h <;> decide

theorem opener_ne_newline {opener close : TokenKind} (h : (opener, close) ∈ brackets) :
    opener ≠ .newline := by
  obtain ⟨rfl, -⟩ | ⟨rfl, -⟩ := eq_of_mem_brackets h <;> decide

/-- At the end of the source there is no bracket. -/
theorem close_missing {opener close : TokenKind} (h : (opener, close) ∈ brackets)
    {s : TokenStream} (hs : s.tokens = []) : (s.without [.newline]).peek.kind ≠ close := by
  rw [TokenStream.without_eq, Starves.peek_kind hs]
  · exact (ne_eof_of_mem (List.mem_cons_of_mem _ (closings_of_mem h))).symm
  · rw [Starves.peek_kind hs]
    decide

/-- The last of the tokens, line ends aside, is of the kind. -/
def LastWord (kind : TokenKind) (us : List Token) : Prop :=
  (us.filter fun u => u.kind ≠ .newline).getLast?.map Token.kind = some kind

instance (kind : TokenKind) (us : List Token) : Decidable (LastWord kind us) :=
  inferInstanceAs (Decidable (_ = some kind))

theorem LastWord.of_suffix {kind : TokenKind} {us vs : List Token} (h : LastWord kind us)
    (hus : us <:+ vs) : LastWord kind vs := by
  obtain ⟨ts, rfl⟩ := hus
  obtain ⟨u, hu, hkind⟩ := Option.map_eq_some_iff.1 h
  rw [LastWord, List.filter_append, List.getLast?_append, hu, Option.some_or, Option.map_some,
    hkind]

/-- A token with only line ends behind it. -/
theorem LastWord.of_ends {t : Token} {us : List Token} (ht : t.kind ≠ .newline)
    (hus : ∀ u ∈ us, u.kind = .newline) : LastWord t.kind (t :: us) := by
  have hfilter : us.filter (fun u => u.kind ≠ .newline) = [] :=
    List.filter_eq_nil_iff.2 fun u hu => by simp [hus u hu]
  rw [LastWord, List.filter_cons_of_pos (by simpa using ht), hfilter]
  rfl

/-- A line end behind the tokens does not matter. -/
theorem LastWord.concat {kind : TokenKind} {us : List Token} {t : Token} (h : LastWord kind us)
    (ht : t.kind = .newline) : LastWord kind (us ++ [t]) := by
  rw [LastWord, List.filter_append, List.filter_cons_of_neg (by simp [ht]), List.filter_nil,
    List.append_nil]
  exact h

/-- What the parser does with the tokens `us` and the border behind them, whatever follows: it takes
some of them and leaves the others, or rejects them for one that it did not expect, or for nesting
too deep; or it stops at the border, where words may finish, or where only a bracket may follow. -/
inductive Foreseen {α : Type} (b : Border) (next : TokenKind) (p : Parser α) (us : List Token) :
    Prop where
  | takes (a : α) (vs : List Token) (inner : Inner vs) (suffix : vs <:+ us)
      (h : ∀ t, t.kind = b.kind → ∀ s, p (TokenStream.behind (us ++ [t]) s) =
        .ok (a, s.behind (vs ++ [t])))
  | rejects (h : ∀ t, t.kind = b.kind → ∃ text expected position, ∀ s,
      p (TokenStream.behind (us ++ [t]) s) = .error ⟨.unexpected text expected, position⟩)
  | deep (h : ∀ t, t.kind = b.kind → ∀ s,
      ∃ position, p (TokenStream.behind (us ++ [t]) s) = .error ⟨.tooDeep, position⟩)
  | wants (ks : List TokenKind)
      (h : ∀ t, t.kind = b.kind → Wants b next ks fun s => p (s.behind (us ++ [t])))
  | brink (opener close : TokenKind) (ks : List TokenKind) (pair : (opener, close) ∈ brackets)
      (opened : LastWord opener us)
      (h : b = .lineEnd ∧
        ∀ t, t.kind = b.kind → Brink next close ks fun s => p (s.behind (us ++ [t])))

namespace Wants

open Calc.Parser

variable {α β : Type} {b : Border} {next kind : TokenKind} {ks js : List TokenKind}

/-- A parser that does the same at the end of the source and with the words that finish. -/
theorem congr {p q : Parser α} (h : Wants b next ks q)
    (hpq : ∀ s : TokenStream, s.peek.kind = .eof ∨ s.peek.kind = ks.headD next → p s = q s) :
    Wants b next ks p := by
  refine ⟨fun s hs => ?_, h.words, h.first, fun us s hus hs => ?_⟩
  · rw [hpq s (.inl (Starves.peek_kind hs))]
    exact h.stops s hs
  · obtain ⟨a, ha⟩ := h.finish us s hus hs
    exact ⟨a, (hpq _ (.inr (hs ▸ s.behind_peek_kind hus))).trans ha⟩

theorem bind {p : Parser α} {f : α → Parser β} (js : List TokenKind)
    (h : Wants b (js.headD next) ks p) (hjs : js ⊆ finishers) (hf : ∀ a, Resumes next js (f a)) :
    Wants b next (ks ++ js) (p >>= f) := by
  refine ⟨fun s hs => ?_, List.append_subset.2 ⟨h.words, hjs⟩, fun hb => ?_, ?_⟩
  · obtain ⟨hb, a, ha⟩ | ⟨expected, hexpected⟩ := h.stops s hs
    · rw [bind_of_ok ha]
      exact ((hf a).ends s hs).imp_left (⟨hb, ·⟩)
    · exact .inr ⟨expected, bind_of_error hexpected⟩
  · have hfirst := h.first hb
    cases ks with
    | nil => exact hfirst
    | cons k ks => exact hfirst
  · exact .bind ks js h.finish fun a => (hf a).finish

/-- At the end of the source a word is missing. -/
theorem expect (hkind : kind ∈ finishers) (hjs : js ⊆ finishers) {f : Token → Parser α}
    (h : ∀ t, Finishes next js (f t)) : Wants b next (kind :: js) (Parser.expect kind >>= f) := by
  refine ⟨fun s hs => .inr ⟨.token kind, bind_of_error ?_⟩, List.cons_subset.2 ⟨hkind, hjs⟩,
    fun _ => not_skipped_of_mem hkind, .expect h⟩
  have hne : s.peek.kind ≠ kind := by
    rw [Starves.peek_kind hs]
    exact (ne_eof_of_mem hkind).symm
  exact (expect_eq_unexpected hne).trans (unexpected_of_nil hs _)

/-- At the end of the source a closing word finishes what may also go on. -/
theorem accept (hkind : kind ∈ finishers) {f : Bool → Parser α}
    (h : Wants .lineEnd next ks (f false)) (hyes : Finishes next [] (f true)) :
    Wants .lineEnd next [kind] (Parser.accept kind >>= f) := by
  refine ⟨fun s hs => ?_, List.cons_subset.2 ⟨hkind, List.nil_subset _⟩,
    fun _ => not_skipped_of_mem hkind, .accept_yes hyes⟩
  have hne : s.peek.kind ≠ kind := by
    rw [Starves.peek_kind hs]
    exact (ne_eof_of_mem hkind).symm
  rw [bind_of_ok (accept_of_ne hne)]
  exact (h.stops s hs).imp_left fun h => nomatch h.1

/-- What finishes behind a line end is not skipped. -/
theorem skip {kinds : List TokenKind} (hkinds : kinds ⊆ [.newline, .semi]) {p : Parser α}
    (h : Wants .lineEnd next ks p) :
    Wants .lineEnd next ks (Parser.skip kinds >>= fun _ => p) := by
  refine h.congr fun s hs => congrArg p (TokenStream.without_eq fun hmem => ?_)
  rcases hs with hs | hs
  · rw [hs] at hmem
    exact absurd (hkinds hmem) (by decide)
  · exact h.first rfl (hs ▸ hkinds hmem)

theorem resumes {p : Parser α} (h : Wants .lineEnd next ks p) : Resumes next ks p :=
  ⟨h.finish, fun s hs => (h.stops s hs).imp_left And.right⟩

end Wants

theorem Brink.bind {α β : Type} {next close : TokenKind} {ks : List TokenKind} {p : Parser α}
    {f : α → Parser β} (js : List TokenKind) (h : Brink (js.headD next) close ks p)
    (hjs : js ⊆ finishers) (hf : ∀ a, Finishes next js (f a)) :
    Brink next close (ks ++ js) (p >>= f) where
  deep s hs := (h.deep s hs).imp fun _ => Parser.bind_of_error
  words := List.append_subset.2 ⟨h.words, hjs⟩
  finish := .bind (close :: ks) js h.finish hf

theorem Halts.skip {α : Type} {next : TokenKind} {kinds : List TokenKind}
    (hkinds : kinds ⊆ [.newline, .semi]) {p : Parser α} (h : Halts next p) :
    Halts next (Parser.skip kinds >>= fun _ => p) := by
  cases h with
  | deep h => exact .deep fun s => h (s.without kinds)
  | wants ks h => exact .wants ks (h.skip hkinds)

theorem Halts.bind {α β : Type} {next mid : TokenKind} {p : Parser α} {f : α → Parser β}
    (h : Halts mid p) (js : List TokenKind) (hmid : js.headD next = mid) (hjs : js ⊆ finishers)
    (hf : ∀ a, Resumes next js (f a)) : Halts next (p >>= f) := by
  subst hmid
  cases h with
  | deep h => exact .deep fun s => (h s).imp fun _ => Parser.bind_of_error
  | wants ks h => exact .wants _ (h.bind js hjs hf)

namespace Foreseen

open Calc.Parser

variable {α β : Type} {b : Border} {next mid kind : TokenKind} {u : Token} {us vs : List Token}

/-- A parser that does what another one does with the last of the tokens. -/
theorem of_eq {p q : Parser α} (h : Foreseen b next q vs) (hvs : vs <:+ us)
    (heq : ∀ t, t.kind = b.kind → ∀ s : TokenStream,
      p (s.behind (us ++ [t])) = q (s.behind (vs ++ [t]))) : Foreseen b next p us := by
  cases h with
  | takes a ws hws hsuffix h =>
    exact .takes a ws hws (hsuffix.trans hvs) fun t ht s => (heq t ht s).trans (h t ht s)
  | rejects h =>
    refine .rejects fun t ht => ?_
    obtain ⟨text, expected, position, h⟩ := h t ht
    exact ⟨text, expected, position, fun s => (heq t ht s).trans (h s)⟩
  | deep h =>
    refine .deep fun t ht s => ?_
    rw [heq t ht s]
    exact h t ht s
  | wants ks h =>
    refine .wants ks fun t ht => ?_
    rw [funext (heq t ht)]
    exact h t ht
  | brink opener close ks hpair hopened h =>
    refine .brink opener close ks hpair (hopened.of_suffix hvs) ⟨h.1, fun t ht => ?_⟩
    rw [funext (heq t ht)]
    exact h.2 t ht

theorem pure (hus : Inner us) (a : α) : Foreseen b next (Pure.pure a : Parser α) us :=
  .takes a us hus (List.suffix_refl us) fun _ _ _ => rfl

/-- One parser after the other: the second one goes on with what the first one leaves, or finishes
behind it with words of the kinds `js`. -/
theorem bind {p : Parser α} {f : α → Parser β} (h : Foreseen b mid p us) (js : List TokenKind)
    (hmid : js.headD next = mid) (hjs : js ⊆ finishers) (hfinish : ∀ a, Resumes next js (f a))
    (hf : ∀ a vs, Inner vs → (∀ t, t.kind = b.kind → ∀ s : TokenStream,
        p (s.behind (us ++ [t])) = .ok (a, s.behind (vs ++ [t]))) → Foreseen b next (f a) vs) :
    Foreseen b next (p >>= f) us := by
  subst hmid
  cases h with
  | takes a vs hvs hsuffix h =>
    exact (hf a vs hvs h).of_eq hsuffix fun t ht s => bind_of_ok (h t ht s)
  | rejects h =>
    refine .rejects fun t ht => ?_
    obtain ⟨text, expected, position, h⟩ := h t ht
    exact ⟨text, expected, position, fun s => bind_of_error (h s)⟩
  | deep h => exact .deep fun t ht s => (h t ht s).imp fun _ => bind_of_error
  | wants ks h => exact .wants (ks ++ js) fun t ht => (h t ht).bind js hjs hfinish
  | brink opener close ks hpair hopened h =>
    refine .brink opener close (ks ++ js) hpair hopened ⟨h.1, fun t ht => ?_⟩
    exact (h.2 t ht).bind js hjs fun a => (hfinish a).finish

/-- One parser and then a result. -/
theorem bind_pure {p : Parser α} (h : Foreseen b next p us) (f : α → β) :
    Foreseen b next (p >>= fun a => Pure.pure (f a)) us :=
  h.bind [] rfl (List.nil_subset _) (fun _ => .pure _) fun _ _ hvs _ => .pure hvs _

/-- What depends on the token in front depends on its kind only. -/
theorem peek {f : Token → Parser α} {q : Parser α} (hf : ∀ t, t.kind = b.front us → f t = q)
    (h : Foreseen b next q us) : Foreseen b next (Parser.peek >>= f) us := by
  refine h.of_eq (List.suffix_refl us) fun t ht s => ?_
  exact congrFun (hf _ (Border.peek_kind ht s)) _

theorem peek_cons {f : Token → Parser α} (h : Foreseen b next (f u) (u :: us)) :
    Foreseen b next (Parser.peek >>= f) (u :: us) :=
  h.of_eq (List.suffix_refl _) fun _ _ _ => rfl

theorem peekSecond_cons {v : Token} {f : Token → Parser α}
    (h : Foreseen b next (f v) (u :: v :: us)) :
    Foreseen b next (Parser.peekSecond >>= f) (u :: v :: us) :=
  h.of_eq (List.suffix_refl _) fun _ _ _ => rfl

theorem pop {f : Token → Parser α} (h : Foreseen b next (f u) us) :
    Foreseen b next (Parser.pop >>= f) (u :: us) :=
  h.of_eq (List.suffix_cons u us) fun _ _ _ => rfl

/-- The tokens are rejected for the first of them. -/
theorem unexpected (hus : Inner us) (expected : Expected) :
    Foreseen b next (Parser.unexpected expected : Parser α) us := by
  refine .rejects fun t ht => ?_
  obtain ⟨text, position, h⟩ := Border.unexpected hus ht expected
  exact ⟨text, expected, position, h⟩

theorem expect (hus : Inner us) (hkind : kind ∉ [.newline, .str]) {f : Token → Parser α}
    (h : ∀ t vs, Inner vs → Foreseen b next (f t) vs) :
    Foreseen b next (Parser.expect kind >>= f) us := by
  by_cases hfront : b.front us = kind
  · cases us with
    | nil => exact absurd hfront (Border.kind_ne hkind)
    | cons u us =>
      refine (h u us hus.tail).of_eq (List.suffix_cons u us) fun t _ s => ?_
      exact bind_of_ok (expect_of_kind (s := s.behind (u :: us ++ [t])) hfront)
  · have hrejects : Foreseen b next (Parser.unexpected (.token kind) >>= f) us :=
      (Foreseen.unexpected hus (.token kind) : Foreseen b next _ us).of_eq (List.suffix_refl us)
        fun _ _ _ => rfl
    refine hrejects.of_eq (List.suffix_refl us) fun t ht s => ?_
    have hne : (s.behind (us ++ [t])).peek.kind ≠ kind := by
      rwa [Border.peek_kind ht]
    rw [bind_apply, bind_apply, expect_eq_unexpected hne]

theorem accept (hus : Inner us) (hkind : kind ∉ [.newline, .str]) {f : Bool → Parser α}
    (hyes : ∀ vs, Inner vs → vs.length < us.length → Foreseen b next (f true) vs)
    (hno : Foreseen b next (f false) us) : Foreseen b next (Parser.accept kind >>= f) us := by
  by_cases hfront : b.front us = kind
  · cases us with
    | nil => exact absurd hfront (Border.kind_ne hkind)
    | cons u us =>
      refine (hyes us hus.tail (Nat.lt_succ_self _)).of_eq (List.suffix_cons u us) fun t _ s => ?_
      exact bind_of_ok (accept_of_kind (s := s.behind (u :: us ++ [t])) hfront)
  · refine hno.of_eq (List.suffix_refl us) fun t ht s => bind_of_ok (accept_of_ne ?_)
    rwa [Border.peek_kind ht]

/-- What comes behind tokens that are skipped, up to one that stays. -/
theorem skip_front (kinds : List TokenKind) {p : Parser α}
    (hfront : b.front (us.dropWhile fun u => kinds.contains u.kind) ∉ kinds)
    (h : Foreseen b next p (us.dropWhile fun u => kinds.contains u.kind)) :
    Foreseen b next (Parser.skip kinds >>= fun _ => p) us :=
  h.of_eq (List.dropWhile_suffix _) fun _ ht s => congrArg p (Border.without_front ht hfront s)

/-- What comes behind tokens that are skipped, which may be all up to a line end. -/
theorem skip (hus : Inner us) {kinds : List TokenKind} (hkinds : kinds ⊆ [.newline, .semi])
    {p : Parser α} (hnil : Halts next (Parser.skip kinds >>= fun _ => p))
    (h : ∀ vs, Inner vs → vs.length ≤ us.length → Foreseen b next p vs) :
    Foreseen b next (Parser.skip kinds >>= fun _ => p) us := by
  have hsub := List.dropWhile_sublist (l := us) fun u => kinds.contains u.kind
  by_cases hfront : b.front (us.dropWhile fun u => kinds.contains u.kind) ∈ kinds
  · obtain ⟨hall, hline, hborder⟩ := Border.skipped hkinds hfront
    have hsame : ∀ t, t.kind = b.kind →
        (fun s : TokenStream => (Parser.skip kinds >>= fun _ => p) (s.behind (us ++ [t]))) =
          (Parser.skip kinds >>= fun _ => p) :=
      fun t ht => funext fun s => skip_congr (Border.without_all (ht ▸ hborder) hall s)
    cases hnil with
    | deep h => exact .deep fun t ht s => congrFun (hsame t ht) s ▸ h s
    | wants ks h => exact .wants ks fun t ht => (hsame t ht).symm ▸ hline ▸ h
  · exact .skip_front kinds hfront (h _ (hus.subset hsub.subset) hsub.length_le)

end Foreseen

/-! ## Expressions -/

/-- A parser of expressions takes them from the tokens or stops, and behind no tokens it halts, if
words that no expression goes on with come next. -/
structure Foresees (e : Parser Expr) : Prop where
  tokens : ∀ {b next us}, next ∈ enders → Inner us → Foreseen b next e us
  empty : ∀ {next}, next ∈ enders → Halts next e
  advances : ∀ s, Advances 1 e s

/-- What a parser leaves of some tokens is shorter by what it takes. -/
theorem Advances.length_le {α : Type} {k : Nat} {p : Parser α} (hp : ∀ s, Advances k p s) {a : α}
    {b : Border} {us vs : List Token}
    (h : ∀ t, t.kind = b.kind → ∀ s : TokenStream,
      p (s.behind (us ++ [t])) = .ok (a, s.behind (vs ++ [t]))) :
    vs.length + k ≤ us.length := by
  have hsize := (hp _).size_le (h ⟨b.kind, "", .start⟩ rfl ⟨[], .start⟩)
  simp only [TokenStream.size, TokenStream.behind, List.append_nil, List.length_append,
    List.length_singleton] at hsize
  omega

section Operators

open Calc.Parser

variable {level : Level} {o : Parser Expr} {b : Border} {next : TokenKind} {us : List Token}

/-- Neither a token at a border nor a word that ends an expression is an operator. -/
def Parser.Level.Leaves (level : Level) : Prop :=
  ∀ k ∈ .eof :: .str :: enders, level.operator? k = none

instance : Decidable level.Leaves :=
  inferInstanceAs (Decidable (∀ k ∈ .eof :: .str :: enders, level.operator? k = none))

theorem Parser.Level.Leaves.ends (h : level.Leaves) : level.Ends := h .eof List.mem_cons_self

theorem Parser.Level.Leaves.operator?_eq_none (h : level.Leaves) (hnext : next ∈ enders) :
    level.operator? next = none :=
  h next (List.mem_cons_of_mem _ (List.mem_cons_of_mem _ hnext))

theorem Parser.Level.Leaves.border_eq_none (h : level.Leaves) : level.operator? b.kind = none := by
  cases b with
  | lineEnd => exact h.operator?_eq_none List.mem_cons_self
  | string => exact h .str (List.mem_cons_of_mem _ List.mem_cons_self)

theorem operatorsAfter_resumes (hlevel : level.Leaves) (ho : ∀ s, Advances 1 o s)
    (hnext : next ∈ enders) (l : Expr) : Resumes next [] (operatorsAfter level o l) := by
  rw [operatorsAfter_eq hlevel.ends ho]
  refine .peek (fun t ht => ?_) fun t ht => ?_
  · rw [ht, List.headD_nil, hlevel.operator?_eq_none hnext]
    exact .pure l
  · have hpure : Resumes next [] (pure l : Parser Expr) := .pure l
    rw [ht, hlevel.ends]
    exact hpure.ends

theorem operatorsAfter_foreseen (hlevel : level.Leaves) (ho : Foresees o) (hnext : next ∈ enders)
    (hus : Inner us) (l : Expr) : Foreseen b next (operatorsAfter level o l) us := by
  -- By induction on the tokens left, of which each round takes some.
  induction hn : us.length using Nat.strongRecOn generalizing us l with
  | _ n ih =>
    rw [operatorsAfter_eq hlevel.ends ho.advances]
    cases hop : level.operator? (b.front us) with
    | none =>
      refine .peek (q := pure l) (fun t ht => ?_) (.pure hus l)
      rw [ht, hop]
    | some op =>
      cases us with
      | nil =>
        have hnone : level.operator? (b.front []) = none := hlevel.border_eq_none
        rw [hnone] at hop
        cases hop
      | cons t us =>
        have hop : level.operator? t.kind = some op := hop
        -- Behind the operand either the next round or the check for a second comparison.
        have hfinish : ∀ r, Resumes next [] (do
            if level.chains then operatorsAfter level o (.binary op l r)
            else if (level.operator? (← peek).kind).isSome then unexpected .comparisonEnd
            else pure (.binary op l r) : Parser Expr) := by
          intro r
          by_cases hchains : level.chains = true
          · rw [if_pos hchains]
            exact operatorsAfter_resumes hlevel ho.advances hnext _
          · rw [if_neg hchains]
            refine .peek (fun t ht => ?_) fun t ht => ?_
            · rw [ht, List.headD_nil, hlevel.operator?_eq_none hnext]
              exact .pure _
            · have hpure : Resumes next [] (pure (.binary op l r) : Parser Expr) := .pure _
              rw [ht, hlevel.ends]
              exact hpure.ends
        refine .peek_cons ?_
        rw [hop]
        refine .pop (.skip hus.tail (by decide) ?_ fun vs hvs hle => ?_)
        · exact .skip (by decide) ((ho.empty hnext).bind [] rfl (List.nil_subset _) hfinish)
        · refine (ho.tokens hnext hvs).bind [] rfl (List.nil_subset _) hfinish ?_
          intro r ws hws htakes
          by_cases hchains : level.chains = true
          · rw [if_pos hchains]
            have hlt := Advances.length_le ho.advances htakes
            rw [List.length_cons] at hn
            exact ih ws.length (by omega) hws _ rfl
          · rw [if_neg hchains]
            by_cases hsecond : (level.operator? (b.front ws)).isSome = true
            · refine .peek (fun t ht => ?_) (.unexpected hws .comparisonEnd)
              rw [ht, if_pos hsecond]
            · refine .peek (q := pure (.binary op l r)) (fun t ht => ?_) (.pure hws _)
              rw [ht, if_neg hsecond]

theorem infixed_foresees (level : Level) (hlevel : level.Leaves) (ho : Foresees o) :
    Foresees (infixed level o) where
  tokens hnext hus :=
    (ho.tokens hnext hus).bind [] rfl (List.nil_subset _)
      (operatorsAfter_resumes hlevel ho.advances hnext)
      fun l _ hvs _ => operatorsAfter_foreseen hlevel ho hnext hvs l
  empty hnext :=
    (ho.empty hnext).bind [] rfl (List.nil_subset _)
      (operatorsAfter_resumes hlevel ho.advances hnext)
  advances := infixed_advances level hlevel.ends ho.advances

theorem binaries_foresees (ho : Foresees o) : Foresees (binaries o) :=
  infixed_foresees orLevel (by decide) <|
    infixed_foresees andLevel (by decide) <|
    infixed_foresees comparisonLevel (by decide) <|
    infixed_foresees additiveLevel (by decide) <|
    infixed_foresees multiplicativeLevel (by decide) ho

end Operators

/-! ## Brackets, calls and blocks -/

section Brackets

open Calc.Parser

variable {e : Parser Expr} (he : Foresees e) {b : Border} {next close : TokenKind}
  {us : List Token}

theorem closing_subset (hclose : close ∈ closings) : [close] ⊆ finishers :=
  List.cons_subset.2 ⟨List.mem_cons_of_mem _ hclose, List.nil_subset _⟩

/-- A closing word stands at no border. -/
theorem not_border_of_mem (hclose : close ∈ closings) : close ∉ [.newline, .str] := by
  revert close
  decide

/-- Behind an expression, line ends and a closing word. -/
theorem closing_resumes {α : Type} (hclose : close ∈ closings) {js : List TokenKind}
    {f : Token → Parser α} (hfinish : ∀ t, Finishes next js (f t)) :
    Resumes next (close :: js) (skipNewlines >>= fun _ => expect close >>= f) := by
  refine .skip (by decide) ?_ (.expect (ne_eof_of_mem (List.mem_cons_of_mem _ hclose)) hfinish)
  rw [List.headD_cons, List.mem_singleton]
  rintro rfl
  exact not_border_of_mem hclose List.mem_cons_self

theorem closing_foreseen {α : Type} (hclose : close ∈ closings) {js : List TokenKind}
    (hjs : js ⊆ finishers) {f : Token → Parser α} (hfinish : ∀ t, Finishes next js (f t))
    (hf : ∀ t vs, Inner vs → Foreseen b next (f t) vs) (hus : Inner us) :
    Foreseen b next (skipNewlines >>= fun _ => expect close >>= f) us := by
  have hword : close ∈ finishers := List.mem_cons_of_mem _ hclose
  refine .skip hus (by decide) (.wants _ (.skip (by decide) (.expect hword hjs hfinish))) ?_
  exact fun vs hvs _ => .expect hvs (not_border_of_mem hclose) hf

include he

theorem bracketed_foreseen (hclose : close ∈ closings) (hus : Inner us) :
    Foreseen b next (bracketed e close) us := by
  have hender : close ∈ enders := List.mem_cons_of_mem _ hclose
  have hjs : [close] ⊆ finishers := closing_subset hclose
  have hfinish : ∀ a : Expr, Resumes next [close] (skipNewlines >>= fun _ =>
      expect close >>= fun _ => pure a) := fun a => closing_resumes hclose fun _ => .pure a
  refine .skip hus (by decide) ?_ fun vs hvs _ => ?_
  · exact .skip (by decide) ((he.empty hender).bind [close] rfl hjs hfinish)
  refine (he.tokens hender hvs).bind [close] rfl hjs hfinish fun a ws hws _ => ?_
  exact closing_foreseen hclose (List.nil_subset _) (fun _ => .pure a) (fun _ _ h => .pure h a) hws

/-- Items whose expressions may stop for want of more. -/
theorem itemsAfter_foreseen (hclose : close ∈ closings) {ks : List TokenKind}
    (hwants : Wants .lineEnd close ks e) (hus : Inner us) (items : List Expr) :
    Foreseen b next (itemsAfter e close items) us := by
  have hender : close ∈ enders := List.mem_cons_of_mem _ hclose
  have hword : close ∈ finishers := List.mem_cons_of_mem _ hclose
  have hjs : [close] ⊆ finishers := closing_subset hclose
  have heof : close ≠ .eof := ne_eof_of_mem hword
  have hborder : close ∉ [.newline, .str] := not_border_of_mem hclose
  have hcomma : [close].headD next ≠ .comma := by
    rintro rfl
    revert hclose
    decide
  induction hn : us.length using Nat.strongRecOn generalizing us items with
  | _ n ih =>
    rw [itemsAfter_eq he.advances heof]
    -- Behind an item comes a comma or the closing word.
    have hfinish : ∀ item, Resumes next [close] (do
        skipNewlines
        if ← accept .comma then itemsAfter e close (item :: items)
        else
          let _ ← expect close
          return (item :: items).reverse : Parser (List Expr)) := by
      intro item
      refine .skip (by decide) ?_ (.accept_no (by decide) hcomma (.expect heof fun _ => .pure _))
      rw [List.headD_cons, List.mem_singleton]
      rintro rfl
      exact hborder List.mem_cons_self
    have hnil := Wants.accept (f := fun closed => do
        if closed then return items.reverse
        let item ← e
        skipNewlines
        if ← accept .comma then itemsAfter e close (item :: items)
        else
          let _ ← expect close
          return (item :: items).reverse) hword (hwants.bind [close] hjs hfinish) (.pure _)
    refine .skip hus (by decide) (.wants [close] (hnil.skip (by decide))) fun vs hvs hle => ?_
    refine .accept hvs hborder (fun ws hws _ => .pure hws _) ?_
    refine (he.tokens hender hvs).bind [close] rfl hjs hfinish fun item ws hws htakes => ?_
    have hlt := Advances.length_le he.advances htakes
    refine .skip hws (by decide) ?_ fun xs hxs hle' => ?_
    · -- At the end of the source the closing word is missing, and there is no comma.
      have hwants : Wants .lineEnd next [close] (do
          let _ ← expect close
          return (item :: items).reverse) :=
        .expect hword (List.nil_subset _) fun _ => .pure _
      refine .wants [close] (.skip (by decide) (hwants.congr fun s hs => ?_))
      refine bind_of_ok (accept_of_ne ?_)
      rcases hs with hs | hs
      · rw [hs]
        decide
      · rw [hs]
        exact hcomma
    · refine .accept hxs (by decide) (fun ys hys hlt' => ?_) ?_
      · exact ih ys.length (by omega) hys _ rfl
      · exact .expect hxs hborder fun _ _ h => .pure h _

/-- Where every expression is too deep, there may only be no items. -/
theorem itemsAfter_brink (hclose : close ∈ closings)
    (hdeep : ∀ s, ∃ position, e s = .error ⟨.tooDeep, position⟩) :
    Brink next close [] (itemsAfter e close []) := by
  have heof : close ≠ .eof := ne_eof_of_mem (List.mem_cons_of_mem _ hclose)
  rw [itemsAfter_eq he.advances heof]
  refine ⟨fun s hs => ?_, List.nil_subset _, .skip ?_ (.accept_yes (.pure _))⟩
  · obtain ⟨position, hposition⟩ := hdeep (s.without [.newline])
    have hskip : skipNewlines s = .ok ((), s.without [.newline]) := rfl
    rw [itemsRound, bind_of_ok hskip, bind_of_ok (accept_of_ne hs)]
    exact ⟨position, bind_of_error hposition⟩
  · rw [List.headD_cons, List.mem_singleton]
    rintro rfl
    exact not_border_of_mem hclose List.mem_cons_self

/-- Where every expression is too deep and there are only line ends, the items depend on what comes
next. Else it can be foreseen that there are none, or that the first one is too deep. -/
theorem itemsAfter_foreseen_or (hclose : close ∈ closings)
    (hdeep : ∀ s, ∃ position, e s = .error ⟨.tooDeep, position⟩) (hus : Inner us) :
    Foreseen b next (itemsAfter e close []) us ∨
      (b = .lineEnd ∧ (∀ u ∈ us, u.kind = .newline) ∧ ∀ t, t.kind = b.kind →
        Brink next close [] fun s => itemsAfter e close [] (s.behind (us ++ [t]))) := by
  have heof : close ≠ .eof := ne_eof_of_mem (List.mem_cons_of_mem _ hclose)
  by_cases hfront : b.front (us.dropWhile fun u => [.newline].contains u.kind) ∈ [.newline]
  · obtain ⟨hall, hline, hborder⟩ := Border.skipped (by decide) hfront
    refine .inr ⟨hline, fun u hu => ?_, fun t ht => ?_⟩
    · exact List.mem_singleton.1 (List.contains_iff_mem.1 (List.dropWhile_eq_nil_iff.1 hall u hu))
    · have hsame : (fun s : TokenStream => itemsAfter e close [] (s.behind (us ++ [t]))) =
          itemsAfter e close [] := by
        funext s
        rw [itemsAfter_eq he.advances heof]
        exact skip_congr (Border.without_all (ht ▸ hborder) hall s)
      rw [hsame]
      exact itemsAfter_brink he hclose hdeep
  · rw [itemsAfter_eq he.advances heof]
    have hrest : Inner (us.dropWhile fun u => [.newline].contains u.kind) :=
      hus.subset (List.dropWhile_sublist _).subset
    refine .inl (.skip_front [.newline] hfront (.accept hrest (not_border_of_mem hclose) ?_ ?_))
    · exact fun vs hvs _ => .pure hvs _
    · exact .deep fun t _ s => (hdeep _).imp fun _ => bind_of_error

/-- The items behind an opening word, whether or not expressions may nest deeper. -/
theorem opened_foreseen {t : Token} (hpair : (t.kind, close) ∈ brackets) (hus : Inner us)
    (f : List Expr → Expr) :
    Foreseen b next (pop >>= fun _ => itemsAfter e close [] >>= fun items => pure (f items))
      (t :: us) := by
  have hclose := closings_of_mem hpair
  cases he.empty (List.mem_cons_of_mem _ hclose) with
  | wants ks hwants => exact .pop ((itemsAfter_foreseen he hclose hwants hus []).bind_pure f)
  | deep hdeep =>
    rcases itemsAfter_foreseen_or he hclose hdeep hus with hitems | ⟨hline, hends, hbrink⟩
    · exact .pop (hitems.bind_pure f)
    · have hlast : LastWord t.kind (t :: us) := .of_ends (opener_ne_newline hpair) hends
      refine .brink t.kind close [] hpair hlast ⟨hline, fun l hl => ?_⟩
      exact (hbrink l hl).bind [] (List.nil_subset _) fun items => .pure (f items)

theorem statement_foreseen (hnext : next ∈ enders) (hus : Inner us) :
    Foreseen b next (statement e) us := by
  have hempty : ∀ f : Expr → Stmt, Halts next (skipNewlines >>= fun _ => do return f (← e)) :=
    fun f => .skip (by decide) ((he.empty hnext).bind [] rfl (List.nil_subset _) fun _ => .pure _)
  refine .accept hus (by decide) (fun vs hvs _ => ?_) ?_
  · refine .expect hvs (by decide) fun name ws hws => .expect hws (by decide) fun _ xs hxs => ?_
    exact .skip hxs (by decide) (hempty _) fun ys hys _ => (he.tokens hnext hys).bind_pure _
  · by_cases hassign : ∃ t u vs, us = t :: u :: vs ∧ t.kind = .ident ∧ u.kind = .equal
    · obtain ⟨t, u, vs, rfl, hident, hequal⟩ := hassign
      refine .peek_cons (.peekSecond_cons ?_)
      rw [hident, hequal]
      refine .pop (.pop (.skip hus.tail.tail (by decide) (hempty _) fun xs hxs _ => ?_))
      exact (he.tokens hnext hxs).bind_pure _
    · -- The tokens do not start with a name and `=`.
      have hexpr := (he.tokens (b := b) hnext hus).bind_pure Stmt.expr
      refine hexpr.of_eq (List.suffix_refl us) fun t ht s => ?_
      generalize hs : s.behind (us ++ [t]) = s'
      have hpeek : peek s' = .ok (s'.peek, s') := rfl
      have hsecond : peekSecond s' = .ok (s'.advance.peek, s') := rfl
      have hstart : ¬(s'.peek.kind = .ident && s'.advance.peek.kind = .equal) = true := by
        simp only [Bool.and_eq_true, decide_eq_true_eq]
        rintro ⟨hident, hequal⟩
        subst hs
        match us with
        | [] => exact Border.kind_ne (by decide) (ht.symm.trans hident)
        | [u] => exact Border.kind_ne (by decide) (ht.symm.trans hequal)
        | u :: v :: vs => exact hassign ⟨u, v, vs, rfl, hident, hequal⟩
      change (peek >>= _) s' = _
      rw [bind_of_ok hpeek, bind_of_ok hsecond, if_neg hstart]

/-- At the end of the source the statements of a block want more, and its `end` finishes them. -/
theorem statementsAfter_wants {closers : List TokenKind} (hend : .kwEnd ∈ closers)
    (hclosers : closers ⊆ [.kwElse, .kwEnd]) (body : List Stmt) :
    Wants .lineEnd .kwEnd [] (statementsAfter e closers body) := by
  rw [statementsAfter_eq he.advances]
  refine .skip (by decide) ⟨fun s hs => .inr ⟨.blockEnd, ?_⟩, List.nil_subset _, by decide, ?_⟩
  · have hpeek : peek s = .ok (s.peek, s) := rfl
    have hcontains : closers.contains .eof = false := by
      rw [List.contains_eq_mem, decide_eq_false_iff_not]
      exact fun hmem => absurd (hclosers hmem) (by decide)
    have hisEmpty : closers.isEmpty = false := by
      rw [List.isEmpty_eq_false_iff]
      exact List.ne_nil_of_mem hend
    rw [bind_of_ok hpeek, Starves.peek_kind hs, hcontains, hisEmpty]
    exact unexpected_of_nil hs .blockEnd
  · refine .peek fun t ht => ?_
    rw [ht, List.headD_nil, if_pos (by simpa using hend)]
    exact .pure _

theorem statementsAfter_foreseen {closers : List TokenKind} (hend : .kwEnd ∈ closers)
    (hclosers : closers ⊆ [.kwElse, .kwEnd]) (hus : Inner us) (body : List Stmt) :
    Foreseen b .kwEnd (statementsAfter e closers body) us := by
  induction hn : us.length using Nat.strongRecOn generalizing us body with
  | _ n ih =>
    have hnil := statementsAfter_wants he hend hclosers body
    rw [statementsAfter_eq he.advances] at hnil ⊢
    refine .skip hus (by decide) (.wants [] hnil) fun vs hvs hle => ?_
    by_cases hclose : closers.contains (b.front vs) = true
    · refine .peek (q := pure body.reverse) (fun t ht => ?_) (.pure hvs _)
      rw [ht, if_pos hclose]
    have hround : Foreseen b .kwEnd (do
        let stmt ← statement e
        let kind := (← peek).kind
        if [.newline, .semi, .eof].contains kind || closers.contains kind then
          statementsAfter e closers (stmt :: body)
        else unexpected .separator) vs := by
      refine (statement_foreseen he (by decide) hvs).bind [] rfl (List.nil_subset _) ?_ ?_
      · intro stmt
        have hwants := statementsAfter_wants he hend hclosers (stmt :: body)
        refine .peek (fun u hu => ?_) fun u hu => ?_
        · rw [hu, List.headD_nil, if_pos (by simpa using hend)]
          exact hwants.finish
        · rw [hu, if_pos (by simp)]
          exact hwants.resumes.ends
      · intro stmt xs hxs htakes
        have hlt := Advances.length_le (statement_advances he.advances) htakes
        by_cases hsep : ([.newline, .semi, .eof].contains (b.front xs) ||
          closers.contains (b.front xs)) = true
        · refine .peek (fun t ht => ?_) (ih _ (by omega) hxs (stmt :: body) rfl)
          rw [ht, if_pos hsep]
        · refine .peek (fun t ht => ?_) (.unexpected hxs .separator)
          rw [ht, if_neg hsep]
    refine .peek (fun t ht => ?_) hround
    rw [ht, if_neg hclose, if_neg (Border.front_ne_eof hvs)]

theorem block_resumes : Resumes next [.kwEnd] (block e) :=
  .bind [] [.kwEnd] (statementsAfter_wants he (by decide) (by decide) []).resumes fun _ =>
    .expect (by decide) fun _ => .pure _

theorem block_foreseen (hus : Inner us) : Foreseen b next (block e) us := by
  refine (statementsAfter_foreseen he (by decide) (by decide) hus []).bind [.kwEnd] rfl (by decide)
    (fun _ => .expect (by decide) fun _ => .pure _) fun body vs hvs _ => ?_
  exact .expect hvs (by decide) fun _ ws hws => .pure hws _

theorem choice_foreseen (hus : Inner us) : Foreseen b next (choice e) us := by
  have helse : [.kwEnd].headD next ≠ .kwElse := by
    rw [List.headD_cons]
    decide
  -- Behind `then` the words that finish are those of the block without `else`.
  have hyes : ∀ test (yes : List Stmt), Resumes next [.kwEnd] (do
      if ← accept .kwElse then return .cond test yes (some (← block e))
      let _ ← expect .kwEnd
      return .cond test yes none : Parser Expr) := fun test yes =>
    .accept_no (by decide) helse (.expect (by decide) fun _ => .pure _)
  have hthen : ∀ test, Finishes next [.kwEnd] (do
      let yes ← statements e [.kwElse, .kwEnd]
      if ← accept .kwElse then return .cond test yes (some (← block e))
      let _ ← expect .kwEnd
      return .cond test yes none : Parser Expr) := fun test =>
    .bind [] [.kwEnd] (statementsAfter_wants he (by decide) (by decide) []).finish fun yes =>
      (hyes test yes).finish
  have htest : Foreseen b .kwThen e us := he.tokens (by decide) hus
  refine htest.bind [.kwThen, .kwEnd] rfl (by decide)
    (fun test => closing_resumes (by decide) fun _ => hthen test) fun test vs hvs _ => ?_
  refine closing_foreseen (by decide) (by decide) (fun _ => hthen test) (fun _ ws hws => ?_) hvs
  have hbody : Foreseen b .kwEnd (statementsAfter e [.kwElse, .kwEnd] []) ws :=
    statementsAfter_foreseen he (by decide) (by decide) hws []
  refine hbody.bind [.kwEnd] rfl (by decide) (hyes test) fun yes xs hxs _ => ?_
  refine .accept hxs (by decide) (fun ys hys _ => (block_foreseen he hys).bind_pure _) ?_
  exact .expect hxs (by decide) fun _ ys hys => .pure hys _

theorem loop_foreseen (hus : Inner us) : Foreseen b next (loop e) us := by
  have hbody : ∀ test, Finishes next [.kwEnd] (do return .loop test (← block e) : Parser Expr) :=
    fun test => Finishes.bind [.kwEnd] [] (block_resumes he).finish fun _ => .pure _
  have htest : Foreseen b .kwDo e us := he.tokens (by decide) hus
  refine htest.bind [.kwDo, .kwEnd] rfl (by decide)
    (fun test => closing_resumes (by decide) fun _ => hbody test) fun test vs hvs _ => ?_
  exact closing_foreseen (by decide) (by decide) (fun _ => hbody test)
    (fun _ ws hws => (block_foreseen he hws).bind_pure _) hvs

theorem named_foreseen (hus : Inner us) (name : Token) : Foreseen b next (named e name) us := by
  by_cases hfront : b.front us = .lparen
  · cases us with
    | nil => exact absurd hfront (Border.kind_ne (by decide))
    | cons u us =>
      have hpair : (u.kind, .rparen) ∈ brackets := by
        rw [show u.kind = .lparen from hfront]
        decide
      refine (opened_foreseen he hpair hus.tail (.call name.text)).of_eq (List.suffix_refl _) ?_
      exact fun t _ s => bind_of_ok (accept_of_kind (s := s.behind (u :: us ++ [t])) hfront)
  · refine (Foreseen.pure hus (.var name.text name.position.offset)).of_eq (List.suffix_refl us) ?_
    exact fun t ht s => bind_of_ok (accept_of_ne ((Border.peek_kind ht s).symm ▸ hfront))

/-- An expression without operators, from tokens that start with it. -/
theorem primary_foreseen (hus : Inner us) : Foreseen b next (primary e) us := by
  have hother : Foreseen b next (unexpected .expression : Parser Expr) us := .unexpected hus _
  cases us with
  | nil =>
    cases b with
    | lineEnd => exact .peek (fun t ht => by rw [ht]; rfl) hother
    | string =>
      -- The string at the border is the expression.
      have hstring : ∀ t : Token, t.kind = .str → ∀ s : TokenStream,
          primary e (s.behind [t]) = .ok (.str t.text, s) := by
        intro t ht s
        have hpeek : peek (s.behind [t]) = .ok (t, s.behind [t]) := rfl
        rw [primary, bind_of_ok hpeek, ht]
        rfl
      refine .wants [] fun t ht => ⟨fun s _ => .inl ⟨rfl, _, hstring t ht s⟩, List.nil_subset _,
        nofun, fun vs s hvs _ => ?_⟩
      rw [List.map_eq_nil_iff.1 hvs]
      exact ⟨_, hstring t ht s⟩
  | cons t us =>
    have hrest := hus.tail
    refine .peek_cons ?_
    cases hk : t.kind with
    | int =>
      refine .pop ?_
      split
      · exact .pure hrest _
      · exact .unexpected hrest _
    | str => exact .pop (.pure hrest _)
    | kwTrue => exact .pop (.pure hrest _)
    | kwFalse => exact .pop (.pure hrest _)
    | kwNil => exact .pop (.pure hrest _)
    | kwSelf => exact .pop (.pure hrest _)
    | ident => exact .pop (named_foreseen he hrest t)
    | lparen => exact .pop (bracketed_foreseen he (by decide) hrest)
    | lbrack => exact opened_foreseen he (by rw [hk]; decide) hrest .list
    | kwDo => exact .pop ((block_foreseen he hrest).bind_pure _)
    | kwIf => exact .pop (choice_foreseen he hrest)
    | kwWhile => exact .pop (loop_foreseen he hrest)
    | _ => exact hother

omit he in
/-- Where an expression is missing, `nil` will do. -/
theorem primary_wants : Wants .lineEnd next [.kwNil] (primary e) := by
  have hfinish : Finishes next [.kwNil] (primary e) := by
    refine .peek fun t ht => ?_
    rw [show t.kind = .kwNil from ht]
    exact .pop fun _ => .pure _
  refine ⟨fun s hs => .inr ⟨.expression, ?_⟩, by decide,
    fun _ => not_skipped_of_mem (k := .kwNil) (by decide), hfinish⟩
  have hpeek : peek s = .ok (s.peek, s) := rfl
  rw [primary, bind_of_ok hpeek, Starves.peek_kind hs]
  exact unexpected_of_nil hs .expression

theorem indexesAfter_resumes (hnext : next ∈ enders) (a : Expr) :
    Resumes next [] (indexesAfter e a) := by
  rw [indexesAfter_eq he.advances]
  refine .accept_no (by decide) ?_ (.pure a)
  rintro rfl
  revert hnext
  decide

theorem indexesAfter_foreseen (hnext : next ∈ enders) (hus : Inner us) (a : Expr) :
    Foreseen b next (indexesAfter e a) us := by
  induction hn : us.length using Nat.strongRecOn generalizing us a with
  | _ n ih =>
    rw [indexesAfter_eq he.advances]
    refine .accept hus (by decide) (fun vs hvs hlt => ?_) (.pure hus a)
    refine (bracketed_foreseen he (by decide) hvs).bind [] rfl (List.nil_subset _)
      (fun i => indexesAfter_resumes he hnext _) fun i ws hws htakes => ?_
    have hle := Advances.length_le (bracketed_advances he.advances (by decide)) htakes
    exact ih ws.length (by omega) hws _ rfl

theorem indexed_foreseen (hnext : next ∈ enders) (hus : Inner us) :
    Foreseen b next (indexed e) us :=
  (primary_foreseen he hus).bind [] rfl (List.nil_subset _) (indexesAfter_resumes he hnext)
    fun a _ hvs _ => indexesAfter_foreseen he hnext hvs a

theorem indexed_wants (hnext : next ∈ enders) : Wants .lineEnd next [.kwNil] (indexed e) :=
  primary_wants.bind [] (List.nil_subset _) (indexesAfter_resumes he hnext)

end Brackets

/-! ## Nesting -/

section Nesting

open Calc.Parser

/-- An operand is foreseen if what stands behind an operator and the expressions inside are. -/
theorem unaryOver_foresees {o e : Parser Expr} (ho : Foresees o) (he : Foresees e) :
    Foresees (unaryOver o e) where
  tokens := by
    intro b next us hnext hus
    cases hop : unaryOp? (b.front us) with
    | none =>
      refine .peek (fun t ht => ?_) (indexed_foreseen he hnext hus)
      rw [ht, hop]
    | some op =>
      cases us with
      | nil => cases b <;> cases hop
      | cons t us =>
        have hop : unaryOp? t.kind = some op := hop
        refine .peek_cons ?_
        rw [hop]
        exact .pop ((ho.tokens hnext hus.tail).bind_pure _)
  empty := by
    intro next hnext
    refine .wants [.kwNil] ((indexed_wants he hnext).congr fun s hs => ?_)
    have hop : unaryOp? s.peek.kind = none := by
      rcases hs with hs | hs <;> rw [hs] <;> rfl
    have hpeek : peek s = .ok (s.peek, s) := rfl
    rw [unaryOver, bind_of_ok hpeek, hop]
  advances := unaryOver_advances he.advances ho.advances

/-- Where expressions may not nest at all, every one is too deep. -/
theorem tooDeep_foresees : Foresees tooDeep where
  tokens _ _ := .deep fun _ _ _ => ⟨_, rfl⟩
  empty _ := .deep fun _ => ⟨_, rfl⟩
  advances _ := .of_error rfl

theorem unary_foresees (depth : Nat) : Foresees (unary depth) := by
  induction depth with
  | zero => exact unaryOver_foresees tooDeep_foresees tooDeep_foresees
  | succ depth ih => exact unaryOver_foresees ih (binaries_foresees ih)

/-- Expressions are foreseen, to whatever depth they may nest. -/
theorem exprWithin_foresees (depth : Nat) : Foresees (exprWithin depth) := by
  cases depth with
  | zero => exact tooDeep_foresees
  | succ depth => exact binaries_foresees (unary_foresees depth)

end Nesting

end CalcShell.Calc
