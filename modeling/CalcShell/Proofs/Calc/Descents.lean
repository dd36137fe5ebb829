import CalcShell.Calc.Descent
import CalcShell.Proofs.Calc.Foresight
import Mathlib.Data.List.DropRight

/-!
# Descents end where parsers do

A descent with a cursor, and the parser for the same rule on the tokens from the cursor on, do the
same (`Follows`): the descent ends, it gives the parser's tree or error, and the cursor then stands
where the tokens begin that the parser leaves. The cursor never goes back and never passes the end.
The depth is in the end what it was, and is never above the limit (`Leads`).

The proof takes one rule of the grammar after the other. A rule that loops is followed by induction
on the tokens left, because each round takes one. The calls for inner expressions are followed by
induction on the depth that is still allowed, and between two of them the levels of operators by
induction on the levels that are left; so the many calls that take no token come to an end.
-/

namespace CalcShell.Calc

/-- The stream without its first tokens. -/
def TokenStream.drop (n : Nat) (s : TokenStream) : TokenStream :=
  { s with tokens := s.tokens.drop n }

/-- Where nothing is to be skipped, skipping is nothing. -/
theorem Parser.skip_eq_of_without {α : Type} {kinds : List TokenKind} {p : Parser α}
    {s : TokenStream} (h : s.without kinds = s) :
    p s = (Parser.skip kinds >>= fun _ => p) s := by
  change p s = p (s.without kinds)
  rw [h]

namespace Descent

section

variable {ts : TokenStream} {α β : Type} {j k : Nat} {c c' : Cursor}

theorem bind_apply (m : Descent α) (f : α → Descent β) (c : Cursor) :
    (m >>= f) c =
      match m c with
      | none => none
      | some (.error err, c') => some (.error err, c')
      | some (.ok a, c') => f a c' := by
  change Option.bind (m c) _ = _
  cases m c with
  | none => rfl
  | some x =>
    obtain ⟨r, c'⟩ := x
    cases r with
    | error err => rfl
    | ok a => rfl

theorem front_eq (ts : TokenStream) (c : Cursor) : front ts c = (ts.drop c.index).peek := by
  unfold front TokenStream.drop TokenStream.peek TokenStream.all TokenStream.size TokenStream.last
  by_cases h : c.index < ts.tokens.length
  · rw [Nat.min_eq_left (Nat.le_of_lt h)]
    simp [List.getD, List.getElem?_append_left h, List.headD_eq_head?_getD, List.head?_drop]
  · rw [Nat.min_eq_right (Nat.not_lt.1 h)]
    simp [List.getD, List.headD_eq_head?_getD, List.drop_eq_nil_of_le (Nat.not_lt.1 h)]

theorem accept_apply (ts : TokenStream) (kind : TokenKind) (c : Cursor) :
    accept ts kind c =
      if (ts.drop c.index).peek.kind = kind then
        some (.ok true, if c.index < ts.size then c.next else c)
      else some (.ok false, c) := by
  rw [← front_eq]
  change (if (front ts c).kind = kind then (do
    let _ ← pop ts
    return true : Descent Bool) else Pure.pure false) c = _
  split
  · rfl
  · rfl

/-- The second token, if it is not the end, is the front of the stream without the first. -/
theorem second_eq_some {kind : TokenKind} (hkind : kind ≠ .eof) (ts : TokenStream) (i : Nat) :
    ts.all[i + 1]?.map Token.kind = some kind ↔ (ts.drop (i + 1)).peek.kind = kind := by
  unfold TokenStream.drop TokenStream.peek TokenStream.all TokenStream.last
  rcases Nat.lt_trichotomy (i + 1) ts.tokens.length with h | h | h
  · simp [List.getElem?_append_left h, List.headD_eq_head?_getD, List.head?_drop,
      List.getElem?_eq_getElem h]
  · simp [h, List.headD_eq_head?_getD]
  · have hnone : (ts.tokens ++ [⟨.eof, "", ts.stop⟩])[i + 1]? = none := by
      rw [List.getElem?_eq_none_iff, List.length_append, List.length_singleton]
      exact h
    simp [hnone, List.headD_eq_head?_getD, List.drop_eq_nil_of_le (Nat.le_of_lt h), hkind.symm]

theorem drop_advance (ts : TokenStream) (i : Nat) : (ts.drop i).advance = ts.drop (i + 1) := by
  unfold TokenStream.drop TokenStream.advance
  rw [List.tail_drop]

/-- Before the end there are tokens left. -/
theorem index_lt_of_ne (hc : c.index ≤ ts.size) (h : (ts.drop c.index).peek.kind ≠ .eof) :
    c.index < ts.size := by
  refine Nat.lt_of_le_of_ne hc fun hsize => h (Starves.peek_kind ?_)
  rw [hsize]
  exact List.drop_eq_nil_of_le (Nat.le_refl _)

/-- The cursor comes from `c` to `c'` by a descent: it goes forward, and not past the end; the depth
is what it was; in between, it is within the limit. -/
structure Leads (ts : TokenStream) (c c' : Cursor) : Prop where
  forward : c.index ≤ c'.index
  within : c'.index ≤ ts.size
  depth : c'.depth = c.depth
  above : c.deepest ≤ c'.deepest
  limit : c'.deepest ≤ max c.deepest maxNesting

theorem Leads.refl (hc : c.index ≤ ts.size) : Leads ts c c :=
  ⟨Nat.le_refl _, hc, rfl, Nat.le_refl _, Nat.le_max_left _ _⟩

theorem Leads.trans {c₁ c₂ c₃ : Cursor} (h : Leads ts c₁ c₂) (h' : Leads ts c₂ c₃) :
    Leads ts c₁ c₃ where
  forward := Nat.le_trans h.forward h'.forward
  within := h'.within
  depth := h'.depth.trans h.depth
  above := Nat.le_trans h.above h'.above
  limit := by
    have := h.limit
    have := h'.limit
    omega

/-- Skipping takes one token after the other. -/
theorem skip_eq {kinds : List TokenKind} (heof : .eof ∉ kinds) :
    Parser.skip kinds = (do
      if kinds.contains (← Parser.peek).kind then
        let _ ← Parser.pop
        Parser.skip kinds
      else Pure.pure ()) := by
  funext ⟨us, stop⟩
  cases us with
  | nil =>
    have hcontains : kinds.contains .eof = false := by
      rw [List.contains_eq_mem, decide_eq_false_iff_not]
      exact heof
    change _ = (if kinds.contains .eof = true then _ else _ : Parser Unit) ⟨[], stop⟩
    rw [hcontains]
    rfl
  | cons u us =>
    change Except.ok ((), TokenStream.without kinds ⟨u :: us, stop⟩) =
      (if kinds.contains u.kind = true then _ else _ : Parser Unit) ⟨u :: us, stop⟩
    rw [TokenStream.without, List.dropWhile_cons]
    split
    · rfl
    · rfl

/-- The descent `m` from the cursor `c` on ends, and does what the parser `p` does with the tokens
from there on. If it is accepted, it goes forward by at least `k` tokens. -/
inductive Follows (ts : TokenStream) (k : Nat) (m : Descent α) (p : Parser α) (c : Cursor) : Prop
  where
  | accepts (a : α) (c' : Cursor) (run : m c = some (.ok a, c'))
      (parse : p (ts.drop c.index) = .ok (a, ts.drop c'.index)) (leads : Leads ts c c')
      (used : c.index + k ≤ c'.index)
  | rejects (err : SourceError) (c' : Cursor) (run : m c = some (.error err, c'))
      (parse : p (ts.drop c.index) = .error err) (leads : Leads ts c c')

namespace Follows

variable {m : Descent α} {p : Parser α}

theorem mono (h : Follows ts j m p c) (hk : k ≤ j) : Follows ts k m p c := by
  cases h with
  | accepts a c' run parse leads used => exact .accepts a c' run parse leads (by omega)
  | rejects err c' run parse leads => exact .rejects err c' run parse leads

theorem congr {m' : Descent α} {p' : Parser α} (h : Follows ts k m' p' c) (hm : m c = m' c)
    (hp : p (ts.drop c.index) = p' (ts.drop c.index)) : Follows ts k m p c := by
  cases h with
  | accepts a c' run parse leads used =>
    exact .accepts a c' (hm.trans run) (hp.trans parse) leads used
  | rejects err c' run parse leads => exact .rejects err c' (hm.trans run) (hp.trans parse) leads

theorem pure (hc : c.index ≤ ts.size) (a : α) :
    Follows ts 0 (Pure.pure a : Descent α) (Pure.pure a) c :=
  .accepts a c rfl rfl (.refl hc) (Nat.le_refl _)

/-- One descent after the other goes forward by what both do. -/
theorem seq {f : α → Descent β} {g : α → Parser β} (h : Follows ts j m p c)
    (hf : ∀ a c', Leads ts c c' → c.index + j ≤ c'.index → Follows ts k (f a) (g a) c') :
    Follows ts (j + k) (m >>= f) (p >>= g) c := by
  cases h with
  | rejects err c' run parse leads =>
    refine .rejects err c' ?_ (Parser.bind_of_error parse) leads
    rw [bind_apply, run]
  | accepts a c' run parse leads used =>
    have hrun : (m >>= f) c = f a c' := by rw [bind_apply, run]
    have hparse : (p >>= g) (ts.drop c.index) = g a (ts.drop c'.index) := Parser.bind_of_ok parse
    cases hf a c' leads used with
    | accepts b c'' run' parse' leads' used' =>
      exact .accepts b c'' (hrun.trans run') (hparse.trans parse') (leads.trans leads') (by omega)
    | rejects err c'' run' parse' leads' =>
      exact .rejects err c'' (hrun.trans run') (hparse.trans parse') (leads.trans leads')

/-- The first one goes forward. -/
theorem bind {f : α → Descent β} {g : α → Parser β} (h : Follows ts j m p c) (hk : k ≤ j)
    (hf : ∀ a c', Leads ts c c' → c.index + j ≤ c'.index → Follows ts 0 (f a) (g a) c') :
    Follows ts k (m >>= f) (p >>= g) c :=
  (h.seq hf).mono hk

/-- The second one goes forward. -/
theorem andThen {f : α → Descent β} {g : α → Parser β} (h : Follows ts 0 m p c)
    (hf : ∀ a c', Leads ts c c' → Follows ts k (f a) (g a) c') :
    Follows ts k (m >>= f) (p >>= g) c :=
  (h.seq fun a c' hlead _ => hf a c' hlead).mono (Nat.le_add_left k 0)

theorem ite {b : Prop} [Decidable b] {m m' : Descent α} {p p' : Parser α}
    (hyes : b → Follows ts k m p c) (hno : ¬b → Follows ts k m' p' c) :
    Follows ts k (if b then m else m') (if b then p else p') c := by
  by_cases hb : b
  · rw [if_pos hb, if_pos hb]
    exact hyes hb
  · rw [if_neg hb, if_neg hb]
    exact hno hb

theorem peek {f : Token → Descent α} {g : Token → Parser α}
    (h : Follows ts k (f (ts.drop c.index).peek) (g (ts.drop c.index).peek) c) :
    Follows ts k (look ts >>= f) (Parser.peek >>= g) c := by
  refine h.congr ?_ rfl
  rw [← front_eq]
  rfl

theorem reject (hc : c.index ≤ ts.size) (cause : Token → Cause) :
    Follows ts k (Descent.reject ts cause : Descent α) (Parser.reject cause) c := by
  refine .rejects _ c rfl ?_ (.refl hc)
  rw [Parser.reject, front_eq]

theorem unexpected (hc : c.index ≤ ts.size) (expected : Expected) :
    Follows ts k (Descent.unexpected ts expected : Descent α) (Parser.unexpected expected) c :=
  .reject hc _

/-- The token in front is taken, and the end stays. -/
theorem pop (hc : c.index ≤ ts.size) (hk : k ≤ 1)
    (hne : k = 0 ∨ (ts.drop c.index).peek.kind ≠ .eof) :
    Follows ts k (Descent.pop ts) Parser.pop c := by
  have hparse : Parser.pop (ts.drop c.index) = .ok (front ts c, ts.drop (c.index + 1)) := by
    rw [Parser.pop, drop_advance, front_eq]
  by_cases hlt : c.index < ts.size
  · refine .accepts (front ts c) c.next ?_ hparse ?_ (Nat.add_le_add_left hk _)
    · rw [Descent.pop, if_pos hlt]
    · exact ⟨Nat.le_succ _, hlt, rfl, Nat.le_refl _, Nat.le_max_left _ _⟩
  · have hzero : k = 0 := hne.resolve_right fun hne => hlt (index_lt_of_ne hc hne)
    have hsize : ts.tokens.length ≤ c.index := Nat.not_lt.1 hlt
    refine .accepts (front ts c) c ?_ ?_ (.refl hc) (by omega)
    · rw [Descent.pop, if_neg hlt]
    · rw [hparse, TokenStream.drop, TokenStream.drop, List.drop_eq_nil_of_le hsize,
        List.drop_eq_nil_of_le (Nat.le_succ_of_le hsize)]

/-- A token that is not the end is taken. -/
theorem pop_of_ne (hc : c.index ≤ ts.size) (hne : (ts.drop c.index).peek.kind ≠ .eof) :
    Follows ts 1 (Descent.pop ts) Parser.pop c := .pop hc (Nat.le_refl 1) (.inr hne)

theorem expect {kind : TokenKind} (hkind : kind ≠ .eof) (hc : c.index ≤ ts.size) :
    Follows ts 1 (Descent.expect ts kind) (Parser.expect kind) c := by
  refine .peek (.ite (fun hpeek => .pop_of_ne hc ?_) fun _ => .unexpected hc _)
  rw [hpeek]
  exact hkind

theorem accept {kind : TokenKind} (hkind : kind ≠ .eof) (hc : c.index ≤ ts.size)
    {f : Bool → Descent α} {g : Bool → Parser α}
    (hyes : ∀ c', Leads ts c c' → c.index + 1 ≤ c'.index → Follows ts j (f true) (g true) c')
    (hk : k ≤ j + 1) (hno : Follows ts k (f false) (g false) c) :
    Follows ts k (Descent.accept ts kind >>= f) (Parser.accept kind >>= g) c := by
  by_cases hpeek : (ts.drop c.index).peek.kind = kind
  · have hpop : Follows ts 1 (Descent.pop ts) Parser.pop c := .pop_of_ne hc (hpeek ▸ hkind)
    refine ((hpop.seq fun _ c' hlead hused => hyes c' hlead hused).mono (by omega)).congr ?_ ?_
    · rw [bind_apply, accept_apply, if_pos hpeek]
      rfl
    · rw [Parser.bind_of_ok (Parser.accept_of_kind hpeek)]
      rfl
  · refine hno.congr ?_ (Parser.bind_of_ok (Parser.accept_of_ne hpeek))
    rw [bind_apply, accept_apply, if_neg hpeek]

theorem skip {kinds : List TokenKind} (heof : .eof ∉ kinds) (hc : c.index ≤ ts.size) :
    Follows ts 0 (ts.skip kinds) (Parser.skip kinds) c := by
  induction hn : ts.size - c.index using Nat.strongRecOn generalizing c with
  | _ n ih =>
    rw [TokenStream.skip, skip_eq heof]
    refine .peek (.ite (fun hmem => ?_) fun _ => .pure hc ())
    have hne : (ts.drop c.index).peek.kind ≠ .eof := by
      intro hpeek
      rw [hpeek] at hmem
      exact heof (List.contains_iff_mem.1 hmem)
    refine (Follows.pop_of_ne hc hne).bind (Nat.zero_le _) fun _ c' hlead hused => ?_
    have := hlead.within
    exact ih _ (by omega) hlead.within rfl

/-- The token behind the one in front matters only by whether it is of a kind. -/
theorem peekSecond {kind : TokenKind} (hkind : kind ≠ .eof) {f : Bool → Descent α}
    {g : Bool → Parser α} (h : ∀ b, Follows ts k (f b) (g b) c) :
    Follows ts k (lookSecond? ts >>= fun second => f (second = some kind))
      (Parser.peekSecond >>= fun t => g (t.kind = kind)) c := by
  refine (h ((ts.drop c.index).advance.peek.kind = kind)).congr ?_ rfl
  have hsecond := second_eq_some hkind ts c.index
  rw [← drop_advance] at hsecond
  rw [← decide_eq_decide.2 hsecond]
  rfl

end Follows

/-- The cursor is not behind the end, and inside of as many expressions. -/
structure At (ts : TokenStream) (d : Nat) (c : Cursor) : Prop where
  within : c.index ≤ ts.size
  depth : c.depth = d

theorem Leads.at {d : Nat} (h : Leads ts c c') (hc : At ts d c) : At ts d c' :=
  ⟨h.within, h.depth.trans hc.depth⟩

end

section Rules

variable {ts : TokenStream} {c : Cursor} {d : Nat} {e : Parser Expr}
  (he : ∀ s, Advances 1 e s) (hexpr : ∀ c, At ts d c → Follows ts 1 ts.expr e c)

theorem skipNewlines_follows (hc : At ts d c) :
    Follows ts 0 ts.skipNewlines Parser.skipNewlines c := .skip (by decide) hc.within

include hexpr in
theorem bracketed_follows {close : TokenKind} (hclose : close ≠ .eof) (hc : At ts d c) :
    Follows ts 1 (ts.bracketed close) (Parser.bracketed e close) c := by
  rw [TokenStream.bracketed, Parser.bracketed]
  refine (skipNewlines_follows hc).andThen fun _ c₁ h₁ => ?_
  refine (hexpr c₁ (h₁.at hc)).bind (Nat.le_refl 1) fun a c₂ h₂ _ => ?_
  refine (skipNewlines_follows (h₂.at (h₁.at hc))).andThen fun _ c₃ h₃ => ?_
  exact (Follows.expect hclose h₃.within).bind (Nat.zero_le 1) fun _ c₄ h₄ _ => .pure h₄.within a

include he in
/-- Behind the line ends there are no others. -/
theorem itemsAfter_skips {close : TokenKind} (hclose : close ≠ .eof) (read : List Expr) :
    Parser.itemsAfter e close read = (do
      Parser.skipNewlines
      if ← Parser.accept close then return read.reverse
      let item ← e
      Parser.skipNewlines
      if ← Parser.accept .comma then Parser.itemsAfter e close (item :: read)
      else
        Parser.skipNewlines
        let _ ← Parser.expect close
        return (item :: read).reverse) := by
  refine (congrFun (itemsAfter_eq he hclose) read).trans (funext fun s => ?_)
  refine Parser.bind_congr fun _ t _ => accept_congr hclose (fun _ => rfl) ?_
  refine Parser.bind_congr fun item u _ => Parser.bind_congr fun _ v hv => ?_
  refine accept_congr (by decide) (fun _ => rfl) ?_
  cases hv
  refine Parser.skip_eq_of_without (p := do
    let _ ← Parser.expect close
    return (item :: read).reverse) ?_
  exact congrArg (TokenStream.mk · u.stop) (List.dropWhile_idempotent _ _)

include he hexpr in
theorem items_follows {close : TokenKind} (hclose : close ≠ .eof) (hc : At ts d c)
    (read : List Expr) : Follows ts 0 (ts.items close read) (Parser.itemsAfter e close read) c := by
  induction hn : ts.size - c.index using Nat.strongRecOn generalizing c read with
  | _ n ih =>
    rw [TokenStream.items, itemsAfter_skips he hclose]
    refine (skipNewlines_follows hc).andThen fun _ c₁ h₁ => ?_
    have hc₁ := h₁.at hc
    refine .accept (j := 0) hclose hc₁.within (fun _ h _ => .pure h.within _) (Nat.zero_le _) ?_
    refine (hexpr c₁ hc₁).bind (Nat.zero_le 1) fun item c₂ h₂ hused => ?_
    have hc₂ := h₂.at hc₁
    refine (skipNewlines_follows hc₂).andThen fun _ c₃ h₃ => ?_
    have hc₃ := h₃.at hc₂
    refine .accept (j := 0) (by decide) hc₃.within (fun c₄ h₄ _ => ?_) (Nat.zero_le _) ?_
    · have := h₁.forward
      have := h₃.forward
      have := h₄.forward
      have := h₄.within
      exact ih _ (by omega) (h₄.at hc₃) _ rfl
    · refine (skipNewlines_follows hc₃).andThen fun _ c₄ h₄ => ?_
      exact (Follows.expect hclose h₄.within).bind (Nat.zero_le 1) fun _ _ h _ => .pure h.within _

include hexpr in
theorem statement_follows (hc : At ts d c) :
    Follows ts 1 ts.statement (Parser.statement e) c := by
  rw [TokenStream.statement, Parser.statement]
  refine .accept (j := 0) (by decide) hc.within (fun c₁ h₁ _ => ?_) (Nat.le_refl 1) ?_
  · refine (Follows.expect (by decide) h₁.within).bind (Nat.zero_le 1) fun name c₂ h₂ _ => ?_
    refine (Follows.expect (by decide) h₂.within).bind (Nat.zero_le 1) fun _ c₃ h₃ _ => ?_
    have hc₃ := h₃.at (h₂.at (h₁.at hc))
    refine (skipNewlines_follows hc₃).andThen fun _ c₄ h₄ => ?_
    exact (hexpr c₄ (h₄.at hc₃)).bind (Nat.zero_le 1) fun _ _ h _ => .pure h.within _
  · have hequal : TokenKind.equal ≠ .eof := by decide
    refine .peek (.peekSecond hequal (f := fun b => if _ && b then _ else _)
      (g := fun b => if _ && b then _ else _) fun b => ?_)
    refine .ite (fun hassign => ?_) fun _ => ?_
    · have hident : (ts.drop c.index).peek.kind ≠ .eof := by
        simp only [Bool.and_eq_true, decide_eq_true_eq] at hassign
        rw [hassign.1]
        decide
      refine (Follows.pop_of_ne hc.within hident).bind (Nat.le_refl 1) fun _ c₁ h₁ _ => ?_
      refine (Follows.pop h₁.within (Nat.zero_le 1) (.inl rfl)).andThen fun _ c₂ h₂ => ?_
      have hc₂ := h₂.at (h₁.at hc)
      refine (skipNewlines_follows hc₂).andThen fun _ c₃ h₃ => ?_
      exact (hexpr c₃ (h₃.at hc₂)).bind (Nat.zero_le 1) fun _ _ h _ => .pure h.within _
    · exact (hexpr c hc).bind (Nat.le_refl 1) fun _ _ h _ => .pure h.within _

include he hexpr in
theorem statements_follows (closers : List TokenKind) (hc : At ts d c) (body : List Stmt) :
    Follows ts 0 (ts.statements closers body) (Parser.statementsAfter e closers body) c := by
  induction hn : ts.size - c.index using Nat.strongRecOn generalizing c body with
  | _ n ih =>
    rw [TokenStream.statements, statementsAfter_eq he]
    refine (Follows.skip (by decide) hc.within).andThen fun _ c₁ h₁ => .peek ?_
    have hc₁ := h₁.at hc
    refine .ite (fun _ => .pure hc₁.within _) fun _ => ?_
    refine .ite (fun _ => ?_) fun _ => ?_
    · exact .ite (fun _ => .pure hc₁.within _) fun _ => .unexpected hc₁.within _
    · refine (statement_follows hexpr hc₁).bind (Nat.zero_le 1) fun stmt c₂ h₂ hused => .peek ?_
      have hc₂ := h₂.at hc₁
      refine .ite (fun _ => ?_) fun _ => .unexpected hc₂.within _
      have := h₁.forward
      have := h₂.within
      exact ih _ (by omega) hc₂ _ rfl

include he hexpr in
theorem block_follows (hc : At ts d c) : Follows ts 0 ts.block (Parser.block e) c := by
  rw [TokenStream.block]
  refine (statements_follows he hexpr [.kwEnd] hc []).andThen fun body c₁ h₁ => ?_
  exact (Follows.expect (by decide) h₁.within).bind (Nat.zero_le 1) fun _ _ h _ => .pure h.within _

include he hexpr in
theorem choice_follows (hc : At ts d c) : Follows ts 0 ts.choice (Parser.choice e) c := by
  rw [TokenStream.choice]
  refine (hexpr c hc).bind (Nat.zero_le 1) fun test c₁ h₁ _ => ?_
  refine (skipNewlines_follows (h₁.at hc)).andThen fun _ c₂ h₂ => ?_
  refine (Follows.expect (by decide) h₂.within).bind (Nat.zero_le 1) fun _ c₃ h₃ _ => ?_
  have hc₃ := h₃.at (h₂.at (h₁.at hc))
  refine (statements_follows he hexpr [.kwElse, .kwEnd] hc₃ []).andThen fun yes c₄ h₄ => ?_
  refine .accept (j := 0) (by decide) h₄.within (fun c₅ h₅ _ => ?_) (Nat.zero_le _) ?_
  · exact (block_follows he hexpr (h₅.at (h₄.at hc₃))).andThen fun _ _ h => .pure h.within _
  · exact (Follows.expect (by decide) h₄.within).bind (Nat.zero_le 1) fun _ _ h _ =>
      .pure h.within _

include he hexpr in
theorem loop_follows (hc : At ts d c) : Follows ts 0 ts.loop (Parser.loop e) c := by
  rw [TokenStream.loop]
  refine (hexpr c hc).bind (Nat.zero_le 1) fun test c₁ h₁ _ => ?_
  refine (skipNewlines_follows (h₁.at hc)).andThen fun _ c₂ h₂ => ?_
  refine (Follows.expect (by decide) h₂.within).bind (Nat.zero_le 1) fun _ c₃ h₃ _ => ?_
  have hc₃ := h₃.at (h₂.at (h₁.at hc))
  exact (block_follows he hexpr hc₃).andThen fun _ _ h => .pure h.within _

include he hexpr in
theorem named_follows (name : Token) (hc : At ts d c) :
    Follows ts 0 (ts.named name) (Parser.named e name) c := by
  rw [TokenStream.named]
  refine .accept (j := 0) (by decide) hc.within (fun c₁ h₁ _ => ?_) (Nat.zero_le _)
    (.pure hc.within _)
  exact (items_follows he hexpr (by decide) (h₁.at hc) []).andThen fun _ _ h => .pure h.within _

include he hexpr in
theorem primary_follows (hc : At ts d c) : Follows ts 1 ts.primary (Parser.primary e) c := by
  rw [TokenStream.primary]
  refine .peek ?_
  have hpop : ∀ {f : Token → Descent Expr} {g : Token → Parser Expr},
      (ts.drop c.index).peek.kind ≠ .eof →
      (∀ t c', At ts d c' → Follows ts 0 (f t) (g t) c') →
      Follows ts 1 (pop ts >>= f) (Parser.pop >>= g) c := fun hne h =>
    (Follows.pop_of_ne hc.within hne).bind (Nat.le_refl 1) fun t c' hlead _ => h t c' (hlead.at hc)
  cases hk : (ts.drop c.index).peek.kind with
  | int =>
    refine hpop (by rw [hk]; decide) fun _ c' hc' => ?_
    cases Number.ofDigits? (ts.drop c.index).peek.text.toList with
    | some n => exact .pure hc'.within _
    | none => exact .unexpected hc'.within _
  | str => exact hpop (by rw [hk]; decide) fun _ _ hc' => .pure hc'.within _
  | kwTrue => exact hpop (by rw [hk]; decide) fun _ _ hc' => .pure hc'.within _
  | kwFalse => exact hpop (by rw [hk]; decide) fun _ _ hc' => .pure hc'.within _
  | kwNil => exact hpop (by rw [hk]; decide) fun _ _ hc' => .pure hc'.within _
  | kwSelf => exact hpop (by rw [hk]; decide) fun _ _ hc' => .pure hc'.within _
  | ident => exact hpop (by rw [hk]; decide) fun _ _ hc' => named_follows he hexpr _ hc'
  | lparen =>
    exact hpop (by rw [hk]; decide) fun _ _ hc' =>
      (bracketed_follows hexpr (by decide) hc').mono (Nat.zero_le 1)
  | lbrack =>
    exact hpop (by rw [hk]; decide) fun _ _ hc' =>
      (items_follows he hexpr (by decide) hc' []).andThen fun _ _ h => .pure h.within _
  | kwDo =>
    exact hpop (by rw [hk]; decide) fun _ _ hc' =>
      (block_follows he hexpr hc').andThen fun _ _ h => .pure h.within _
  | kwIf => exact hpop (by rw [hk]; decide) fun _ _ hc' => choice_follows he hexpr hc'
  | kwWhile => exact hpop (by rw [hk]; decide) fun _ _ hc' => loop_follows he hexpr hc'
  | _ => exact .unexpected hc.within _

include he hexpr in
theorem indexes_follows (hc : At ts d c) (a : Expr) :
    Follows ts 0 (ts.indexes a) (Parser.indexesAfter e a) c := by
  induction hn : ts.size - c.index using Nat.strongRecOn generalizing c a with
  | _ n ih =>
    rw [TokenStream.indexes, indexesAfter_eq he]
    refine .accept (j := 0) (by decide) hc.within (fun c₁ h₁ hused => ?_) (Nat.zero_le _)
      (.pure hc.within a)
    have hc₁ := h₁.at hc
    refine (bracketed_follows hexpr (by decide) hc₁).bind (Nat.zero_le 1) fun i c₂ h₂ _ => ?_
    have := h₂.forward
    have := h₂.within
    exact ih _ (by omega) (h₂.at hc₁) _ rfl

include he hexpr in
theorem indexed_follows (hc : At ts d c) : Follows ts 1 ts.indexed (Parser.indexed e) c := by
  rw [TokenStream.indexed]
  exact (primary_follows he hexpr hc).bind (Nat.le_refl 1) fun a c' h _ =>
    indexes_follows he hexpr (h.at hc) a

include he hexpr in
/-- An operand, where `o` is what stands behind an operator. -/
theorem unaryOver_follows {o : Parser Expr}
    (hoperand : ∀ c, At ts d c → Follows ts 1 ts.operand o c) (hc : At ts d c) :
    Follows ts 1 ts.unary (Parser.unaryOver o e) c := by
  rw [TokenStream.unary]
  refine .peek ?_
  cases hop : Parser.unaryOp? (ts.drop c.index).peek.kind with
  | none => exact indexed_follows he hexpr hc
  | some op =>
    have hne : (ts.drop c.index).peek.kind ≠ .eof := by
      intro hpeek
      rw [hpeek] at hop
      cases hop
    refine (Follows.pop_of_ne hc.within hne).bind (Nat.le_refl 1) fun _ c₁ h₁ _ => ?_
    exact (hoperand c₁ (h₁.at hc)).bind (Nat.zero_le 1) fun _ _ h _ => .pure h.within _

end Rules

section Levels

variable {ts : TokenStream} {c : Cursor} {d : Nat} {o : Parser Expr}

theorem operators_follows {n : Nat} (ho : ∀ s, Advances 1 o s)
    (hoperand : ∀ c, At ts d c → Follows ts 1 (ts.level (n + 1)) o c) {spec : Parser.Level}
    (hspec : spec.Ends) (hc : At ts d c) (l : Expr) :
    Follows ts 0 (ts.operators n spec l) (Parser.operatorsAfter spec o l) c := by
  induction hn : ts.size - c.index using Nat.strongRecOn generalizing c l with
  | _ m ih =>
    rw [TokenStream.operators, operatorsAfter_eq hspec ho]
    refine .peek ?_
    cases hop : spec.operator? (ts.drop c.index).peek.kind with
    | none => exact .pure hc.within l
    | some op =>
      have hne := hspec.peek_ne hop
      refine (Follows.pop_of_ne hc.within hne).bind (Nat.zero_le 1) fun _ c₁ h₁ hused => ?_
      have hc₁ := h₁.at hc
      refine (skipNewlines_follows hc₁).andThen fun _ c₂ h₂ => ?_
      refine (hoperand c₂ (h₂.at hc₁)).bind (Nat.zero_le 1) fun r c₃ h₃ _ => ?_
      have hc₃ := h₃.at (h₂.at hc₁)
      refine .ite (fun _ => ?_) fun _ => .peek (.ite (fun _ => .unexpected hc₃.within _) fun _ =>
        .pure hc₃.within _)
      have := h₂.forward
      have := h₃.forward
      have := h₃.within
      exact ih _ (by omega) hc₃ _ rfl

theorem levels_advances (ho : ∀ s, Advances 1 o s) {specs : List Parser.Level}
    (hspecs : ∀ spec ∈ specs, spec.Ends) (s : TokenStream) :
    Advances 1 (specs.foldr Parser.infixed o) s := by
  induction specs generalizing s with
  | nil => exact ho s
  | cons spec specs ih =>
    exact infixed_advances spec (hspecs spec List.mem_cons_self)
      (ih fun spec' h => hspecs spec' (List.mem_cons_of_mem _ h)) s

/-- No operator of any level is the end. -/
theorem levels_ends : ∀ spec ∈ levels, spec.Ends := by
  unfold Parser.Level.Ends
  decide

/-- From a level on, the levels that are left. -/
theorem level_follows (ho : ∀ s, Advances 1 o s)
    (hunary : ∀ c, At ts d c → Follows ts 1 ts.unary o c) (n : Nat) (hc : At ts d c) :
    Follows ts 1 (ts.level n) ((levels.drop n).foldr Parser.infixed o) c := by
  induction hspecs : levels.drop n generalizing n c with
  | nil =>
    have hnone : levels[n]? = none := by rw [← List.head?_drop, hspecs, List.head?_nil]
    rw [TokenStream.level, hnone]
    exact hunary c hc
  | cons spec specs ih =>
    have hspec : levels[n]? = some spec := by rw [← List.head?_drop, hspecs, List.head?_cons]
    have hrest : levels.drop (n + 1) = specs := by rw [← List.tail_drop, hspecs, List.tail_cons]
    have hmem : ∀ spec' ∈ spec :: specs, spec' ∈ levels := fun spec' h =>
      List.mem_of_mem_drop (hspecs ▸ h)
    have htight : ∀ s, Advances 1 (specs.foldr Parser.infixed o) s := levels_advances ho
      fun spec' h => levels_ends spec' (hmem spec' (List.mem_cons_of_mem _ h))
    rw [TokenStream.level, hspec]
    refine (ih (n + 1) hc hrest).bind (Nat.le_refl 1) fun l c' h _ => ?_
    exact operators_follows htight (fun c hc => ih (n + 1) hc hrest)
      (levels_ends spec (hmem spec List.mem_cons_self)) (h.at hc) l

end Levels

/-! ## Nesting -/

section Nesting

variable {ts : TokenStream} {c : Cursor} {d : Nat}

/-- Reads with `m` one deeper, if the limit allows it. -/
def nested {α : Type} (ts : TokenStream) (m : Descent α) : Descent α := fun c =>
  if maxNesting ≤ c.depth then reject ts (fun _ => .tooDeep) c
  else do
    let (r, c) ← m c.entered
    some (r, c.left)

theorem expr_eq (ts : TokenStream) : ts.expr = nested ts (ts.level 0) := by
  funext c
  rw [TokenStream.expr]
  rfl

theorem operand_eq (ts : TokenStream) : ts.operand = nested ts ts.unary := by
  funext c
  rw [TokenStream.operand]
  rfl

theorem nested_tooDeep {α : Type} {k : Nat} {m : Descent α} (hc : At ts maxNesting c) :
    Follows ts k (nested ts m) Parser.tooDeep c := by
  have hrun : nested ts m c = reject ts (fun _ => .tooDeep) c :=
    if_pos (Nat.le_of_eq hc.depth.symm)
  exact (Follows.reject (α := α) hc.within _).congr hrun rfl

theorem nested_follows {α : Type} {k : Nat} {m : Descent α} {p : Parser α} (hd : d < maxNesting)
    (hm : ∀ c, At ts (d + 1) c → Follows ts k m p c) (hc : At ts d c) :
    Follows ts k (nested ts m) p c := by
  have hdepth := hc.depth
  have hrun : nested ts m c = (do
      let (r, c') ← m c.entered
      some (r, c'.left)) := if_neg (by omega)
  have hleft : ∀ {c'}, Leads ts c.entered c' → Leads ts c c'.left := by
    intro c' hlead
    have hlimit := hlead.limit
    have habove := hlead.above
    have hdepth' := hlead.depth
    simp only [Cursor.entered] at hlimit habove hdepth'
    refine ⟨hlead.forward, hlead.within, ?_, ?_, ?_⟩
    · change c'.depth - 1 = c.depth
      omega
    · change c.deepest ≤ c'.deepest
      omega
    · change c'.deepest ≤ max c.deepest maxNesting
      omega
  have hentered : At ts (d + 1) c.entered := ⟨hc.within, congrArg (· + 1) hdepth⟩
  cases hm c.entered hentered with
  | accepts a c' run parse leads used =>
    refine .accepts a c'.left ?_ parse (hleft leads) used
    rw [hrun, run]
    rfl
  | rejects err c' run parse leads =>
    refine .rejects err c'.left ?_ parse (hleft leads)
    rw [hrun, run]
    rfl

theorem unary_follows {n : Nat} (hn : d + n = maxNesting) (hc : At ts d c) :
    Follows ts 1 ts.unary (Parser.unary n) c := by
  induction n generalizing d c with
  | zero =>
    have htooDeep : ∀ s, Advances 1 (Parser.tooDeep : Parser Expr) s := fun _ => .of_error rfl
    have hd : d = maxNesting := hn
    subst hd
    refine unaryOver_follows htooDeep (fun c hc => ?_) (fun c hc => ?_) hc
    · rw [expr_eq]
      exact nested_tooDeep hc
    · rw [operand_eq]
      exact nested_tooDeep hc
  | succ n ih =>
    have hinner : ∀ c, At ts (d + 1) c → Follows ts 1 ts.unary (Parser.unary n) c :=
      fun c hc => ih (by omega) hc
    refine unaryOver_follows (e := Parser.binaries (Parser.unary n))
      (exprWithin_foresees (n + 1)).advances (fun c hc => ?_) (fun c hc => ?_) hc
    · rw [expr_eq]
      exact nested_follows (by omega) (fun c hc =>
        level_follows (unary_foresees n).advances hinner 0 hc) hc
    · rw [operand_eq]
      exact nested_follows (by omega) hinner hc

theorem expr_follows {n : Nat} (hn : d + n = maxNesting) (hc : At ts d c) :
    Follows ts 1 ts.expr (Parser.exprWithin n) c := by
  rw [expr_eq]
  cases n with
  | zero =>
    have hd : d = maxNesting := hn
    subst hd
    exact nested_tooDeep hc
  | succ n =>
    exact nested_follows (by omega) (fun c hc =>
      level_follows (unary_foresees n).advances (fun c hc => unary_follows (by omega) hc) 0 hc) hc

end Nesting

/-! ## The grammar -/

/-- Each rule of the grammar at the cursor, where expressions may nest `n` deeper. -/
structure Rules (ts : TokenStream) (n : Nat) (c : Cursor) : Prop where
  statements (closers : List TokenKind) (body : List Stmt) :
    Follows ts 0 (ts.statements closers body)
      (Parser.statementsAfter (Parser.exprWithin n) closers body) c
  statement : Follows ts 1 ts.statement (Parser.statement (Parser.exprWithin n)) c
  expr : Follows ts 1 ts.expr (Parser.exprWithin n) c
  level (i : Nat) :
    Follows ts 1 (ts.level i) ((levels.drop i).foldr Parser.infixed (Parser.unary n)) c
  unary : Follows ts 1 ts.unary (Parser.unary n) c
  indexed : Follows ts 1 ts.indexed (Parser.indexed (Parser.exprWithin n)) c
  primary : Follows ts 1 ts.primary (Parser.primary (Parser.exprWithin n)) c
  items (close : TokenKind) (hclose : close ≠ .eof) (read : List Expr) :
    Follows ts 0 (ts.items close read) (Parser.itemsAfter (Parser.exprWithin n) close read) c
  skipNewlines : Follows ts 0 ts.skipNewlines Parser.skipNewlines c

/-- The tokens of a source, from the first one to the end. -/
theorem program_follows (ts : TokenStream) :
    Follows ts 0 ts.program Parser.program .start := by
  have hstart : At ts 0 .start := ⟨Nat.zero_le _, rfl⟩
  refine (statements_follows (exprWithin_foresees maxNesting).advances
    (fun c hc => expr_follows (Nat.zero_add _) hc) [] hstart []).andThen fun body c₁ h₁ => ?_
  refine Follows.andThen (.peek (.ite (fun _ => .pop h₁.within (Nat.zero_le 1) (.inl rfl))
    fun _ => .unexpected h₁.within _)) fun _ c₂ h₂ => .pure h₂.within body

/-- Whatever the tokens are, and wherever a cursor may come to among them, each rule of the grammar
ends there. The cursor goes forward and not past the end; a statement, an expression and each part
of one takes a token at least; the depth is what it was, and it was within the limit. From the
start, that is so of the whole source, and the descent does what the parser does. -/
theorem rules_follow (ts : TokenStream) :
    Follows ts 0 ts.program Parser.program .start ∧
    ∀ (d n : Nat) (c : Cursor), d + n = maxNesting → At ts d c → Rules ts n c := by
  refine ⟨program_follows ts, fun d n c hn hc => ?_⟩
  have he : ∀ s, Advances 1 (Parser.exprWithin n) s := (exprWithin_foresees n).advances
  have hexpr : ∀ c, At ts d c → Follows ts 1 ts.expr (Parser.exprWithin n) c :=
    fun c hc => expr_follows hn hc
  have hunary : ∀ c, At ts d c → Follows ts 1 ts.unary (Parser.unary n) c :=
    fun c hc => unary_follows hn hc
  exact {
    statements := fun closers body => statements_follows he hexpr closers hc body
    statement := statement_follows hexpr hc
    expr := hexpr c hc
    level := fun i => level_follows (unary_foresees n).advances hunary i hc
    unary := hunary c hc
    indexed := indexed_follows he hexpr hc
    primary := primary_follows he hexpr hc
    items := fun close hclose read => items_follows he hexpr hclose hc read
    skipNewlines := skipNewlines_follows hc }

/-- Inside the brackets of `(x)`, at the name. -/
theorem rules_follow_name :
    let ts : TokenStream :=
      ⟨[⟨.lparen, "(", ⟨0, 1, 1⟩⟩, ⟨.ident, "x", ⟨1, 1, 2⟩⟩, ⟨.rparen, ")", ⟨2, 1, 3⟩⟩], ⟨3, 1, 4⟩⟩
    lex "(x)" = .ok ts ∧ 1 + 127 = maxNesting ∧ At ts 1 ⟨1, 1, 1⟩ ∧
      Follows ts 0 ts.program Parser.program .start ∧ Rules ts 127 ⟨1, 1, 1⟩ := by
  intro ts
  have hc : At ts 1 ⟨1, 1, 1⟩ := ⟨by decide, rfl⟩
  obtain ⟨hprogram, hrules⟩ := rules_follow ts
  exact ⟨by decide +kernel, rfl, hc, hprogram, hrules 1 127 _ rfl hc⟩

end Descent

end CalcShell.Calc
