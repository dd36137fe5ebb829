import Mathlib
import CalcShell.Proofs.Calc.Continuation
import CalcShell.Proofs.Calc.Evaluations
import CalcShell.Proofs.Calc.Lexemes
import CalcShell.Proofs.Calc.Making

/-!
# A minus in front of a number

The parser negates a number as soon as it finds a minus in front of it. That is safe and changes no
meaning (`numbers_folded`). Digits write a number from zero to the greatest one, and the negation of
such a number is above the least one; so a number in a tree always has a negation (`Expr.Tidy`).
This is the invariant of parsing (`making_tidy`), and it is kept by operators and brackets, however
many there are.

The parser is compared with two others, which differ from it in what they do with an operator in
front of an operand. One does anything at all where a negation is out of range (`negateOr`); it
never gets there. The other makes a node of each operator (`keep`). The parser's trees are the trees
of that one, folded from the inside out (`Expr.folded`), and folding keeps values
(`Eval.expr_folded`).
-/

namespace CalcShell.Calc

/-! ## Numbers among the tokens -/

/-- A number is written in digits that are in range. -/
theorem Spelling.digits_of_int {text : String} {raw rest : List Char}
    (h : Spelling .int text raw rest) :
    text = String.ofList raw ∧ (Text.ofDigits raw : Int) ≤ maxNumber := by
  generalize hkind : TokenKind.int = kind at h
  cases h with
  | pair _ hpair => exact absurd (hkind ▸ mem_symbolKinds_of_pair? hpair) (by decide)
  | single hsingle _ => exact absurd (hkind ▸ mem_symbolKinds_of_single? hsingle) (by decide)
  | keyword _ hkeyword =>
    unfold TokenKind.keyword? at hkeyword
    split at hkeyword <;> cases hkeyword <;> cases hkind
  | number _ hle => exact ⟨rfl, hle⟩
  | newline | name | string => cases hkind

/-- Each token of digits among the tokens of a source writes a number. -/
theorem lex_number {src : String} {s : TokenStream} (h : lex src = .ok s) {t : Token}
    (ht : t ∈ s.all) (hkind : t.kind = .int) :
    ∃ n : Number, n.toInt = Text.ofDigits t.text.toList ∧
      Number.ofDigits? t.text.toList = some n := by
  rcases List.mem_append.1 ht with ht | ht
  · obtain ⟨before, raw, rest, -, -, hspelling⟩ := (lexFrom_tiles (lexFrom_of_lex h)).1.placed t ht
    obtain ⟨htext, hle⟩ := (hkind ▸ hspelling).digits_of_int
    rw [htext, String.toList_ofList]
    have hmin : minNumber ≤ (Text.ofDigits raw : Int) := by
      unfold minNumber
      omega
    exact ⟨⟨_, hmin, hle⟩, rfl, Number.ofInt?_eq_some.2 rfl⟩
  · rw [List.mem_singleton.1 ht] at hkind
    cases hkind

/-- The lexer expects no numbers. -/
theorem lex_error_expected? {src : String} {err : SourceError} (h : lex src = .error err) :
    err.cause.expected? ≠ some .integer := by
  have hcode := (lexFrom_rejectedIn (lexFrom_of_lex h)).code
  cases hcause : err.cause with
  | endOfInput expected | unexpected text expected => simp [hcause, Cause.code] at hcode
  | _ => exact fun hnone => Option.some_ne_none _ hnone.symm

/-- A token of digits that write a number is read as this number. -/
theorem primary_number (e : Parser Expr) {s : TokenStream} (hkind : s.peek.kind = .int)
    {n : Number} (hn : Number.ofDigits? s.peek.text.toList = some n) :
    Parser.primary e s = .ok (.int n, s.advance) := by
  unfold Parser.primary
  rw [Parser.bind_of_ok (show Parser.peek s = .ok (s.peek, s) from rfl), hkind]
  dsimp only
  rw [Parser.bind_of_ok (show Parser.pop s = .ok (s.peek, s.advance) from rfl), hn]
  rfl

/-! ## Nodes -/

mutual

/-- An expression and all expressions inside of it. -/
def Expr.nodes : Expr → List Expr
  | .list items => .list items :: Expr.nodesAll items
  | .unary op e => .unary op e :: e.nodes
  | .binary op l r => .binary op l r :: (l.nodes ++ r.nodes)
  | .index t i => .index t i :: (t.nodes ++ i.nodes)
  | .call name args => .call name args :: Expr.nodesAll args
  | .block body => .block body :: Stmt.nodesAll body
  | .cond t yes none => .cond t yes none :: (t.nodes ++ Stmt.nodesAll yes)
  | .cond t yes (some no) =>
    .cond t yes (some no) :: (t.nodes ++ Stmt.nodesAll yes ++ Stmt.nodesAll no)
  | .loop t body => .loop t body :: (t.nodes ++ Stmt.nodesAll body)
  | .nil => [.nil]
  | .bool b => [.bool b]
  | .int n => [.int n]
  | .str s => [.str s]
  | .receiver => [.receiver]
  | .var name offset => [.var name offset]

/-- All expressions in some expressions. -/
def Expr.nodesAll : List Expr → List Expr
  | [] => []
  | e :: es => e.nodes ++ Expr.nodesAll es

/-- All expressions in a statement. -/
def Stmt.nodes : Stmt → List Expr
  | .define _ e | .assign _ e | .expr e => e.nodes

/-- All expressions in some statements. -/
def Stmt.nodesAll : List Stmt → List Expr
  | [] => []
  | s :: ss => s.nodes ++ Stmt.nodesAll ss

end

theorem Expr.forall_mem_nodesAll {es : List Expr} {P : Expr → Prop} :
    (∀ x ∈ Expr.nodesAll es, P x) ↔ ∀ e ∈ es, ∀ x ∈ e.nodes, P x := by
  induction es with
  | nil => simp [Expr.nodesAll]
  | cons e es ih => rw [Expr.nodesAll, List.forall_mem_append, ih, List.forall_mem_cons]

theorem Stmt.forall_mem_nodesAll {ss : List Stmt} {P : Expr → Prop} :
    (∀ x ∈ Stmt.nodesAll ss, P x) ↔ ∀ s ∈ ss, ∀ x ∈ s.nodes, P x := by
  induction ss with
  | nil => simp [Stmt.nodesAll]
  | cons s ss ih => rw [Stmt.nodesAll, List.forall_mem_append, ih, List.forall_mem_cons]

/-- If the expression is a number, neither it nor its negation is above the greatest one; and it is
no minus directly in front of a number. -/
def Expr.Tidy : Expr → Prop
  | .int n => -maxNumber ≤ n.toInt ∧ n.toInt ≤ maxNumber
  | .unary .neg (.int _) => False
  | _ => True

/-- A tidy number has a negation, which is tidy. -/
theorem Expr.Tidy.neg? {n : Number} (h : (Expr.int n).Tidy) :
    ∃ m : Number, n.neg? = some m ∧ (Expr.int m).Tidy := by
  obtain ⟨hmin, hmax⟩ : -maxNumber ≤ n.toInt ∧ n.toInt ≤ maxNumber := h
  obtain ⟨m, hm, hneg⟩ := Number.neg?_of_minNumber_lt (n := n) (by
    unfold maxNumber at hmin
    unfold minNumber
    omega)
  refine ⟨m, hm, ?_⟩
  change -maxNumber ≤ m.toInt ∧ m.toInt ≤ maxNumber
  omega

/-- A minus in front of an expression that is no number is tidy. -/
theorem Expr.tidy_neg {e : Expr} (h : ∀ n, e ≠ .int n) : (Expr.unary .neg e).Tidy := by
  cases e with
  | int n => exact absurd rfl (h n)
  | _ => trivial

/-- Where all of an expression is tidy, so is all of it with an operator in front. -/
theorem tidy_applyUnary (op : UnaryOp) (e : Expr) (he : ∀ x ∈ e.nodes, x.Tidy) :
    ∀ x ∈ (Parser.applyUnary op e).nodes, x.Tidy := by
  unfold Parser.applyUnary
  split
  · rename_i n
    obtain ⟨m, hm, hmtidy⟩ := (List.forall_mem_singleton.1 he).neg?
    rw [hm]
    exact List.forall_mem_singleton.2 hmtidy
  · rename_i hne
    refine List.forall_mem_cons.2 ⟨?_, he⟩
    cases op with
    | neg => exact Expr.tidy_neg fun n hn => hne n rfl hn
    | not => trivial

/-- Trees of the tokens of a source are tidy, and there is no error for want of a number. -/
theorem making_tidy {src : String} {s : TokenStream} (h : lex src = .ok s) :
    Making (· ∈ s.all) (fun err => err.cause.expected? ≠ some .integer)
      (fun e => ∀ x ∈ e.nodes, x.Tidy) (fun a => ∀ x ∈ a.nodes, x.Tidy) where
  rejects _ _ _ hcause := hcause
  notNumber t ht hkind hnone := by
    obtain ⟨n, -, hn⟩ := lex_number h ht hkind
    rw [hnone] at hn
    cases hn
  nil := List.forall_mem_singleton.2 trivial
  bool _ := List.forall_mem_singleton.2 trivial
  int t ht hkind n hn := by
    obtain ⟨m, hm, hm'⟩ := lex_number h ht hkind
    rw [hn] at hm'
    cases hm'
    refine List.forall_mem_singleton.2 (show _ ∧ _ from ⟨?_, n.le_max⟩)
    unfold maxNumber
    omega
  str _ := List.forall_mem_singleton.2 trivial
  receiver := List.forall_mem_singleton.2 trivial
  var _ _ _ := List.forall_mem_singleton.2 trivial
  list _ hitems := List.forall_mem_cons.2 ⟨trivial, Expr.forall_mem_nodesAll.2 hitems⟩
  unary := tidy_applyUnary
  binary _ _ _ hl hr := List.forall_mem_cons.2 ⟨trivial, List.forall_mem_append.2 ⟨hl, hr⟩⟩
  index _ _ ht hi := List.forall_mem_cons.2 ⟨trivial, List.forall_mem_append.2 ⟨ht, hi⟩⟩
  call _ _ hargs := List.forall_mem_cons.2 ⟨trivial, Expr.forall_mem_nodesAll.2 hargs⟩
  block _ hbody := List.forall_mem_cons.2 ⟨trivial, Stmt.forall_mem_nodesAll.2 hbody⟩
  cond _ _ ht hyes := List.forall_mem_cons.2 ⟨trivial,
    List.forall_mem_append.2 ⟨ht, Stmt.forall_mem_nodesAll.2 hyes⟩⟩
  condElse _ _ _ ht hyes hno := List.forall_mem_cons.2 ⟨trivial, List.forall_mem_append.2
    ⟨List.forall_mem_append.2 ⟨ht, Stmt.forall_mem_nodesAll.2 hyes⟩,
      Stmt.forall_mem_nodesAll.2 hno⟩⟩
  loop _ _ ht hbody := List.forall_mem_cons.2 ⟨trivial,
    List.forall_mem_append.2 ⟨ht, Stmt.forall_mem_nodesAll.2 hbody⟩⟩
  define _ _ he := he
  assign _ _ he := he
  expr _ he := he

/-! ## Negations out of range -/

namespace Parser

/-- The negation of a number is a number, but where that is out of range, the parser `overflow` goes
on. Any other operator is a node. -/
def negateOr (overflow : Parser Expr) : Sign
  | .neg, .int n =>
    match n.neg? with
    | some m => pure (.int m)
    | none => overflow
  | op, e => pure (.unary op e)

/-- No negation of a tidy number is out of range. -/
theorem negateOr_eq (overflow : Parser Expr) (op : UnaryOp) (e : Expr)
    (he : ∀ x ∈ e.nodes, x.Tidy) : negateOr overflow op e = negate op e := by
  unfold negateOr
  split
  · rename_i n
    obtain ⟨m, hm, -⟩ := (List.forall_mem_singleton.1 he).neg?
    simp only [negate, applyUnary, hm]
  · rename_i hne
    unfold negate applyUnary
    split
    · exact absurd rfl (hne _ rfl)
    · rfl

end Parser

/-! ## Operators as nodes -/

/-- Every operator is a node. -/
def Parser.keep : Sign := fun op e => pure (.unary op e)

mutual

/-- The expression with numbers negated where a minus stands in front of them, from the inside out.
-/
def Expr.folded : Expr → Expr
  | .nil => .nil
  | .bool b => .bool b
  | .int n => .int n
  | .str s => .str s
  | .receiver => .receiver
  | .var name offset => .var name offset
  | .list items => .list (Expr.foldedAll items)
  | .unary op e => Parser.applyUnary op e.folded
  | .binary op l r => .binary op l.folded r.folded
  | .index t i => .index t.folded i.folded
  | .call name args => .call name (Expr.foldedAll args)
  | .block body => .block (Stmt.foldedAll body)
  | .cond t yes none => .cond t.folded (Stmt.foldedAll yes) none
  | .cond t yes (some no) => .cond t.folded (Stmt.foldedAll yes) (some (Stmt.foldedAll no))
  | .loop t body => .loop t.folded (Stmt.foldedAll body)

/-- Expressions with numbers negated. -/
def Expr.foldedAll : List Expr → List Expr
  | [] => []
  | e :: es => e.folded :: Expr.foldedAll es

/-- The statement with numbers negated. -/
def Stmt.folded : Stmt → Stmt
  | .define name e => .define name e.folded
  | .assign name e => .assign name e.folded
  | .expr e => .expr e.folded

/-- Statements with numbers negated. -/
def Stmt.foldedAll : List Stmt → List Stmt
  | [] => []
  | s :: ss => s.folded :: Stmt.foldedAll ss

end

theorem Expr.foldedAll_eq_map (es : List Expr) : Expr.foldedAll es = es.map Expr.folded := by
  induction es with
  | nil => rfl
  | cons e es ih => rw [Expr.foldedAll, ih, List.map_cons]

theorem Stmt.foldedAll_eq_map (ss : List Stmt) : Stmt.foldedAll ss = ss.map Stmt.folded := by
  induction ss with
  | nil => rfl
  | cons s ss ih => rw [Stmt.foldedAll, ih, List.map_cons]

/-- Trees of the same tokens, where those on one side are folded. -/
theorem pairing_folded : Pairing Eq Eq (fun e e' => e.folded = e') (fun a a' => a.folded = a') where
  kind := by rintro t _ rfl; rfl
  text := by rintro t _ rfl; rfl
  rejects := by rintro t _ rfl cause _; rfl
  notNumber := by rintro _ _ _ _ _ u _ rfl cause; rfl
  nil := rfl
  bool _ := rfl
  int _ _ _ _ _ _ := rfl
  str _ := rfl
  receiver := rfl
  var := by rintro t _ rfl _; rfl
  list es fs hes := by
    rw [Expr.folded, Expr.foldedAll_eq_map, forall₂_eq_map_iff.1 hes]
  binary := by rintro op l r _ _ rfl rfl; rfl
  index := by rintro t i _ _ rfl rfl; rfl
  call name es fs hes := by
    rw [Expr.folded, Expr.foldedAll_eq_map, forall₂_eq_map_iff.1 hes]
  block as bs has := by
    rw [Expr.folded, Stmt.foldedAll_eq_map, forall₂_eq_map_iff.1 has]
  cond := by
    rintro t yes _ yes' rfl hyes
    rw [Expr.folded, Stmt.foldedAll_eq_map, forall₂_eq_map_iff.1 hyes]
  condElse := by
    rintro t yes no _ yes' no' rfl hyes hno
    rw [Expr.folded, Stmt.foldedAll_eq_map, Stmt.foldedAll_eq_map, forall₂_eq_map_iff.1 hyes,
      forall₂_eq_map_iff.1 hno]
  loop := by
    rintro t as _ bs rfl has
    rw [Expr.folded, Stmt.foldedAll_eq_map, forall₂_eq_map_iff.1 has]
  define := by rintro name e _ rfl; rfl
  assign := by rintro name e _ rfl; rfl
  expr := by rintro e _ rfl; rfl

namespace Eval

variable (rounds : Nat) (c : Context)

/-- A negated number is the value of the number with a minus in front. -/
theorem expr_applyUnary (op : UnaryOp) (e : Expr) :
    expr rounds c (Parser.applyUnary op e) = expr rounds c (.unary op e) := by
  unfold Parser.applyUnary
  split
  · rename_i n
    cases hneg : n.neg? with
    | none => rfl
    | some m =>
      -- The number is evaluated to itself, and its negation is the exact one.
      change pure (Value.int m) = lift (exact n.neg?)
      rw [hneg]
      rfl
  · rfl

mutual

/-- Folding does not change the value of an expression. -/
theorem expr_folded (e : Expr) : expr rounds c e.folded = expr rounds c e := by
  cases e with
  | nil => rfl
  | bool b => rfl
  | int n => rfl
  | str s => rfl
  | receiver => rfl
  | var name offset => rfl
  | list items => simp only [Expr.folded, expr, exprs_folded items]
  | unary op e => simp only [Expr.folded, expr_applyUnary, expr, expr_folded e]
  | binary op l r =>
    have hl := expr_folded l
    have hr := expr_folded r
    cases op <;> simp only [Expr.folded, expr, hl, hr]
  | index t i => simp only [Expr.folded, expr, expr_folded t, expr_folded i]
  | call name args => simp only [Expr.folded, expr, exprs_folded args]
  | block body => simp only [Expr.folded, expr, stmts_folded body]
  | cond t yes no =>
    cases no with
    | none => simp only [Expr.folded, expr, expr_folded t, stmts_folded yes]
    | some no => simp only [Expr.folded, expr, expr_folded t, stmts_folded yes, stmts_folded no]
  | loop t body => simp only [Expr.folded, expr, expr_folded t, stmts_folded body]

theorem exprs_folded (es : List Expr) : exprs rounds c (Expr.foldedAll es) = exprs rounds c es := by
  cases es with
  | nil => rfl
  | cons e es => simp only [Expr.foldedAll, exprs, expr_folded e, exprs_folded es]

theorem stmt_folded (s : Stmt) : stmt rounds c s.folded = stmt rounds c s := by
  cases s with
  | define name e => simp only [Stmt.folded, stmt, expr_folded e]
  | assign name e => simp only [Stmt.folded, stmt, expr_folded e]
  | expr e => simp only [Stmt.folded, stmt, expr_folded e]

/-- Folding does not change the value of statements. -/
theorem stmts_folded (ss : List Stmt) :
    ∀ last, stmts rounds c last (Stmt.foldedAll ss) = stmts rounds c last ss := by
  cases ss with
  | nil => exact fun _ => rfl
  | cons s ss =>
    intro last
    simp only [Stmt.foldedAll, stmts, stmt_folded s, stmts_folded ss]

end

end Eval

/-! ## Sources -/

open Calc.Parser

/-- A source is read alike, whatever becomes of a negation that is out of range. -/
theorem run_negateOr (overflow : Parser Expr) (src : String) :
    (programBy (negateOr overflow)).run src = parseProgram src ∧
      (onlyExprBy (negateOr overflow)).run src = parseExpr src := by
  have hsource : ∀ s, lex src = .ok s → s.Alongside (Same (· ∈ s.all)) s :=
    fun s _ => TokenStream.alongside_same_iff.2 ⟨fun _ ht => ht, rfl⟩
  have hsign : ∀ s, lex src = .ok s → ∀ op a b, Same (fun e => ∀ x ∈ e.nodes, x.Tidy) a b →
      Lockstep (Same (· ∈ s.all)) (Same fun err => err.cause.expected? ≠ some .integer)
        (Same fun e => ∀ x ∈ e.nodes, x.Tidy) (negate op a) (negateOr overflow op b) := by
    rintro s hlex op a _ ⟨ha, rfl⟩
    rw [negateOr_eq overflow op a ha]
    exact (making_tidy hlex).negate op a a ⟨ha, rfl⟩
  have hprogram : (programBy (negateOr overflow)).run src = ((programBy negate).run src).map id :=
    Lockstep.run_eq_map (fun _ _ herr => herr.2) (fun _ _ hp => (forall₂_same_iff.1 hp).2)
      fun s hlex => ⟨_, hsource s hlex, (making_tidy hlex).pairing.program (hsign s hlex)⟩
  have hexpr : (onlyExprBy (negateOr overflow)).run src = ((onlyExprBy negate).run src).map id :=
    Lockstep.run_eq_map (fun _ _ herr => herr.2) (fun _ _ he => he.2)
      fun s hlex => ⟨_, hsource s hlex, (making_tidy hlex).pairing.onlyExpr (hsign s hlex)⟩
  rw [programBy_negate, Except.map_id] at hprogram
  rw [onlyExprBy_negate, Except.map_id] at hexpr
  exact ⟨hprogram, hexpr⟩

/-- Reading a source is reading it with operators as nodes, and folding. -/
theorem folded_run_keep (src : String) :
    parseProgram src = ((programBy keep).run src).map Stmt.foldedAll ∧
      parseExpr src = ((onlyExprBy keep).run src).map Expr.folded := by
  have hsource : ∀ s : TokenStream, s.Alongside Eq s :=
    fun s => ⟨List.forall₂_eq_eq_eq ▸ rfl, rfl⟩
  have hsign : ∀ op a b, Expr.folded a = b →
      Lockstep Eq Eq (fun e e' => Expr.folded e = e') (keep op a) (negate op b) := by
    rintro op a _ rfl
    exact .pure rfl
  have hprogram : (programBy negate).run src = ((programBy keep).run src).map Stmt.foldedAll :=
    Lockstep.run_eq_map (fun _ _ => id)
      (fun p _ hp => (Stmt.foldedAll_eq_map p).trans (forall₂_eq_map_iff.1 hp))
      fun s _ => ⟨Eq, hsource s, pairing_folded.program hsign⟩
  have hexpr : (onlyExprBy negate).run src = ((onlyExprBy keep).run src).map Expr.folded :=
    Lockstep.run_eq_map (fun _ _ => id) (fun _ _ => id)
      fun s _ => ⟨Eq, hsource s, pairing_folded.onlyExpr hsign⟩
  rw [programBy_negate] at hprogram
  rw [onlyExprBy_negate] at hexpr
  exact ⟨hprogram, hexpr⟩

/-- Numbers and a minus in front of them are read safely and mean what they say. A token of digits
is always read as the number that they write, wherever the parser comes to it, so that no error is
for want of a number. No negation is out of range: whatever became of one that is, the result would
be the same. In the trees, numbers and their negations are at most the greatest one, and no minus
stands directly in front of a number. With a node for every operator, a source is read as a tree
that folds to the parser's and has the same value in every context. -/
theorem numbers_folded (src : String) :
    (∀ s, lex src = .ok s → ∀ u : TokenStream, u.all ⊆ s.all → u.peek.kind = .int →
      ∀ e, ∃ n : Number, n.toInt = Text.ofDigits u.peek.text.toList ∧
        primary e u = .ok (.int n, u.advance)) ∧
    (∀ err, parseProgram src = .error err ∨ parseExpr src = .error err →
      err.cause.expected? ≠ some .integer) ∧
    (∀ overflow, (programBy (negateOr overflow)).run src = parseProgram src ∧
      (onlyExprBy (negateOr overflow)).run src = parseExpr src) ∧
    (∀ p, parseProgram src = .ok p → (∀ x ∈ Stmt.nodesAll p, x.Tidy) ∧
      ∃ q, (programBy keep).run src = .ok q ∧ Stmt.foldedAll q = p ∧
        ∀ rounds c, evaluateProgram rounds c q = evaluateProgram rounds c p) ∧
    ∀ e, parseExpr src = .ok e → (∀ x ∈ e.nodes, x.Tidy) ∧
      ∃ e', (onlyExprBy keep).run src = .ok e' ∧ e'.folded = e ∧
        ∀ rounds c, Eval.expr rounds c e' = Eval.expr rounds c e := by
  have hlexer : ∀ err, lex src = .error err → err.cause.expected? ≠ some .integer :=
    fun _ => lex_error_expected?
  obtain ⟨hprogram, hprogramError⟩ := Abides.run hlexer fun _ h => (making_tidy h).program
  obtain ⟨hexpr, hexprError⟩ := Abides.run hlexer fun _ h => (making_tidy h).onlyExpr
  obtain ⟨hprogramKeep, hexprKeep⟩ := folded_run_keep src
  refine ⟨fun s hlex u hu hkind e => ?_, fun err herr => herr.elim (hprogramError err)
    (hexprError err), fun overflow => run_negateOr overflow src, fun p hp => ?_, fun e he => ?_⟩
  · obtain ⟨n, hdigits, hn⟩ := lex_number hlex (hu u.peek_mem_all) hkind
    exact ⟨n, hdigits, primary_number e hkind hn⟩
  · refine ⟨Stmt.forall_mem_nodesAll.2 (hprogram p hp), ?_⟩
    obtain ⟨q, hq, rfl⟩ := exists_of_map_eq_ok (hprogramKeep.symm.trans hp)
    exact ⟨q, hq, rfl, fun rounds c => (Eval.stmts_folded rounds c q .nil).symm⟩
  · refine ⟨hexpr e he, ?_⟩
    obtain ⟨e', he', rfl⟩ := exists_of_map_eq_ok (hexprKeep.symm.trans he)
    exact ⟨e', he', rfl, fun rounds c => (Eval.expr_folded rounds c e').symm⟩

/-- A minus three times in front of the greatest number, with brackets between, and once in front of
a variable; and a source that stops behind a minus. -/
theorem numbers_folded_chain :
    let src := "x = -(-(-9223372036854775807)); -x"
    let greatest : Number := ⟨9223372036854775807, by decide, by decide⟩
    let p : Program := [.assign "x" (.int ⟨-9223372036854775807, by decide, by decide⟩),
      .expr (.unary .neg (.var "x" 33))]
    let q : Program := [.assign "x" (.unary .neg (.unary .neg (.unary .neg (.int greatest)))),
      .expr (.unary .neg (.var "x" 33))]
    let s : TokenStream := ⟨[⟨.minus, "-", ⟨0, 1, 1⟩⟩, ⟨.int, "7", ⟨1, 1, 2⟩⟩], ⟨2, 1, 3⟩⟩
    let err : SourceError := ⟨.endOfInput .expression, ⟨1, 1, 2⟩⟩
    (lex "-7" = .ok s ∧ s.advance.all ⊆ s.all ∧ s.advance.peek.kind = .int ∧
      ∃ n : Number, n.toInt = 7 ∧ primary tooDeep s.advance = .ok (.int n, s.advance.advance)) ∧
    (parseProgram "-" = .error err ∧ err.cause.expected? ≠ some .integer) ∧
    (programBy (negateOr tooDeep)).run src = .ok p ∧
    (parseProgram src = .ok p ∧ (∀ x ∈ Stmt.nodesAll p, x.Tidy) ∧
      (programBy keep).run src = .ok q ∧
      ∀ rounds c, evaluateProgram rounds c q = evaluateProgram rounds c p) ∧
    ∃ e, parseExpr "-(-5)" = .ok (.int e) ∧ e.toInt = 5 ∧ (Expr.int e).Tidy := by
  intro src greatest p q s err
  obtain ⟨hp, hq, he⟩ : parseProgram src = .ok p ∧ (programBy keep).run src = .ok q ∧
      parseExpr "-(-5)" = .ok (.int ⟨5, by decide, by decide⟩) := ⟨by cbv, by cbv, by cbv⟩
  have hlex : lex "-7" = .ok s := by decide +kernel
  have herr : parseProgram "-" = .error err := parseError?_eq_some.1 (by decide +kernel)
  have hsub : s.advance.all ⊆ s.all := List.subset_cons_self _ _
  obtain ⟨n, hn, hprimary⟩ := (numbers_folded "-7").1 s hlex s.advance hsub rfl tooDeep
  obtain ⟨-, -, hoverflow, hprogram, -⟩ := numbers_folded src
  obtain ⟨htidy, q', hq', -, hvalue⟩ := hprogram p hp
  obtain rfl : q = q' := Except.ok.inj (hq.symm.trans hq')
  exact ⟨⟨hlex, hsub, rfl, n, hn.trans (by decide), hprimary⟩,
    ⟨herr, (numbers_folded "-").2.1 err (.inl herr)⟩, (hoverflow tooDeep).1.trans hp,
    ⟨hp, htidy, hq, hvalue⟩, _, he, rfl,
    ((numbers_folded "-(-5)").2.2.2.2 _ he).1 _ (List.mem_singleton.2 rfl)⟩

end CalcShell.Calc
