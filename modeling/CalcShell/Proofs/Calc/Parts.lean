import CalcShell.Proofs.Calc.Evaluations

/-!
# Programs part by part

Evaluating a part of a program begins by evaluating another one (`First`), and where that has given
a result it goes on with a next one (`Then`), until nothing is left but to make a value of the
results. The parts (`Node`) are those of the tree and, for a loop, what is left of it in each round.
What is said here of the parts is read off their evaluations (`First.eval_eq`, `Then.eval_eq`).
-/

namespace CalcShell.Calc

/-- A part of a program, or what is left of one to be evaluated. -/
inductive Node where
  | expr (e : Expr)
  | exprs (es : List Expr)
  | stmt (s : Stmt)
  | stmts (last : Value) (ss : List Stmt)
  /-- A loop that may take so many rounds. -/
  | loop (test : Expr) (body : List Stmt) (left : Nat)
  /-- A loop behind its test, which may take so many rounds after this one. -/
  | round (test : Expr) (body : List Stmt) (left : Nat)

namespace Node

/-- What evaluating a part gives. -/
def Result : Node → Type
  | .exprs _ => List Value
  | .expr _ | .stmt _ | .stmts _ _ | .loop _ _ _ | .round _ _ _ => Value

/-- Evaluates a part. -/
def eval (rounds : Nat) (c : Context) : (n : Node) → Eval n.Result
  | .expr e => Eval.expr rounds c e
  | .exprs es => Eval.exprs rounds c es
  | .stmt s => Eval.stmt rounds c s
  | .stmts last ss => Eval.stmts rounds c last ss
  | .loop t body left =>
    Eval.repeatWhile (Eval.expr rounds c t) (Eval.stmts rounds c .nil body) left
  | .round t body left =>
    Eval.stmts rounds c .nil body >>= fun _ =>
      Eval.repeatWhile (Eval.expr rounds c t) (Eval.stmts rounds c .nil body) left

/-- The names that a part binds or changes. -/
def bound : Node → List String
  | .expr e => e.bound
  | .exprs es => Expr.boundAll es
  | .stmt s => s.bound
  | .stmts _ ss => Stmt.boundAll ss
  | .loop t body _ | .round t body _ => t.bound ++ Stmt.boundAll body

/-- What holds evaluation by evaluation holds of all parts. -/
theorem closed {N : String → Prop} {P : (α : Type) → Eval α → Prop} (h : Eval.ClosedOn N P)
    (hspent : P Value Evaluation.spent) (rounds : Nat) (c : Context) (n : Node)
    (hbound : ∀ name ∈ n.bound, N name) : P n.Result (n.eval rounds c) := by
  cases n with
  | expr e => exact h.expr rounds c e (fun _ => hspent) hbound
  | exprs es => exact h.exprs rounds c es (fun _ => hspent) hbound
  | stmt s => exact h.stmt rounds c s (fun _ => hspent) hbound
  | stmts last ss => exact h.stmts rounds c last ss (fun _ => hspent) hbound
  | loop t body left =>
    obtain ⟨hboundt, hboundbody⟩ := List.forall_mem_append.1 hbound
    exact h.repeatWhile hspent (h.expr rounds c t (fun _ => hspent) hboundt)
      (h.stmts rounds c .nil body (fun _ => hspent) hboundbody) left
  | round t body left =>
    obtain ⟨hboundt, hboundbody⟩ := List.forall_mem_append.1 hbound
    have hbody := h.stmts rounds c .nil body (fun _ => hspent) hboundbody
    exact h.bind hbody fun _ =>
      h.repeatWhile hspent (h.expr rounds c t (fun _ => hspent) hboundt) hbody left

end Node

/-- Evaluating the first part begins by evaluating the second one. -/
inductive First (rounds : Nat) : Node → Node → Prop where
  | list (items) : First rounds (.expr (.list items)) (.exprs items)
  | unary (op e) : First rounds (.expr (.unary op e)) (.expr e)
  | binary (op l r) : First rounds (.expr (.binary op l r)) (.expr l)
  | index (t i) : First rounds (.expr (.index t i)) (.expr t)
  | call (name args) : First rounds (.expr (.call name args)) (.exprs args)
  | block (body) : First rounds (.expr (.block body)) (.stmts .nil body)
  | cond (t yes no) : First rounds (.expr (.cond t yes no)) (.expr t)
  | loop (t body) : First rounds (.expr (.loop t body)) (.loop t body rounds)
  | item (e es) : First rounds (.exprs (e :: es)) (.expr e)
  | define (name e) : First rounds (.stmt (.define name e)) (.expr e)
  | assign (name e) : First rounds (.stmt (.assign name e)) (.expr e)
  | expr (e) : First rounds (.stmt (.expr e)) (.expr e)
  | stmt (last s ss) : First rounds (.stmts last (s :: ss)) (.stmt s)
  | test (t body left) : First rounds (.loop t body (left + 1)) (.expr t)
  | body (t body left) : First rounds (.round t body left) (.stmts .nil body)

/-- Evaluating the first part goes on by evaluating the last one, where evaluating the second one,
by which it begins, has given a result. -/
inductive Then : Node → (n : Node) → n.Result → Node → Prop where
  | and {l r} {v : Value} (h : v.isTruthy = true) :
    Then (.expr (.binary .and l r)) (.expr l) v (.expr r)
  | or {l r} {v : Value} (h : v.isTruthy = false) :
    Then (.expr (.binary .or l r)) (.expr l) v (.expr r)
  | operand {op l r} {v : Value} (hand : op ≠ .and) (hor : op ≠ .or) :
    Then (.expr (.binary op l r)) (.expr l) v (.expr r)
  | index {t i} {v : Value} : Then (.expr (.index t i)) (.expr t) v (.expr i)
  | yes {t yes no} {v : Value} (h : v.isTruthy = true) :
    Then (.expr (.cond t yes no)) (.expr t) v (.stmts .nil yes)
  | no {t yes no} {v : Value} (h : v.isTruthy = false) :
    Then (.expr (.cond t yes (some no))) (.expr t) v (.stmts .nil no)
  | items {e es} {v : Value} : Then (.exprs (e :: es)) (.expr e) v (.exprs es)
  | stmts {last s ss} {v : Value} : Then (.stmts last (s :: ss)) (.stmt s) v (.stmts v ss)
  | round {t body left} {v : Value} (h : v.isTruthy = true) :
    Then (.loop t body (left + 1)) (.expr t) v (.round t body left)
  | again {t body left} {v : Value} :
    Then (.round t body left) (.stmts .nil body) v (.loop t body left)

variable {rounds : Nat} {c : Context} {n n₁ n₂ n' : Node} {a : n₁.Result}

theorem First.bound_subset (h : First rounds n n₁) : n₁.bound ⊆ n.bound := by
  cases h with
  | cond t yes no => cases no <;> simp [Node.bound, Expr.bound]
  | _ => simp [Node.bound, Expr.bound, Expr.boundAll, Stmt.bound, Stmt.boundAll]

theorem Then.bound_subset (h : Then n n₁ a n₂) : n₁.bound ⊆ n.bound ∧ n₂.bound ⊆ n.bound := by
  cases h with
  | @yes t yes no => cases no <;> simp [Node.bound, Expr.bound]
  | _ => simp [Node.bound, Expr.bound, Expr.boundAll, Stmt.boundAll]

/-- Giving the result is nothing more to do. -/
theorem Eval.bind_pure {α : Type} (m : Eval α) : m >>= pure = m := by
  funext f
  change (m f).bind _ = m f
  induction m f with
  | done r g => cases r <;> rfl
  | interrupt i g => rfl
  | spent g => rfl
  | nest v g k ih =>
    rw [Course.bind]
    exact congrArg (Course.nest v g) (funext fun u => funext fun t => ih u t)
  | attempt v g k ih =>
    rw [Course.bind]
    exact congrArg (Course.attempt v g) (funext fun r => funext fun t => ih r t)

/-- Evaluating a part is evaluating the one by which it begins, and something behind it. -/
theorem First.eval_eq (h : First rounds n n₁) (c : Context) :
    ∃ k, n.eval rounds c = n₁.eval rounds c >>= k := by
  cases h with
  | binary op l r => cases op <;> exact ⟨_, rfl⟩
  | block body => exact ⟨pure, (Eval.bind_pure _).symm⟩
  | loop t body => exact ⟨pure, (Eval.bind_pure _).symm⟩
  | expr e => exact ⟨pure, (Eval.bind_pure _).symm⟩
  | cond t yes no => cases no <;> exact ⟨_, rfl⟩
  | _ => exact ⟨_, rfl⟩

/-- Behind the first part comes the evaluation of the next one, and something behind that. -/
theorem Then.eval_eq (h : Then n n₁ a n₂) (rounds : Nat) (c : Context) :
    ∃ k l, n.eval rounds c = n₁.eval rounds c >>= k ∧ k a = n₂.eval rounds c >>= l := by
  cases h with
  | and hv => exact ⟨_, pure, rfl, (if_pos hv).trans (Eval.bind_pure _).symm⟩
  | or hv => exact ⟨_, pure, rfl, (if_neg (by simp [hv])).trans (Eval.bind_pure _).symm⟩
  | @operand op l r v hand hor => cases op <;> first | exact ⟨_, _, rfl, rfl⟩ | contradiction
  | @yes t yes no v hv =>
    cases no <;> exact ⟨_, pure, rfl, (if_pos hv).trans (Eval.bind_pure _).symm⟩
  | no hv => exact ⟨_, pure, rfl, (if_neg (by simp [hv])).trans (Eval.bind_pure _).symm⟩
  | stmts => exact ⟨_, pure, rfl, (Eval.bind_pure _).symm⟩
  | round hv => exact ⟨_, pure, rfl, (if_pos hv).trans (Eval.bind_pure _).symm⟩
  | again => exact ⟨_, pure, rfl, (Eval.bind_pure _).symm⟩
  | _ => exact ⟨_, _, rfl, rfl⟩

end CalcShell.Calc
