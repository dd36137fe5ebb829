import CalcShell.Calc.Eval

/-!
# Trees up to offsets

A variable keeps the offset at which it is written. `erase` takes the offsets out of a tree, so that
two trees that differ in nothing else are those with equal erasures. Evaluation never looks at them.
-/

namespace CalcShell.Calc

mutual

/-- The expression with zero for every offset. -/
def Expr.erase : Expr → Expr
  | .nil => .nil
  | .bool b => .bool b
  | .int n => .int n
  | .str s => .str s
  | .receiver => .receiver
  | .var name _ => .var name 0
  | .list items => .list (Expr.eraseAll items)
  | .unary op e => .unary op e.erase
  | .binary op l r => .binary op l.erase r.erase
  | .index t i => .index t.erase i.erase
  | .call name args => .call name (Expr.eraseAll args)
  | .block body => .block (Stmt.eraseAll body)
  | .cond t yes none => .cond t.erase (Stmt.eraseAll yes) none
  | .cond t yes (some no) => .cond t.erase (Stmt.eraseAll yes) (some (Stmt.eraseAll no))
  | .loop t body => .loop t.erase (Stmt.eraseAll body)

/-- Expressions with zero for every offset. -/
def Expr.eraseAll : List Expr → List Expr
  | [] => []
  | e :: es => e.erase :: Expr.eraseAll es

/-- The statement with zero for every offset. -/
def Stmt.erase : Stmt → Stmt
  | .define name e => .define name e.erase
  | .assign name e => .assign name e.erase
  | .expr e => .expr e.erase

/-- Statements with zero for every offset. -/
def Stmt.eraseAll : List Stmt → List Stmt
  | [] => []
  | s :: ss => s.erase :: Stmt.eraseAll ss

end

theorem Expr.eraseAll_eq_map (es : List Expr) : Expr.eraseAll es = es.map Expr.erase := by
  induction es with
  | nil => rfl
  | cons e es ih => rw [Expr.eraseAll, ih, List.map_cons]

theorem Stmt.eraseAll_eq_map (ss : List Stmt) : Stmt.eraseAll ss = ss.map Stmt.erase := by
  induction ss with
  | nil => rfl
  | cons s ss ih => rw [Stmt.eraseAll, ih, List.map_cons]

theorem Stmt.eraseAll_append (ss ts : List Stmt) :
    Stmt.eraseAll (ss ++ ts) = Stmt.eraseAll ss ++ Stmt.eraseAll ts := by
  simp only [Stmt.eraseAll_eq_map, List.map_append]

theorem Stmt.eraseAll_reverse (ss : List Stmt) :
    Stmt.eraseAll ss.reverse = (Stmt.eraseAll ss).reverse := by
  simp only [Stmt.eraseAll_eq_map, List.map_reverse]

namespace Eval

variable (rounds : Nat) (c : Context)

mutual

/-- The value of an expression does not depend on offsets. -/
theorem expr_erase (e : Expr) : expr rounds c e.erase = expr rounds c e := by
  cases e with
  | nil => rfl
  | bool b => rfl
  | int n => rfl
  | str s => rfl
  | receiver => rfl
  | var name offset => rfl
  | list items => simp only [Expr.erase, expr, exprs_erase items]
  | unary op e => simp only [Expr.erase, expr, expr_erase e]
  | binary op l r =>
    have hl := expr_erase l
    have hr := expr_erase r
    cases op <;> simp only [Expr.erase, expr, hl, hr]
  | index t i => simp only [Expr.erase, expr, expr_erase t, expr_erase i]
  | call name args => simp only [Expr.erase, expr, exprs_erase args]
  | block body => simp only [Expr.erase, expr, stmts_erase body]
  | cond t yes no =>
    cases no with
    | none => simp only [Expr.erase, expr, expr_erase t, stmts_erase yes]
    | some no => simp only [Expr.erase, expr, expr_erase t, stmts_erase yes, stmts_erase no]
  | loop t body => simp only [Expr.erase, expr, expr_erase t, stmts_erase body]

theorem exprs_erase (es : List Expr) : exprs rounds c (Expr.eraseAll es) = exprs rounds c es := by
  cases es with
  | nil => rfl
  | cons e es => simp only [Expr.eraseAll, exprs, expr_erase e, exprs_erase es]

theorem stmt_erase (s : Stmt) : stmt rounds c s.erase = stmt rounds c s := by
  cases s with
  | define name e => simp only [Stmt.erase, stmt, expr_erase e]
  | assign name e => simp only [Stmt.erase, stmt, expr_erase e]
  | expr e => simp only [Stmt.erase, stmt, expr_erase e]

/-- The value of statements does not depend on offsets. -/
theorem stmts_erase (ss : List Stmt) :
    ∀ last, stmts rounds c last (Stmt.eraseAll ss) = stmts rounds c last ss := by
  cases ss with
  | nil => exact fun _ => rfl
  | cons s ss =>
    intro last
    simp only [Stmt.eraseAll, stmts, stmt_erase s, stmts_erase ss]

end

end Eval

end CalcShell.Calc
