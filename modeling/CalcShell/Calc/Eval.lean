import CalcShell.Calc.Operation
import CalcShell.Calc.Scope
import CalcShell.Course

/-!
# Evaluation

Programs are evaluated in a context, which is a receiver and a scope, by recursion on their trees.
Only loops may go on for ever, so they alone count rounds: a loop gives up after the given number of
them.
-/

namespace CalcShell.Calc

/-- Where a program is evaluated (`Interpreter`): what `self` means, and the scope of its names. -/
structure Context where
  receiver : Value
  scope : ScopeId
deriving DecidableEq

/-- An evaluation over scopes. -/
abbrev Eval (α : Type) := Evaluation Context Forest α

namespace Eval

/-- The result of an operation, or the fault of its failure. -/
def lift {α : Type} : Except Failure α → Eval α
  | .ok a => pure a
  | .error e => Evaluation.fail e.fault

/-- The value of a name. -/
def valueOf (c : Context) (name : String) : Eval Value := do
  match ← Evaluation.read (·.lookup c.scope name) with
  | some v => pure v
  | none => lift (.error (.unbound name))

/-- Calls a function. -/
def call (name : String) (args : List Value) : Eval Value := do
  match ← lift (applyFunction name args) with
  | .give v => pure v
  | .nest v => Evaluation.nest v
  | .exit status => Evaluation.interrupt (.exit status)

/-- Evaluates `body` as long as `test` holds, in at most the given number of rounds. -/
def repeatWhile (test body : Eval Value) : Nat → Eval Value
  | 0 => Evaluation.spent
  | rounds + 1 => do
    if (← test).isTruthy then
      let _ ← body
      repeatWhile test body rounds
    else pure .nil

mutual

/-- The value of an expression (`eval_expr`). Each loop may take the given number of rounds. -/
def expr (rounds : Nat) (c : Context) : Expr → Eval Value
  | .nil => pure .nil
  | .bool b => pure (.bool b)
  | .int n => pure (.int n)
  | .str s => pure (.str s)
  | .receiver => pure c.receiver
  | .var name _ => valueOf c name
  | .list items => do return .list (← exprs rounds c items)
  | .unary op e => do lift (op.apply (← expr rounds c e))
  | .binary .and l r => do
    let v ← expr rounds c l
    if v.isTruthy then expr rounds c r else pure v
  | .binary .or l r => do
    let v ← expr rounds c l
    if v.isTruthy then pure v else expr rounds c r
  | .binary op l r => do
    let v ← expr rounds c l
    let w ← expr rounds c r
    lift (op.apply v w)
  | .index t i => do
    let v ← expr rounds c t
    let w ← expr rounds c i
    lift (indexValue v w)
  | .call name args => do call name (← exprs rounds c args)
  | .block body => stmts rounds c .nil body
  | .cond t yes no => do
    if (← expr rounds c t).isTruthy then stmts rounds c .nil yes
    else match no with
      | none => pure .nil
      | some body => stmts rounds c .nil body
  | .loop t body => repeatWhile (expr rounds c t) (stmts rounds c .nil body) rounds

/-- The values of expressions, in order. -/
def exprs (rounds : Nat) (c : Context) : List Expr → Eval (List Value)
  | [] => pure []
  | e :: es => do
    let v ← expr rounds c e
    let vs ← exprs rounds c es
    return v :: vs

/-- The value of a statement (`eval_stmt`). -/
def stmt (rounds : Nat) (c : Context) : Stmt → Eval Value
  | .define name e => do
    let v ← expr rounds c e
    Evaluation.change (·.define c.scope name v)
    return v
  | .assign name e => do
    let v ← expr rounds c e
    Evaluation.change (·.assign c.scope name v)
    return v
  | .expr e => expr rounds c e

/-- The value of the last of several statements, or `last` if there are none (`eval_stmts`). -/
def stmts (rounds : Nat) (c : Context) (last : Value) : List Stmt → Eval Value
  | [] => pure last
  | s :: ss => do stmts rounds c (← stmt rounds c s) ss

end

end Eval

/-- The value of a program (`eval_program`). -/
def evaluateProgram (rounds : Nat) (c : Context) (p : Program) : Eval Value :=
  Eval.stmts rounds c .nil p

end CalcShell.Calc
