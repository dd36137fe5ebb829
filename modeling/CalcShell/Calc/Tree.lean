import CalcShell.Number

/-!
# Trees of programs

What a source says once it is read: statements and expressions. A variable keeps the byte offset at
which it is written.
-/

namespace CalcShell.Calc

/-- The operators with one operand. -/
inductive UnaryOp where
  | neg
  | not
deriving DecidableEq, Repr

/-- The operators with two operands (`BinOp`). -/
inductive BinaryOp where
  | add
  | sub
  | mul
  | div
  | rem
  | eq
  | ne
  | lt
  | le
  | gt
  | ge
  | and
  | or
deriving DecidableEq, Repr

/-- How an operator is written (`symbol`). -/
def BinaryOp.symbol : BinaryOp → String
  | .add => "+"
  | .sub => "-"
  | .mul => "*"
  | .div => "/"
  | .rem => "%"
  | .eq => "=="
  | .ne => "!="
  | .lt => "<"
  | .le => "<="
  | .gt => ">"
  | .ge => ">="
  | .and => "&&"
  | .or => "||"

mutual

/-- Expressions. -/
inductive Expr where
  | nil
  | bool (b : Bool)
  | int (n : Number)
  | str (s : String)
  /-- The receiver of the context. -/
  | receiver
  /-- A variable and where it is written. -/
  | var (name : String) (offset : Nat)
  | list (items : List Expr)
  | unary (op : UnaryOp) (operand : Expr)
  | binary (op : BinaryOp) (left right : Expr)
  | index (target position : Expr)
  | call (name : String) (args : List Expr)
  /-- Statements as an expression. -/
  | block (body : List Stmt)
  /-- A choice; without a second body it may give nothing. -/
  | cond (test : Expr) (yes : List Stmt) (no : Option (List Stmt))
  | loop (test : Expr) (body : List Stmt)

/-- Statements. -/
inductive Stmt where
  /-- Makes a binding in the innermost scope. -/
  | define (name : String) (value : Expr)
  /-- Changes the nearest binding, or makes one. -/
  | assign (name : String) (value : Expr)
  | expr (e : Expr)

end

/-- A program: statements in order. -/
abbrev Program := List Stmt

end CalcShell.Calc
