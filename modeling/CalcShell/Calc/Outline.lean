import CalcShell.Calc.Tree

/-!
# Outlines of trees

A tree on one line, each node in parentheses behind its name. Strings are written in double quotes
with the escapes of JSON.
-/

namespace CalcShell.Calc

/-- A character of a string in an outline: control characters are escaped, all else stands as it
is. -/
def outlineChar (c : Char) : List Char :=
  if c = '"' then ['\\', '"']
  else if c = '\\' then ['\\', '\\']
  else if c = '\x08' then ['\\', 'b']
  else if c = '\x0c' then ['\\', 'f']
  else if c = '\n' then ['\\', 'n']
  else if c = '\r' then ['\\', 'r']
  else if c = '\t' then ['\\', 't']
  else if c < ' ' then
    ['\\', 'u', '0', '0', Nat.digitChar (c.toNat / 16), Nat.digitChar (c.toNat % 16)]
  else [c]

/-- A string in an outline. -/
def outlineString (s : String) : String :=
  String.ofList ('"' :: (s.toList.flatMap outlineChar ++ ['"']))

/-- A node with its parts. -/
def outlineNode (head : String) (parts : List String) : String :=
  "(" ++ String.intercalate " " (head :: parts) ++ ")"

mutual

/-- The outline of an expression. -/
def Expr.outline : Expr → String
  | .nil => "nil"
  | .bool b => if b then "true" else "false"
  | .int n => n.render
  | .str s => outlineString s
  | .receiver => "self"
  | .var name offset => s!"{name}@{offset}"
  | .list items => outlineNode "list" (Expr.outlines items)
  | .unary .neg e => outlineNode "neg" [e.outline]
  | .unary .not e => outlineNode "not" [e.outline]
  | .binary op l r => outlineNode op.symbol [l.outline, r.outline]
  | .index t i => outlineNode "index" [t.outline, i.outline]
  | .call name args => outlineNode "call" (name :: Expr.outlines args)
  | .block body => outlineNode "do" (Stmt.outlines body)
  | .cond t yes none => outlineNode "if" [t.outline, outlineNode "body" (Stmt.outlines yes)]
  | .cond t yes (some no) =>
    outlineNode "if"
      [t.outline, outlineNode "body" (Stmt.outlines yes), outlineNode "body" (Stmt.outlines no)]
  | .loop t body => outlineNode "while" [t.outline, outlineNode "body" (Stmt.outlines body)]

/-- The outlines of expressions, in order. -/
def Expr.outlines : List Expr → List String
  | [] => []
  | e :: es => e.outline :: Expr.outlines es

/-- The outline of a statement. -/
def Stmt.outline : Stmt → String
  | .define name e => outlineNode "let" [name, e.outline]
  | .assign name e => outlineNode "set" [name, e.outline]
  | .expr e => e.outline

/-- The outlines of statements, in order. -/
def Stmt.outlines : List Stmt → List String
  | [] => []
  | s :: ss => s.outline :: Stmt.outlines ss

end

end CalcShell.Calc
