import CalcShell.Calc.Parser

/-!
# Descent with a cursor

The grammar of the parser, read as a procedure over all tokens of a source: a cursor tells where it
stands, the rules call one another without end in sight, and the loops count nothing. How deep the
calls for inner expressions nest is counted on the way, and the cursor keeps the greatest count.
Nothing here says that such a descent ends.
-/

namespace CalcShell.Calc

/-- Where a descent stands: the token in front, and how many expressions are being read. -/
structure Cursor where
  index : Nat
  depth : Nat
  /-- The greatest depth so far. -/
  deepest : Nat
deriving DecidableEq, Repr

/-- The cursor in front of the first token. -/
def Cursor.start : Cursor := ⟨0, 0, 0⟩

/-- The cursor behind the token in front. -/
def Cursor.next (c : Cursor) : Cursor := { c with index := c.index + 1 }

/-- The cursor at the start of an expression inside the one that is being read. -/
def Cursor.entered (c : Cursor) : Cursor :=
  { c with depth := c.depth + 1, deepest := max c.deepest (c.depth + 1) }

/-- The cursor behind an expression inside the one that is being read. -/
def Cursor.left (c : Cursor) : Cursor := { c with depth := c.depth - 1 }

/-- Reads from a cursor on, to a result or an error, and leaves the cursor somewhere. A descent that
does not end has no value. -/
abbrev Descent (α : Type) : Type := ExceptT SourceError (StateT Cursor Option) α

namespace Descent

section

variable (ts : TokenStream) {α : Type}

/-- The token at the cursor, or the end. -/
def front (c : Cursor) : Token := ts.all.getD (min c.index ts.size) ts.last

/-- The token at the cursor, which stays (`peek`). -/
def look : Descent Token := fun c => some (.ok (front ts c), c)

/-- The kind of the token behind the one at the cursor, if there is one. -/
def lookSecond? : Descent (Option TokenKind) := fun c =>
  some (.ok (ts.all[c.index + 1]?.map Token.kind), c)

/-- Takes the token at the cursor (`pop_any`); the end stays. -/
def pop : Descent Token := fun c =>
  some (.ok (front ts c), if c.index < ts.size then c.next else c)

/-- Rejects the source for a cause at the token at the cursor. -/
def reject (cause : Token → Cause) : Descent α := fun c =>
  some (.error ⟨cause (front ts c), (front ts c).position⟩, c)

/-- Rejects the token at the cursor, where something else was expected. -/
def unexpected (expected : Expected) : Descent α :=
  reject ts fun t => if t.kind = .eof then .endOfInput expected else .unexpected t.text expected

/-- Takes the token at the cursor, which must be of the kind (`pop`). -/
def expect (kind : TokenKind) : Descent Token := do
  if (← look ts).kind = kind then pop ts else unexpected ts (.token kind)

/-- Takes the token at the cursor if it is of the kind, and says so (`accept`). -/
def accept (kind : TokenKind) : Descent Bool := do
  if (← look ts).kind = kind then
    let _ ← pop ts
    pure true
  else pure false

end

end Descent

open Descent

/-- Takes tokens as long as they are of the kinds. -/
def TokenStream.skip (ts : TokenStream) (kinds : List TokenKind) : Descent Unit := do
  if kinds.contains (← look ts).kind then
    let _ ← pop ts
    ts |>.skip kinds
  else pure ()
partial_fixpoint

/-- Takes the line ends at the cursor (`skip_newlines`). -/
def TokenStream.skipNewlines (ts : TokenStream) : Descent Unit := ts.skip [.newline]

/-- The levels of binary operators, from the loosest to the tightest (`INFIX_LEVELS`). -/
def levels : List Parser.Level :=
  [Parser.orLevel, Parser.andLevel, Parser.comparisonLevel, Parser.additiveLevel,
    Parser.multiplicativeLevel]

mutual

/-- Statements up to one of the closing kinds, or to the end of the source if there are none
(`parse_stmts`); `body` are those read so far, the last first. -/
def TokenStream.statements (ts : TokenStream) (closers : List TokenKind) (body : List Stmt) :
    Descent (List Stmt) := do
  ts |>.skip [.newline, .semi]
  let kind := (← look ts).kind
  if closers.contains kind then return body.reverse
  if kind = .eof then
    if closers.isEmpty then return body.reverse else unexpected ts .blockEnd
  else
    let stmt ← ts |>.statement
    let kind := (← look ts).kind
    if [.newline, .semi, .eof].contains kind || closers.contains kind then
      ts |>.statements closers (stmt :: body)
    else unexpected ts .separator
partial_fixpoint

/-- A statement (`parse_stmt`). -/
def TokenStream.statement (ts : TokenStream) : Descent Stmt := do
  if ← accept ts .kwLet then
    let name ← expect ts .ident
    let _ ← expect ts .equal
    ts |>.skipNewlines
    return .define name.text (← ts |>.expr)
  let t ← look ts
  if t.kind = .ident && (← lookSecond? ts) = some .equal then
    let _ ← pop ts
    let _ ← pop ts
    ts |>.skipNewlines
    return .assign t.text (← ts |>.expr)
  return .expr (← ts |>.expr)
partial_fixpoint

/-- An expression, one deeper (`parse_expr`). -/
def TokenStream.expr (ts : TokenStream) : Descent Expr := fun c =>
  if maxNesting ≤ c.depth then reject ts (fun _ => .tooDeep) c
  else do
    let (r, c) ← ts |>.level 0 c.entered
    some (r, c.left)
partial_fixpoint

/-- An expression of the operators from the level `n` on (`parse_level`). -/
def TokenStream.level (ts : TokenStream) (n : Nat) : Descent Expr :=
  match levels[n]? with
  | none => ts |>.unary
  | some spec => do ts |>.operators n spec (← ts |>.level (n + 1))
partial_fixpoint

/-- Goes on behind the expression `l` with the operators of the level `n`. -/
def TokenStream.operators (ts : TokenStream) (n : Nat) (spec : Parser.Level) (l : Expr) :
    Descent Expr := do
  match spec.operator? (← look ts).kind with
  | none => pure l
  | some op =>
    let _ ← pop ts
    ts |>.skipNewlines
    let r ← ts |>.level (n + 1)
    if spec.chains then ts |>.operators n spec (.binary op l r)
    else if (spec.operator? (← look ts).kind).isSome then unexpected ts .comparisonEnd
    else pure (.binary op l r)
partial_fixpoint

/-- An operand (`parse_unary`): operators before an expression without binary operators. -/
def TokenStream.unary (ts : TokenStream) : Descent Expr := do
  match Parser.unaryOp? (← look ts).kind with
  | none => ts |>.indexed
  | some op =>
    let _ ← pop ts
    return Parser.applyUnary op (← ts |>.operand)
partial_fixpoint

/-- What stands behind an operator before an operand, one deeper. -/
def TokenStream.operand (ts : TokenStream) : Descent Expr := fun c =>
  if maxNesting ≤ c.depth then reject ts (fun _ => .tooDeep) c
  else do
    let (r, c) ← ts |>.unary c.entered
    some (r, c.left)
partial_fixpoint

/-- An expression without operators and the indexes behind it (`parse_postfix`). -/
def TokenStream.indexed (ts : TokenStream) : Descent Expr := do
  ts |>.indexes (← ts |>.primary)
partial_fixpoint

/-- Goes on behind the expression `e` with indexes. -/
def TokenStream.indexes (ts : TokenStream) (e : Expr) : Descent Expr := do
  if ← accept ts .lbrack then ts |>.indexes (.index e (← ts |>.bracketed .rbrack)) else pure e
partial_fixpoint

/-- An expression in brackets, behind the opening one. -/
def TokenStream.bracketed (ts : TokenStream) (close : TokenKind) : Descent Expr := do
  ts |>.skipNewlines
  let e ← ts |>.expr
  ts |>.skipNewlines
  let _ ← expect ts close
  return e
partial_fixpoint

/-- The statements of a block and the `end` that closes it. -/
def TokenStream.block (ts : TokenStream) : Descent (List Stmt) := do
  let body ← ts |>.statements [.kwEnd] []
  let _ ← expect ts .kwEnd
  return body
partial_fixpoint

/-- A choice, behind its `if`. -/
def TokenStream.choice (ts : TokenStream) : Descent Expr := do
  let test ← ts |>.expr
  ts |>.skipNewlines
  let _ ← expect ts .kwThen
  let yes ← ts |>.statements [.kwElse, .kwEnd] []
  if ← accept ts .kwElse then return .cond test yes (some (← ts |>.block))
  let _ ← expect ts .kwEnd
  return .cond test yes none
partial_fixpoint

/-- A loop, behind its `while`. -/
def TokenStream.loop (ts : TokenStream) : Descent Expr := do
  let test ← ts |>.expr
  ts |>.skipNewlines
  let _ ← expect ts .kwDo
  return .loop test (← ts |>.block)
partial_fixpoint

/-- A variable or call, behind its name. -/
def TokenStream.named (ts : TokenStream) (name : Token) : Descent Expr := do
  if ← accept ts .lparen then return .call name.text (← ts |>.items .rparen [])
  return .var name.text name.position.offset
partial_fixpoint

/-- An expression without operators (`parse_primary`). -/
def TokenStream.primary (ts : TokenStream) : Descent Expr := do
  let t ← look ts
  match t.kind with
  | .int =>
    let _ ← pop ts
    match Number.ofDigits? t.text.toList with
    | some n => return .int n
    | none => unexpected ts .integer
  | .str => let _ ← pop ts; return .str t.text
  | .kwTrue => let _ ← pop ts; return .bool true
  | .kwFalse => let _ ← pop ts; return .bool false
  | .kwNil => let _ ← pop ts; return .nil
  | .kwSelf => let _ ← pop ts; return .receiver
  | .ident => let _ ← pop ts; ts |>.named t
  | .lparen => let _ ← pop ts; ts |>.bracketed .rparen
  | .lbrack => let _ ← pop ts; return .list (← ts |>.items .rbrack [])
  | .kwDo => let _ ← pop ts; return .block (← ts |>.block)
  | .kwIf => let _ ← pop ts; ts |>.choice
  | .kwWhile => let _ ← pop ts; ts |>.loop
  | _ => unexpected ts .expression
partial_fixpoint

/-- Items up to a closing bracket (`parse_items`); `read` are those read so far, the last first. -/
def TokenStream.items (ts : TokenStream) (close : TokenKind) (read : List Expr) :
    Descent (List Expr) := do
  ts |>.skipNewlines
  if ← accept ts close then return read.reverse
  let item ← ts |>.expr
  ts |>.skipNewlines
  if ← accept ts .comma then ts |>.items close (item :: read)
  else
    ts |>.skipNewlines
    let _ ← expect ts close
    return (item :: read).reverse
partial_fixpoint

end

/-- The statements of a whole source (`parse_program`). -/
def TokenStream.program (ts : TokenStream) : Descent Program := do
  let body ← ts |>.statements [] []
  let _ ← expect ts .eof
  return body

end CalcShell.Calc
