import CalcShell.Calc.Lexer
import CalcShell.Calc.Tree

/-!
# From tokens to trees

A parser takes tokens from the front of a stream or rejects it. Expressions nest at most
`maxNesting` deep, and the depth still allowed is what the grammar recurses on: every rule but
`unary` is a plain function of the parsers for the expressions inside it. Loops count down the
tokens that are left, since each round takes one.

Line ends are skipped behind an operator, behind `=` and inside brackets, so that an expression may
go on in the next line.
-/

namespace CalcShell.Calc

/-- Takes tokens from a stream and gives a result and the tokens left, or rejects the source. -/
def Parser (α : Type) : Type := TokenStream → Except SourceError (α × TokenStream)

namespace Parser

/-- Gives a result and takes nothing. -/
protected def pure {α : Type} (a : α) : Parser α := fun s => .ok (a, s)

/-- One parser after the other. -/
protected def bind {α β : Type} (p : Parser α) (f : α → Parser β) : Parser β := fun s =>
  match p s with
  | .error e => .error e
  | .ok (a, s) => f a s

instance : Monad Parser where
  pure := Parser.pure
  bind := Parser.bind

/-- Rejects the source for a cause at the token in front. -/
def reject {α : Type} (cause : Token → Cause) : Parser α := fun s =>
  .error ⟨cause s.peek, s.peek.position⟩

/-- Rejects the token in front, where something else was expected (`unexpected`). -/
def unexpected {α : Type} (expected : Expected) : Parser α :=
  reject fun t =>
    if t.kind = .eof then .endOfInput expected else .unexpected t.text expected

/-- Rejects an expression that nests too deep. -/
def tooDeep {α : Type} : Parser α := reject fun _ => .tooDeep

/-- The token in front, which stays (`peek`). -/
def peek : Parser Token := fun s => .ok (s.peek, s)

/-- The token behind the one in front; both stay. -/
def peekSecond : Parser Token := fun s => .ok (s.advance.peek, s)

/-- How many tokens are left before the end. -/
def left : Parser Nat := fun s => .ok (s.size, s)

/-- Takes the token in front (`pop_any`). -/
def pop : Parser Token := fun s => .ok (s.peek, s.advance)

/-- Takes the token in front, which must be of the kind (`pop`). -/
def expect (kind : TokenKind) : Parser Token := do
  if (← peek).kind = kind then pop else unexpected (.token kind)

/-- Takes the token in front if it is of the kind, and says so (`accept`). -/
def accept (kind : TokenKind) : Parser Bool := do
  if (← peek).kind = kind then
    let _ ← pop
    pure true
  else pure false

/-- Drops the tokens in front that are of the kinds. -/
def skip (kinds : List TokenKind) : Parser Unit := fun s =>
  .ok ((), { s with tokens := s.tokens.dropWhile fun t => kinds.contains t.kind })

/-- Drops the line ends in front (`skip_newlines`). -/
def skipNewlines : Parser Unit := skip [.newline]

/-! ## Binary operators -/

/-- The operators of one level of binding (`InfixSpec`). -/
structure Level where
  /-- The operator of a token, if it is one of this level. -/
  operator? : TokenKind → Option BinaryOp
  /-- Whether operators follow one another, the first binding first. -/
  chains : Bool

/-- The operator `||`. -/
def orLevel : Level where
  operator?
    | .orOr => some .or
    | _ => none
  chains := true

/-- The operator `&&`. -/
def andLevel : Level where
  operator?
    | .andAnd => some .and
    | _ => none
  chains := true

/-- The comparisons, of which only one may stand. -/
def comparisonLevel : Level where
  operator?
    | .equalEqual => some .eq
    | .notEqual => some .ne
    | .less => some .lt
    | .lessEqual => some .le
    | .greater => some .gt
    | .greaterEqual => some .ge
    | _ => none
  chains := false

/-- The operators `+` and `-`. -/
def additiveLevel : Level where
  operator?
    | .plus => some .add
    | .minus => some .sub
    | _ => none
  chains := true

/-- The operators `*`, `/` and `%`. -/
def multiplicativeLevel : Level where
  operator?
    | .star => some .mul
    | .slash => some .div
    | .percent => some .rem
    | _ => none
  chains := true

/-- Goes on behind the expression `l` with the operators of a level, in at most the given number of
rounds. -/
def operators (level : Level) (operand : Parser Expr) : Nat → Expr → Parser Expr
  | 0, l => pure l
  | rounds + 1, l => do
    match level.operator? (← peek).kind with
    | none => pure l
    | some op =>
      let _ ← pop
      skipNewlines
      let r ← operand
      if level.chains then operators level operand rounds (.binary op l r)
      else if (level.operator? (← peek).kind).isSome then unexpected .comparisonEnd
      else pure (.binary op l r)

/-- Operands with the operators of a level between them. -/
def infixed (level : Level) (operand : Parser Expr) : Parser Expr := do
  let l ← operand
  operators level operand (← left) l

/-- An expression of binary operators over operands, from the loosest level to the tightest
(`parse_level`). -/
def binaries (operand : Parser Expr) : Parser Expr :=
  infixed orLevel <| infixed andLevel <| infixed comparisonLevel <| infixed additiveLevel <|
    infixed multiplicativeLevel operand

/-! ## Brackets, calls and blocks -/

/-- Items up to a closing bracket, in at most the given number of rounds; `items` are those read so
far, the last first. A comma may follow the last item. -/
def itemsFrom (expr : Parser Expr) (close : TokenKind) : Nat → List Expr → Parser (List Expr)
  | 0, _ => unexpected (.token close)
  | rounds + 1, items => do
    skipNewlines
    if ← accept close then return items.reverse
    let item ← expr
    skipNewlines
    if ← accept .comma then itemsFrom expr close rounds (item :: items)
    else
      let _ ← expect close
      return (item :: items).reverse

/-- Items up to a closing bracket (`parse_items`). -/
def items (expr : Parser Expr) (close : TokenKind) : Parser (List Expr) := do
  itemsFrom expr close ((← left) + 1) []

/-- A statement (`parse_stmt`). -/
def statement (expr : Parser Expr) : Parser Stmt := do
  if ← accept .kwLet then
    let name ← expect .ident
    let _ ← expect .equal
    skipNewlines
    return .define name.text (← expr)
  let t ← peek
  if t.kind = .ident && (← peekSecond).kind = .equal then
    let _ ← pop
    let _ ← pop
    skipNewlines
    return .assign t.text (← expr)
  return .expr (← expr)

/-- Statements up to one of the closing kinds, or up to the end of the source if there are none, in
at most the given number of rounds; `body` are those read so far, the last first. The closing token
stays. -/
def statementsFrom (expr : Parser Expr) (closers : List TokenKind) :
    Nat → List Stmt → Parser (List Stmt)
  | 0, _ => unexpected .blockEnd
  | rounds + 1, body => do
    skip [.newline, .semi]
    let kind := (← peek).kind
    if closers.contains kind then return body.reverse
    if kind = .eof then
      if closers.isEmpty then return body.reverse else unexpected .blockEnd
    else
      let stmt ← statement expr
      let kind := (← peek).kind
      if [.newline, .semi, .eof].contains kind || closers.contains kind then
        statementsFrom expr closers rounds (stmt :: body)
      else unexpected .separator

/-- Statements up to one of the closing kinds, or up to the end of the source if there are none
(`parse_stmts`). -/
def statements (expr : Parser Expr) (closers : List TokenKind) : Parser (List Stmt) := do
  statementsFrom expr closers ((← left) + 1) []

/-- The statements of a block and the `end` that closes it. -/
def block (expr : Parser Expr) : Parser (List Stmt) := do
  let body ← statements expr [.kwEnd]
  let _ ← expect .kwEnd
  return body

/-- A choice, behind its `if`. -/
def choice (expr : Parser Expr) : Parser Expr := do
  let test ← expr
  skipNewlines
  let _ ← expect .kwThen
  let yes ← statements expr [.kwElse, .kwEnd]
  if ← accept .kwElse then return .cond test yes (some (← block expr))
  let _ ← expect .kwEnd
  return .cond test yes none

/-- A loop, behind its `while`. -/
def loop (expr : Parser Expr) : Parser Expr := do
  let test ← expr
  skipNewlines
  let _ ← expect .kwDo
  return .loop test (← block expr)

/-- An expression in brackets, behind the opening one. -/
def bracketed (expr : Parser Expr) (close : TokenKind) : Parser Expr := do
  skipNewlines
  let e ← expr
  skipNewlines
  let _ ← expect close
  return e

/-- A variable or call, behind its name. -/
def named (expr : Parser Expr) (name : Token) : Parser Expr := do
  if ← accept .lparen then return .call name.text (← items expr .rparen)
  return .var name.text name.position.offset

/-- An expression without operators, whose inner expressions `expr` reads (`parse_primary`). -/
def primary (expr : Parser Expr) : Parser Expr := do
  let t ← peek
  match t.kind with
  | .int =>
    let _ ← pop
    match Number.ofDigits? t.text.toList with
    | some n => return .int n
    | none => unexpected .integer
  | .str => let _ ← pop; return .str t.text
  | .kwTrue => let _ ← pop; return .bool true
  | .kwFalse => let _ ← pop; return .bool false
  | .kwNil => let _ ← pop; return .nil
  | .kwSelf => let _ ← pop; return .receiver
  | .ident => let _ ← pop; named expr t
  | .lparen => let _ ← pop; bracketed expr .rparen
  | .lbrack => let _ ← pop; return .list (← items expr .rbrack)
  | .kwDo => let _ ← pop; return .block (← block expr)
  | .kwIf => let _ ← pop; choice expr
  | .kwWhile => let _ ← pop; loop expr
  | _ => unexpected .expression

/-- Goes on behind the expression `e` with indexes, in at most the given number of rounds. -/
def indexes (expr : Parser Expr) : Nat → Expr → Parser Expr
  | 0, e => pure e
  | rounds + 1, e => do
    if ← accept .lbrack then indexes expr rounds (.index e (← bracketed expr .rbrack))
    else pure e

/-- An expression without operators and the indexes behind it (`parse_postfix`). -/
def indexed (expr : Parser Expr) : Parser Expr := do
  let e ← primary expr
  indexes expr (← left) e

/-! ## Nesting -/

/-- The operator with one operand that a token stands for. -/
def unaryOp? : TokenKind → Option UnaryOp
  | .minus => some .neg
  | .bang => some .not
  | _ => none

/-- An operator over an expression; the negation of a number is a number. -/
def applyUnary (op : UnaryOp) (e : Expr) : Expr :=
  match op, e with
  | .neg, .int n =>
    match n.neg? with
    | some m => .int m
    | none => .unary op e
  | _, _ => .unary op e

/-- An operand (`parse_unary`): operators before an expression without binary operators. `operand`
reads what stands behind an operator, `expr` the expressions inside. -/
def unaryOver (operand expr : Parser Expr) : Parser Expr := do
  match unaryOp? (← peek).kind with
  | none => indexed expr
  | some op =>
    let _ ← pop
    return applyUnary op (← operand)

/-- An operand inside of which expressions may nest to the given depth. -/
def unary : Nat → Parser Expr
  | 0, s => unaryOver tooDeep tooDeep s
  | depth + 1, s => unaryOver (unary depth) (binaries (unary depth)) s

/-- An expression that may nest to the given depth, itself included (`nested`). -/
def exprWithin : Nat → Parser Expr
  | 0 => tooDeep
  | depth + 1 => binaries (unary depth)

/-- An expression (`parse_expr`). -/
def expr : Parser Expr := exprWithin maxNesting

/-- The statements of a whole source. -/
def program : Parser Program := do
  let body ← statements expr []
  let _ ← expect .eof
  return body

/-- One expression as a whole source, with line ends around it. -/
def onlyExpr : Parser Expr := do
  skipNewlines
  let e ← expr
  skipNewlines
  let _ ← expect .eof
  return e

/-- What a parser makes of a source. -/
def run {α : Type} (p : Parser α) (src : String) : Except SourceError α :=
  match lex src with
  | .error e => .error e
  | .ok s =>
    match p s with
    | .error e => .error e
    | .ok (a, _) => .ok a

end Parser

/-- The program that a source spells (`parse_program`). -/
def parseProgram (src : String) : Except SourceError Program := Parser.program.run src

/-- The expression that a source spells (`parse_expr`). -/
def parseExpr (src : String) : Except SourceError Expr := Parser.onlyExpr.run src

end CalcShell.Calc
