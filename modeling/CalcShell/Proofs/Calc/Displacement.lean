import CalcShell.Proofs.Calc.Lockstep

/-!
# A source in another place

A text that stands behind others is read as it is on its own, and everything that keeps a place in
it is moved: tokens, the offsets of variables, and errors. The lexer is moved with its position
(`lexFrom_relocate`), and the parser gives from tokens that were moved what it gives from the
tokens, moved (`program_moves`). It is in lockstep with itself on the two, where tokens and trees
correspond to those as far away (`pairing_moved`). Columns stay, so the text has to start at the
start of a line.
-/

namespace CalcShell.Calc

open Text (isAsciiDigit)

/-! ## Moved places -/

/-- How far away a text starts: bytes and line ends before it. -/
structure Distance where
  bytes : Nat
  lines : Nat
deriving DecidableEq

/-- How far behind a source a text starts. -/
def distance (src : String) : Distance := ⟨src.utf8ByteSize, src.toList.count '\n'⟩

/-- The place as far away. The column is the same one. -/
def Position.moved (d : Distance) (p : Position) : Position :=
  ⟨p.offset + d.bytes, p.line + d.lines, p.col⟩

def Token.moved (d : Distance) (t : Token) : Token := { t with position := t.position.moved d }

def TokenStream.moved (d : Distance) (s : TokenStream) : TokenStream :=
  ⟨s.tokens.map (Token.moved d), s.stop.moved d⟩

/-- The error at the place as far away, for the same cause. -/
def SourceError.moved (d : Distance) (err : SourceError) : SourceError :=
  ⟨err.cause, err.position.moved d⟩

mutual

/-- The expression with its variables as far away. -/
def Expr.moved (d : Distance) : Expr → Expr
  | .nil => .nil
  | .bool b => .bool b
  | .int n => .int n
  | .str s => .str s
  | .receiver => .receiver
  | .var name offset => .var name (offset + d.bytes)
  | .list items => .list (Expr.movedAll d items)
  | .unary op e => .unary op (e.moved d)
  | .binary op l r => .binary op (l.moved d) (r.moved d)
  | .index t i => .index (t.moved d) (i.moved d)
  | .call name args => .call name (Expr.movedAll d args)
  | .block body => .block (Stmt.movedAll d body)
  | .cond t yes none => .cond (t.moved d) (Stmt.movedAll d yes) none
  | .cond t yes (some no) => .cond (t.moved d) (Stmt.movedAll d yes) (some (Stmt.movedAll d no))
  | .loop t body => .loop (t.moved d) (Stmt.movedAll d body)

/-- Expressions with their variables as far away. -/
def Expr.movedAll (d : Distance) : List Expr → List Expr
  | [] => []
  | e :: es => e.moved d :: Expr.movedAll d es

/-- The statement with its variables as far away. -/
def Stmt.moved (d : Distance) : Stmt → Stmt
  | .define name e => .define name (e.moved d)
  | .assign name e => .assign name (e.moved d)
  | .expr e => .expr (e.moved d)

/-- Statements with their variables as far away. -/
def Stmt.movedAll (d : Distance) : List Stmt → List Stmt
  | [] => []
  | a :: as => a.moved d :: Stmt.movedAll d as

end

variable (d : Distance)

theorem Expr.movedAll_eq_map (es : List Expr) : Expr.movedAll d es = es.map (Expr.moved d) := by
  induction es with
  | nil => rfl
  | cons e es ih => rw [Expr.movedAll, ih, List.map_cons]

theorem Stmt.movedAll_eq_map (as : List Stmt) : Stmt.movedAll d as = as.map (Stmt.moved d) := by
  induction as with
  | nil => rfl
  | cons a as ih => rw [Stmt.movedAll, ih, List.map_cons]

/-- The result of reading a text as far away, from that of reading it. -/
def relocate {α β : Type} (f : α → β) : Except SourceError α → Except SourceError β
  | .error err => .error (err.moved d)
  | .ok a => .ok (f a)

/-! ## Tokens -/

theorem Position.moved_next (p : Position) (c : Char) :
    (p.moved d).next c = (p.next c).moved d := by
  unfold next moved
  split
  · simp only [mk.injEq, and_true]
    omega
  · simp only [mk.injEq, and_true]
    omega

theorem Position.moved_after (p : Position) (cs : List Char) :
    (p.moved d).after cs = (p.after cs).moved d := by
  induction cs generalizing p with
  | nil => rfl
  | cons c cs ih => rw [after_cons, after_cons, moved_next, ih]

/-- Behind a line end the first column follows. -/
theorem Position.after_col (p : Position) {cs : List Char} (h : EndsNewline cs) :
    (p.after cs).col = 1 := by
  obtain ⟨ds, rfl⟩ := List.getLast?_eq_some_iff.1 h
  rw [after_append]
  rfl

/-- What stands behind a source that ends with a line end is as far away as the source reaches. -/
theorem Position.after_source {src : String} (h : EndsNewline src.toList) :
    start.after src.toList = start.moved (distance src) := by
  have hoffset := start.after_offset src.toList
  have hline := start.after_line src.toList
  have hcol := start.after_col h
  rw [String.ofList_toList] at hoffset
  generalize start.after src.toList = p at hoffset hline hcol ⊢
  cases p
  simp only at hoffset hline hcol
  rw [hoffset, hline, hcol]
  rfl

/-- The tokens of a text elsewhere are the tokens of the text, as far away. -/
theorem lexFrom_relocate (p : Position) (cs : List Char) :
    lexFrom (p.moved d) cs = relocate d (TokenStream.moved d) (lexFrom p cs) := by
  have h : Place.Correspond (Position.moved d) p (p.moved d) cs := fun front _ =>
    Position.moved_after d p front
  rw [lexFrom_correspond h]
  cases lexFrom p cs with
  | error err => rfl
  | ok s => rfl

/-! ## Parsers -/

/-- From tokens as far away `q` gives what `p` gives from the tokens, with its result moved by `f`.
-/
def Moves {α β : Type} (f : α → β) (p : Parser α) (q : Parser β) : Prop :=
  ∀ s, q (s.moved d) = relocate d (fun x => (f x.1, x.2.moved d)) (p s)

/-- Streams correspond whose tokens are as far away. -/
theorem TokenStream.alongside_moved_iff {s u : TokenStream} :
    s.Alongside (fun t t' => t.moved d = t') u ↔ s.moved d = u := by
  obtain ⟨ts, stop⟩ := s
  obtain ⟨us, stop'⟩ := u
  unfold moved
  rw [TokenStream.mk.injEq]
  constructor
  · rintro ⟨htokens, hlast⟩
    exact ⟨forall₂_eq_map_iff.1 htokens, congrArg Token.position hlast⟩
  · rintro ⟨htokens, rfl⟩
    exact ⟨forall₂_eq_map_iff.2 htokens, rfl⟩

/-- Trees of tokens that are as far away are as far away. -/
theorem pairing_moved : Pairing (fun t u => t.moved d = u) (fun err err' => err.moved d = err')
    (fun e e' => e.moved d = e') (fun a a' => a.moved d = a') where
  kind := by rintro t _ rfl; rfl
  text := by rintro t _ rfl; rfl
  rejects := by rintro t _ rfl cause _; rfl
  notNumber := by rintro _ _ _ _ _ u _ rfl cause; rfl
  nil := rfl
  bool _ := rfl
  int _ _ _ _ _ _ := rfl
  str _ := rfl
  receiver := rfl
  var := by rintro t _ rfl _; rfl
  list es fs hes := by
    rw [Expr.moved, Expr.movedAll_eq_map, forall₂_eq_map_iff.1 hes]
  binary := by rintro op l r _ _ rfl rfl; rfl
  index := by rintro t i _ _ rfl rfl; rfl
  call name es fs hes := by
    rw [Expr.moved, Expr.movedAll_eq_map, forall₂_eq_map_iff.1 hes]
  block as bs has := by
    rw [Expr.moved, Stmt.movedAll_eq_map, forall₂_eq_map_iff.1 has]
  cond := by
    rintro t yes _ yes' rfl hyes
    rw [Expr.moved, Stmt.movedAll_eq_map, forall₂_eq_map_iff.1 hyes]
  condElse := by
    rintro t yes no _ yes' no' rfl hyes hno
    rw [Expr.moved, Stmt.movedAll_eq_map, Stmt.movedAll_eq_map, forall₂_eq_map_iff.1 hyes,
      forall₂_eq_map_iff.1 hno]
  loop := by
    rintro t as _ bs rfl has
    rw [Expr.moved, Stmt.movedAll_eq_map, forall₂_eq_map_iff.1 has]
  define := by rintro name e _ rfl; rfl
  assign := by rintro name e _ rfl; rfl
  expr := by rintro e _ rfl; rfl

/-- An operator stands in front of an operand that is as far away. -/
theorem applyUnary_moved (op : UnaryOp) (a : Expr) :
    (Parser.applyUnary op a).moved d = Parser.applyUnary op (a.moved d) := by
  cases op with
  | neg =>
    cases a with
    | int n =>
      simp only [Parser.applyUnary, Expr.moved]
      cases n.neg? <;> rfl
    | cond t yes no => cases no <;> rfl
    | _ => rfl
  | not => rfl

/-- A program that stands elsewhere is the program, as far away. -/
theorem program_moves : Moves d (Stmt.movedAll d) Parser.program Parser.program := by
  have hsign : ∀ op a b, a.moved d = b → Lockstep (fun t u => t.moved d = u)
      (fun err err' => err.moved d = err') (fun e e' => e.moved d = e') (Parser.negate op a)
      (Parser.negate op b) := by
    rintro op a _ rfl
    exact .pure (applyUnary_moved d op a)
  have hprogram := (pairing_moved d).program hsign
  rw [Parser.programBy_negate] at hprogram
  intro s
  have hs := hprogram s (s.moved d) ((TokenStream.alongside_moved_iff d).2 rfl)
  generalize Parser.program s = x at hs
  generalize Parser.program (s.moved d) = y at hs
  cases hs with
  | ok hp hrest =>
    rw [← forall₂_eq_map_iff.1 hp, ← Stmt.movedAll_eq_map,
      ← (TokenStream.alongside_moved_iff d).1 hrest]
    rfl
  | error herr => exact congrArg Except.error herr.symm

end CalcShell.Calc
