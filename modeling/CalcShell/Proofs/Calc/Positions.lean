import CalcShell.Proofs.Calc.Continuation
import CalcShell.Proofs.Calc.Lexemes
import CalcShell.Proofs.Calc.Making
import Mathlib.Data.List.DropRight

/-!
# Positions are right everywhere

Wherever a position is given, it counts what stands before it (`Position.RightIn`): in tokens, in
errors of the lexer and in errors of the parser, and the offset of each variable in a tree is that
of its name in the source (`NamedAt`). The main statement is `positions_right`.

A position that is right is one behind some first characters of the source (`rightIn_after`). Tokens
and the errors of the lexer have such a position because what is located among the lines of the
source is what is counted (`lex_eq`) and reading moves on by the characters that it takes. The
parser makes no positions of its own: each rule of the grammar takes those of its errors
and variables from tokens (`making_namedAt`).
-/

namespace CalcShell.Calc

/-! ## Places in a source -/

/-- The position is right in the source. -/
structure Position.RightIn (p : Position) (src : String) : Prop where
  /-- There is a place between two characters at the offset. -/
  boundary : String.Pos.Raw.IsValid src ⟨p.offset⟩
  /-- The offset is at most the length of the source. -/
  inside : p.offset ≤ src.utf8ByteSize
  /-- The offset counts the bytes before the place, the line is one more than the number of line
  ends before it, and the column one more than the number of characters before it and behind the
  last line end. -/
  counts : ∃ before behind, src = before ++ behind ∧ p.offset = before.utf8ByteSize ∧
    p.line = 1 + before.toList.count '\n' ∧
    p.col = 1 + (before.toList.rtakeWhile (· ≠ '\n')).length

/-- The position behind the first characters of a source. -/
theorem Position.rightIn_after {src : String} {before : List Char} (h : before <+: src.toList) :
    (start.after before).RightIn src := by
  obtain ⟨behind, hbehind⟩ := h
  have hsrc : src = String.ofList before ++ String.ofList behind := by
    rw [← String.ofList_append, hbehind, String.ofList_toList]
  have hoffset : (start.after before).offset = (String.ofList before).utf8ByteSize := by
    rw [after_offset]
    exact Nat.zero_add _
  have hboundary : String.Pos.Raw.IsValid src ⟨(start.after before).offset⟩ :=
    String.Pos.Raw.isValid_iff_exists_append.2
      ⟨String.ofList before, String.ofList behind, hsrc, by rw [hoffset]; rfl⟩
  refine ⟨hboundary, ?_, String.ofList before, String.ofList behind, hsrc, hoffset, ?_, ?_⟩
  · rw [hsrc, String.utf8ByteSize_append, hoffset]
    exact Nat.le_add_right _ _
  · rw [after_line, String.toList_ofList]
    rfl
  · rw [start_after_col, String.toList_ofList]

/-- At the offset the name is written in the source, and no character follows that would belong to
it. -/
def NamedAt (src name : String) (offset : Nat) : Prop :=
  ∃ before rest, src = before ++ name ++ rest ∧ offset = before.utf8ByteSize ∧
    ∀ c ∈ rest.toList.head?, isNameChar c = false

/-! ## Tokens -/

/-- A name is written as a whole word. -/
theorem Spelling.word_of_ident {text : String} {raw rest : List Char}
    (h : Spelling .ident text raw rest) : text = String.ofList raw ∧ WholeWord raw rest := by
  generalize hkind : TokenKind.ident = kind at h
  cases h with
  | pair _ hpair => exact absurd (hkind ▸ mem_symbolKinds_of_pair? hpair) (by decide)
  | single hsingle _ => exact absurd (hkind ▸ mem_symbolKinds_of_single? hsingle) (by decide)
  | keyword hword _ => exact ⟨rfl, hword⟩
  | name hword _ => exact ⟨rfl, hword⟩
  | newline | number | string => cases hkind

section Tokens

variable {src : String} {s : TokenStream} {t : Token}

/-- Every token of a source stands in its place, also the end. -/
theorem lex_rightIn (h : lex src = .ok s) (ht : t ∈ s.all) : t.position.RightIn src := by
  obtain ⟨htiles, hstop⟩ := lexFrom_tiles (lexFrom_of_lex h)
  rcases List.mem_append.1 ht with ht | ht
  · obtain ⟨before, raw, rest, hsrc, hposition, -⟩ := htiles.placed t ht
    exact hposition ▸ Position.rightIn_after ⟨raw ++ rest, hsrc.symm⟩
  · rw [List.mem_singleton.1 ht, TokenStream.last, hstop]
    exact Position.rightIn_after (List.prefix_refl _)

/-- An error of the lexer stands in its place. -/
theorem lex_error_rightIn {err : SourceError} (h : lex src = .error err) :
    err.position.RightIn src := by
  obtain ⟨before, hbefore, hposition⟩ := (lexFrom_rejectedIn (lexFrom_of_lex h)).place
  exact hposition ▸ Position.rightIn_after hbefore

/-- A name among the tokens is written where the token stands. -/
theorem lex_namedAt (h : lex src = .ok s) (ht : t ∈ s.all) (hkind : t.kind = .ident) :
    NamedAt src t.text t.position.offset := by
  rcases List.mem_append.1 ht with ht | ht
  · obtain ⟨before, raw, rest, hsrc, hposition, hspelling⟩ :=
      (lexFrom_tiles (lexFrom_of_lex h)).1.placed t ht
    obtain ⟨htext, hword⟩ := (hkind ▸ hspelling).word_of_ident
    refine ⟨String.ofList before, String.ofList rest, ?_, ?_, ?_⟩
    · rw [htext, ← String.ofList_append, ← String.ofList_append, List.append_assoc, ← hsrc,
        String.ofList_toList]
    · rw [hposition, Position.after_offset]
      exact Nat.zero_add _
    · rw [String.toList_ofList]
      exact hword.whole
  · rw [List.mem_singleton.1 ht] at hkind
    cases hkind

end Tokens

/-! ## Variables in trees -/

mutual

/-- The variables that an expression reads, each with its offset. -/
def Expr.reads : Expr → List (String × Nat)
  | .nil | .bool _ | .int _ | .str _ | .receiver => []
  | .var name offset => [(name, offset)]
  | .list items => Expr.readsAll items
  | .unary _ e => e.reads
  | .binary _ l r => l.reads ++ r.reads
  | .index t i => t.reads ++ i.reads
  | .call _ args => Expr.readsAll args
  | .block body => Stmt.readsAll body
  | .cond t yes none => t.reads ++ Stmt.readsAll yes
  | .cond t yes (some no) => t.reads ++ Stmt.readsAll yes ++ Stmt.readsAll no
  | .loop t body => t.reads ++ Stmt.readsAll body

/-- The variables that expressions read. -/
def Expr.readsAll : List Expr → List (String × Nat)
  | [] => []
  | e :: es => e.reads ++ Expr.readsAll es

/-- The variables that a statement reads. -/
def Stmt.reads : Stmt → List (String × Nat)
  | .define _ e | .assign _ e | .expr e => e.reads

/-- The variables that statements read. -/
def Stmt.readsAll : List Stmt → List (String × Nat)
  | [] => []
  | s :: ss => s.reads ++ Stmt.readsAll ss

end

theorem Expr.forall_mem_readsAll {es : List Expr} {V : String × Nat → Prop} :
    (∀ x ∈ Expr.readsAll es, V x) ↔ ∀ e ∈ es, ∀ x ∈ e.reads, V x := by
  induction es with
  | nil => simp [Expr.readsAll]
  | cons e es ih => rw [Expr.readsAll, List.forall_mem_append, ih, List.forall_mem_cons]

theorem Stmt.forall_mem_readsAll {ss : List Stmt} {V : String × Nat → Prop} :
    (∀ x ∈ Stmt.readsAll ss, V x) ↔ ∀ s ∈ ss, ∀ x ∈ s.reads, V x := by
  induction ss with
  | nil => simp [Stmt.readsAll]
  | cons s ss ih => rw [Stmt.readsAll, List.forall_mem_append, ih, List.forall_mem_cons]

/-- An operator reads what its operand does; the negation of a number is a number. -/
theorem reads_applyUnary (op : UnaryOp) (e : Expr) :
    (Parser.applyUnary op e).reads = e.reads := by
  unfold Parser.applyUnary
  split
  · split <;> rfl
  · rfl

/-! ## Sources -/

/-- In trees of the tokens of a source, variables stand where they are written. -/
theorem making_namedAt {src : String} {s : TokenStream} (h : lex src = .ok s) :
    Making (· ∈ s.all) (fun err => err.position.RightIn src)
      (fun e => ∀ x ∈ e.reads, NamedAt src x.1 x.2)
      (fun a => ∀ x ∈ a.reads, NamedAt src x.1 x.2) where
  rejects _ ht _ _ := lex_rightIn h ht
  notNumber _ _ _ _ _ hu _ := lex_rightIn h hu
  nil := List.forall_mem_nil _
  bool _ := List.forall_mem_nil _
  int _ _ _ _ _ := List.forall_mem_nil _
  str _ := List.forall_mem_nil _
  receiver := List.forall_mem_nil _
  var _ ht hkind := List.forall_mem_singleton.2 (lex_namedAt h ht hkind)
  list _ hitems := Expr.forall_mem_readsAll.2 hitems
  unary op e he := (reads_applyUnary op e).symm ▸ he
  binary _ _ _ hl hr := List.forall_mem_append.2 ⟨hl, hr⟩
  index _ _ ht hi := List.forall_mem_append.2 ⟨ht, hi⟩
  call _ _ hargs := Expr.forall_mem_readsAll.2 hargs
  block _ hbody := Stmt.forall_mem_readsAll.2 hbody
  cond _ _ ht hyes := List.forall_mem_append.2 ⟨ht, Stmt.forall_mem_readsAll.2 hyes⟩
  condElse _ _ _ ht hyes hno := List.forall_mem_append.2
    ⟨List.forall_mem_append.2 ⟨ht, Stmt.forall_mem_readsAll.2 hyes⟩,
      Stmt.forall_mem_readsAll.2 hno⟩
  loop _ _ ht hbody := List.forall_mem_append.2 ⟨ht, Stmt.forall_mem_readsAll.2 hbody⟩
  define _ _ he := he
  assign _ _ he := he
  expr _ he := he

/-- Positions are right wherever they are given: in tokens and in errors of the lexer and of both
parsers; and in a tree each variable stands where its name is written. -/
theorem positions_right (src : String) :
    (∀ s, lex src = .ok s → ∀ t ∈ s.all, t.position.RightIn src) ∧
      (∀ err, lex src = .error err → err.position.RightIn src) ∧
      (∀ err, parseProgram src = .error err → err.position.RightIn src) ∧
      (∀ err, parseExpr src = .error err → err.position.RightIn src) ∧
      (∀ p, parseProgram src = .ok p → ∀ x ∈ Stmt.readsAll p, NamedAt src x.1 x.2) ∧
      ∀ e, parseExpr src = .ok e → ∀ x ∈ e.reads, NamedAt src x.1 x.2 := by
  have hlexer : ∀ err, lex src = .error err → err.position.RightIn src :=
    fun _ => lex_error_rightIn
  obtain ⟨hprogram, hprogramError⟩ := Abides.run hlexer fun _ h => (making_namedAt h).program
  obtain ⟨hexpr, hexprError⟩ := Abides.run hlexer fun _ h => (making_namedAt h).onlyExpr
  exact ⟨fun s hlex t ht => lex_rightIn hlex ht, hlexer, hprogramError, hexprError,
    fun p hp => Stmt.forall_mem_readsAll.2 (hprogram p hp), hexpr⟩

/-- A result that passes a test is one. -/
theorem exists_ok_of_any {α : Type} {x : Except SourceError α} {q : α → Bool}
    (h : x.toOption.any q = true) : ∃ a, x = .ok a ∧ q a = true := by
  cases x with
  | error err => cases h
  | ok a => exact ⟨a, rfl, h⟩

/-- An error that is tested for is the one. -/
theorem eq_error_of_all {α : Type} {x : Except SourceError α} {err : SourceError}
    (h : (match x with | .error err' => decide (err' = err) | .ok _ => false) = true) :
    x = .error err := by
  cases x with
  | error err' => exact congrArg Except.error (of_decide_eq_true h)
  | ok a => cases h

/-- Names with characters of two bytes, a line end within a string, a comment, an escape that is not
known in the second line of a string, and sources that end too early or go on too long. -/
theorem positions_right_accented :
    let src := "let é = \"ü\n\" # ü\n -é + f(é)"
    let escape := "é = \"ü\né\\q\""
    let bracket := "[é,\n \n"
    let comparison := "\né < ü < é"
    (∃ s, lex src = .ok s ∧ s.stop = ⟨32, 3, 11⟩ ∧ ∀ t ∈ s.all, t.position.RightIn src) ∧
      (∃ err, lex escape = .error err ∧ err.position = ⟨11, 2, 2⟩ ∧
        err.position.RightIn escape) ∧
      (∃ err, parseProgram bracket = .error err ∧ err.position = ⟨7, 3, 1⟩ ∧
        err.position.RightIn bracket) ∧
      (∃ err, parseExpr comparison = .error err ∧ err.position = ⟨9, 2, 7⟩ ∧
        err.position.RightIn comparison) ∧
      (∃ p, parseProgram src = .ok p ∧ Stmt.readsAll p = [("é", 22), ("é", 29)] ∧
        ∀ x ∈ Stmt.readsAll p, NamedAt src x.1 x.2) ∧
      ∃ e, parseExpr "\n-é" = .ok e ∧ e.reads = [("é", 2)] ∧
        ∀ x ∈ e.reads, NamedAt "\n-é" x.1 x.2 := by
  intro src escape bracket comparison
  obtain ⟨s, hs, hstop⟩ := exists_ok_of_any (x := lex src)
    (q := fun s => decide (s.stop = ⟨32, 3, 11⟩)) (by decide +kernel)
  obtain ⟨p, hp, hreads⟩ := exists_ok_of_any (x := parseProgram src)
    (q := fun p => decide (Stmt.readsAll p = [("é", 22), ("é", 29)])) (by decide +kernel)
  obtain ⟨e, he, hread⟩ := exists_ok_of_any (x := parseExpr "\n-é")
    (q := fun e => decide (e.reads = [("é", 2)])) (by decide +kernel)
  have hescape : lex escape = .error ⟨.badEscape 'q', ⟨11, 2, 2⟩⟩ :=
    eq_error_of_all (by decide +kernel)
  have hbracket : parseProgram bracket = .error ⟨.endOfInput .expression, ⟨7, 3, 1⟩⟩ :=
    eq_error_of_all (by decide +kernel)
  have hcomparison : parseExpr comparison = .error ⟨.unexpected "<" .comparisonEnd, ⟨9, 2, 7⟩⟩ :=
    eq_error_of_all (by decide +kernel)
  obtain ⟨htokens, -, -, -, hprogram, -⟩ := positions_right src
  exact ⟨⟨s, hs, of_decide_eq_true hstop, htokens s hs⟩,
    ⟨_, hescape, rfl, (positions_right escape).2.1 _ hescape⟩,
    ⟨_, hbracket, rfl, (positions_right bracket).2.2.1 _ hbracket⟩,
    ⟨_, hcomparison, rfl, (positions_right comparison).2.2.2.1 _ hcomparison⟩,
    ⟨p, hp, of_decide_eq_true hreads, hprogram p hp⟩,
    ⟨e, he, of_decide_eq_true hread, (positions_right "\n-é").2.2.2.2.2 e he⟩⟩

end CalcShell.Calc
