import CalcShell.Proofs.Calc.Agreement
import CalcShell.Proofs.Calc.RoundTrip
import CalcShell.Text.Quoted

/-!
# Printed values read back

The text that `inspect` gives for a value is code for the value: it parses, and evaluating it gives
the value in every context and changes no scope (`inspect_reads_back`). This holds of lists of plain
values that nest no deeper than the grammar allows, and of strings without the escapes that
only the printer knows.

Between text and value stands the expression that is written (`Value.literal`): the text has its
words, the words are read as it, and it evaluates to the value.
-/

namespace CalcShell

open Text (quotedChar)

/-! ## Values that are code -/

/-- The character is shown as it is or by an escape that strings have in code as well. -/
def readableChar (c : Char) : Bool :=
  quotedChar c ∈ [[c], ['\\', 'n'], ['\\', 't'], ['\\', '"'], ['\\', '\\']]

namespace Value

mutual

/-- Whether the text of a value is code for it, apart from how deep it nests. -/
def readable : Value → Bool
  | .nil => true
  | .bool _ => true
  | .int n => minNumber < n.toInt
  | .str s => s.toList.all readableChar
  | .list items => readableAll items
  | .main => false
  | .session _ => false

/-- Whether the texts of all values are. -/
def readableAll : List Value → Bool
  | [] => true
  | v :: vs => v.readable && readableAll vs

end

mutual

/-- How many lists are inside of one another. -/
def depth : Value → Nat
  | .list items => depthAll items + 1
  | _ => 0

/-- How many lists are inside of one another in any of the values. -/
def depthAll : List Value → Nat
  | [] => 0
  | v :: vs => max v.depth (depthAll vs)

end

mutual

/-- The expression that a value is written as. A session and the receiver of the top level have no
code; `self` stands there for them. -/
def literal : Value → Calc.Expr
  | .nil => .nil
  | .bool b => .bool b
  | .int n => .int n
  | .str s => .str s
  | .list items => .list (literalAll items)
  | .main => .receiver
  | .session _ => .receiver

/-- The expressions that values are written as, in order. -/
def literalAll : List Value → List Calc.Expr
  | [] => []
  | v :: vs => v.literal :: literalAll vs

end

end Value

namespace Calc

open Calc.Parser

/-! ## The words of the text -/

/-- What a readable character is shown as stands for it. -/
theorem quotedChar_denotes {c : Char} (h : readableChar c = true) : Denotes (quotedChar c) c := by
  have hshown := of_decide_eq_true h
  unfold quotedChar at hshown ⊢
  by_cases hnull : c = '\x00'
  · subst hnull
    exact absurd h (by decide)
  by_cases htab : c = '\t'
  · subst htab
    exact .inr ⟨'t', rfl, rfl⟩
  by_cases hreturn : c = '\r'
  · subst hreturn
    exact absurd h (by decide)
  by_cases hnl : c = '\n'
  · subst hnl
    exact .inr ⟨'n', rfl, rfl⟩
  by_cases hquote : c = '"'
  · subst hquote
    exact .inr ⟨'"', rfl, rfl⟩
  by_cases hslash : c = '\\'
  · subst hslash
    exact .inr ⟨'\\', rfl, rfl⟩
  rw [if_neg hnull, if_neg htab, if_neg hreturn, if_neg hnl, if_neg hquote, if_neg hslash]
    at hshown ⊢
  split at hshown
  · rename_i hplain
    exact .inl ⟨if_pos hplain, hquote, hslash⟩
  · -- A character by its number takes more than two characters.
    simp [Text.numbered] at hshown

mutual

/-- The text of a value has the words of the expression that it is written as. -/
theorem inspect_lexes : ∀ {v : Value}, v.readable = true → Lexes Apart v.inspect v.literal.words
  | .nil, _ => lexes_keyword rfl
  | .bool true, _ => lexes_keyword rfl
  | .bool false, _ => lexes_keyword rfl
  | .int n, h => lexes_number (of_decide_eq_true h)
  | .str s, h => by
    have hchars : ∀ c ∈ s.toList, Denotes (quotedChar c) c :=
      fun c hc => quotedChar_denotes (List.all_eq_true.1 h c hc)
    exact (lexes_denoted hchars).mono fun _ _ => trivial
  | .list items, h => by
    rw [Value.inspect, Value.literal, Expr.words]
    exact (lexes_lbrack.next (inspectAll_lexes h)).next_apart lexes_rbrack (by decide)

/-- The texts of values with commas between them. -/
theorem inspectAll_lexes : ∀ {vs : List Value}, Value.readableAll vs = true →
    Lexes Apart (String.intercalate ", " (Value.inspectAll vs))
      (Expr.itemWords (Value.literalAll vs))
  | [], _ => .empty
  | [v], h => by
    simp only [Value.readableAll, Bool.and_true] at h
    simp only [Value.inspectAll, Value.literalAll, Expr.itemWords, Expr.moreWords,
      String.intercalate_singleton, List.append_nil]
    exact inspect_lexes h
  | v :: w :: vs, h => by
    rw [Value.readableAll, Bool.and_eq_true] at h
    have hall := ((inspect_lexes h.1).next_apart lexes_comma (by decide)).next
      (inspectAll_lexes h.2)
    simp only [Value.inspectAll, String.intercalate_cons_cons] at hall ⊢
    simpa only [Value.literalAll, Expr.itemWords, Expr.moreWords, List.append_assoc] using hall

end

/-! ## The expression that is read -/

mutual

/-- The words of a literal are read as the literal, if the lists in it nest no deeper. -/
theorem literal_understood : ∀ {v : Value}, v.readable = true →
    ∀ {d : Nat}, v.depth ≤ d → Understood d v.literal
  | .nil, _, _, _ => Bare.nil.understood rfl
  | .bool b, _, _, _ => (Bare.bool b).understood rfl
  | .int _, h, _, _ => understood_int (of_decide_eq_true h)
  | .str s, _, _, _ => (Bare.str s).understood rfl
  | .list items, h, d, hd => by
    rw [Value.depth] at hd
    match d, hd with
    | d + 1, hd =>
      have hitems := literalAll_whole h (d := d) (by omega)
      exact (Bare.list (exprWithin_advances (d + 2)) hitems).understood rfl

theorem literalAll_whole : ∀ {vs : List Value}, Value.readableAll vs = true →
    ∀ {d : Nat}, Value.depthAll vs ≤ d → ∀ e ∈ Value.literalAll vs, Whole (exprWithin (d + 2)) e
  | [], _, _, _, _, he => absurd he List.not_mem_nil
  | v :: vs, h, d, hd, e, he => by
    rw [Value.readableAll, Bool.and_eq_true] at h
    rw [Value.depthAll] at hd
    rcases List.mem_cons.1 he with rfl | he
    · exact (literal_understood h.1 (by omega)).whole v.literal.opens
    · exact literalAll_whole h.2 (by omega) e he

end

/-! ## The value of the expression -/

section Evaluation

variable (rounds : Nat) (c : Context) (f : Forest)

mutual

/-- A literal evaluates to its value, and no scope changes. -/
theorem Eval.expr_literal : ∀ {v : Value}, v.readable = true →
    Eval.expr rounds c v.literal f = .done (.ok v) f
  | .nil, _ => rfl
  | .bool _, _ => rfl
  | .int _, _ => rfl
  | .str _, _ => rfl
  | .list _, h => by
    rw [Value.literal, Eval.expr, bind_of_done (Eval.exprs_literal h)]
    rfl

theorem Eval.exprs_literal : ∀ {vs : List Value}, Value.readableAll vs = true →
    Eval.exprs rounds c (Value.literalAll vs) f = .done (.ok vs) f
  | [], _ => rfl
  | _ :: _, h => by
    rw [Value.readableAll, Bool.and_eq_true] at h
    rw [Value.literalAll, Eval.exprs, bind_of_done (Eval.expr_literal h.1),
      bind_of_done (Eval.exprs_literal h.2)]
    rfl

end

end Evaluation

/-- The text of a value with lists no deeper than 126, in which no number is the least one and
strings have no other escapes than code has, is a program. In every context the program gives the
value and changes no scope. -/
theorem inspect_reads_back {v : Value} (h : v.readable = true) (hdepth : v.depth ≤ 126) :
    ∃ p, parseProgram v.inspect = .ok p ∧
      ∀ rounds c f, evaluateProgram rounds c p f = .done (.ok v) f := by
  obtain ⟨s, hlex, hwords⟩ := (inspect_lexes h).lex
  have hwhole : ∀ a ∈ [Stmt.expr v.literal], WholeStmt expr a := by
    intro a ha
    rw [List.mem_singleton.1 ha]
    exact ((literal_understood h hdepth).whole v.literal.opens).expr
  have hbody : Stmt.bodyWords [.expr v.literal] = v.literal.words := List.append_nil _
  obtain ⟨p, hp, herase⟩ := parseProgram_of_words hlex (hwords.trans hbody.symm) hwhole
  refine ⟨p, hp, fun rounds c f => ?_⟩
  unfold evaluateProgram
  rw [← Eval.stmts_erase, herase, Eval.stmts_erase, Eval.stmts, Eval.stmt,
    bind_of_done (Eval.expr_literal rounds c f h)]
  rfl

/-- A list of lists, with a number below zero and a string in which a quote, a backslash and a line
end are escaped. -/
theorem inspect_reads_back_nested :
    let v : Value := .list [.list [], .int ⟨-7, by decide, by decide⟩,
      .list [.str "é\"\\\n'", .bool false, .nil]]
    v.inspect = "[[], -7, [\"é\\\"\\\\\\n'\", false, nil]]" ∧
      ∃ p, parseProgram v.inspect = .ok p ∧
        ∀ rounds c f, evaluateProgram rounds c p f = .done (.ok v) f := by
  intro v
  exact ⟨by decide +kernel, inspect_reads_back (by decide +kernel) (by decide)⟩

end Calc

end CalcShell
