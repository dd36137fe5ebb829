import CalcShell.Proofs.Calc.Evaluations
import CalcShell.Proofs.Calc.Grammar
import CalcShell.Proofs.Calc.Programs
import CalcShell.Proofs.Session.Courses

/-!
# How evaluations stop

An evaluation that gives no outcome stops by a request to end the program, whose status has 32 bits,
or by the end of the allowed rounds. Only loops count rounds, so a program without loops never comes
to the end of them, whatever the sessions that it opens give. A loop is read off a token `while`,
and this token stands in the source as it is written. The main statement is for sources: one in
which this word does not occur is evaluated to its end in any number of rounds.
-/

namespace CalcShell

/-! ## Stops in order -/

namespace Evaluation

variable {C σ α β : Type} {P : Stop → Prop}

/-- Every stop that an evaluation may come to satisfies `P`, whatever the state. -/
def Stops (P : Stop → Prop) (m : Evaluation C σ α) : Prop := ∀ s, (m s).Stops P

theorem pure_stops (a : α) : Stops P (pure a : Evaluation C σ α) := fun _ => trivial

theorem bind_stops {m : Evaluation C σ α} {f : α → Evaluation C σ β} (hm : Stops P m)
    (hf : ∀ a, Stops P (f a)) : Stops P (m >>= f) := by
  intro s
  refine (hm s).bind fun r s => ?_
  cases r with
  | error fault => trivial
  | ok a => exact hf a s

end Evaluation

namespace Calc

open Evaluation

/-! ## Evaluation -/

/-- Every request to end the program with a status of 32 bits satisfies `P`. -/
def AllowsExit (P : Stop → Prop) : Prop :=
  ∀ status : Int, -2 ^ 31 ≤ status ∧ status < 2 ^ 31 → P (.interrupt (.exit status))

/-- The status that a program is to end with has 32 bits. -/
theorem exitStatus_bounds {args : List Value} {status : Int} (h : exitStatus args = .ok status) :
    -2 ^ 31 ≤ status ∧ status < 2 ^ 31 := by
  unfold exitStatus at h
  split at h
  · cases h
    decide
  · split at h
    · rename_i hrange
      cases h
      unfold maxStatus at hrange
      omega
    · cases h
  · cases h
  · cases h

/-- A function that ends the program does so with a status of 32 bits. -/
theorem applyFunction_exit {name : String} {args : List Value} {status : Int}
    (h : applyFunction name args = .ok (.exit status)) : -2 ^ 31 ≤ status ∧ status < 2 ^ 31 := by
  obtain ⟨v, hgive⟩ | ⟨-, v, hnest⟩ | ⟨-, n, hstatus, hexit⟩ := applyFunction_eq_ok h
  · cases hgive
  · cases hnest
  · cases hexit
    exact exitStatus_bounds hstatus

namespace Eval

variable {P : Stop → Prop}

theorem lift_stops {α : Type} (x : Except Failure α) : Evaluation.Stops P (lift x) := by
  cases x with
  | error e => exact fun _ => trivial
  | ok a => exact fun _ => trivial

theorem valueOf_stops (c : Context) (name : String) : Evaluation.Stops P (valueOf c name) := by
  refine bind_stops (fun _ => trivial) fun v => ?_
  cases v with
  | none => exact lift_stops _
  | some v => exact pure_stops v

/-- A call stops only by a request to end the program. -/
theorem call_stops (hexit : AllowsExit P) (name : String) (args : List Value) :
    Evaluation.Stops P (call name args) := by
  unfold call
  cases h : applyFunction name args with
  | error e => exact fun _ => trivial
  | ok effect =>
    cases effect with
    | give v => exact fun _ => trivial
    | nest v => exact fun _ _ _ => trivial
    | exit status => exact fun _ => hexit status (applyFunction_exit h)

/-- Evaluations stop only by a request to end the program, loops apart. -/
theorem closed_stops (hexit : AllowsExit P) : Closed fun _ m => Evaluation.Stops P m where
  pure := pure_stops
  bind := bind_stops
  lift := lift_stops
  valueOf := valueOf_stops
  call := call_stops hexit
  define _ _ _ _ _ := trivial
  assign _ _ _ _ _ := trivial

end Eval

/-- Evaluating a source stops by a request to end the program or, if the source is a program with a
loop, by the end of the allowed rounds. -/
theorem evaluate_stops {P : Stop → Prop} (hexit : AllowsExit P) {source : String}
    (hloops : ∀ p, parseProgram source = .ok p → bodyLoops p = true → P .spent) (rounds : Nat)
    (c : Context) (f : Forest) : (evaluate rounds c source f).Stops P := by
  unfold evaluate
  split
  · trivial
  · rename_i p hp
    have hp := (Eval.closed_stops hexit).stmts rounds c .nil p fun h _ => hloops p hp h
    exact (hp f).bind fun _ _ => trivial

/-! ## Loops in sources -/

/-- Whether tokens contain the keyword of a loop. -/
def Repeats (ts : List Token) : Prop := ∃ t ∈ ts, t.kind = .kwWhile

theorem Repeats.left {ts : List Token} (us : List Token) (h : Repeats ts) : Repeats (ts ++ us) := by
  obtain ⟨t, ht, hk⟩ := h
  exact ⟨t, List.mem_append_left us ht, hk⟩

theorem Repeats.right (ts : List Token) {us : List Token} (h : Repeats us) :
    Repeats (ts ++ us) := by
  obtain ⟨t, ht, hk⟩ := h
  exact ⟨t, List.mem_append_right ts ht, hk⟩

theorem Repeats.cons (t : Token) {ts : List Token} (h : Repeats ts) : Repeats (t :: ts) :=
  h.right [t]

namespace Grammar

mutual

/-- Tokens that derive a loop contain its keyword. -/
theorem Binary.repeats : ∀ {tier ts e}, Binary tier ts e → e.loops = true → Repeats ts
  | _, _, _, .unary h, hl => h.repeats hl
  | _, _, _, .operand h, hl => h.repeats hl
  | _, _, _, .chain _ hleft _ _ hright, hl | _, _, _, .compare _ hleft _ _ hright, hl => by
    rw [Expr.loops, Bool.or_eq_true] at hl
    rcases hl with hl | hl
    · exact (hleft.repeats hl).left _
    · exact (((hright.repeats hl).right _).cons _).right _

theorem Unary.repeats : ∀ {ts e}, Unary ts e → e.loops = true → Repeats ts
  | _, _, .operand h, hl => h.repeats hl
  | _, _, .negative .., hl => nomatch hl
  | _, _, .operator _ h _, hl => (h.repeats hl).cons _

theorem Indexed.repeats : ∀ {ts e}, Indexed ts e → e.loops = true → Repeats ts
  | _, _, .primary h, hl => h.repeats hl
  | _, _, .index htarget _ _ hindex _ _, hl => by
    rw [Expr.loops, Bool.or_eq_true] at hl
    rcases hl with hl | hl
    · exact (htarget.repeats hl).left _
    · exact (((((hindex.repeats hl).right _).left _).left _).cons _).right _

theorem Primary.repeats : ∀ {ts e}, Primary ts e → e.loops = true → Repeats ts
  | _, _, .call _ _ hargs _, hl => (((hargs.repeats hl).left _).cons _).cons _
  | _, _, .parens _ _ h _ _, hl => ((((h.repeats hl).right _).left _).left _).cons _
  | _, _, .list _ hitems _, hl => ((hitems.repeats hl).left _).cons _
  | _, _, .block _ hbody _, hl => ((hbody.repeats hl).left _).cons _
  | _, _, .cond _ htest _ _ hyes _, hl => by
    simp only [Expr.loops, Bool.or_false, Bool.or_eq_true] at hl
    rcases hl with hl | hl
    · exact (((htest.repeats hl).left _).left _).cons _
    · exact ((((hyes.repeats hl).left _).cons _).right _).cons _
  | _, _, .condElse _ htest _ _ hyes _ hno _, hl => by
    simp only [Expr.loops, Bool.or_eq_true] at hl
    rcases hl with (hl | hl) | hl
    · exact (((htest.repeats hl).left _).left _).cons _
    · exact ((((hyes.repeats hl).left _).cons _).right _).cons _
    · exact ((((((hno.repeats hl).left _).cons _).right _).cons _).right _).cons _
  | _, _, .loop hw _ _ _ _ _, _ => ⟨_, List.mem_cons_self, hw⟩
  | _, _, .int .., hl | _, _, .str .., hl | _, _, .true .., hl | _, _, .false .., hl => nomatch hl
  | _, _, .nil .., hl | _, _, .receiver .., hl | _, _, .var .., hl => nomatch hl

theorem Items.repeats : ∀ {ts es}, Items ts es → anyLoops es = true → Repeats ts
  | _, _, .none _, hl => nomatch hl
  | _, _, .last _ h _, hl => by
    rw [anyLoops, anyLoops, Bool.or_false] at hl
    exact ((h.repeats hl).right _).left _
  | _, _, .more _ h _ _ hrest, hl => by
    rw [anyLoops, Bool.or_eq_true] at hl
    rcases hl with hl | hl
    · exact (((h.repeats hl).right _).left _).left _
    · exact ((hrest.repeats hl).cons _).right _

theorem Statement.repeats : ∀ {ts a}, Statement ts a → a.loops = true → Repeats ts
  | _, _, .define _ _ _ _ h, hl => ((((h.repeats hl).right _).cons _).cons _).cons _
  | _, _, .assign _ _ _ h, hl => (((h.repeats hl).right _).cons _).cons _
  | _, _, .expr h, hl => h.repeats hl

theorem Statements.repeats : ∀ {ts body}, Statements ts body → bodyLoops body = true → Repeats ts
  | _, _, .one h, hl => by
    rw [bodyLoops, bodyLoops, Bool.or_false] at hl
    exact h.repeats hl
  | _, _, .cons h _ _ hrest, hl => by
    rw [bodyLoops, Bool.or_eq_true] at hl
    rcases hl with hl | hl
    · exact ((h.repeats hl).left _).left _
    · exact (hrest.repeats hl).right _

theorem Block.repeats : ∀ {ts body}, Block ts body → bodyLoops body = true → Repeats ts
  | _, _, .empty _, hl => nomatch hl
  | _, _, .body _ h _, hl => ((h.repeats hl).right _).left _

end

end Grammar

/-- The keyword of a loop is written as it is. -/
theorem eq_of_wordKind_while {word : List Char} (h : wordKind word = .kwWhile) :
    word = "while".toList := by
  unfold wordKind TokenKind.keyword? at h
  split at h
  case h_7 hword => rw [← hword, String.toList_ofList]
  all_goals cases h

/-- The keyword of a loop stands in the source. -/
theorem infix_of_repeats {p : Position} {cs : List Char} {s : TokenStream}
    (h : lexFrom p cs = .ok s) (hs : Repeats s.tokens) : "while".toList <:+: cs := by
  obtain ⟨t, ht, hwhile⟩ := hs
  obtain ⟨raw, rest, hinfix, hspelling⟩ := (lexFrom_tiles h).1.spelled t ht
  rw [hwhile] at hspelling
  -- The keyword is a word, and so it is written as its kind says.
  rcases hspelling.plain_or_word with hplain | hword
  · exact absurd hplain (by decide)
  · rwa [← eq_of_wordKind_while hword.symm]

/-- A program with a loop is read off a source in which the word `while` occurs. -/
theorem infix_of_loops {source : String} {p : Program} (h : parseProgram source = .ok p)
    (hloops : bodyLoops p = true) : "while".toList <:+: source.toList := by
  obtain ⟨s, t, hlex, hbody⟩ := parseWithin_ok (parseProgram_eq source ▸ h)
  obtain ⟨-, used, hused, hblock⟩ :=
    statements_spells (exprWithin_spells maxNesting) [] s p t hbody
  have hrepeats : Repeats s.tokens := hused ▸ (hblock.repeats hloops).left t.tokens
  exact infix_of_repeats (lexFrom_of_lex hlex) hrepeats

/-- A source in which the word `while` does not occur is evaluated to its end, or to a request to
end the program, in any number of rounds. -/
theorem evaluate_ne_spent {source : String} (h : ¬"while".toList <:+: source.toList) (rounds : Nat)
    (c : Context) (f : Forest) : (evaluate rounds c source f).Stops (· ≠ .spent) := by
  refine evaluate_stops (fun _ _ => by simp) (fun p hp hloops => ?_) rounds c f
  exact absurd (infix_of_loops hp hloops) h

end Calc

end CalcShell
