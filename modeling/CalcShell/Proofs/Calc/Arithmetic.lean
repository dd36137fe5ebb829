import CalcShell.Proofs.Calc.Agreement

/-!
# Arithmetic is exact

Expressions of numbers, variables that mean numbers, signs and the five operations have a value over
the integers without bounds (`Expr.precise?`). Evaluating one either gives just this value or fails
with one of two faults, and then it has come to a calculation that is to blame for it (`Performs`):
a division by zero, or one whose exact result is no number (`arithmetic_exact`).

A remainder counts as out of range where its quotient is, which is the case for the least number and
minus one alone (`minNumber_of_tdiv`).
-/

namespace CalcShell

/-! ## Numbers -/

/-- The only quotient of two numbers that is out of range is that of the least one and minus one. -/
theorem Number.minNumber_of_tdiv {a b : Number}
    (h : a.toInt.tdiv b.toInt < minNumber ∨ maxNumber < a.toInt.tdiv b.toInt) :
    a.toInt = minNumber ∧ b.toInt = -1 := by
  have hmin := a.min_le
  have hmax := a.le_max
  generalize a.toInt = a at h hmin hmax ⊢
  generalize b.toInt = b at h ⊢
  unfold minNumber maxNumber at *
  have habs : (a.tdiv b).natAbs = a.natAbs / b.natAbs := Int.natAbs_tdiv a b
  by_cases hb : 2 ≤ b.natAbs
  · -- The quotient is at most half as large.
    have hhalf : a.natAbs / b.natAbs ≤ a.natAbs / 2 := Nat.div_le_div_left hb (by decide)
    omega
  · obtain rfl | rfl | rfl : b = 0 ∨ b = 1 ∨ b = -1 := by omega
    · rw [Int.tdiv_zero] at h
      omega
    · rw [Int.tdiv_one] at h
      omega
    · rw [Int.tdiv_neg, Int.tdiv_one] at h
      omega

namespace Calc

/-! ## Exact values -/

/-- The operations on two numbers. -/
def calculations : List BinaryOp := [.add, .sub, .mul, .div, .rem]

/-- The exact result of an operation on integers, where a quotient is cut off toward zero. A
division by zero has none. -/
def BinaryOp.precise? (op : BinaryOp) (x y : Int) : Option Int :=
  match op with
  | .add => some (x + y)
  | .sub => some (x - y)
  | .mul => some (x * y)
  | .div => if y = 0 then none else some (x.tdiv y)
  | .rem => if y = 0 then none else some (x.tmod y)
  | _ => none

/-- The value of an expression over the integers without bounds, for given values of variables. -/
def Expr.precise? (value? : String → Option Int) : Expr → Option Int
  | .int n => some n.toInt
  | .var name _ => value? name
  | .unary .neg e => (e.precise? value?).map fun x => -x
  | .binary op l r =>
    (l.precise? value?).bind fun x => (r.precise? value?).bind fun y => op.precise? x y
  | _ => none

/-- The integer that a name means in a scope, if it means a number. -/
def Forest.integer? (f : Forest) (i : ScopeId) (name : String) : Option Int :=
  match f.lookup i name with
  | some (.int n) => some n.toInt
  | _ => none

/-- Expressions of numbers, variables that mean numbers in the scope, signs and the operations on
two numbers. -/
inductive Arithmetic (f : Forest) (i : ScopeId) : Expr → Prop where
  | int (n : Number) : Arithmetic f i (.int n)
  | var {name : String} {n : Number} (offset : Nat) : f.lookup i name = some (.int n) →
    Arithmetic f i (.var name offset)
  | neg {e : Expr} : Arithmetic f i e → Arithmetic f i (.unary .neg e)
  | binary {op : BinaryOp} {l r : Expr} : op ∈ calculations → Arithmetic f i l →
    Arithmetic f i r → Arithmetic f i (.binary op l r)

/-! ## What is calculated -/

/-- An operation on numbers. -/
inductive Calculation where
  | neg (a : Number)
  | on (op : BinaryOp) (a b : Number)

namespace Calculation

/-- The exact result of a calculation. -/
def precise? : Calculation → Option Int
  | .neg a => some (-a.toInt)
  | .on op a b => op.precise? a.toInt b.toInt

/-- The calculation is a division by zero. -/
def DividesByZero (x : Calculation) : Prop :=
  ∃ op a b, x = .on op a b ∧ (op = .div ∨ op = .rem) ∧ b.toInt = 0

/-- The exact result of the calculation is out of range, or it is the remainder of the least number
and minus one. -/
def Overflows (x : Calculation) : Prop :=
  (∃ z, x.precise? = some z ∧ (z < minNumber ∨ maxNumber < z)) ∨
    ∃ a b, x = .on .rem a b ∧ a.toInt = minNumber ∧ b.toInt = -1

end Calculation

/-- What a calculation gives: the exact result or one of two failures, for which the calculation
itself is to blame. -/
inductive Calculated (x : Calculation) : Except Failure Value → Prop where
  | exact {n : Number} : x.precise? = some n.toInt → Calculated x (.ok (.int n))
  | zero : x.DividesByZero → Calculated x (.error .zeroDivisor)
  | overflow : x.Overflows → Calculated x (.error .overflow)

/-- A number for the exact result, if it is in range. -/
theorem Calculated.of_ofInt? {x : Calculation} {z : Int} (h : x.precise? = some z) :
    Calculated x (Calc.exact (Number.ofInt? z)) := by
  unfold Calc.exact
  split
  · rename_i n hn
    rw [Number.ofInt?_eq_some] at hn
    exact .exact (hn ▸ h)
  · rename_i hn
    exact .overflow (.inl ⟨z, h, Number.ofInt?_eq_none.1 hn⟩)

theorem UnaryOp.neg_calculated (a : Number) :
    Calculated (.neg a) (UnaryOp.neg.apply (.int a)) :=
  .of_ofInt? rfl

theorem BinaryOp.apply_calculated {op : BinaryOp} (hop : op ∈ calculations) (a b : Number) :
    Calculated (.on op a b) (op.apply (.int a) (.int b)) := by
  simp only [calculations, List.mem_cons, List.not_mem_nil, or_false] at hop
  rcases hop with rfl | rfl | rfl | rfl | rfl
  · exact .of_ofInt? rfl
  · exact .of_ofInt? rfl
  · exact .of_ofInt? rfl
  · change Calculated _ (if b.toInt = 0 then .error .zeroDivisor else Calc.exact (a.div? b))
    split
    · rename_i hb
      exact .zero ⟨.div, a, b, rfl, .inl rfl, hb⟩
    · rename_i hb
      exact .of_ofInt? (if_neg hb)
  · change Calculated _ (if b.toInt = 0 then .error .zeroDivisor else Calc.exact (a.rem? b))
    split
    · rename_i hb
      exact .zero ⟨.rem, a, b, rfl, .inr rfl, hb⟩
    · rename_i hb
      -- Where there is no quotient there is no remainder.
      unfold Number.rem?
      cases hdiv : a.div? b with
      | none =>
        have hout := Number.ofInt?_eq_none.1 hdiv
        exact .overflow (.inr ⟨a, b, rfl, Number.minNumber_of_tdiv hout⟩)
      | some q => exact .of_ofInt? (if_neg hb)

/-- Evaluating an expression in a context performs a calculation: both operands were evaluated to
numbers, and nothing has failed before. -/
inductive Performs (rounds : Nat) (c : Context) (f : Forest) : Expr → Calculation → Prop where
  | neg {e : Expr} {a : Number} : Eval.expr rounds c e f = .done (.ok (.int a)) f →
    Performs rounds c f (.unary .neg e) (.neg a)
  | operand {e : Expr} {x : Calculation} : Performs rounds c f e x →
    Performs rounds c f (.unary .neg e) x
  | binary {op : BinaryOp} {l r : Expr} {a b : Number} :
    Eval.expr rounds c l f = .done (.ok (.int a)) f →
    Eval.expr rounds c r f = .done (.ok (.int b)) f →
    Performs rounds c f (.binary op l r) (.on op a b)
  | left {op : BinaryOp} {l r : Expr} {x : Calculation} : Performs rounds c f l x →
    Performs rounds c f (.binary op l r) x
  | right {op : BinaryOp} {l r : Expr} {a : Number} {x : Calculation} :
    Eval.expr rounds c l f = .done (.ok (.int a)) f → Performs rounds c f r x →
    Performs rounds c f (.binary op l r) x

/-! ## Expressions -/

section Expressions

variable (rounds : Nat) {c : Context} {f : Forest}

/-- The operands of an operation on numbers are evaluated one after the other. -/
theorem Eval.expr_calculation {op : BinaryOp} (hop : op ∈ calculations) (l r : Expr) :
    Eval.expr rounds c (.binary op l r) =
      Eval.expr rounds c l >>= fun v => Eval.expr rounds c r >>= fun w =>
        Eval.lift (op.apply v w) := by
  rw [Eval.expr]
  · rintro rfl
    exact absurd hop (by decide)
  · rintro rfl
    exact absurd hop (by decide)

/-- An expression gives its exact value, or a calculation that it performs fails, and it fails for
the same. -/
theorem Arithmetic.evaluates {e : Expr} (h : Arithmetic f c.scope e) :
    (∃ n : Number, Eval.expr rounds c e f = .done (.ok (.int n)) f ∧
        e.precise? (f.integer? c.scope) = some n.toInt) ∨
      ∃ x failure, Eval.expr rounds c e f = .done (.error failure.fault) f ∧
        Performs rounds c f e x ∧ Calculated x (.error failure) := by
  -- By induction on the expression. What fails first ends the evaluation of all that it is part of.
  induction h with
  | int n => exact .inl ⟨n, rfl, rfl⟩
  | @var name n offset hlookup =>
    refine .inl ⟨n, ?_, ?_⟩
    · have hread : (Evaluation.read (·.lookup c.scope name) : Eval (Option Value)) f =
          .done (.ok (some (.int n))) f := by
        change Course.done (Except.ok (f.lookup c.scope name)) f = _
        rw [hlookup]
      rw [Eval.expr, Eval.valueOf, bind_of_done hread]
      rfl
    · unfold Expr.precise? Forest.integer?
      rw [hlookup]
  | @neg e _ ih =>
    rw [Eval.expr]
    rcases ih with ⟨a, ha, hexact⟩ | ⟨x, failure, hfault, hx, hfailure⟩
    · rw [bind_of_done ha]
      have hneg := UnaryOp.neg_calculated a
      generalize UnaryOp.neg.apply (.int a) = result at hneg ⊢
      cases result with
      | error failure => exact .inr ⟨.neg a, failure, rfl, .neg ha, hneg⟩
      | ok v =>
        cases hneg with
        | @exact n hn =>
          refine .inl ⟨n, rfl, ?_⟩
          unfold Expr.precise?
          rw [hexact]
          exact hn
    · exact .inr ⟨x, failure, bind_of_fault hfault _, .operand hx, hfailure⟩
  | @binary op l r hop _ _ ihl ihr =>
    rw [Eval.expr_calculation rounds hop]
    rcases ihl with ⟨a, ha, hexactl⟩ | ⟨x, failure, hfault, hx, hfailure⟩
    · rw [bind_of_done ha]
      rcases ihr with ⟨b, hb, hexactr⟩ | ⟨x, failure, hfault, hx, hfailure⟩
      · rw [bind_of_done hb]
        have happly := BinaryOp.apply_calculated hop a b
        generalize op.apply (.int a) (.int b) = result at happly ⊢
        cases result with
        | error failure => exact .inr ⟨.on op a b, failure, rfl, .binary ha hb, happly⟩
        | ok v =>
          cases happly with
          | @exact n hn =>
            refine .inl ⟨n, rfl, ?_⟩
            unfold Expr.precise?
            rw [hexactl, hexactr]
            exact hn
      · exact .inr ⟨x, failure, bind_of_fault hfault _, .right ha hx, hfailure⟩
    · exact .inr ⟨x, failure, bind_of_fault hfault _, .left hx, hfailure⟩

end Expressions

/-! ## Quotients and remainders -/

/-- Quotient and remainder give back what was divided. The remainder is smaller than the divisor,
and it is zero or has the sign of what was divided. -/
theorem BinaryOp.precise?_division {x y : Int} (hy : y ≠ 0) :
    ∃ q r, BinaryOp.div.precise? x y = some q ∧ BinaryOp.rem.precise? x y = some r ∧ x = q * y + r ∧
      r.natAbs < y.natAbs ∧ (r = 0 ∨ r.sign = x.sign) := by
  refine ⟨x.tdiv y, x.tmod y, if_neg hy, if_neg hy, ?_, ?_, ?_⟩
  · rw [Int.mul_comm]
    exact (Int.mul_tdiv_add_tmod x y).symm
  · rw [Int.natAbs_tmod]
    exact Nat.mod_lt _ (Int.natAbs_pos.2 hy)
  · rcases Int.lt_trichotomy x 0 with hx | rfl | hx
    · have hle : x.tmod y ≤ 0 := by
        have := Int.tmod_nonneg y (a := -x) (by omega)
        rw [Int.neg_tmod] at this
        omega
      rcases Int.lt_or_eq_of_le hle with hlt | heq
      · exact .inr (by rw [Int.sign_eq_neg_one_of_neg hlt, Int.sign_eq_neg_one_of_neg hx])
      · exact .inl heq
    · exact .inl (Int.zero_tmod y)
    · rcases Int.lt_or_eq_of_le (Int.tmod_nonneg y (Int.le_of_lt hx)) with hlt | heq
      · exact .inr (by rw [Int.sign_eq_one_of_pos hlt, Int.sign_eq_one_of_pos hx])
      · exact .inl heq.symm

/-- Two numbers have a remainder where they have a quotient. -/
theorem Number.rem?_eq_none {a b : Number} : a.rem? b = none ↔ a.div? b = none := by
  unfold Number.rem?
  cases hdiv : a.div? b with
  | none => exact Iff.rfl
  | some q =>
    -- The remainder is smaller than the divisor, or is what was divided.
    have hrange : ¬(a.toInt.tmod b.toInt < minNumber ∨ maxNumber < a.toInt.tmod b.toInt) := by
      have habs : (a.toInt.tmod b.toInt).natAbs = a.toInt.natAbs % b.toInt.natAbs :=
        Int.natAbs_tmod a.toInt b.toInt
      have hsmall : b.toInt ≠ 0 → a.toInt.natAbs % b.toInt.natAbs < b.toInt.natAbs :=
        fun hb => Nat.mod_lt _ (Int.natAbs_pos.2 hb)
      have hzero : b.toInt = 0 → a.toInt.tmod b.toInt = a.toInt := by
        intro hb
        rw [hb, Int.tmod_zero]
      have hmina := a.min_le
      have hmaxa := a.le_max
      have hminb := b.min_le
      have hmaxb := b.le_max
      unfold minNumber maxNumber at *
      omega
    constructor
    · intro hnone
      exact absurd (Number.ofInt?_eq_none.1 hnone) hrange
    · intro hnone
      cases hnone

/-- A quotient and a remainder fail for the same values, and with the same class of fault. -/
theorem BinaryOp.div_rem_fail (v w : Value) (kind : String) :
    (∃ x, BinaryOp.div.apply v w = .error x ∧ x.fault.kind = kind) ↔
      ∃ x, BinaryOp.rem.apply v w = .error x ∧ x.fault.kind = kind := by
  cases v with
  | int a =>
    cases w with
    | int b =>
      change (∃ x, (if b.toInt = 0 then .error .zeroDivisor else exact (a.div? b)) = _ ∧ _) ↔
        ∃ x, (if b.toInt = 0 then .error .zeroDivisor else exact (a.rem? b)) = _ ∧ _
      by_cases hb : b.toInt = 0
      · rw [if_pos hb, if_pos hb]
      · rw [if_neg hb, if_neg hb]
        have hnone := Number.rem?_eq_none (a := a) (b := b)
        cases hdiv : a.div? b with
        | none => rw [hnone.2 hdiv]
        | some q =>
          cases hrem : a.rem? b with
          | none =>
            rw [hnone.1 hrem] at hdiv
            cases hdiv
          | some r => simp [exact]
    | _ => simp [BinaryOp.apply, Failure.fault]
  | _ => cases w <;> simp [BinaryOp.apply, Failure.fault]

/-! ## The main result -/

/-- An expression of numbers evaluates to its exact value, or fails because something is divided by
zero, or because an exact result is out of range. Quotients are cut off toward zero and remainders
go with them, and the two fail for the same operands. -/
theorem arithmetic_exact (rounds : Nat) {c : Context} {f : Forest} {e : Expr}
    (h : Arithmetic f c.scope e) :
    ((∃ n : Number, Eval.expr rounds c e f = .done (.ok (.int n)) f ∧
        e.precise? (f.integer? c.scope) = some n.toInt) ∨
      (∃ message, Eval.expr rounds c e f = .done (.error ⟨"ZeroDivisionError", message⟩) f ∧
        ∃ x, Performs rounds c f e x ∧ x.DividesByZero) ∨
      ∃ message, Eval.expr rounds c e f = .done (.error ⟨"RangeError", message⟩) f ∧
        ∃ x, Performs rounds c f e x ∧ x.Overflows) ∧
    (∀ x y : Int, y ≠ 0 → ∃ q r, BinaryOp.div.precise? x y = some q ∧
      BinaryOp.rem.precise? x y = some r ∧ x = q * y + r ∧ r.natAbs < y.natAbs ∧
      (r = 0 ∨ r.sign = x.sign)) ∧
    ∀ (v w : Value) (kind : String),
      (∃ x, BinaryOp.div.apply v w = .error x ∧ x.fault.kind = kind) ↔
        ∃ x, BinaryOp.rem.apply v w = .error x ∧ x.fault.kind = kind := by
  refine ⟨?_, fun _ _ => BinaryOp.precise?_division, BinaryOp.div_rem_fail⟩
  rcases h.evaluates rounds with hexact | ⟨x, failure, hfault, hx, hfailure⟩
  · exact .inl hexact
  · cases hfailure with
    | zero hzero => exact .inr (.inl ⟨_, hfault, x, hx, hzero⟩)
    | overflow hover => exact .inr (.inr ⟨_, hfault, x, hx, hover⟩)

/-- The remainder of the least number and minus one is out of range, and then nothing is divided by
zero any more. -/
theorem arithmetic_exact_least_rem :
    let least : Number := ⟨minNumber, by decide, by decide⟩
    let f : Forest := ⟨[{ bindings := [("x", .int least)] }, { parent := some 0 }]⟩
    let e : Expr := .binary .add
      (.binary .rem (.var "x" 0) (.unary .neg (.int ⟨1, by decide, by decide⟩)))
      (.binary .div (.int ⟨1, by decide, by decide⟩) (.int 0))
    Arithmetic f 1 e ∧
      ∃ message x, Eval.expr 0 ⟨.main, 1⟩ e f = .done (.error ⟨"RangeError", message⟩) f ∧
        Performs 0 ⟨.main, 1⟩ f e x ∧ x.Overflows := by
  intro least f e
  have he : Arithmetic f 1 e :=
    .binary (by decide) (.binary (by decide) (.var 0 rfl) (.neg (.int _)))
      (.binary (by decide) (.int _) (.int _))
  have hrange : Eval.expr 0 ⟨.main, 1⟩ e f =
      .done (.error ⟨"RangeError", "integer overflow"⟩) f := rfl
  obtain ⟨⟨n, hexact, -⟩ | ⟨message, hzero, -⟩ | ⟨message, hover, x, hx, hout⟩, -⟩ :=
    arithmetic_exact 0 (c := ⟨.main, 1⟩) he
  · rw [hrange] at hexact
    cases hexact
  · rw [hrange] at hzero
    exact absurd hzero (by simp)
  · exact ⟨he, message, x, hover, hx, hout⟩

end Calc

end CalcShell
