import CalcShell.Proofs.Calc.Environments
import CalcShell.Proofs.Calc.Offsets

/-!
# Evaluation in forests that agree

Two forests agree apart from some hidden names if they have the same scopes, with the same values of
all other names. A program that mentions none of the hidden names and has a value in one of them has
it in the other one too, also where loops may take more rounds, and leaves forests that agree.
-/

namespace CalcShell.Calc

/-! ## Forests -/

namespace Forest

/-- Two forests have the same scopes, and the same values of all names that are not hidden. -/
structure AgreeOff (hidden : List String) (f g : Forest) : Prop where
  parents : f.scopes.map Scope.parent = g.scopes.map Scope.parent
  values : ∀ i name, name ∉ hidden → f.get? i name = g.get? i name

namespace AgreeOff

variable {hidden : List String} {f g : Forest}

theorem refl (hidden : List String) (f : Forest) : AgreeOff hidden f f := ⟨rfl, fun _ _ _ => rfl⟩

theorem size (h : AgreeOff hidden f g) : f.size = g.size := size_congr h.parents

/-- A name that is not hidden has the same value in every scope. -/
theorem lookup (h : AgreeOff hidden f g) (i : ScopeId) {name : String} (hname : name ∉ hidden) :
    f.lookup i name = g.lookup i name :=
  lookup_congr h.parents (fun j => h.values j name hname) i

theorem holder? (h : AgreeOff hidden f g) (i : ScopeId) {name : String} (hname : name ∉ hidden) :
    f.holder? i name = g.holder? i name := by
  have hvalues : (fun j => (f.get? j name).isSome) = fun j => (g.get? j name).isSome :=
    funext fun j => by rw [h.values j name hname]
  rw [Forest.holder?, Forest.holder?, chain_congr h.parents, hvalues]

/-- A name is bound in both forests. -/
theorem define (h : AgreeOff hidden f g) (i : ScopeId) (name : String) (v : Value) :
    AgreeOff hidden (f.define i name v) (g.define i name v) where
  parents := by rw [parents_define, parents_define, h.parents]
  values j n hn := by rw [get?_define, get?_define, h.size, h.values j n hn]

/-- The nearest binding of a name that is not hidden is changed in both forests. -/
theorem assign (h : AgreeOff hidden f g) (i : ScopeId) {name : String} (hname : name ∉ hidden)
    (v : Value) : AgreeOff hidden (f.assign i name v) (g.assign i name v) := by
  rw [Forest.assign, Forest.assign, h.holder? i hname]
  exact h.define _ name v

/-- A hidden name is bound in one of the forests. -/
theorem define_hidden (h : AgreeOff hidden f g) (i : ScopeId) {name : String}
    (hname : name ∈ hidden) (v : Value) : AgreeOff hidden f (g.define i name v) where
  parents := by rw [parents_define, h.parents]
  values j n hn := by
    have hne : n ≠ name := fun heq => hn (heq ▸ hname)
    rw [get?_define, if_neg fun hcond => hne hcond.2.2, h.values j n hn]

end AgreeOff

end Forest

/-! ## Variables -/

mutual

/-- The variables that an expression reads, binds or changes. -/
def Expr.variables : Expr → List String
  | .nil | .bool _ | .int _ | .str _ | .receiver => []
  | .var name _ => [name]
  | .list items => Expr.variablesAll items
  | .unary _ e => e.variables
  | .binary _ l r => l.variables ++ r.variables
  | .index t i => t.variables ++ i.variables
  | .call _ args => Expr.variablesAll args
  | .block body => Stmt.variablesAll body
  | .cond t yes none => t.variables ++ Stmt.variablesAll yes
  | .cond t yes (some no) => t.variables ++ Stmt.variablesAll yes ++ Stmt.variablesAll no
  | .loop t body => t.variables ++ Stmt.variablesAll body

/-- The variables of expressions. -/
def Expr.variablesAll : List Expr → List String
  | [] => []
  | e :: es => e.variables ++ Expr.variablesAll es

/-- The variables of a statement. -/
def Stmt.variables : Stmt → List String
  | .define name e | .assign name e => name :: e.variables
  | .expr e => e.variables

/-- The variables of statements. -/
def Stmt.variablesAll : List Stmt → List String
  | [] => []
  | s :: ss => s.variables ++ Stmt.variablesAll ss

end

theorem Stmt.variablesAll_append (ss ts : List Stmt) :
    Stmt.variablesAll (ss ++ ts) = Stmt.variablesAll ss ++ Stmt.variablesAll ts := by
  induction ss with
  | nil => rfl
  | cons s ss ih =>
    rw [List.cons_append, Stmt.variablesAll, Stmt.variablesAll, ih, List.append_assoc]

mutual

/-- The variables of an expression do not depend on offsets. -/
theorem Expr.variables_erase (e : Expr) : e.erase.variables = e.variables := by
  cases e with
  | nil => rfl
  | bool b => rfl
  | int n => rfl
  | str s => rfl
  | receiver => rfl
  | var name offset => rfl
  | list items => simp only [Expr.erase, Expr.variables, Expr.variablesAll_erase items]
  | unary op e => simp only [Expr.erase, Expr.variables, Expr.variables_erase e]
  | binary op l r =>
    simp only [Expr.erase, Expr.variables, Expr.variables_erase l, Expr.variables_erase r]
  | index t i =>
    simp only [Expr.erase, Expr.variables, Expr.variables_erase t, Expr.variables_erase i]
  | call name args => simp only [Expr.erase, Expr.variables, Expr.variablesAll_erase args]
  | block body => simp only [Expr.erase, Expr.variables, Stmt.variablesAll_erase body]
  | cond t yes no =>
    cases no with
    | none =>
      simp only [Expr.erase, Expr.variables, Expr.variables_erase t, Stmt.variablesAll_erase yes]
    | some no =>
      simp only [Expr.erase, Expr.variables, Expr.variables_erase t, Stmt.variablesAll_erase yes,
        Stmt.variablesAll_erase no]
  | loop t body =>
    simp only [Expr.erase, Expr.variables, Expr.variables_erase t, Stmt.variablesAll_erase body]

theorem Expr.variablesAll_erase (es : List Expr) :
    Expr.variablesAll (Expr.eraseAll es) = Expr.variablesAll es := by
  cases es with
  | nil => rfl
  | cons e es =>
    simp only [Expr.eraseAll, Expr.variablesAll, Expr.variables_erase e,
      Expr.variablesAll_erase es]

theorem Stmt.variables_erase (s : Stmt) : s.erase.variables = s.variables := by
  cases s with
  | define name e => simp only [Stmt.erase, Stmt.variables, Expr.variables_erase e]
  | assign name e => simp only [Stmt.erase, Stmt.variables, Expr.variables_erase e]
  | expr e => simp only [Stmt.erase, Stmt.variables, Expr.variables_erase e]

/-- The variables of statements do not depend on offsets. -/
theorem Stmt.variablesAll_erase (ss : List Stmt) :
    Stmt.variablesAll (Stmt.eraseAll ss) = Stmt.variablesAll ss := by
  cases ss with
  | nil => rfl
  | cons s ss =>
    simp only [Stmt.eraseAll, Stmt.variablesAll, Stmt.variables_erase s,
      Stmt.variablesAll_erase ss]

end

/-! ## Evaluations that keep step -/

/-- An evaluation that has a result consists of two that have one. -/
theorem bind_eq_done {α β : Type} {m : Eval α} {k : α → Eval β} {f f' : Forest} {b : β}
    (h : (m >>= k) f = .done (.ok b) f') :
    ∃ a f₁, m f = .done (.ok a) f₁ ∧ k a f₁ = .done (.ok b) f' := by
  change (m f).bind _ = _ at h
  -- A course that waits for a session or was interrupted has no result.
  cases hm : m f with
  | done r f₁ =>
    rw [hm] at h
    cases r with
    | ok a => exact ⟨a, f₁, rfl, h⟩
    | error fault => cases h
  | interrupt i f₁ =>
    rw [hm] at h
    cases h
  | spent f₁ =>
    rw [hm] at h
    cases h
  | nest v f₁ resume =>
    rw [hm] at h
    cases h
  | attempt v f₁ resume =>
    rw [hm] at h
    cases h

theorem bind_of_done {α β : Type} {m : Eval α} {f f₁ : Forest} {a : α}
    (h : m f = .done (.ok a) f₁) (k : α → Eval β) : (m >>= k) f = k a f₁ := by
  change (m f).bind _ = _
  rw [h]
  rfl

/-- Behind a fault nothing is evaluated. -/
theorem bind_of_fault {α β : Type} {m : Eval α} {f f₁ : Forest} {fault : Fault}
    (h : m f = .done (.error fault) f₁) (k : α → Eval β) :
    (m >>= k) f = .done (.error fault) f₁ := by
  change (m f).bind _ = _
  rw [h]
  rfl

/-- The result that an evaluation has in a forest, and the forest that it leaves. -/
def Eval.result? {α : Type} (m : Eval α) (f : Forest) : Option (α × Forest) :=
  match m f with
  | .done (.ok a) f' => some (a, f')
  | _ => none

theorem Eval.eq_done_of_result? {α : Type} {m : Eval α} {f f' : Forest} {a : α}
    (h : Eval.result? m f = some (a, f')) : m f = .done (.ok a) f' := by
  unfold Eval.result? at h
  split at h
  · rename_i hm
    cases h
    exact hm
  · cases h

/-- Where the first evaluation has a result, the second one has it too in every forest that agrees,
and leaves a forest that agrees. -/
def Tracks {α : Type} (hidden : List String) (m m' : Eval α) : Prop :=
  ∀ ⦃f g f' : Forest⦄ ⦃a : α⦄, f.AgreeOff hidden g → m f = .done (.ok a) f' →
    ∃ g', m' g = .done (.ok a) g' ∧ f'.AgreeOff hidden g'

namespace Tracks

variable {α β : Type} {hidden : List String}

theorem pure (a : α) : Tracks hidden (Pure.pure a : Eval α) (Pure.pure a) := by
  intro f g f' b hfg h
  cases h
  exact ⟨g, rfl, hfg⟩

theorem bind {m m' : Eval α} {k k' : α → Eval β} (hm : Tracks hidden m m')
    (hk : ∀ a, Tracks hidden (k a) (k' a)) : Tracks hidden (m >>= k) (m' >>= k') := by
  intro f g f' b hfg h
  obtain ⟨a, f₁, h₁, h₂⟩ := bind_eq_done h
  obtain ⟨g₁, hg₁, hfg₁⟩ := hm hfg h₁
  rw [bind_of_done hg₁]
  exact hk a hfg₁ h₂

theorem ite (c : Prop) [Decidable c] {m m' k k' : Eval α} (hm : Tracks hidden m m')
    (hk : Tracks hidden k k') : Tracks hidden (if c then m else k) (if c then m' else k') := by
  by_cases hc : c
  · rw [if_pos hc, if_pos hc]
    exact hm
  · rw [if_neg hc, if_neg hc]
    exact hk

theorem lift (r : Except Failure α) : Tracks hidden (Eval.lift r) (Eval.lift r) := by
  cases r with
  | ok a => exact pure a
  | error e =>
    intro f g f' a _ h
    cases h

/-- A name that is not hidden has the same value. -/
theorem valueOf (c : Context) {name : String} (hname : name ∉ hidden) :
    Tracks hidden (Eval.valueOf c name) (Eval.valueOf c name) := by
  have hread : Tracks hidden (Evaluation.read fun f : Forest => f.lookup c.scope name)
      (Evaluation.read fun f : Forest => f.lookup c.scope name) := by
    intro f g f' a hfg h
    cases h
    have hlookup := (hfg.lookup c.scope hname).symm
    exact ⟨g, congrArg (fun v => Course.done (Except.ok v) g) hlookup, hfg⟩
  apply hread.bind
  intro found
  cases found with
  | none => exact lift _
  | some v => exact pure v

/-- A call that has a result depends on its arguments alone. -/
theorem call (name : String) (args : List Value) :
    Tracks hidden (Eval.call name args) (Eval.call name args) := by
  apply (lift _).bind
  intro effect
  -- To open a session or to exit is no result.
  cases effect with
  | give v => exact pure v
  | nest v =>
    intro f g f' a _ h
    cases h
  | exit status =>
    intro f g f' a _ h
    cases h

theorem change {change : Forest → Forest}
    (h : ∀ {f g : Forest}, f.AgreeOff hidden g → (change f).AgreeOff hidden (change g)) :
    Tracks hidden (Evaluation.change change) (Evaluation.change change) := by
  intro f g f' a hfg hf
  cases hf
  exact ⟨_, rfl, h hfg⟩

/-- A loop that ends within some rounds ends in the same way if it may take more. -/
theorem repeatWhile {test test' body body' : Eval Value} (ht : Tracks hidden test test')
    (hb : Tracks hidden body body') {rounds rounds' : Nat} (hr : rounds ≤ rounds') :
    Tracks hidden (Eval.repeatWhile test body rounds) (Eval.repeatWhile test' body' rounds') := by
  -- By induction on the rounds that the loop was allowed at first.
  induction rounds generalizing rounds' with
  | zero =>
    intro f g f' a _ h
    cases h
  | succ rounds ih =>
    obtain ⟨rounds', rfl⟩ : ∃ n, rounds' = n + 1 := ⟨rounds' - 1, by omega⟩
    rw [Eval.repeatWhile, Eval.repeatWhile]
    apply ht.bind
    intro v
    exact ite _ (hb.bind fun _ => ih (by omega)) (pure Value.nil)

end Tracks

namespace Eval

variable {hidden : List String} {rounds rounds' : Nat}

mutual

/-- An expression that mentions no hidden name. -/
theorem expr_tracks (hr : rounds ≤ rounds') (c : Context) (e : Expr)
    (he : ∀ n ∈ e.variables, n ∉ hidden) :
    Tracks hidden (expr rounds c e) (expr rounds' c e) := by
  cases e with
  | nil => exact .pure _
  | bool b => exact .pure _
  | int n => exact .pure _
  | str s => exact .pure _
  | receiver => exact .pure _
  | var name offset => exact .valueOf c (he name List.mem_cons_self)
  | list items => exact (exprs_tracks hr c items he).bind fun _ => .pure _
  | unary op e => exact (expr_tracks hr c e he).bind fun _ => .lift _
  | binary op l r =>
    obtain ⟨hl, hr'⟩ := List.forall_mem_append.1 he
    have hleft := expr_tracks hr c l hl
    have hright := expr_tracks hr c r hr'
    by_cases hand : op = .and
    · subst hand
      exact hleft.bind fun v => .ite _ hright (.pure v)
    by_cases hor : op = .or
    · subst hor
      exact hleft.bind fun v => .ite _ (.pure v) hright
    -- All other operators take the values of both operands.
    have hboth := hleft.bind fun v => hright.bind fun w => .lift (op.apply v w)
    cases op <;> first | contradiction | exact hboth
  | index t i =>
    obtain ⟨ht, hi⟩ := List.forall_mem_append.1 he
    exact (expr_tracks hr c t ht).bind fun _ => (expr_tracks hr c i hi).bind fun _ => .lift _
  | call name args => exact (exprs_tracks hr c args he).bind fun vs => .call name vs
  | block body => exact stmts_tracks hr c body he .nil
  | cond t yes no =>
    cases no with
    | none =>
      obtain ⟨ht, hyes⟩ := List.forall_mem_append.1 he
      exact (expr_tracks hr c t ht).bind fun v => .ite _ (stmts_tracks hr c yes hyes .nil) (.pure _)
    | some no =>
      obtain ⟨hfirst, hno⟩ := List.forall_mem_append.1 he
      obtain ⟨ht, hyes⟩ := List.forall_mem_append.1 hfirst
      exact (expr_tracks hr c t ht).bind fun v =>
        .ite _ (stmts_tracks hr c yes hyes .nil) (stmts_tracks hr c no hno .nil)
  | loop t body =>
    obtain ⟨ht, hbody⟩ := List.forall_mem_append.1 he
    exact .repeatWhile (expr_tracks hr c t ht) (stmts_tracks hr c body hbody .nil) hr

theorem exprs_tracks (hr : rounds ≤ rounds') (c : Context) (es : List Expr)
    (hes : ∀ n ∈ Expr.variablesAll es, n ∉ hidden) :
    Tracks hidden (exprs rounds c es) (exprs rounds' c es) := by
  cases es with
  | nil => exact .pure _
  | cons e es =>
    obtain ⟨he, hes⟩ := List.forall_mem_append.1 hes
    exact (expr_tracks hr c e he).bind fun _ => (exprs_tracks hr c es hes).bind fun _ => .pure _

theorem stmt_tracks (hr : rounds ≤ rounds') (c : Context) (s : Stmt)
    (hs : ∀ n ∈ s.variables, n ∉ hidden) :
    Tracks hidden (stmt rounds c s) (stmt rounds' c s) := by
  cases s with
  | define name e =>
    obtain ⟨-, he⟩ := List.forall_mem_cons.1 hs
    apply (expr_tracks hr c e he).bind
    intro v
    exact (Tracks.change fun h => h.define c.scope name v).bind fun _ => .pure v
  | assign name e =>
    obtain ⟨hname, he⟩ := List.forall_mem_cons.1 hs
    apply (expr_tracks hr c e he).bind
    intro v
    exact (Tracks.change fun h => h.assign c.scope hname v).bind fun _ => .pure v
  | expr e => exact expr_tracks hr c e hs

/-- Statements that mention no hidden name. -/
theorem stmts_tracks (hr : rounds ≤ rounds') (c : Context) (ss : List Stmt)
    (hss : ∀ n ∈ Stmt.variablesAll ss, n ∉ hidden) :
    ∀ last, Tracks hidden (stmts rounds c last ss) (stmts rounds' c last ss) := by
  cases ss with
  | nil => exact fun last => .pure last
  | cons s ss =>
    obtain ⟨hs, hss⟩ := List.forall_mem_append.1 hss
    exact fun last => (stmt_tracks hr c s hs).bind fun v => stmts_tracks hr c ss hss v

end

/-! ## The statements of a program in parts -/

variable {c : Context} {f f' : Forest}

/-- Statements that have a value, cut into two parts. -/
theorem stmts_append_done {ss ts : List Stmt} {last v : Value}
    (h : stmts rounds c last (ss ++ ts) f = .done (.ok v) f') :
    ∃ u f₁, stmts rounds c last ss f = .done (.ok u) f₁ ∧
      stmts rounds c u ts f₁ = .done (.ok v) f' := by
  induction ss generalizing last f with
  | nil => exact ⟨last, f, rfl, h⟩
  | cons s ss ih =>
    rw [List.cons_append, stmts] at h
    obtain ⟨u₁, f₁, hs, hrest⟩ := bind_eq_done h
    obtain ⟨u, f₂, hss, hts⟩ := ih hrest
    refine ⟨u, f₂, ?_, hts⟩
    rw [stmts, bind_of_done hs]
    exact hss

/-- The value before some statements has no bearing on the forest that they leave. -/
theorem stmts_last {ss : List Stmt} {last v : Value}
    (h : stmts rounds c last ss f = .done (.ok v) f') (last' : Value) :
    ∃ v', stmts rounds c last' ss f = .done (.ok v') f' := by
  cases ss with
  | nil =>
    cases h
    exact ⟨last', rfl⟩
  | cons s ss => exact ⟨v, h⟩

/-- A program that other statements follow is evaluated by itself, in a forest that agrees. -/
theorem evaluateProgram_tracks (hr : rounds ≤ rounds') {p : Program} {ts : List Stmt}
    (hp : ∀ n ∈ Stmt.variablesAll p, n ∉ hidden) {g : Forest} (hfg : f.AgreeOff hidden g)
    {last v : Value} (h : stmts rounds c last (p ++ ts) f = .done (.ok v) f') :
    ∃ w g₁ u f₁, evaluateProgram rounds' c p g = .done (.ok w) g₁ ∧ f₁.AgreeOff hidden g₁ ∧
      stmts rounds c u ts f₁ = .done (.ok v) f' := by
  obtain ⟨u, f₁, hfirst, hrest⟩ := stmts_append_done h
  obtain ⟨w, hw⟩ := stmts_last hfirst .nil
  obtain ⟨g₁, hg₁, hagree⟩ := stmts_tracks hr c p hp .nil hfg hw
  exact ⟨w, g₁, u, f₁, hg₁, hagree, hrest⟩

end Eval

end CalcShell.Calc
