import CalcShell.Calc.Host
import CalcShell.Proofs.Calc.Environments
import CalcShell.Proofs.Session.Courses

/-!
# What holds of all evaluations

A program is evaluated by a few kinds of evaluations, put together in order. What holds of each kind
and is kept by putting them together (`Eval.Closed`) holds of every program
(`Eval.Closed.stmts`), and the one induction on the tree that this takes is here
(`Eval.ClosedFor.stmts`). A loop alone may come to the end of the allowed rounds, so this is asked
for only where there is one. Where only some names may be bound (`Eval.ClosedOn`), or only some
deeds be done in one context (`Eval.ClosedFor`), this is asked of what the program binds or does.

As a first case, an evaluation never takes a scope away: the forest that it leaves, and the one that
it hands to a session, are at least as large as the one it began with (`evaluate_keeps`).
-/

namespace CalcShell.Calc

/-! ## Loops in trees -/

mutual

/-- Whether an expression has a loop in it. -/
def Expr.loops : Expr → Bool
  | .nil | .bool _ | .int _ | .str _ | .receiver | .var _ _ => false
  | .list items => anyLoops items
  | .unary _ e => e.loops
  | .binary _ l r => l.loops || r.loops
  | .index t i => t.loops || i.loops
  | .call _ args => anyLoops args
  | .block body => bodyLoops body
  | .cond t yes no => t.loops || bodyLoops yes || match no with
    | none => false
    | some body => bodyLoops body
  | .loop _ _ => true

/-- Whether one of some expressions has a loop in it. -/
def anyLoops : List Expr → Bool
  | [] => false
  | e :: es => e.loops || anyLoops es

/-- Whether a statement has a loop in it. -/
def Stmt.loops : Stmt → Bool
  | .define _ e | .assign _ e | .expr e => e.loops

/-- Whether one of some statements has a loop in it. -/
def bodyLoops : List Stmt → Bool
  | [] => false
  | s :: ss => s.loops || bodyLoops ss

end

/-! ## Names that trees bind -/

mutual

/-- The names that an expression binds or changes. -/
def Expr.bound : Expr → List String
  | .nil | .bool _ | .int _ | .str _ | .receiver | .var _ _ => []
  | .list items => Expr.boundAll items
  | .unary _ e => e.bound
  | .binary _ l r => l.bound ++ r.bound
  | .index t i => t.bound ++ i.bound
  | .call _ args => Expr.boundAll args
  | .block body => Stmt.boundAll body
  | .cond t yes none => t.bound ++ Stmt.boundAll yes
  | .cond t yes (some no) => t.bound ++ Stmt.boundAll yes ++ Stmt.boundAll no
  | .loop t body => t.bound ++ Stmt.boundAll body

/-- The names that expressions bind or change. -/
def Expr.boundAll : List Expr → List String
  | [] => []
  | e :: es => e.bound ++ Expr.boundAll es

/-- The names that a statement binds or changes. -/
def Stmt.bound : Stmt → List String
  | .define name e | .assign name e => name :: e.bound
  | .expr e => e.bound

/-- The names that statements bind or change. -/
def Stmt.boundAll : List Stmt → List String
  | [] => []
  | s :: ss => s.bound ++ Stmt.boundAll ss

end

/-! ## Deeds of trees -/

/-- What evaluating a tree may do beyond giving a value. -/
inductive Deed where
  /-- To bind a name in the scope of the context. -/
  | define (name : String)
  /-- To change a name, or to bind it if it means nothing. -/
  | assign (name : String)
  /-- To call a function. -/
  | call (name : String)
deriving DecidableEq

/-- The name that is bound or changed. -/
def Deed.target? : Deed → Option String
  | .define name | .assign name => some name
  | .call _ => none

mutual

/-- The deeds of an expression. -/
def Expr.deeds : Expr → List Deed
  | .nil | .bool _ | .int _ | .str _ | .receiver | .var _ _ => []
  | .list items => Expr.deedsAll items
  | .unary _ e => e.deeds
  | .binary _ l r => l.deeds ++ r.deeds
  | .index t i => t.deeds ++ i.deeds
  | .call name args => .call name :: Expr.deedsAll args
  | .block body => Stmt.deedsAll body
  | .cond t yes none => t.deeds ++ Stmt.deedsAll yes
  | .cond t yes (some no) => t.deeds ++ Stmt.deedsAll yes ++ Stmt.deedsAll no
  | .loop t body => t.deeds ++ Stmt.deedsAll body

/-- The deeds of expressions. -/
def Expr.deedsAll : List Expr → List Deed
  | [] => []
  | e :: es => e.deeds ++ Expr.deedsAll es

/-- The deeds of a statement. -/
def Stmt.deeds : Stmt → List Deed
  | .define name e => .define name :: e.deeds
  | .assign name e => .assign name :: e.deeds
  | .expr e => e.deeds

/-- The deeds of statements. -/
def Stmt.deedsAll : List Stmt → List Deed
  | [] => []
  | s :: ss => s.deeds ++ Stmt.deedsAll ss

end

mutual

/-- The names that an expression binds or changes are the targets of its deeds. -/
theorem Expr.bound_eq (e : Expr) : e.bound = e.deeds.filterMap Deed.target? := by
  cases e with
  | nil | bool | int | str | receiver | var => rfl
  | list items => exact Expr.boundAll_eq items
  | unary op e => exact Expr.bound_eq e
  | binary op l r => rw [Expr.bound, Expr.deeds, List.filterMap_append, l.bound_eq, r.bound_eq]
  | index t i => rw [Expr.bound, Expr.deeds, List.filterMap_append, t.bound_eq, i.bound_eq]
  | call name args => exact Expr.boundAll_eq args
  | block body => exact Stmt.boundAll_eq body
  | cond t yes no =>
    cases no with
    | none =>
      rw [Expr.bound, Expr.deeds, List.filterMap_append, t.bound_eq, Stmt.boundAll_eq yes]
    | some no =>
      rw [Expr.bound, Expr.deeds, List.filterMap_append, List.filterMap_append, t.bound_eq,
        Stmt.boundAll_eq yes, Stmt.boundAll_eq no]
  | loop t body =>
    rw [Expr.bound, Expr.deeds, List.filterMap_append, t.bound_eq, Stmt.boundAll_eq body]

theorem Expr.boundAll_eq (es : List Expr) :
    Expr.boundAll es = (Expr.deedsAll es).filterMap Deed.target? := by
  cases es with
  | nil => rfl
  | cons e es =>
    rw [Expr.boundAll, Expr.deedsAll, List.filterMap_append, e.bound_eq, Expr.boundAll_eq es]

theorem Stmt.bound_eq (s : Stmt) : s.bound = s.deeds.filterMap Deed.target? := by
  cases s with
  | define name e => exact congrArg (name :: ·) e.bound_eq
  | assign name e => exact congrArg (name :: ·) e.bound_eq
  | expr e => exact e.bound_eq

theorem Stmt.boundAll_eq (ss : List Stmt) :
    Stmt.boundAll ss = (Stmt.deedsAll ss).filterMap Deed.target? := by
  cases ss with
  | nil => rfl
  | cons s ss =>
    rw [Stmt.boundAll, Stmt.deedsAll, List.filterMap_append, s.bound_eq, Stmt.boundAll_eq ss]

end

/-- What holds of all targets holds of the target of each deed. -/
theorem Deed.targets {N : String → Prop} {ds : List Deed}
    (h : ∀ n ∈ ds.filterMap Deed.target?, N n) {d : Deed} (hd : d ∈ ds) {n : String}
    (hn : d.target? = some n) : N n :=
  h n (List.mem_filterMap.2 ⟨d, hd, hn⟩)

/-! ## Effects of functions -/

/-- Where a result was mapped, there was one. -/
theorem exists_of_map_eq_ok {ε α β : Type} {x : Except ε α} {k : α → β} {b : β}
    (h : x.map k = .ok b) : ∃ a, x = .ok a ∧ k a = b := by
  cases x with
  | error e => cases h
  | ok a =>
    cases h
    exact ⟨a, rfl, rfl⟩

/-- A function gives a value, but for the one that opens a session and the one that ends the
program. -/
theorem applyFunction_eq_ok {name : String} {args : List Value} {effect : Effect}
    (h : applyFunction name args = .ok effect) :
    (∃ v, effect = .give v) ∨ (name = "nest" ∧ ∃ v, effect = .nest v) ∨
      (name = "exit" ∧ ∃ status, exitStatus args = .ok status ∧ effect = .exit status) := by
  unfold applyFunction at h
  split at h
  · obtain ⟨v, -, rfl⟩ := exists_of_map_eq_ok h
    exact .inr (.inl ⟨rfl, v, rfl⟩)
  · obtain ⟨status, hstatus, rfl⟩ := exists_of_map_eq_ok h
    exact .inr (.inr ⟨rfl, status, hstatus, rfl⟩)
  · cases hargs : onlyArg args <;> rw [hargs] at h <;> cases h
  · cases hargs : onlyArg args with
    | error e =>
      rw [hargs] at h
      cases h
    | ok w =>
      rw [hargs] at h
      obtain ⟨v, -, rfl⟩ := exists_of_map_eq_ok h
      exact .inl ⟨v, rfl⟩
  · obtain ⟨v, -, rfl⟩ := exists_of_map_eq_ok h
    exact .inl ⟨_, rfl⟩
  · obtain ⟨v, -, rfl⟩ := exists_of_map_eq_ok h
    exact .inl ⟨_, rfl⟩
  · cases h

/-! ## Evaluation by evaluation -/

namespace Eval

/-- `P` holds of the evaluations in a context that a program is made of which does only deeds that
satisfy `N`, and is kept by doing one after the other. -/
structure ClosedFor (c : Context) (N : Deed → Prop) (P : (α : Type) → Eval α → Prop) : Prop where
  /-- A result is given. -/
  pure : ∀ {α : Type} (a : α), P α (pure a)
  /-- One after the other. -/
  bind : ∀ {α β : Type} {m : Eval α} {f : α → Eval β}, P α m → (∀ a, P β (f a)) → P β (m >>= f)
  /-- An operation gives a result or fails. -/
  lift : ∀ {α : Type} (x : Except Failure α), P α (lift x)
  /-- A name is looked up. -/
  valueOf : ∀ name, P Value (valueOf c name)
  /-- A function is called. -/
  call : ∀ name args, N (.call name) → P Value (call name args)
  /-- A name is bound. -/
  define : ∀ name v, N (.define name) → P Unit (Evaluation.change (·.define c.scope name v))
  /-- A binding is changed. -/
  assign : ∀ name v, N (.assign name) → P Unit (Evaluation.change (·.assign c.scope name v))

namespace ClosedFor

variable {c : Context} {N : Deed → Prop} {P : (α : Type) → Eval α → Prop}

/-- A loop may come to the end of the allowed rounds. -/
theorem repeatWhile (h : ClosedFor c N P) {test body : Eval Value}
    (hspent : P Value Evaluation.spent) (htest : P Value test) (hbody : P Value body)
    (rounds : Nat) :
    P Value (repeatWhile test body rounds) := by
  induction rounds with
  | zero => exact hspent
  | succ rounds ih =>
    refine h.bind htest fun v => ?_
    split
    · exact h.bind hbody fun _ => ih
    · exact h.pure _

mutual

theorem expr (h : ClosedFor c N P) (rounds : Nat) (e : Expr)
    (hspent : e.loops = true → P Value Evaluation.spent) (hdeeds : ∀ d ∈ e.deeds, N d) :
    P Value (Eval.expr rounds c e) := by
  cases e with
  | nil => exact h.pure _
  | bool b => exact h.pure _
  | int n => exact h.pure _
  | str s => exact h.pure _
  | receiver => exact h.pure _
  | var name offset => exact h.valueOf name
  | list items => exact h.bind (h.exprs rounds items hspent hdeeds) fun _ => h.pure _
  | unary op e => exact h.bind (h.expr rounds e hspent hdeeds) fun _ => h.lift _
  | binary op l r =>
    obtain ⟨hdeedsl, hdeedsr⟩ := List.forall_mem_append.1 hdeeds
    have hl := h.expr rounds l (fun hloops => hspent (by rw [Expr.loops, hloops]; rfl)) hdeedsl
    have hr := h.expr rounds r
      (fun hloops => hspent (by rw [Expr.loops, hloops, Bool.or_true])) hdeedsr
    by_cases hand : op = .and
    · subst hand
      refine h.bind hl fun v => ?_
      split
      · exact hr
      · exact h.pure v
    by_cases hor : op = .or
    · subst hor
      refine h.bind hl fun v => ?_
      split
      · exact h.pure v
      · exact hr
    rw [Eval.expr]
    · exact h.bind hl fun _ => h.bind hr fun _ => h.lift _
    · exact hand
    · exact hor
  | index t i =>
    obtain ⟨hdeedst, hdeedsi⟩ := List.forall_mem_append.1 hdeeds
    have ht := h.expr rounds t (fun hloops => hspent (by rw [Expr.loops, hloops]; rfl)) hdeedst
    have hi := h.expr rounds i
      (fun hloops => hspent (by rw [Expr.loops, hloops, Bool.or_true])) hdeedsi
    exact h.bind ht fun _ => h.bind hi fun _ => h.lift _
  | call name args =>
    obtain ⟨hname, hdeeds⟩ := List.forall_mem_cons.1 hdeeds
    exact h.bind (h.exprs rounds args hspent hdeeds) fun _ => h.call name _ hname
  | block body => exact h.stmts rounds .nil body hspent hdeeds
  | cond t yes no =>
    cases no with
    | none =>
      obtain ⟨hdeedst, hdeedsyes⟩ := List.forall_mem_append.1 hdeeds
      have ht := expr h rounds t (fun hloops => hspent (by simp [Expr.loops, hloops])) hdeedst
      have hyes := stmts h rounds .nil yes (fun hloops => hspent (by simp [Expr.loops, hloops]))
        hdeedsyes
      refine h.bind ht fun v => ?_
      split
      · exact hyes
      · exact h.pure _
    | some body =>
      obtain ⟨hdeeds, hdeedsno⟩ := List.forall_mem_append.1 hdeeds
      obtain ⟨hdeedst, hdeedsyes⟩ := List.forall_mem_append.1 hdeeds
      have ht := expr h rounds t (fun hloops => hspent (by simp [Expr.loops, hloops])) hdeedst
      have hyes := stmts h rounds .nil yes (fun hloops => hspent (by simp [Expr.loops, hloops]))
        hdeedsyes
      have hno := stmts h rounds .nil body (fun hloops => hspent (by simp [Expr.loops, hloops]))
        hdeedsno
      refine h.bind ht fun v => ?_
      split
      · exact hyes
      · exact hno
  | loop t body =>
    obtain ⟨hdeedst, hdeedsbody⟩ := List.forall_mem_append.1 hdeeds
    have hend := hspent rfl
    exact h.repeatWhile hend (h.expr rounds t (fun _ => hend) hdeedst)
      (h.stmts rounds .nil body (fun _ => hend) hdeedsbody) rounds

theorem exprs (h : ClosedFor c N P) (rounds : Nat) (es : List Expr)
    (hspent : anyLoops es = true → P Value Evaluation.spent)
    (hdeeds : ∀ d ∈ Expr.deedsAll es, N d) : P (List Value) (Eval.exprs rounds c es) := by
  cases es with
  | nil => exact h.pure _
  | cons e es =>
    obtain ⟨hdeedse, hdeedses⟩ := List.forall_mem_append.1 hdeeds
    have he := h.expr rounds e (fun hloops => hspent (by rw [anyLoops, hloops]; rfl)) hdeedse
    have hes := h.exprs rounds es
      (fun hloops => hspent (by rw [anyLoops, hloops, Bool.or_true])) hdeedses
    exact h.bind he fun _ => h.bind hes fun _ => h.pure _

theorem stmt (h : ClosedFor c N P) (rounds : Nat) (s : Stmt)
    (hspent : s.loops = true → P Value Evaluation.spent) (hdeeds : ∀ d ∈ s.deeds, N d) :
    P Value (Eval.stmt rounds c s) := by
  cases s with
  | define name e =>
    obtain ⟨hname, hdeeds⟩ := List.forall_mem_cons.1 hdeeds
    exact h.bind (h.expr rounds e hspent hdeeds) fun _ =>
      h.bind (h.define _ _ hname) fun _ => h.pure _
  | assign name e =>
    obtain ⟨hname, hdeeds⟩ := List.forall_mem_cons.1 hdeeds
    exact h.bind (h.expr rounds e hspent hdeeds) fun _ =>
      h.bind (h.assign _ _ hname) fun _ => h.pure _
  | expr e => exact h.expr rounds e hspent hdeeds

/-- What holds evaluation by evaluation holds of all statements that do only such deeds. -/
theorem stmts (h : ClosedFor c N P) (rounds : Nat) (last : Value) (ss : List Stmt)
    (hspent : bodyLoops ss = true → P Value Evaluation.spent)
    (hdeeds : ∀ d ∈ Stmt.deedsAll ss, N d) : P Value (Eval.stmts rounds c last ss) := by
  cases ss with
  | nil => exact h.pure _
  | cons s ss =>
    obtain ⟨hdeedss, hdeedsss⟩ := List.forall_mem_append.1 hdeeds
    have hs := h.stmt rounds s (fun hloops => hspent (by rw [bodyLoops, hloops]; rfl)) hdeedss
    exact h.bind hs fun v => h.stmts rounds v ss
      (fun hloops => hspent (by rw [bodyLoops, hloops, Bool.or_true])) hdeedsss

end

end ClosedFor

/-- `P` holds of the evaluations that a program is made of which binds only names that satisfy `N`,
and is kept by doing one after the other. -/
structure ClosedOn (N : String → Prop) (P : (α : Type) → Eval α → Prop) : Prop where
  /-- A result is given. -/
  pure : ∀ {α : Type} (a : α), P α (pure a)
  /-- One after the other. -/
  bind : ∀ {α β : Type} {m : Eval α} {f : α → Eval β}, P α m → (∀ a, P β (f a)) → P β (m >>= f)
  /-- An operation gives a result or fails. -/
  lift : ∀ {α : Type} (x : Except Failure α), P α (lift x)
  /-- A name is looked up. -/
  valueOf : ∀ c name, P Value (valueOf c name)
  /-- A function is called. -/
  call : ∀ name args, P Value (call name args)
  /-- A name is bound. -/
  define : ∀ (c : Context) name v, N name → P Unit (Evaluation.change (·.define c.scope name v))
  /-- A binding is changed. -/
  assign : ∀ (c : Context) name v, N name → P Unit (Evaluation.change (·.assign c.scope name v))

/-- `P` holds of the evaluations that a program is made of, and is kept by doing one after the
other. -/
abbrev Closed (P : (α : Type) → Eval α → Prop) : Prop := ClosedOn (fun _ => True) P

namespace ClosedOn

variable {N : String → Prop} {P : (α : Type) → Eval α → Prop} (h : ClosedOn N P)
include h

/-- In a given context the names that are bound are the targets of deeds. -/
theorem closedFor (c : Context) : ClosedFor c (fun d => ∀ n, d.target? = some n → N n) P where
  pure := h.pure
  bind := h.bind
  lift := h.lift
  valueOf := h.valueOf c
  call name args _ := h.call name args
  define name v hname := h.define c name v (hname name rfl)
  assign name v hname := h.assign c name v (hname name rfl)

theorem repeatWhile {test body : Eval Value} (hspent : P Value Evaluation.spent)
    (htest : P Value test) (hbody : P Value body) (rounds : Nat) :
    P Value (repeatWhile test body rounds) :=
  (h.closedFor ⟨.nil, 0⟩).repeatWhile hspent htest hbody rounds

theorem expr (rounds : Nat) (c : Context) (e : Expr)
    (hspent : e.loops = true → P Value Evaluation.spent) (hbound : ∀ n ∈ e.bound, N n) :
    P Value (Eval.expr rounds c e) :=
  (h.closedFor c).expr rounds e hspent fun _ hd _ => Deed.targets (e.bound_eq ▸ hbound) hd

theorem exprs (rounds : Nat) (c : Context) (es : List Expr)
    (hspent : anyLoops es = true → P Value Evaluation.spent)
    (hbound : ∀ n ∈ Expr.boundAll es, N n) : P (List Value) (Eval.exprs rounds c es) :=
  (h.closedFor c).exprs rounds es hspent fun _ hd _ =>
    Deed.targets (Expr.boundAll_eq es ▸ hbound) hd

theorem stmt (rounds : Nat) (c : Context) (s : Stmt)
    (hspent : s.loops = true → P Value Evaluation.spent) (hbound : ∀ n ∈ s.bound, N n) :
    P Value (Eval.stmt rounds c s) :=
  (h.closedFor c).stmt rounds s hspent fun _ hd _ => Deed.targets (s.bound_eq ▸ hbound) hd

/-- What holds evaluation by evaluation holds of all statements that bind only such names. -/
theorem stmts (rounds : Nat) (c : Context) (last : Value) (ss : List Stmt)
    (hspent : bodyLoops ss = true → P Value Evaluation.spent)
    (hbound : ∀ n ∈ Stmt.boundAll ss, N n) : P Value (Eval.stmts rounds c last ss) :=
  (h.closedFor c).stmts rounds last ss hspent fun _ hd _ =>
    Deed.targets (Stmt.boundAll_eq ss ▸ hbound) hd

end ClosedOn

/-- What holds evaluation by evaluation holds of all statements. -/
theorem Closed.stmts {P : (α : Type) → Eval α → Prop} (h : Closed P) (rounds : Nat) (c : Context)
    (last : Value) (ss : List Stmt) (hspent : bodyLoops ss = true → P Value Evaluation.spent) :
    P Value (Eval.stmts rounds c last ss) :=
  ClosedOn.stmts h rounds c last ss hspent fun _ _ => trivial

end Eval

/-! ## Sessions and states that evaluations come to -/

/-- The second forest has all scopes of the first one. -/
def Forest.Grows (f g : Forest) : Prop := f.size ≤ g.size

theorem Forest.Grows.trans (f g h : Forest) (hfg : f.Grows g) (hgh : g.Grows h) : f.Grows h :=
  Nat.le_trans hfg hgh

theorem Eval.bind_grows {α β : Type} {m : Eval α} {k : α → Eval β}
    (hm : ∀ f, (m f).Keeps Forest.Grows f) (hk : ∀ a f, (k a f).Keeps Forest.Grows f)
    (f : Forest) : ((m >>= k) f).Keeps Forest.Grows f := by
  refine (hm f).bind Forest.Grows.trans fun r g => ?_
  cases r with
  | error fault => exact Nat.le_refl _
  | ok a => exact hk a g

/-- No evaluation takes a scope away. -/
theorem Eval.closed_grows : Eval.Closed fun _ m => ∀ f, (m f).Keeps Forest.Grows f where
  pure _ _ := Nat.le_refl _
  bind := bind_grows
  lift x f := by cases x <;> exact Nat.le_refl _
  valueOf c name := by
    refine bind_grows (fun f => Nat.le_refl f.size) fun v f => ?_
    cases v <;> exact Nat.le_refl _
  call name args f := by
    unfold call
    cases applyFunction name args with
    | error e => exact Nat.le_refl _
    | ok effect =>
      cases effect with
      | give v => exact Nat.le_refl _
      | nest v => exact ⟨Nat.le_refl _, fun _ _ _ => Nat.le_refl _⟩
      | exit status => exact Nat.le_refl _
  define c name v _ f := Nat.le_of_eq (f.size_define _ name v).symm
  assign c name v _ f := Nat.le_of_eq (f.size_define _ name v).symm

/-- Evaluating a source takes no scope away. -/
theorem evaluate_keeps (rounds : Nat) (c : Context) (source : String) (f : Forest) :
    (evaluate rounds c source f).Keeps Forest.Grows f := by
  unfold evaluate
  split
  · exact Nat.le_refl _
  · rename_i p _
    have hp := Eval.closed_grows.stmts rounds c .nil p (fun _ _ => Nat.le_refl _) f
    exact hp.bind Forest.Grows.trans fun _ f => Nat.le_refl f.size

/-- An evaluation passes interrupts on, and the sessions that it opens are on values. -/
def Eval.Plain {α : Type} (m : Eval α) : Prop :=
  ∀ f, (m f).PassesOn ∧ (m f).Opens fun t => ∃ v, t = .object v

theorem Eval.Plain.bind {α β : Type} {m : Eval α} {k : α → Eval β} (hm : m.Plain)
    (hk : ∀ a, (k a).Plain) : Plain (m >>= k) := by
  refine fun f => ⟨(hm f).1.bind fun r g => ?_, (hm f).2.bind fun r g => ?_⟩
  · cases r with
    | error fault => trivial
    | ok a => exact (hk a g).1
  · cases r with
    | error fault => trivial
    | ok a => exact (hk a g).2

/-- Sessions are opened by calling a function with a value, and nothing catches an interrupt. -/
theorem Eval.closed_plain : Eval.Closed fun _ m => m.Plain where
  pure _ _ := ⟨trivial, trivial⟩
  bind := Plain.bind
  lift x f := by cases x <;> exact ⟨trivial, trivial⟩
  valueOf c name := by
    refine Plain.bind (fun _ => ⟨trivial, trivial⟩) fun v f => ?_
    cases v <;> exact ⟨trivial, trivial⟩
  call name args f := by
    unfold call
    cases applyFunction name args with
    | error e => exact ⟨trivial, trivial⟩
    | ok effect =>
      cases effect with
      | give v => exact ⟨trivial, trivial⟩
      | nest v => exact ⟨fun _ _ => trivial, ⟨v, rfl⟩, fun _ _ => trivial⟩
      | exit status => exact ⟨trivial, trivial⟩
  define _ _ _ _ _ := ⟨trivial, trivial⟩
  assign _ _ _ _ _ := ⟨trivial, trivial⟩

/-- Evaluating a source passes interrupts on, and opens sessions on values. -/
theorem evaluate_plain (rounds : Nat) (c : Context) (source : String) (f : Forest) :
    (evaluate rounds c source f).PassesOn ∧
      (evaluate rounds c source f).Opens fun t => ∃ v, t = .object v := by
  unfold evaluate
  split
  · exact ⟨trivial, trivial⟩
  · rename_i p _
    have hp := Eval.closed_plain.stmts rounds c .nil p (fun _ _ => ⟨trivial, trivial⟩) f
    exact ⟨hp.1.bind fun _ _ => trivial, hp.2.bind fun _ _ => trivial⟩

/-- The host passes interrupts on. -/
theorem host_passesOn : host.PassesOn := fun rounds c source f =>
  (evaluate_plain rounds c source f).1

end CalcShell.Calc
