import CalcShell.Calc.Scope
import Mathlib.Data.String.Basic

/-!
# Scopes as nested environments

A forest that is made scope by scope (`Forest.Built`) is a tree of nested environments: the names
that show in a scope are listed once each, in order, and a name means what the nearest scope outward
that binds it says (`Forest.Nearest`). To bind a name or to change it touches one binding, and
changes what the name means in just those scopes for which that binding is the nearest one
(`Forest.Rebound`). The main statement is `Forest.Built.nested`.

What carries it is that a parent stands before its children. A way outward therefore ends before the
steps that `Forest.chain` allows run out, so that a scope sees itself and then what its parent sees
(`Forest.chain_inner`).
-/

namespace CalcShell.Calc

/-! ## Bindings -/

/-- The first binding of a name counts. -/
theorem Bindings.get?_cons (m : String) (w : Value) (b : Bindings) (n : String) :
    Bindings.get? ((m, w) :: b) n = if n = m then some w else b.get? n := by
  rw [Bindings.get?, List.lookup_cons]
  by_cases hn : n = m
  · rw [if_pos hn, beq_iff_eq.2 hn]
  · rw [if_neg hn, beq_false_of_ne hn, Bindings.get?]

/-- The value of a name after this one, or another one, was bound. -/
theorem Bindings.get?_put (b : Bindings) (name : String) (v : Value) (n : String) :
    (b.put name v).get? n = if n = name then some v else b.get? n := by
  induction b with
  | nil => exact Bindings.get?_cons name v [] n
  | cons x b ih =>
    obtain ⟨m, w⟩ := x
    rw [Bindings.put]
    -- The name is bound where it was bound before, or behind all others.
    by_cases hm : m = name
    · rw [if_pos hm, Bindings.get?_cons, Bindings.get?_cons, hm]
      by_cases hn : n = name
      · rw [if_pos hn, if_pos hn]
      · rw [if_neg hn, if_neg hn, if_neg hn]
    · rw [if_neg hm, Bindings.get?_cons, Bindings.get?_cons, ih]
      by_cases hn : n = m
      · rw [if_pos hn, if_pos hn, if_neg (hn ▸ hm)]
      · rw [if_neg hn, if_neg hn]

/-- The names that are bound are those that have a value. -/
theorem Bindings.mem_names {b : Bindings} {n : String} : n ∈ b.names ↔ (b.get? n).isSome := by
  induction b with
  | nil => simp [names, get?]
  | cons x b ih =>
    obtain ⟨m, w⟩ := x
    rw [get?_cons, names, List.map_cons, List.mem_cons]
    by_cases hn : n = m
    · simp [hn]
    · rw [if_neg hn, ← ih, or_iff_right hn, names]

/-! ## Names in order -/

theorem mem_insertName {name n : String} {ns : List String} :
    n ∈ insertName name ns ↔ n = name ∨ n ∈ ns := by
  induction ns with
  | nil => simp [insertName]
  | cons m ns ih =>
    rw [insertName]
    split_ifs with hlt heq
    · exact List.mem_cons
    · rw [heq, List.mem_cons, or_self_left]
    · rw [List.mem_cons, ih, List.mem_cons, or_left_comm]

theorem insertName_sorted {name : String} {ns : List String} (h : ns.Pairwise (· < ·)) :
    (insertName name ns).Pairwise (· < ·) := by
  induction ns with
  | nil => exact List.pairwise_singleton _ _
  | cons m ns ih =>
    obtain ⟨hm, hns⟩ := List.pairwise_cons.1 h
    rw [insertName]
    split_ifs with hlt heq
    · refine List.pairwise_cons.2 ⟨fun n hn => ?_, h⟩
      obtain rfl | hn := List.mem_cons.1 hn
      · exact hlt
      · exact hlt.trans (hm n hn)
    · exact h
    · refine List.pairwise_cons.2 ⟨fun n hn => ?_, ih hns⟩
      obtain rfl | hn := mem_insertName.1 hn
      · exact lt_of_le_of_ne (not_lt.1 hlt) (Ne.symm heq)
      · exact hm n hn

theorem mem_foldr_insertName {n : String} {ns : List String} :
    n ∈ ns.foldr insertName [] ↔ n ∈ ns := by
  induction ns with
  | nil => rfl
  | cons m ns ih => rw [List.foldr_cons, mem_insertName, ih, List.mem_cons]

theorem foldr_insertName_sorted (ns : List String) :
    (ns.foldr insertName []).Pairwise (· < ·) := by
  induction ns with
  | nil => exact List.Pairwise.nil
  | cons m ns ih => exact insertName_sorted ih

namespace Forest

variable {f g : Forest} {i p t u : ScopeId} {n : String}

/-! ## The scopes of a forest -/

/-- The scope around a scope. -/
def parent? (f : Forest) (i : ScopeId) : Option ScopeId := f.scopes[i]?.bind Scope.parent

/-- The value of a name in a scope after a name was bound in some scope. -/
theorem get?_define (f : Forest) (i : ScopeId) (name : String) (v : Value) (j : ScopeId)
    (n : String) :
    (f.define i name v).get? j n =
      if i = j ∧ j < f.size ∧ n = name then some v else f.get? j n := by
  -- A scope that does not exist has no bindings, before and afterwards.
  simp only [get?, bindings, define, size, List.getElem?_modify]
  by_cases hi : i = j
  · by_cases hj : j < f.scopes.length
    · simp [hi, hj, Bindings.get?_put]
    · simp [hj]
  · simp [hi]

theorem parents_define (f : Forest) (i : ScopeId) (name : String) (v : Value) :
    (f.define i name v).scopes.map Scope.parent = f.scopes.map Scope.parent := by
  apply List.ext_getElem?
  intro j
  simp only [define, List.getElem?_map, List.getElem?_modify]
  cases f.scopes[j]? with
  | none => rfl
  | some s => by_cases hi : i = j <;> simp [hi]

/-- Binding a name leaves all other scopes as they are. -/
theorem scopes_define_of_ne (f : Forest) {i j : ScopeId} (hj : j ≠ i) (name : String)
    (v : Value) : (f.define i name v).scopes[j]? = f.scopes[j]? := by
  rw [define, List.getElem?_modify]
  simp only [if_neg (Ne.symm hj), id_map']

theorem size_define (f : Forest) (i : ScopeId) (name : String) (v : Value) :
    (f.define i name v).size = f.size := by
  simp [define, size]

/-- A scope in which a name is bound exists. -/
theorem lt_size_of_get? {x : Value} (h : f.get? i n = some x) : i < f.size := by
  rw [get?, bindings] at h
  cases hs : f.scopes[i]? with
  | none =>
    rw [hs] at h
    cases h
  | some s => exact (List.getElem?_eq_some_iff.1 hs).1

/-- A scope that has a parent exists. -/
theorem lt_size_of_parent? (h : f.parent? i = some p) : i < f.size := by
  obtain ⟨s, hs, -⟩ := Option.bind_eq_some_iff.1 h
  exact (List.getElem?_eq_some_iff.1 hs).1

/-! ## Ways outward -/

theorem climb_of_size_le (h : f.size ≤ i) (steps : Nat) : f.climb steps i = [] := by
  cases steps with
  | zero => rfl
  | succ steps => rw [climb, List.getElem?_eq_none h]

/-- The way outward from a scope begins with it and goes on from its parent. -/
theorem climb_succ (h : i < f.size) (steps : Nat) :
    f.climb (steps + 1) i = i :: (f.parent? i).elim [] (f.climb steps) := by
  have hs : f.scopes[i]? = some f.scopes[i] := List.getElem?_eq_getElem h
  rw [climb, parent?, hs, Option.bind_some]
  dsimp only
  cases f.scopes[i].parent <;> rfl

/-- A scope sees itself first. -/
theorem exists_chain_eq_cons (h : i < f.size) : ∃ js, f.chain i = i :: js := by
  obtain ⟨steps, hsteps⟩ := Nat.exists_eq_add_one_of_ne_zero (Nat.ne_zero_of_lt h)
  exact ⟨_, by rw [chain, hsteps, climb_succ h]⟩

/-- What a scope binds itself is what a name means there. -/
theorem lookup_of_get? {v : Value} (h : f.get? i n = some v) : f.lookup i n = some v := by
  obtain ⟨js, hchain⟩ := exists_chain_eq_cons (lt_size_of_get? h)
  rw [lookup, hchain, List.findSome?_cons, h]

section SameParents

variable (h : f.scopes.map Scope.parent = g.scopes.map Scope.parent)
include h

theorem size_congr : f.size = g.size := by
  have hlength := congrArg List.length h
  rwa [List.length_map, List.length_map] at hlength

theorem parent?_congr (i : ScopeId) : f.parent? i = g.parent? i := by
  have hi : f.scopes[i]?.map Scope.parent = g.scopes[i]?.map Scope.parent := by
    rw [← List.getElem?_map, ← List.getElem?_map, h]
  have hbind := congrArg (fun parent => parent.bind id) hi
  simpa only [parent?, Option.bind_map, Function.id_comp] using hbind

/-- The ways outward depend on the parents alone. -/
theorem climb_congr (steps : Nat) (i : ScopeId) : f.climb steps i = g.climb steps i := by
  have hsize := size_congr h
  induction steps generalizing i with
  | zero => rfl
  | succ steps ih =>
    by_cases hi : i < f.size
    · rw [climb_succ hi, climb_succ (hsize ▸ hi), parent?_congr h, funext ih]
    · rw [climb_of_size_le (not_lt.1 hi), climb_of_size_le (hsize ▸ not_lt.1 hi)]

theorem chain_congr (i : ScopeId) : f.chain i = g.chain i := by
  rw [chain, chain, size_congr h, climb_congr h]

end SameParents

/-- Every parent stands before its children. -/
def Ordered (f : Forest) : Prop := ∀ ⦃i p⦄, f.parent? i = some p → p < i

namespace Ordered

variable (hf : f.Ordered)
include hf

/-- A way outward that may take more steps than scopes stand before its first one is the whole way.
-/
theorem climb_eq {steps steps' : Nat} (h : i < steps) (h' : i < steps') :
    f.climb steps i = f.climb steps' i := by
  -- By induction on the steps: a parent stands before its child, so they last for it too.
  induction steps generalizing i steps' with
  | zero => exact absurd h (Nat.not_lt_zero i)
  | succ steps ih =>
    obtain ⟨steps', rfl⟩ := Nat.exists_eq_add_one_of_ne_zero (Nat.ne_zero_of_lt h')
    by_cases hi : i < f.size
    · rw [climb_succ hi, climb_succ hi]
      cases hp : f.parent? i with
      | none => rfl
      | some p =>
        have hlt := hf hp
        exact congrArg (i :: ·) (ih (Nat.lt_of_lt_of_le hlt (Nat.le_of_lt_succ h))
          (Nat.lt_of_lt_of_le hlt (Nat.le_of_lt_succ h')))
    · rw [climb_of_size_le (not_lt.1 hi), climb_of_size_le (not_lt.1 hi)]

/-- A scope inside another one sees itself and what the other one sees. -/
theorem chain_inner (hp : f.parent? i = some p) : f.chain i = i :: f.chain p := by
  have hi := lt_size_of_parent? hp
  have hlt := hf hp
  rw [chain, chain, hf.climb_eq hi (Nat.lt_succ_self i), climb_succ hi, hp]
  exact congrArg (i :: ·) (hf.climb_eq hlt (hlt.trans hi))

end Ordered

/-- A scope inside no other sees itself. -/
theorem chain_outermost (hi : i < f.size) (hp : f.parent? i = none) : f.chain i = [i] := by
  obtain ⟨steps, hsteps⟩ := Nat.exists_eq_add_one_of_ne_zero (Nat.ne_zero_of_lt hi)
  rw [chain, hsteps, climb_succ hi, hp]
  rfl

theorem chain_of_size_le (hi : f.size ≤ i) : f.chain i = [] := climb_of_size_le hi _

/-! ## Forests that are made scope by scope -/

/-- A forest that was made by adding scopes, binding names and changing them. -/
inductive Built : Forest → Prop where
  /-- There are no scopes. -/
  | empty : Built ⟨[]⟩
  /-- A scope of its own was added. -/
  | addRoot {f : Forest} (hf : Built f) : Built f.addRoot.2
  /-- A scope was added inside another one. -/
  | addChild {f : Forest} (hf : Built f) {i : ScopeId} (hi : i < f.size) : Built (f.addChild i).2
  /-- A name was bound. -/
  | define {f : Forest} (hf : Built f) {i : ScopeId} (hi : i < f.size) (name : String) (v : Value) :
    Built (f.define i name v)
  /-- A name was changed. -/
  | assign {f : Forest} (hf : Built f) {i : ScopeId} (hi : i < f.size) (name : String) (v : Value) :
    Built (f.assign i name v)

/-- A new scope whose parent exists stands behind its parent. -/
theorem Ordered.append (hf : f.Ordered) {s : Scope} (hs : ∀ p, s.parent = some p → p < f.size) :
    (⟨f.scopes ++ [s]⟩ : Forest).Ordered := by
  intro i p hp
  rw [parent?] at hp
  by_cases hi : i < f.scopes.length
  · rw [List.getElem?_append_left hi] at hp
    exact hf hp
  · have hlast : i = f.scopes.length := by
      have hlt := lt_size_of_parent? (f := ⟨f.scopes ++ [s]⟩) hp
      rw [size, List.length_append, List.length_singleton] at hlt
      exact Nat.le_antisymm (Nat.le_of_lt_succ hlt) (Nat.le_of_not_lt hi)
    rw [hlast, List.getElem?_concat_length, Option.bind_some] at hp
    exact hlast ▸ hs p hp

theorem Ordered.define (hf : f.Ordered) (i : ScopeId) (name : String) (v : Value) :
    (f.define i name v).Ordered := by
  intro j p hp
  rw [parent?_congr (f.parents_define i name v)] at hp
  exact hf hp

theorem Built.ordered (hf : f.Built) : f.Ordered := by
  induction hf with
  | empty => exact fun i p hp => absurd (lt_size_of_parent? hp) (Nat.not_lt_zero i)
  | addRoot _ ih => exact ih.append fun p hp => by cases hp
  | addChild _ hi ih => exact ih.append fun p hp => Option.some.inj hp ▸ hi
  | define _ _ name v ih => exact ih.define _ name v
  | assign _ _ name v ih => exact ih.define _ name v

/-! ## The nearest binding -/

/-- From scope `i` outward, scope `u` is the first one that binds the name. -/
inductive Nearest (f : Forest) (n : String) : ScopeId → ScopeId → Prop where
  /-- The scope binds it itself. -/
  | here {i : ScopeId} {v : Value} (hv : f.get? i n = some v) : Nearest f n i i
  /-- It does not, and stands inside of another scope. -/
  | outside {i p u : ScopeId} (hnone : f.get? i n = none) (hp : f.parent? i = some p)
    (h : Nearest f n p u) : Nearest f n i u

/-- The nearest scope binds the name. -/
theorem Nearest.bound (h : f.Nearest n i u) : ∃ v, f.get? u n = some v := by
  induction h with
  | here hv => exact ⟨_, hv⟩
  | outside _ _ _ ih => exact ih

/-- Which scope is the nearest one depends on the parents and on where the name is bound. -/
theorem Nearest.congr (hparents : f.scopes.map Scope.parent = g.scopes.map Scope.parent)
    (hbound : ∀ t, (f.get? t n).isSome = (g.get? t n).isSome) (h : f.Nearest n i u) :
    g.Nearest n i u := by
  induction h with
  | @here i v hv =>
    have hsome : (g.get? i n).isSome := by
      rw [← hbound, hv]
      rfl
    obtain ⟨w, hw⟩ := Option.isSome_iff_exists.1 hsome
    exact .here hw
  | @outside i p u hnone hp _ ih =>
    refine .outside ?_ (parent?_congr hparents i ▸ hp) ih
    rw [← Option.isNone_iff_eq_none, ← Option.not_isSome, ← hbound, hnone]
    decide

/-- What a name means is what its holder says. -/
theorem lookup_eq_bind (f : Forest) (i : ScopeId) (n : String) :
    f.lookup i n = (f.holder? i n).bind fun u => f.get? u n := by
  rw [lookup, holder?]
  induction f.chain i with
  | nil => rfl
  | cons j js ih =>
    rw [List.findSome?_cons, List.find?_cons]
    cases hj : f.get? j n with
    | none => exact ih
    | some v => exact hj.symm

/-- The holder of a name is the nearest scope that binds it. -/
theorem Ordered.holder?_eq_some_iff (hf : f.Ordered) :
    f.holder? i n = some u ↔ f.Nearest n i u := by
  -- By induction on the place of the scope, for its parent stands before it.
  induction i using Nat.strong_induction_on with
  | _ i ih =>
    cases hv : f.get? i n with
    | some v =>
      have hholder : f.holder? i n = some i := by
        obtain ⟨js, hchain⟩ := exists_chain_eq_cons (lt_size_of_get? hv)
        rw [holder?, hchain, List.find?_cons_of_pos (by rw [hv]; rfl)]
      constructor
      · intro h
        obtain rfl := Option.some.inj (hholder.symm.trans h)
        exact .here hv
      · rintro (_ | ⟨hnone, _, _⟩)
        · exact hholder
        · rw [hv] at hnone
          cases hnone
    | none =>
      cases hp : f.parent? i with
      | none =>
        constructor
        · intro h
          have hmem := List.mem_of_find?_eq_some h
          have hsome := List.find?_some h
          by_cases hi : i < f.size
          · rw [chain_outermost hi hp, List.mem_singleton] at hmem
            rw [hmem, hv] at hsome
            cases hsome
          · rw [chain_of_size_le (not_lt.1 hi)] at hmem
            cases hmem
        · rintro (hsome | ⟨_, hparent, _⟩)
          · rw [hv] at hsome
            cases hsome
          · rw [hp] at hparent
            cases hparent
      | some p =>
        have hstep : f.holder? i n = f.holder? p n := by
          rw [holder?, hf.chain_inner hp, List.find?_cons_of_neg (by rw [hv]; decide), holder?]
        rw [hstep, ih p (hf hp)]
        constructor
        · exact .outside hv hp
        · rintro (hsome | ⟨_, hparent, h⟩)
          · rw [hv] at hsome
            cases hsome
          · rw [hp] at hparent
            exact Option.some.inj hparent ▸ h

section Ordered

variable (hf : f.Ordered)
include hf

/-- A name means what the nearest scope that binds it says. -/
theorem Ordered.lookup_eq_some_iff {v : Value} :
    f.lookup i n = some v ↔ ∃ u, f.Nearest n i u ∧ f.get? u n = some v := by
  rw [lookup_eq_bind, Option.bind_eq_some_iff]
  exact exists_congr fun u => and_congr_left' hf.holder?_eq_some_iff

theorem Ordered.lookup_eq_get? (h : f.Nearest n i u) : f.lookup i n = f.get? u n := by
  obtain ⟨v, hv⟩ := h.bound
  exact hv ▸ hf.lookup_eq_some_iff.2 ⟨u, h, hv⟩

end Ordered

/-- A name means nothing where no scope that is seen binds it. -/
theorem lookup_eq_none_iff : f.lookup i n = none ↔ ∀ j ∈ f.chain i, f.get? j n = none := by
  rw [lookup, List.findSome?_eq_none_iff]

/-- The names that show are those that mean something. -/
theorem mem_names : n ∈ f.names i ↔ (f.lookup i n).isSome := by
  rw [names, mem_foldr_insertName, List.mem_flatMap, lookup, List.findSome?_isSome_iff]
  exact exists_congr fun j => and_congr_right' Bindings.mem_names

/-- What a name means depends on the parents and on the values that scopes bind it to. -/
theorem lookup_congr (hparents : f.scopes.map Scope.parent = g.scopes.map Scope.parent)
    (hvalues : ∀ t, f.get? t n = g.get? t n) (i : ScopeId) : f.lookup i n = g.lookup i n := by
  rw [lookup, lookup, chain_congr hparents, funext hvalues]

/-! ## Binding and changing names -/

/-- From the forest `f` to `g`, one binding was made or changed: scope `u` binds the name `n` to
`v`. -/
structure Rebound (f : Forest) (u : ScopeId) (n : String) (v : Value) (g : Forest) : Prop where
  /-- No scope was added, taken away or moved. -/
  parents : g.scopes.map Scope.parent = f.scopes.map Scope.parent
  /-- All other scopes are as they were. -/
  scopes : ∀ t, t ≠ u → g.scopes[t]? = f.scopes[t]?
  /-- That one binding is all that differs. -/
  values : ∀ t m, g.get? t m = if t = u ∧ m = n then some v else f.get? t m
  /-- The name means the new value where that binding is the nearest one. -/
  found : ∀ t, g.Nearest n t u → g.lookup t n = some v
  /-- Where it is not, and for all other names, the meaning is as it was. -/
  others : ∀ t m, ¬(m = n ∧ g.Nearest n t u) → g.lookup t m = f.lookup t m

section Rebound

variable {v : Value} (hparents : g.scopes.map Scope.parent = f.scopes.map Scope.parent)
  (hvalues : ∀ t m, g.get? t m = if t = u ∧ m = n then some v else f.get? t m)
include hparents hvalues

/-- A scope other than the changed one that is the nearest one afterwards was so before. -/
theorem Nearest.before {w : ScopeId} (h : g.Nearest n t w) (hw : w ≠ u) : f.Nearest n t w := by
  induction h with
  | @here i x hx =>
    rw [hvalues, if_neg fun hi => hw hi.1] at hx
    exact .here hx
  | @outside i p w hnone hp _ ih =>
    refine .outside ?_ (parent?_congr hparents i ▸ hp) (ih hw)
    rw [hvalues] at hnone
    -- The changed scope binds the name, so that it is not passed by.
    split_ifs at hnone
    exact hnone

/-- One changed binding, looked at from everywhere. -/
theorem Ordered.others (hf : f.Ordered) (hg : g.Ordered) {m : String}
    (h : ¬(m = n ∧ g.Nearest n t u)) : g.lookup t m = f.lookup t m := by
  by_cases hm : m = n
  · subst hm
    cases hlookup : g.lookup t m with
    | some x =>
      obtain ⟨w, hw, hx⟩ := hg.lookup_eq_some_iff.1 hlookup
      have hne : w ≠ u := fun heq => h ⟨rfl, heq ▸ hw⟩
      rw [hf.lookup_eq_get? (hw.before hparents hvalues hne), ← hx, hvalues,
        if_neg fun heq => hne heq.1]
    | none =>
      rw [eq_comm, lookup_eq_none_iff, ← chain_congr hparents]
      intro j hj
      have hnone := lookup_eq_none_iff.1 hlookup j hj
      rw [hvalues] at hnone
      split_ifs at hnone
      exact hnone
  · exact lookup_congr hparents (fun t => by rw [hvalues, if_neg fun heq => hm heq.2]) t

end Rebound

/-- Binding a name makes or changes its binding in that scope. -/
theorem Ordered.rebound (hf : f.Ordered) (hu : u < f.size) (n : String) (v : Value) :
    f.Rebound u n v (f.define u n v) := by
  have hparents := f.parents_define u n v
  have hg := hf.define u n v
  have hvalues : ∀ t m, (f.define u n v).get? t m =
      if t = u ∧ m = n then some v else f.get? t m := by
    intro t m
    rw [get?_define]
    refine if_congr ⟨fun h => ⟨h.1.symm, h.2.2⟩, fun h => ⟨h.1.symm, ?_, h.2⟩⟩ rfl rfl
    exact h.1 ▸ hu
  refine ⟨hparents, fun t ht => f.scopes_define_of_ne ht n v, hvalues, fun t h => ?_,
    fun t m h => hf.others hparents hvalues hg h⟩
  rw [hg.lookup_eq_get? h, hvalues, if_pos ⟨rfl, rfl⟩]

/-- The scope `s` with those around it is a nest of environments, seen through a name `n` and a
value `v` for it. -/
structure Nested (f : Forest) (s : ScopeId) (n : String) (v : Value) : Prop where
  /-- The names that show come in strictly increasing order, so that none is listed twice. -/
  sorted : (f.names s).Pairwise (· < ·)
  /-- They are the names that mean something. -/
  shown : n ∈ f.names s ↔ (f.lookup s n).isSome
  /-- A name means what the nearest scope that binds it says. -/
  meant : ∀ w, f.lookup s n = some w ↔ ∃ u, f.Nearest n s u ∧ f.get? u n = some w
  /-- Binding the name makes or changes its binding in the scope itself. -/
  define : f.Rebound s n v (f.define s n v)
  /-- To assign to a name that means something changes its nearest binding, so that no scope gains
  a name or loses one and each finds the name in the same place. -/
  assign : (f.lookup s n).isSome → ∃ u, f.Nearest n s u ∧ f.Rebound u n v (f.assign s n v) ∧
    (∀ t m, ((f.assign s n v).get? t m).isSome = (f.get? t m).isSome) ∧
    ∀ t m w, (f.assign s n v).Nearest m t w ↔ f.Nearest m t w
  /-- To assign to a name that means nothing binds it in the scope itself. -/
  assign_new : f.lookup s n = none → f.get? s n = none ∧ f.Rebound s n v (f.assign s n v)

/-- To assign to a name changes its nearest binding. -/
theorem Ordered.assign_eq (hf : f.Ordered) (h : f.Nearest n i u) (v : Value) :
    f.assign i n v = f.define u n v := by
  rw [assign, hf.holder?_eq_some_iff.2 h, Option.getD_some]

/-- To assign to a name without a meaning binds it. -/
theorem assign_eq_define (h : f.lookup i n = none) (v : Value) :
    f.assign i n v = f.define i n v := by
  have hholder : f.holder? i n = none := by
    rw [holder?, List.find?_eq_none]
    intro j hj
    rw [lookup_eq_none_iff.1 h j hj]
    decide
  rw [assign, hholder, Option.getD_none]

/-- All scopes of a forest that was made scope by scope are nested environments. -/
theorem Built.nested (hf : f.Built) {s : ScopeId} (hs : s < f.size) (n : String) (v : Value) :
    f.Nested s n v where
  sorted := foldr_insertName_sorted _
  shown := mem_names
  meant _ := hf.ordered.lookup_eq_some_iff
  define := hf.ordered.rebound hs n v
  assign hsome := by
    obtain ⟨w, hw⟩ := Option.isSome_iff_exists.1 hsome
    obtain ⟨u, hnearest, hu⟩ := hf.ordered.lookup_eq_some_iff.1 hw
    have hrebound := hf.ordered.rebound (lt_size_of_get? hu) n v
    rw [hf.ordered.assign_eq hnearest v]
    have hbound : ∀ t m, ((f.define u n v).get? t m).isSome = (f.get? t m).isSome := by
      intro t m
      rw [hrebound.values]
      split_ifs with heq
      · rw [heq.1, heq.2, hu]
        rfl
      · rfl
    exact ⟨u, hnearest, hrebound, hbound, fun t m w =>
      ⟨.congr hrebound.parents fun t => hbound t m,
        .congr hrebound.parents.symm fun t => (hbound t m).symm⟩⟩
  assign_new hnone := by
    rw [assign_eq_define hnone v]
    refine ⟨?_, hf.ordered.rebound hs n v⟩
    by_contra hne
    obtain ⟨w, hw⟩ := Option.ne_none_iff_exists'.1 hne
    rw [lookup_of_get? hw] at hnone
    cases hnone

/-- The first scope, in which a name is bound, a scope inside of it, and one inside of that. -/
def threeDeep : Forest := (((single.define 0 "x" (.str "one")).addChild 0).2.addChild 1).2

/-- A name that is seen through two scopes is changed where it is bound, and a new binding of it
further in hides the old one. -/
theorem Built.nested_threeDeep :
    threeDeep.Nested 2 "x" (.str "two") ∧ threeDeep.Nested 1 "x" (.str "three") ∧
      threeDeep.names 2 = ["x"] ∧
      (threeDeep.assign 2 "x" (.str "two")).lookup 0 "x" = some (.str "two") ∧
      ((threeDeep.define 1 "x" (.str "three")).assign 2 "x" (.str "two")).lookup 0 "x" =
        some (.str "one") := by
  have hbuilt : threeDeep.Built :=
    .addChild (.addChild (.define (.addRoot .empty) (by decide) _ _) (by decide)) (by decide)
  exact ⟨hbuilt.nested (by decide) "x" (.str "two"), hbuilt.nested (by decide) "x" (.str "three"),
    rfl, rfl, rfl⟩

end Forest

end CalcShell.Calc
