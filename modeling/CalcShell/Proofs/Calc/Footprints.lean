import CalcShell.Proofs.Calc.Evaluations

/-!
# What programs touch

A program that opens no session touches only what it names (`evaluateProgram_framed`), however it
ends: scopes that its own scope does not see stay as they are, no binding disappears, only its own
scope gains names, and a name changes its value only where the program says `let` or assigns to it.
So code in a context that is anchored to the top level can change what the names of the top level
mean by assigning to them, but can neither add a name there nor change one by `let`.

This is a relation between forests (`Forest.Framed`) that is reflexive and transitive, and that
holds between a forest and the one in which a name was bound or changed. The induction over trees
and the rounds of loops is that of `Eval.ClosedFor`.
-/

namespace CalcShell

/-- The evaluation opens no session, and its last state is a good one, however it ends. -/
def Course.EndsIn {C σ α : Type} (good : σ → Prop) : Course C σ α → Prop
  | .done _ s | .interrupt _ s | .spent s => good s
  | .nest _ _ _ | .attempt _ _ _ => False

namespace Course.EndsIn

variable {C σ α β : Type} {good better : σ → Prop} {course : Course C σ α}

theorem mono (h : course.EndsIn good) (hgood : ∀ s, good s → better s) :
    course.EndsIn better := by
  cases course with
  | done a s => exact hgood s h
  | interrupt i s => exact hgood s h
  | spent s => exact hgood s h
  | nest v s k => exact h
  | attempt v s k => exact h

/-- One evaluation after the other, where the second one keeps the states good. -/
theorem bind (h : course.EndsIn good) {k : α → σ → Course C σ β}
    (hk : ∀ a s, good s → (k a s).EndsIn good) : (course.bind k).EndsIn good := by
  cases course with
  | done a s => exact hk a s h
  | interrupt i s => exact h
  | spent s => exact h
  | nest v s k => exact h
  | attempt v s k => exact h

end Course.EndsIn

namespace Calc

/-! ## Frames -/

/-- What the deeds `ds`, done in scope `i`, may make of the forest `f`. -/
structure Forest.Framed (f : Forest) (ds : List Deed) (i : ScopeId) (g : Forest) : Prop where
  /-- No scope is added, taken away or moved. -/
  parents : g.scopes.map Scope.parent = f.scopes.map Scope.parent
  /-- Scopes that scope `i` does not see stay as they are. -/
  outside : ∀ j, j ∉ f.chain i → g.scopes[j]? = f.scopes[j]?
  /-- No binding disappears. -/
  kept : ∀ j n, (f.get? j n).isSome → (g.get? j n).isSome
  /-- A name that is neither bound nor changed keeps its value in each scope. -/
  unnamed : ∀ j n, .define n ∉ ds → .assign n ∉ ds → g.get? j n = f.get? j n
  /-- Other scopes than `i` bind the names that they bound. -/
  bound : ∀ j n, j ≠ i → (g.get? j n).isSome = (f.get? j n).isSome
  /-- There only names that are assigned to change their values. -/
  unassigned : ∀ j n, j ≠ i → .assign n ∉ ds → g.get? j n = f.get? j n

namespace Forest.Framed

variable {f g h : Forest} {ds : List Deed} {i u : ScopeId} {n : String}

theorem refl (f : Forest) (ds : List Deed) (i : ScopeId) : f.Framed ds i f where
  parents := rfl
  outside _ _ := rfl
  kept _ _ hn := hn
  unnamed _ _ _ _ := rfl
  bound _ _ _ := rfl
  unassigned _ _ _ _ := rfl

theorem trans (hfg : f.Framed ds i g) (hgh : g.Framed ds i h) : f.Framed ds i h where
  parents := hgh.parents.trans hfg.parents
  outside j hj := by
    -- The scope sees the same scopes in both forests.
    have hj' : j ∉ g.chain i := chain_congr hfg.parents i ▸ hj
    exact (hgh.outside j hj').trans (hfg.outside j hj)
  kept j n hn := hgh.kept j n (hfg.kept j n hn)
  unnamed j n hd ha := (hgh.unnamed j n hd ha).trans (hfg.unnamed j n hd ha)
  bound j n hj := (hgh.bound j n hj).trans (hfg.bound j n hj)
  unassigned j n hj ha := (hgh.unassigned j n hj ha).trans (hfg.unassigned j n hj ha)

/-- A binding was made or changed in scope `i`, or one was changed that it sees further out and
that is assigned to. -/
theorem of_define (hnamed : Deed.define n ∈ ds ∨ Deed.assign n ∈ ds)
    (hplace : u = i ∨ u ∈ f.chain i ∧ (f.get? u n).isSome ∧ .assign n ∈ ds) (v : Value) :
    f.Framed ds i (f.define u n v) where
  parents := f.parents_define u n v
  outside j hj := by
    by_cases hju : j = u
    · -- A scope that does not see itself does not exist.
      obtain rfl | ⟨hu, -, -⟩ := hplace
      · subst hju
        by_cases hsize : j < f.size
        · obtain ⟨js, hchain⟩ := exists_chain_eq_cons hsize
          exact absurd (hchain ▸ List.mem_cons_self) hj
        · have hnone := List.getElem?_eq_none (not_lt.1 hsize)
          have hnone' := List.getElem?_eq_none (not_lt.1 (f.size_define j n v ▸ hsize))
          exact hnone'.trans hnone.symm
      · exact absurd (hju ▸ hu) hj
    · exact f.scopes_define_of_ne hju n v
  kept j m hm := by
    rw [get?_define]
    split_ifs
    · rfl
    · exact hm
  unnamed j m hd ha := by
    rw [get?_define, if_neg]
    rintro ⟨-, -, rfl⟩
    exact hnamed.elim hd ha
  bound j m hj := by
    rw [get?_define]
    split_ifs with hcond
    · obtain ⟨rfl, -, rfl⟩ := hcond
      exact (hplace.resolve_left hj).2.1.symm
    · rfl
  unassigned j m hj ha := by
    rw [get?_define, if_neg]
    rintro ⟨rfl, -, rfl⟩
    exact ha (hplace.resolve_left hj).2.2

/-- A name is bound. -/
theorem define (hn : .define n ∈ ds) (v : Value) : f.Framed ds i (f.define i n v) :=
  of_define (.inl hn) (.inl rfl) v

/-- A name is assigned to. -/
theorem assign (hn : .assign n ∈ ds) (v : Value) : f.Framed ds i (f.assign i n v) := by
  refine of_define (.inr hn) ?_ v
  -- The scope that holds the name is seen, and binds it.
  cases hholder : f.holder? i n with
  | none => exact .inl rfl
  | some u =>
    have hbound := List.find?_some (p := fun j => (f.get? j n).isSome) hholder
    exact .inr ⟨List.mem_of_find?_eq_some hholder, hbound, hn⟩

end Forest.Framed

/-! ## Evaluations -/

/-- One evaluation after the other. -/
theorem Eval.bind_framed {α β : Type} {ds : List Deed} {i : ScopeId} {m : Eval α}
    {k : α → Eval β} (hm : ∀ f, (m f).EndsIn (f.Framed ds i))
    (hk : ∀ a f, (k a f).EndsIn (f.Framed ds i)) (f : Forest) :
    ((m >>= k) f).EndsIn (f.Framed ds i) := by
  refine (hm f).bind fun r g hfg => ?_
  cases r with
  | error fault => exact hfg
  | ok a => exact (hk a g).mono fun _ => hfg.trans

/-- Evaluations of what does these deeds in a context, none of which opens a session. -/
theorem Eval.closed_framed (c : Context) (ds : List Deed) :
    Eval.ClosedFor c (fun d => d ∈ ds ∧ d ≠ .call "nest") fun _ m =>
      ∀ f, (m f).EndsIn (f.Framed ds c.scope) where
  pure _ f := .refl f ds c.scope
  bind := bind_framed
  lift x f := by cases x <;> exact .refl f ds c.scope
  valueOf name := by
    refine bind_framed (fun f => .refl f ds c.scope) fun v f => ?_
    cases v <;> exact .refl f ds c.scope
  call name args hname f := by
    unfold call
    cases heffect : applyFunction name args with
    | error e => exact .refl f ds c.scope
    | ok effect =>
      obtain ⟨v, rfl⟩ | ⟨hnest, -⟩ | ⟨-, status, -, rfl⟩ := applyFunction_eq_ok heffect
      · exact .refl f ds c.scope
      · exact absurd (congrArg Deed.call hnest) hname.2
      · exact .refl f ds c.scope
  define _ v hname _ := .define hname.1 v
  assign _ v hname _ := .assign hname.1 v

/-! ## Anchored contexts -/

/-- The scope `i` is that of a context which is anchored: it stands inside the scope of the top
level. -/
def Forest.Anchored (f : Forest) (i : ScopeId) : Prop :=
  i ≠ topContext.scope ∧ f.parent? i = some topContext.scope

namespace Forest.Anchored

variable {f g : Forest} {i : ScopeId} {n : String}

theorem congr (h : f.Anchored i)
    (hparents : g.scopes.map Scope.parent = f.scopes.map Scope.parent) : g.Anchored i :=
  ⟨h.1, (parent?_congr hparents i).trans h.2⟩

/-- An anchored scope sees itself and then the top level. -/
theorem exists_chain_eq (h : f.Anchored i) : ∃ js, f.chain i = i :: topContext.scope :: js := by
  obtain ⟨hne, hp⟩ := h
  have hi : i < f.size := lt_size_of_parent? hp
  have hpos : 0 < i := Nat.pos_of_ne_zero hne
  obtain ⟨steps, hsteps⟩ : ∃ steps, f.size = steps + 1 + 1 :=
    ⟨f.size - 2, by unfold ScopeId at hi hpos; omega⟩
  have htop : topContext.scope < f.size := hpos.trans hi
  exact ⟨_, by rw [chain, hsteps, climb_succ hi, hp, Option.elim_some, climb_succ htop]⟩

/-- A name of the top level is held there as long as the anchored scope does not bind it. -/
theorem assign_eq (h : f.Anchored i) (hown : f.get? i n = none)
    (htop : (f.get? topContext.scope n).isSome) (v : Value) :
    f.assign i n v = f.define topContext.scope n v := by
  obtain ⟨js, hchain⟩ := h.exists_chain_eq
  have hholder : f.holder? i n = some topContext.scope := by
    rw [holder?, hchain, List.find?_cons_of_neg (by rw [hown]; decide)]
    exact List.find?_cons_of_pos (p := fun j => (f.get? j n).isSome) htop
  rw [assign, hholder, Option.getD_some]

end Forest.Anchored

/-- The context that a value is anchored in. -/
theorem anchored_anchor (v : Value) {f : Forest} (hf : topContext.scope < f.size) :
    (anchor v f).2.Anchored (anchor v f).1.scope := by
  have hparent : (anchor v f).2.parent? f.size = some topContext.scope := by
    change (f.scopes ++ [_])[f.scopes.length]?.bind Scope.parent = _
    rw [List.getElem?_concat_length]
    rfl
  exact ⟨Nat.ne_of_gt hf, hparent⟩

/-- What the deeds `ds`, done in an anchored scope `i`, may make of the top level. -/
structure Forest.TopKept (f : Forest) (ds : List Deed) (g : Forest) : Prop where
  /-- The top level binds the names that it bound. -/
  names : ∀ n, (g.get? topContext.scope n).isSome = (f.get? topContext.scope n).isSome
  /-- Only names that are assigned to change their values, and not those that are just bound. -/
  values : ∀ n, .assign n ∉ ds → g.get? topContext.scope n = f.get? topContext.scope n

theorem Forest.Framed.topKept {f g : Forest} {ds : List Deed} {i : ScopeId}
    (h : f.Framed ds i g) (hi : i ≠ topContext.scope) : f.TopKept ds g where
  names n := h.bound _ n hi.symm
  values n := h.unassigned _ n hi.symm

/-- A program that opens no session touches only what it names, however it ends. In an anchored
context it leaves the names of the top level as they are, and their values too but for those that
it assigns to; and these it may indeed change. -/
theorem evaluateProgram_framed {p : Program} (hp : .call "nest" ∉ Stmt.deedsAll p) (rounds : Nat)
    (c : Context) (f : Forest) :
    (evaluateProgram rounds c p f).EndsIn (f.Framed (Stmt.deedsAll p) c.scope) ∧
      (f.Anchored c.scope →
        (evaluateProgram rounds c p f).EndsIn fun g =>
          g.Anchored c.scope ∧ f.TopKept (Stmt.deedsAll p) g) ∧
      ∀ n k, f.Anchored c.scope → f.get? c.scope n = none → (f.get? topContext.scope n).isSome →
        ∃ g, evaluateProgram rounds c [.assign n (.int k)] f = .done (.ok (.int k)) g ∧
          g.get? topContext.scope n = some (.int k) := by
  have hframed : (evaluateProgram rounds c p f).EndsIn (f.Framed (Stmt.deedsAll p) c.scope) :=
    (Eval.closed_framed c (Stmt.deedsAll p)).stmts rounds .nil p
      (fun _ f => .refl f (Stmt.deedsAll p) c.scope)
      (fun d hd => ⟨hd, fun hnest => hp (hnest ▸ hd)⟩) f
  refine ⟨hframed, fun hanchored => ?_, fun n k hanchored hown htop => ?_⟩
  · exact hframed.mono fun g hg => ⟨hanchored.congr hg.parents, hg.topKept hanchored.1⟩
  · refine ⟨f.assign c.scope n (.int k), rfl, ?_⟩
    obtain ⟨w, hw⟩ := Option.isSome_iff_exists.1 htop
    rw [hanchored.assign_eq hown htop, Forest.get?_define,
      if_pos ⟨rfl, Forest.lt_size_of_get? hw, rfl⟩]

/-- A context that is anchored to a top level where a name is bound. -/
def anchoredToName : Context × Forest :=
  anchor (.str "receiver") (Forest.single.define topContext.scope "x" (.str "old"))

/-- A program that assigns to this name, then binds it, assigns to another one and at last fails. -/
def assigningThenBinding : Program :=
  [.assign "x" (.str "new"), .define "x" .nil, .assign "y" .nil, .expr (.var "z" 0)]

/-- What it has assigned to the name of the top level stays, also after its fault; what it has bound
is not seen there. -/
theorem evaluateProgram_framed_fault :
    (evaluateProgram 0 anchoredToName.1 assigningThenBinding anchoredToName.2).EndsIn
        (anchoredToName.2.Framed (Stmt.deedsAll assigningThenBinding) anchoredToName.1.scope) ∧
      (evaluateProgram 0 anchoredToName.1 assigningThenBinding anchoredToName.2).EndsIn
        (fun g => g.Anchored anchoredToName.1.scope ∧
          anchoredToName.2.TopKept (Stmt.deedsAll assigningThenBinding) g) ∧
      (evaluateProgram 0 anchoredToName.1 assigningThenBinding anchoredToName.2).EndsIn
        (fun g => g.get? topContext.scope "x" = some (.str "new") ∧
          g.get? topContext.scope "y" = none ∧ g.get? anchoredToName.1.scope "x" = some .nil) := by
  have hframed := evaluateProgram_framed (p := assigningThenBinding) (by decide) 0
    anchoredToName.1 anchoredToName.2
  exact ⟨hframed.1, hframed.2.1 (anchored_anchor _ (by decide)), rfl, rfl, rfl⟩

end Calc

end CalcShell
