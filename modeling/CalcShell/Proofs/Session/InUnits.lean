import Mathlib
import CalcShell.Proofs.Session.Attribution

/-!
# The name of the session while a unit is evaluated

When a unit begins, the name `_session_` means its session. The unit may open other sessions, and
go on when they are closed. `Session.session_name_in_units` says what the name means wherever
evaluating the unit comes to it (`Calc.Visits`): the session of the unit, unless the unit is on the
top level and other sessions on the top level have bound the name in the scope that they share with
it. Then it may still mean such a session when that is closed, which
`Session.session_name_left_behind` shows.
-/

namespace CalcShell

/-! ## The name of the session while a unit is evaluated -/

/-- Wherever a program comes to that binds none of the names `K`, what a scope has for them is
accounted for. -/
theorem Calc.Visits.accounted {K : List Convenience} {i : Calc.ScopeId}
    {run : Session.Runner Calc.host} {s : Session Calc.host}
    (hn : ∀ v, Exec.Meets (fun w _ w' => Accounted K i w w') (s.nestVia run (.object v)))
    {rounds : Nat} {c : Calc.Context} {n n' : Calc.Node} {w w' : World Calc.host}
    (h : Calc.Visits (s.nestVia run) rounds c n' w' n w)
    (hbound : ∀ name ∈ n.bound, ∀ k ∈ K, k.name ≠ name) : Accounted K i w w' := by
  induction h with
  | here => exact Accounted.quiet.refl w'
  | first hfirst _ ih => exact ih fun name hname => hbound name (hfirst.bound_subset hname)
  | @next n n₁ n₂ w w₁ a hthen hfollow _ ih =>
    obtain ⟨hbound₁, hbound₂⟩ := hthen.bound_subset
    have hfirst := Calc.Node.closed (Accounted.closed_follow hn) (fun w => Accounted.quiet.refl w)
      rounds c n₁ (fun name hname => hbound name (hbound₁ hname)) w
    rw [hfollow] at hfirst
    exact hfirst.trans (ih fun name hname => hbound name (hbound₂ hname))

/-- A name that its scope binds itself is evaluated to what it is bound to. -/
theorem Calc.expr_var_of_get? {rounds : Nat} {c : Calc.Context} {name : String} {offset : Nat}
    {f : Calc.Forest} {v : Value} (h : f.get? c.scope name = some v) :
    Eval.expr rounds c (.var name offset) f = .done (.ok v) f := by
  simp only [Eval.expr, Eval.valueOf, Bind.bind, Evaluation.bind, Evaluation.read, Course.bind,
    Forest.lookup_of_get? h]
  rfl

/-- In every run of a session on a target, and for every unit in it whose program does not bind
`_session_`: the run evaluates the program in a world with the view and the state of the moment at
which the unit begins. Wherever evaluating it in such a world comes to evaluating `_session_`, after
whatever sessions were opened by the unit before, the session of the unit is the active one. If no
program in these sessions binds the name either, it means what was seen when the unit began, or by a
session on the top level when it bound the name since, in which case the scope of the unit is the
first one. So if the scope is another one, or if no session on the top level has bound the name
since, it means the session of the unit. -/
theorem Session.session_name_in_units (rounds : Nat) (s : Session Calc.host)
    (htable : s.config.commands.Asks Command.Deed.Stays) (t : Target Calc.host.Context)
    (w : World Calc.host) (ht : Calc.Known t w.host) (hhost : 0 < Calc.Forest.size w.host)
    {pre post : List (Moment Calc.host)} {m : Moment Calc.host} {id : SessionId}
    {c : Calc.host.Context} {source : String}
    (hms : (run rounds s t w).2.since w = pre ++ m :: post)
    (hm : m.event = .evaluating id c source) {p : Calc.Program}
    (hparse : Calc.parseProgram source = .ok p) (hrebinds : ¬ Calc.Rebinds "_session_" source) :
    let unit : Session Calc.host := ⟨id, s.config⟩
    (∃ n v rest, v.view = m.view ∧ v.host = m.host ∧
      post = (unit.evaluateIn (run n) n c source v).2.since v ++ rest) ∧
    ∀ n (v w' : World Calc.host) offset, v.view = m.view → v.host = m.host →
      Calc.Visits (unit.nestVia (run n)) n c (.expr (.var "_session_" offset)) w'
        (.stmts .nil p) v →
      w'.since v <+: (unit.evaluateIn (run n) n c source v).2.since v ∧
      w'.active = some id ∧
      (Sparing [.session] (w'.since v) →
        (∃ seen ∈ m.view :: topViews c.scope (w'.since v),
          Calc.Eval.expr n c (.var "_session_" offset) w'.host =
            .done (.ok (Convenience.session.value seen)) w'.host) ∧
        ((c.scope ≠ 0 ∨ ∀ m ∈ w'.since v, m.event.binds = true → m.view.receiver? ≠ some .main) →
          Calc.Eval.expr n c (.var "_session_" offset) w'.host =
            .done (.ok (.session id)) w'.host)) := by
  intro unit
  have hmem : m ∈ (run rounds s t w).2.since w := by
    rw [hms]
    exact List.mem_append_right _ List.mem_cons_self
  have hbinds := Binds.run rounds s (Calc.reachesTo_of_stays htable 0) t w (ht.sound 0)
  have hprepared := hbinds.prepared hhost m hmem id c source hm
  obtain ⟨n, v, rest, hview, hstate, -, hpost, -⟩ :=
    (run_evaluated rounds s t w hms).1 id c source (.inl hm)
  refine ⟨⟨n, v, rest, hview, hstate, hpost⟩, fun n v w' offset hview hstate hvisits => ?_⟩
  have hbound : ∀ name ∈ Calc.Stmt.boundAll p, ∀ k ∈ [Convenience.session], k.name ≠ name := by
    rintro name hname k hk rfl
    rw [List.mem_singleton.1 hk] at hname
    exact hrebinds ⟨p, hparse, hname⟩
  have haccounted : Accounted [.session] c.scope v w' :=
    hvisits.accounted (Accounted.nest_object (Accounted.nest _ _ n unit htable)) hbound
  have hfollows : (unit.evaluateIn (run n) n c source v).2.Follows w' := by
    rw [(evaluateIn_of_ok hparse v).2]
    exact hvisits.follows fun t w => (Recalls.nest n unit t w).follows
  have hactive : w'.active = some id :=
    haccounted.binds.nests.active.trans ((congrArg Snapshot.active hview).trans hprepared.active)
  refine ⟨?_, hactive, fun hspare => ?_⟩
  · rw [World.since_trans hfollows haccounted.binds.nests.follows]
    exact List.prefix_append _ _
  -- At first the name means the session of the unit, which is the active one.
  have hvalue : Convenience.session.value m.view = .session id := by
    rw [Convenience.value, hprepared.active]
    rfl
  have hfirst : Calc.Forest.Shows [.session] c.scope m.view v.host := by
    intro k hk
    rw [List.mem_singleton.1 hk, hvalue, hstate]
    exact hprepared.own
  obtain ⟨seen, hseen, hshows⟩ := haccounted.shows hspare m.view hfirst
  have hread : Calc.Eval.expr n c (.var "_session_" offset) w'.host =
      .done (.ok (Convenience.session.value seen)) w'.host :=
    Calc.expr_var_of_get? (hshows .session (List.mem_singleton_self _))
  refine ⟨⟨seen, hseen, hread⟩, fun hapart => ?_⟩
  rw [topViews_eq_nil hapart, List.mem_singleton] at hseen
  rw [hseen, hvalue] at hread
  exact hread

/-- The value that an evaluation gives, if it gives one. -/
def Exec.value? {α : Type} : Except Stop (Except Fault α) → Option α
  | .ok (.ok a) => some a
  | _ => none

theorem Exec.eq_of_value? {α : Type} {r : Except Stop (Except Fault α)} {a : α}
    (h : value? r = some a) : r = .ok (.ok a) := by
  match r, h with
  | .ok (.ok _), rfl => rfl

/-- Evaluating a list of two comes to evaluating the second one where the first one leads. -/
theorem Calc.Visits.second {nest : Calc.Nest} {rounds : Nat} {c : Calc.Context}
    {e : Calc.Expr} (e' : Calc.Expr) {last v : Value} {w : World Calc.host}
    (h : Exec.value? (Exec.follow (H := Calc.host) nest (Calc.Eval.expr rounds c e w.host) w).1 =
      some v) :
    Calc.Visits nest rounds c (.expr e')
      (Exec.follow (H := Calc.host) nest (Calc.Eval.expr rounds c e w.host) w).2
      (.stmts last [.expr (.list [e, e'])]) w :=
  have hfollow : Exec.follow (H := Calc.host) nest (Calc.Eval.expr rounds c e w.host) w =
      (.ok (.ok v),
        (Exec.follow (H := Calc.host) nest (Calc.Eval.expr rounds c e w.host) w).2) :=
    Prod.ext (Exec.eq_of_value? h) rfl
  .first (.stmt ..) <| .first (.expr ..) <| .first (.list ..) <|
    .next (.items (v := v)) hfollow (.first (.item ..) .here)

instance Calc.Scope.decEq : DecidableEq Calc.Scope := fun s t =>
  decidable_of_iff (s.bindings = t.bindings ∧ s.parent = t.parent) (by cases s; cases t; simp)

instance Calc.Forest.decEq : DecidableEq Calc.Forest := fun f g =>
  decidable_of_iff (f.scopes = g.scopes) (by cases f; cases g; simp)

/-- A unit on the top level opens a session on five and then evaluates the name. -/
theorem Session.session_name_in_units_nested :
    let w : World Calc.host :=
      { host := .single, nextId := 2,
        inputs := [.scripted { queue :=
          [.ok (.line "[nest(5), _session_]"), .ok (.line "exit"), .ok (.line "exit")] }] }
    let f : Calc.Forest := ⟨[{ bindings := [("_session_", .session 1), ("_", .nil)] }]⟩
    let w₁ : World Calc.host :=
      { host := f, stack := [⟨0, .main⟩], active := some 1, nextId := 2,
        inputs := [.scripted { queue := [.ok (.line "exit"), .ok (.line "exit")] }] }
    let s : Session Calc.host := ⟨1, .standard 0⟩
    let five : Calc.Expr := .int ⟨5, by decide, by decide⟩
    s.config.commands.Asks Command.Deed.Stays ∧ Calc.Known .topLevel w.host ∧
      0 < Calc.Forest.size w.host ∧
      Calc.parseProgram "[nest(5), _session_]\n" =
        .ok [.expr (.list [.call "nest" [five], .var "_session_" 10])] ∧
      ¬ Calc.Rebinds "_session_" "[nest(5), _session_]\n" ∧
      ∃ pre m post w₂, (run 4 s .topLevel w).2.since w = pre ++ m :: post ∧
        m.event = .evaluating 1 Calc.topContext "[nest(5), _session_]\n" ∧
        w₁.view = m.view ∧ w₁.host = m.host ∧
        Calc.Visits (s.nestVia (run 3)) 3 Calc.topContext
          (.expr (.var "_session_" 10)) w₂
          (.stmts .nil [.expr (.list [.call "nest" [five], .var "_session_" 10])]) w₁ ∧
        Sparing [.session] (w₂.since w₁) ∧
        (∀ m ∈ w₂.since w₁, m.event.binds = true → m.view.receiver? ≠ some .main) ∧
        w₂.nextId = 3 ∧
        Calc.Eval.expr 3 Calc.topContext (.var "_session_" 10) w₂.host =
          .done (.ok (.session 1)) w₂.host := by
  intro w f w₁ s five
  have hparse : Calc.parseProgram "[nest(5), _session_]\n" =
      .ok [.expr (.list [.call "nest" [five], .var "_session_" 10])] := by
    cbv
  have hrebinds : ¬ Calc.Rebinds "_session_" "[nest(5), _session_]\n" := by decide +kernel
  have hplace : (((run 4 s .topLevel w).2.since w)[9]?.map fun m =>
      (m.event.unit?, m.view, (m.host : Calc.Forest))) =
      some (some (1, Calc.topContext, "[nest(5), _session_]\n"), w₁.view, f) := by
    decide +kernel
  obtain ⟨pre, m, post, hms, hm⟩ := exists_split hplace
  obtain ⟨hunit, hworld⟩ := Prod.mk.inj hm
  obtain ⟨hview, hstate⟩ := Prod.mk.inj hworld
  have hev := Event.eq_of_unit? hunit
  let call := Exec.follow (H := Calc.host) (s.nestVia (run 3))
    (Calc.Eval.expr 3 Calc.topContext (.call "nest" [five]) w₁.host) w₁
  have hcall : Exec.value? call.1 = some (.int ⟨5, by decide, by decide⟩) := by decide +kernel
  have hvisits : Calc.Visits _ 3 Calc.topContext (.expr (.var "_session_" 10)) call.2
      (.stmts .nil _) w₁ := .second _ hcall
  have hspare : Sparing [.session] (call.2.since w₁) := by decide +kernel
  have hapart : ∀ m ∈ call.2.since w₁, m.event.binds = true → m.view.receiver? ≠ some .main := by
    decide +kernel
  have htable : s.config.commands.Asks Command.Deed.Stays := Command.standard_stays
  have htarget := Calc.known_topLevel w.host
  obtain ⟨-, hnames⟩ := session_name_in_units 4 s htable .topLevel w htarget (by decide) hms hev
    hparse hrebinds
  obtain ⟨-, -, hspared⟩ := hnames 3 w₁ call.2 10 hview.symm hstate.symm hvisits
  exact ⟨htable, htarget, by decide, hparse, hrebinds, pre, m, post, call.2, hms, hev, hview.symm,
    hstate.symm, hvisits, hspare, hapart, by decide +kernel, (hspared hspare).2 (.inr hapart)⟩

/-- On the top level the name need not mean the session of the unit. A unit opens a second session
there and then evaluates the name. No program binds the name, and the session of the unit is the
active one again, but the name still means the second session. -/
theorem Session.session_name_left_behind :
    let w : World Calc.host :=
      { host := .single, nextId := 2,
        inputs := [.scripted { queue :=
          [.ok (.line "[nest(self), _session_]"), .ok (.line "exit"), .ok (.line "exit")] }] }
    let f : Calc.Forest := ⟨[{ bindings := [("_session_", .session 1), ("_", .nil)] }]⟩
    let w₁ : World Calc.host :=
      { host := f, stack := [⟨0, .main⟩], active := some 1, nextId := 2,
        inputs := [.scripted { queue := [.ok (.line "exit"), .ok (.line "exit")] }] }
    let s : Session Calc.host := ⟨1, .standard 0⟩
    let p : Calc.Program :=
      [.expr (.list [.call "nest" [.receiver], .var "_session_" 13])]
    Sparing [.session] ((run 4 s .topLevel w).2.since w) ∧
      Calc.parseProgram "[nest(self), _session_]\n" = .ok p ∧
      ∃ pre m post w₂, (run 4 s .topLevel w).2.since w = pre ++ m :: post ∧
        m.event = .evaluating 1 Calc.topContext "[nest(self), _session_]\n" ∧
        w₁.view = m.view ∧ w₁.host = m.host ∧
        Calc.Visits (s.nestVia (run 3)) 3 Calc.topContext
          (.expr (.var "_session_" 13)) w₂ (.stmts .nil p) w₁ ∧
        w₂.active = some 1 ∧
        Calc.Eval.expr 3 Calc.topContext (.var "_session_" 13) w₂.host =
          .done (.ok (.session 2)) w₂.host := by
  intro w f w₁ s p
  have hparse : Calc.parseProgram "[nest(self), _session_]\n" = .ok p := by cbv
  have hplace : (((run 4 s .topLevel w).2.since w)[9]?.map fun m =>
      (m.event.unit?, m.view, (m.host : Calc.Forest))) =
      some (some (1, Calc.topContext, "[nest(self), _session_]\n"), w₁.view, f) := by
    decide +kernel
  obtain ⟨pre, m, post, hms, hm⟩ := exists_split hplace
  obtain ⟨hunit, hworld⟩ := Prod.mk.inj hm
  obtain ⟨hview, hstate⟩ := Prod.mk.inj hworld
  let call := Exec.follow (H := Calc.host) (s.nestVia (run 3))
    (Calc.Eval.expr 3 Calc.topContext (.call "nest" [.receiver]) w₁.host) w₁
  have hcall : Exec.value? call.1 = some .main := by decide +kernel
  have hname : Calc.Forest.get? call.2.host 0 "_session_" = some (.session 2) := by decide +kernel
  exact ⟨by decide +kernel, hparse, pre, m, post, call.2, hms, Event.eq_of_unit? hunit, hview.symm,
    hstate.symm, .second _ hcall, by decide +kernel, Calc.expr_var_of_get? hname⟩

end CalcShell
