import CalcShell.Proofs.Session.Bindings
import CalcShell.Proofs.Session.Visiting

/-!
# Where the names of a scope come from

A session binds two names in the scope of its context, and it does so when it begins, before each
unit, and when a unit had a value: after a moment of this kind (`Event.binds`) the names tell what
was seen at the moment. Other sessions leave them alone, with one exception. All sessions held on
the value of the top level share the first scope, so that there each of them binds the names for all
of them.

`Accounted` says that this is all that happens to the names, as long as no program binds them
itself: what a scope has for them after a while is what it had before, or what a session on the top
level has seen meanwhile when it bound them, and this only for the first scope. `Accounted.run` is
that for every run, whatever sessions are opened in it.
-/

namespace CalcShell

/-! ## Following evaluations -/

/-- A course that only waits for a session does what the session does. -/
theorem Exec.follow_opens {H : Host} {α : Type} {R : Conduct H}
    {nest : Target H.Context → Exec H Value} {t : Target H.Context} {w : World H} (f : Value → α)
    (ht : R w (ending (nest t w).1) (nest t w).2) :
    R w (ending (follow nest (.nest t w.host fun u s => .done (f u) s) w).1)
      (follow nest (.nest t w.host fun u s => .done (f u) s) w).2 := by
  rw [follow_nest]
  generalize nest t w = r at ht ⊢
  obtain ⟨_ | u, w'⟩ := r
  · exact ht
  · exact ht

namespace Conduct.Orders

variable {R : Conduct Calc.host} (h : R.Orders) {nest : Calc.Nest}
include h

/-- Following one evaluation after the other is allowed if both are. -/
theorem follow_bind_allowed {α β : Type} {m : Calc.Eval α} {k : α → Calc.Eval β}
    {w : World Calc.host}
    (hm : R w (ending (Exec.follow (H := Calc.host) nest (m w.host) w).1)
      (Exec.follow (H := Calc.host) nest (m w.host) w).2)
    (hk : ∀ a w', R w' (ending (Exec.follow (H := Calc.host) nest (k a w'.host) w').1)
      (Exec.follow (H := Calc.host) nest (k a w'.host) w').2) :
    R w (ending (Exec.follow (H := Calc.host) nest ((m >>= k) w.host) w).1)
      (Exec.follow (H := Calc.host) nest ((m >>= k) w.host) w).2 := by
  have hbind : Exec.follow (H := Calc.host) nest ((m >>= k) w.host) w = _ :=
    Exec.follow_bind (H := Calc.host) nest (m w.host) _ w
  rw [hbind]
  generalize Exec.follow (H := Calc.host) nest (m w.host) w = r at hm ⊢
  obtain ⟨stop | fault | a, w'⟩ := r
  · exact hm
  · exact hm
  · exact h.trans hm (hk a w')

/-- Following evaluations that bind only names with `N` is allowed if the sessions on values are
that they open, their stops, and binding such a name. -/
theorem closed_follow {N : String → Prop} (hn : ∀ v, Exec.Meets R (nest (.object v)))
    (hstop : ∀ w stop, R w (some stop) (w.stopped stop))
    (hdefine : ∀ (w : World Calc.host) i name v, N name →
      R w none { w with host := Calc.Forest.define w.host i name v }) :
    Calc.Eval.ClosedOn N fun _ m => ∀ w,
      R w (ending (Exec.follow (H := Calc.host) nest (m w.host) w).1)
        (Exec.follow (H := Calc.host) nest (m w.host) w).2 where
  pure _ w := h.refl w
  bind hm hk w := h.follow_bind_allowed (hm w) hk
  lift x w := by cases x <;> exact h.refl w
  valueOf c name w := by
    refine h.follow_bind_allowed (h.refl w) fun v w' => ?_
    cases v <;> exact h.refl w'
  call name args w := by
    refine h.follow_bind_allowed ?_ fun effect w' => ?_
    · cases Calc.applyFunction name args <;> exact h.refl w
    · cases effect with
      | give v => exact h.refl w'
      | exit status => exact hstop w' (.interrupt (.exit status))
      | nest v => exact Exec.follow_opens Except.ok (hn v w')
  define c name v hname w := hdefine w c.scope name v hname
  assign c name v hname w := hdefine w _ name v hname

end Conduct.Orders

/-- What is recorded has happened since. -/
theorem World.mem_since_record {H : Host} {w w' : World H} {e : Event H}
    (h : w'.Follows (w.record e)) : ⟨e, w.view, w.host⟩ ∈ w'.since w := by
  rw [World.since_trans h (w.record_follows e), World.since_eq (w.log_record e)]
  exact List.mem_append_left _ (List.mem_singleton_self _)

/-! ## Names and what they tell -/

/-- The names that a session binds. -/
inductive Convenience where
  /-- The active session. -/
  | session
  /-- The last result. -/
  | last
deriving DecidableEq

namespace Convenience

/-- The name itself. -/
def name : Convenience → String
  | session => "_session_"
  | last => "_"

/-- What the name is bound to where `v` is seen. -/
def value (v : Snapshot) : Convenience → Value
  | session => v.active.elim .nil .session
  | last => v.last

/-- Both names. -/
def all : List Convenience := [session, last]

end Convenience

/-- Whether a session binds the names at an event, right before it or right behind it. -/
def Event.binds {H : Host} : Event H → Bool
  | .pushed .. | .evaluating .. | .valued .. => true
  | _ => false

/-- The source that is evaluated from an event on. -/
def Event.code? {H : Host} : Event H → Option String
  | .evaluating _ _ source | .consulting _ _ source => some source
  | _ => none

/-- What the innermost session is held on. -/
def Snapshot.receiver? (v : Snapshot) : Option Value := v.stack.getLast?.map Frame.receiver

/-- A source is a program that binds a name or changes its value. -/
def Calc.Rebinds (name source : String) : Prop :=
  ∃ p, Calc.parseProgram source = .ok p ∧ name ∈ Calc.Stmt.boundAll p

instance Calc.Rebinds.decidable (name source : String) : Decidable (Calc.Rebinds name source) :=
  match h : Calc.parseProgram source with
  | .ok p =>
    decidable_of_iff (name ∈ Calc.Stmt.boundAll p)
      ⟨fun hname => ⟨p, h, hname⟩, fun ⟨_, hq, hname⟩ => Except.ok.inj (h.symm.trans hq) ▸ hname⟩
  | .error _ => isFalse fun ⟨_, hq, _⟩ => nomatch h.symm.trans hq

variable {H : Host} {K : List Convenience} {i : Calc.ScopeId}

/-- No program that is evaluated from some moments on binds one of the names `K` itself. -/
def Sparing (K : List Convenience) (ms : List (Moment H)) : Prop :=
  ∀ m ∈ ms, ∀ source, m.event.code? = some source → ∀ k ∈ K, ¬ Calc.Rebinds k.name source

instance Sparing.decidable (K : List Convenience) (ms : List (Moment H)) :
    Decidable (Sparing K ms) :=
  inferInstanceAs (Decidable (∀ m ∈ ms, ∀ source ∈ m.event.code?, ∀ k ∈ K,
    ¬ Calc.Rebinds k.name source))

theorem sparing_append {ms ns : List (Moment H)} :
    Sparing K (ms ++ ns) ↔ Sparing K ms ∧ Sparing K ns :=
  List.forall_mem_append

/-- In the scope `i` the names `K` tell what is seen in `v`. -/
def Calc.Forest.Shows (K : List Convenience) (i : ScopeId) (v : Snapshot) (f : Forest) : Prop :=
  ∀ k ∈ K, f.get? i k.name = some (k.value v)

/-- What was seen by the sessions on the top level when they bound the names for scope `i`, which
must be the first one. -/
def topViews (i : Calc.ScopeId) (ms : List (Moment H)) : List Snapshot :=
  if i = 0 then
    (ms.filter fun m => m.event.binds && m.view.receiver? = some .main).map Moment.view
  else []

theorem topViews_append (i : Calc.ScopeId) (ms ns : List (Moment H)) :
    topViews i (ms ++ ns) = topViews i ms ++ topViews i ns := by
  unfold topViews
  split
  · rw [List.filter_append, List.map_append]
  · rfl

/-- In other scopes, and where no session on the top level binds the names, there is nothing to see.
-/
theorem topViews_eq_nil {ms : List (Moment H)}
    (h : i ≠ 0 ∨ ∀ m ∈ ms, m.event.binds = true → m.view.receiver? ≠ some .main) :
    topViews i ms = [] := by
  unfold topViews
  split
  · rename_i hi
    have hms := h.resolve_left fun hne => hne hi
    rw [List.filter_eq_nil_iff.2 fun m hm => ?_]
    · rfl
    · simpa using hms m hm
  · rfl

/-- What was seen first or on the top level, over two stretches of time. -/
theorem mem_cons_topViews_append {v v₁ v₂ : Snapshot} {ms ns : List (Moment H)}
    (h₁ : v₁ ∈ v :: topViews i ms) (h₂ : v₂ ∈ v₁ :: topViews i ns) :
    v₂ ∈ v :: topViews i (ms ++ ns) := by
  rw [topViews_append, ← List.cons_append]
  obtain rfl | h₂ := List.mem_cons.1 h₂
  · exact List.mem_append_left _ h₁
  · exact List.mem_append_right _ h₂

/-- A session on the top level binds the names in the first scope. -/
theorem mem_topViews {ms : List (Moment H)} {m : Moment H} (hm : m ∈ ms)
    (hbinds : m.event.binds = true) (hreceiver : m.view.receiver? = some .main) :
    m.view ∈ topViews 0 ms := by
  rw [topViews, if_pos rfl]
  refine List.mem_map_of_mem (List.mem_filter.2 ⟨hm, ?_⟩)
  rw [hbinds, hreceiver]
  rfl

namespace Calc.Forest

variable {f : Forest} {v : Snapshot}

/-- Binding a name elsewhere, or another name, changes nothing. -/
theorem Shows.define (h : f.Shows K i v) {j : ScopeId} {name : String}
    (hother : j ≠ i ∨ ∀ k ∈ K, k.name ≠ name) (x : Value) : (f.define j name x).Shows K i v := by
  intro k hk
  rw [get?_define, if_neg ?_]
  · exact h k hk
  · rintro ⟨hj, -, hname⟩
    exact hother.elim (fun hne => hne hj) fun hne => hne k hk hname

/-- Both names are bound to what is seen. -/
theorem shows_bound (K : List Convenience) (hi : i < f.size) (v : Snapshot) :
    ((f.define i "_session_" (Convenience.session.value v)).define i "_" v.last).Shows K i v := by
  obtain ⟨hsession, hlast⟩ := f.get?_bound hi (Convenience.session.value v) v.last
  intro k _
  cases k with
  | session => exact hsession
  | last => exact hlast

end Calc.Forest

/-- A session that is the innermost one and binds its names: they tell what is seen. -/
theorem Session.Houses.shows {s : Session Calc.host} {ctx : Calc.host.Context} {w : World Calc.host}
    (hw : s.Houses 0 ctx w) (hexists : ctx.scope < Calc.Forest.size w.host) :
    Calc.Forest.Shows K ctx.scope w.view (s.bindConveniences ctx w).2.host := by
  have hsession : Convenience.session.value w.view = .session (w.active.getD s.id) := by
    rw [Convenience.value, World.view, hw.holds.active]
    rfl
  have hbound := Calc.Forest.shows_bound K hexists w.view
  rw [hsession] at hbound
  exact hbound

/-- Evaluating a source that is no program which binds one of the names `K` is allowed if binding
other names is, and the sessions that are opened. -/
theorem Conduct.Quiet.evaluateIn_meets {R : World Calc.host → World Calc.host → Prop}
    (h : Conduct.Quiet fun w _ w' => R w w') {run : Session.Runner Calc.host}
    {s : Session Calc.host}
    (hn : ∀ v, Exec.Meets (fun w _ w' => R w w') (s.nestVia run (.object v)))
    (hdefine : ∀ (w : World Calc.host) j name x, (∀ k ∈ K, k.name ≠ name) →
      R w { w with host := Calc.Forest.define w.host j name x })
    (rounds : Nat) (c : Calc.host.Context) {source : String}
    (hsource : ∀ k ∈ K, ¬ Calc.Rebinds k.name source) :
    Exec.Meets (fun w _ w' => R w w') (s.evaluateIn run rounds c source) := by
  intro w
  cases hparse : Calc.parseProgram source with
  | error e =>
    rw [Session.evaluateIn_of_error hparse]
    exact h.refl w
  | ok p =>
    have hbound : ∀ name ∈ Calc.Stmt.boundAll p, ∀ k ∈ K, k.name ≠ name := by
      rintro name hname k hk rfl
      exact hsource k hk ⟨p, hparse, hname⟩
    have hfollow := (h.closed_follow hn h.stopped hdefine).stmts rounds c .nil p
      (fun _ w => h.refl w) hbound w
    rw [(Session.evaluateIn_of_ok hparse w).2]
    exact hfollow

namespace Session

variable {run : Runner Calc.host} {s : Session Calc.host}
  (hb : ∀ t, Exec.Meets (Conduct.given (fun w _ w' => Binds 0 w w') fun w => Calc.Sound 0 t w.host)
    (s.nestVia run t))
include hb

/-- A command that evaluates a program which binds one of the names `K` does not spare them. -/
theorem not_sparing_consult (rounds : Nat) (c : Calc.host.Context) {source : String}
    {k : Convenience} (hk : k ∈ K) (hrebinds : Calc.Rebinds k.name source)
    (w : World Calc.host) : ¬ Sparing K ((s.consult run rounds c source w).2.since w) := by
  intro hspare
  have hevaluate := Binds.evaluateIn hb rounds c source (w.record (.consulting s.id c source))
  exact hspare _ (World.mem_since_record hevaluate.nests.follows) source rfl k hk hrebinds

/-- Neither does a unit that is such a program. -/
theorem not_sparing_evaluate (rounds : Nat) (c : Calc.host.Context) {source : String}
    {k : Convenience} (hk : k ∈ K) (hrebinds : Calc.Rebinds k.name source)
    (w : World Calc.host) : ¬ Sparing K ((s.evaluate run rounds c source w).2.since w) := by
  intro hspare
  have hrest := Binds.quiet.bind_meets (Binds.evaluateIn hb rounds c source)
    (fun outcome => Binds.quiet.bind_meets (Binds.conclude (s := s) c outcome)
      fun _ => Binds.quiet.pure_meets outcome) (s.announce c source w).2
  have hmem := World.mem_since_record (w := (s.bindConveniences c w).2)
    (e := .evaluating s.id c source) hrest.nests.follows
  rw [evaluate_eq] at hspare
  exact hspare _ hmem source rfl k hk hrebinds

variable {R : World Calc.host → World Calc.host → Prop}
  (hrebound : ∀ {w w'}, Binds 0 w w' → ¬ Sparing K (w'.since w) → R w w') (rounds : Nat)
  (c : Calc.host.Context) (source : String)
include hrebound

/-- What says nothing of programs that bind one of the names `K` is to be shown for commands that
evaluate other sources. -/
theorem consult_meets (h : (∀ k ∈ K, ¬ Calc.Rebinds k.name source) →
      Exec.Meets (fun w _ w' => R w w') (s.consult run rounds c source)) :
    Exec.Meets (fun w _ w' => R w w') (s.consult run rounds c source) := by
  by_cases hsource : ∃ k ∈ K, Calc.Rebinds k.name source
  · obtain ⟨k, hk, hrebinds⟩ := hsource
    exact fun w => hrebound (Binds.consult hb rounds c source w)
      (not_sparing_consult hb rounds c hk hrebinds w)
  · exact h fun k hk hrebinds => hsource ⟨k, hk, hrebinds⟩

/-- It is to be shown for units that are other programs. -/
theorem evaluate_meets {P : World Calc.host → Prop} (hP : ∀ w, P w → s.Houses 0 c w)
    (h : (∀ k ∈ K, ¬ Calc.Rebinds k.name source) →
      Exec.Meets (Conduct.given (fun w _ w' => R w w') P) (s.evaluate run rounds c source)) :
    Exec.Meets (Conduct.given (fun w _ w' => R w w') P) (s.evaluate run rounds c source) := by
  by_cases hsource : ∃ k ∈ K, Calc.Rebinds k.name source
  · obtain ⟨k, hk, hrebinds⟩ := hsource
    exact fun w hw => hrebound (Binds.evaluate hb rounds c source w (hP w hw))
      (not_sparing_evaluate hb rounds c hk hrebinds w)
  · exact h fun k hk hrebinds => hsource ⟨k, hk, hrebinds⟩

end Session

/-! ## What happens to the names of a scope -/

/-- What scope `i` has for the names `K` afterwards is what it had for them before or, for the first
scope, what a session on the top level has seen meanwhile when it bound them, as long as no program
binds them. -/
structure Accounted (K : List Convenience) (i : Calc.ScopeId) (w w' : World Calc.host) :
    Prop where
  binds : Binds 0 w w'
  shows : Sparing K (w'.since w) → ∀ v, Calc.Forest.Shows K i v w.host →
    ∃ v' ∈ v :: topViews i (w'.since w), Calc.Forest.Shows K i v' w'.host

namespace Accounted

variable {w w₁ w₂ w' : World Calc.host}

theorem trans (h₁ : Accounted K i w w₁) (h₂ : Accounted K i w₁ w₂) : Accounted K i w w₂ where
  binds := h₁.binds.trans h₂.binds
  shows hspare v hv := by
    rw [World.since_trans h₂.binds.nests.follows h₁.binds.nests.follows] at hspare ⊢
    obtain ⟨hspare₁, hspare₂⟩ := sparing_append.1 hspare
    obtain ⟨v₁, hmem₁, hv₁⟩ := h₁.shows hspare₁ v hv
    obtain ⟨v₂, hmem₂, hv₂⟩ := h₂.shows hspare₂ v₁ hv₁
    exact ⟨v₂, mem_cons_topViews_append hmem₁ hmem₂, hv₂⟩

/-- The names of the scope stay as they are. -/
theorem of_shows (h : Binds 0 w w')
    (hshows : ∀ v, Calc.Forest.Shows K i v w.host → Calc.Forest.Shows K i v w'.host) :
    Accounted K i w w' :=
  ⟨h, fun _ v hv => ⟨v, List.mem_cons_self, hshows v hv⟩⟩

/-- The state of the host stays as it is. -/
theorem of_host_eq (h : Binds 0 w w') (hhost : w'.host = w.host) : Accounted K i w w' :=
  of_shows h fun _ hv => hhost ▸ hv

/-- A program binds one of the names, so that nothing is said. -/
theorem of_not_sparing (h : Binds 0 w w') (hspare : ¬ Sparing K (w'.since w)) :
    Accounted K i w w' :=
  ⟨h, fun hsparing => absurd hsparing hspare⟩

/-- An event is recorded that is not about the stack and begins no unit. -/
theorem record {ev : Event Calc.host} (hstill : ev.Still) (hev : ev.unit? = none) :
    Accounted K i w (w.record ev) :=
  of_host_eq (.record hstill hev) rfl

/-- Another name is bound, or one in another scope. -/
theorem define {j : Calc.ScopeId} {name : String} (hother : j ≠ i ∨ ∀ k ∈ K, k.name ≠ name)
    (x : Value) : Accounted K i w { w with host := Calc.Forest.define w.host j name x } :=
  of_shows (Binds.host (Nat.le_of_eq (Calc.Forest.size_define w.host j name x).symm))
    fun _ hv => hv.define hother x

theorem quiet : Conduct.Quiet fun (w : World Calc.host) _ w' => Accounted K i w w' where
  refl w := of_host_eq (Binds.quiet.refl w) rfl
  trans h₁ h₂ := h₁.trans h₂
  anyhow _ h := h
  record w e he := of_host_eq (Binds.quiet.record w e he) rfl
  sink w sink := of_host_eq (Binds.quiet.sink w sink) rfl
  inputs w inputs := of_host_eq (Binds.quiet.inputs w inputs) rfl

section Inside

variable {run : Session.Runner Calc.host} {s : Session Calc.host}
  (hb : ∀ t, Exec.Meets (Conduct.given (fun w _ w' => Binds 0 w w') fun w => Calc.Sound 0 t w.host)
    (s.nestVia run t))
  (hn : ∀ v, Exec.Meets (fun w _ w' => Accounted K i w w') (s.nestVia run (.object v)))
include hn

/-- Evaluations of programs that bind none of the names. -/
theorem closed_follow : Calc.Eval.ClosedOn (fun name => ∀ k ∈ K, k.name ≠ name) fun _ m =>
    ∀ w, Accounted K i w (Exec.follow (H := Calc.host) (s.nestVia run) (m w.host) w).2 :=
  quiet.closed_follow hn quiet.stopped fun _ _ _ x hname => define (.inr hname) x

theorem evaluateIn (rounds : Nat) (c : Calc.host.Context) {source : String}
    (hsource : ∀ k ∈ K, ¬ Calc.Rebinds k.name source) :
    Exec.Meets (fun w _ w' => Accounted K i w w') (s.evaluateIn run rounds c source) :=
  quiet.evaluateIn_meets hn (fun _ _ _ x hname => define (.inr hname) x) rounds c hsource

include hb

/-- The source of a command, which may be a program that binds one of the names. -/
theorem consult (rounds : Nat) (c : Calc.host.Context) (source : String) :
    Exec.Meets (fun w _ w' => Accounted K i w w') (s.consult run rounds c source) := by
  refine Session.consult_meets hb of_not_sparing rounds c source fun hsource => ?_
  exact quiet.consult_meets (fun _ => record (fun _ => rfl) rfl) (evaluateIn hn rounds c hsource)

end Inside

end Accounted

/-- A target is no context whose scope is `i`, unless it is the top level itself. -/
def Calc.Avoids (i : ScopeId) (t : Target Context) : Prop :=
  ∀ c, t = .context c → c.scope = i → c = topContext

/-- A target that makes sense and leaves the scope `i` to others, as far as it can. -/
def Calc.Aside (i : ScopeId) (t : Target Context) (f : Forest) : Prop := Sound 0 t f ∧ Avoids i t

theorem Calc.aside_object (i : ScopeId) (v : Value) (f : Forest) : Aside i (.object v) f :=
  ⟨nofun, nofun⟩

/-- The session `s` is the innermost one, and if the scope of its context is `i`, then this is the
context of the top level. -/
structure Session.Apart (s : Session Calc.host) (i : Calc.ScopeId) (ctx : Calc.host.Context)
    (w : World Calc.host) : Prop where
  houses : s.Houses 0 ctx w
  top : ctx.scope = i → ctx = Calc.topContext

namespace Session.Apart

variable {s : Session Calc.host} {ctx : Calc.host.Context} {w w' : World Calc.host}

theorem of_accounted (hw : s.Apart i ctx w) (h : Accounted K i w w') : s.Apart i ctx w' :=
  ⟨hw.houses.of_binds h.binds, hw.top⟩

/-- What the session sees when it binds the names in scope `i` is among what is seen there. -/
theorem mem_topViews (hw : s.Apart i ctx w) (hscope : ctx.scope = i)
    {ms : List (Moment Calc.host)} {m : Moment Calc.host} (hm : m ∈ ms)
    (hbinds : m.event.binds = true) (hstack : m.view.stack = w.stack) : m.view ∈ topViews i ms := by
  obtain rfl := hw.top hscope
  obtain rfl : (0 : Calc.ScopeId) = i := hscope
  apply CalcShell.mem_topViews hm hbinds
  obtain ⟨depth, hframe⟩ := hw.houses.holds.frame
  rw [Snapshot.receiver?, hstack, hframe]
  rfl

end Session.Apart

namespace Accounted

variable {w w' : World Calc.host} {run : Session.Runner Calc.host} {s : Session Calc.host}

/-- The names are bound right before a unit begins. -/
theorem announce (ctx : Calc.host.Context) (source : String) :
    Exec.Meets (Conduct.given (fun w _ w' => Accounted K i w w') (s.Apart i ctx))
      (s.announce ctx source) := by
  intro w hw
  refine ⟨Binds.announce ctx source w hw.houses, fun _ v hv => ?_⟩
  by_cases hscope : ctx.scope = i
  · have hsince : (s.announce ctx source w).2.since w =
        [⟨.evaluating s.id ctx source, w.view, (s.bindConveniences ctx w).2.host⟩] :=
      World.since_eq ((s.bindConveniences ctx w).2.log_record _)
    refine ⟨w.view, List.mem_cons_of_mem v ?_, fun k hk => ?_⟩
    · exact hw.mem_topViews hscope (hsince ▸ List.mem_singleton_self _) rfl rfl
    · have hexists := Calc.Forest.lt_size_of_get? (hv k hk)
      subst hscope
      exact hw.houses.shows hexists k hk
  · exact ⟨v, List.mem_cons_self, (hv.define (.inl hscope) _).define (.inl hscope) _⟩

/-- The names are bound again when a unit had a value. -/
theorem conclude (ctx : Calc.host.Context) (outcome : Outcome) :
    Exec.Meets (Conduct.given (fun w _ w' => Accounted K i w w') (s.Apart i ctx))
      (s.conclude ctx outcome) := by
  intro w hw
  cases outcome with
  | fault f => exact of_host_eq (Binds.conclude ctx (.fault f) w) rfl
  | value x =>
    refine ⟨Binds.conclude ctx (.value x) w, fun _ v hv => ?_⟩
    by_cases hscope : ctx.scope = i
    · let w₁ : World Calc.host := World.record { w with last := x } (.valued s.id x)
      have hsince : (s.conclude ctx (.value x) w).2.since w =
          [⟨.valued s.id x, w₁.view, w.host⟩] :=
        World.since_eq (World.log_record { w with last := x } _)
      refine ⟨w₁.view, List.mem_cons_of_mem v ?_, fun k hk => ?_⟩
      · exact hw.mem_topViews hscope (hsince ▸ List.mem_singleton_self _) rfl rfl
      · have hexists := Calc.Forest.lt_size_of_get? (hv k hk)
        have hhouses : s.Houses 0 ctx w₁ := ⟨hw.houses.holds.of_eq rfl rfl, hw.houses.scope⟩
        subst hscope
        exact hhouses.shows hexists k hk
    · exact ⟨v, List.mem_cons_self, (hv.define (.inl hscope) _).define (.inl hscope) _⟩

theorem orders_given (ctx : Calc.host.Context) :
    Conduct.Orders (Conduct.given (fun w _ w' => Accounted K i w w') (s.Apart i ctx)) :=
  quiet.toOrders.given fun h hw => hw.of_accounted h

section Inside

variable
  (hb : ∀ t, Exec.Meets (Conduct.given (fun w _ w' => Binds 0 w w') fun w => Calc.Sound 0 t w.host)
    (s.nestVia run t))
  (hn : ∀ t, Exec.Meets (Conduct.given (fun w _ w' => Accounted K i w w') fun w =>
    Calc.Aside i t w.host) (s.nestVia run t))
include hn

theorem nest_object (v : Value) :
    Exec.Meets (fun w _ w' => Accounted K i w w') (s.nestVia run (.object v)) := fun w =>
  hn (.object v) w (Calc.aside_object i v w.host)

include hb

/-- A unit is evaluated, which may be a program that binds one of the names. -/
theorem evaluate (rounds : Nat) (ctx : Calc.host.Context) (source : String) :
    Exec.Meets (Conduct.given (fun w _ w' => Accounted K i w w') (s.Apart i ctx))
      (s.evaluate run rounds ctx source) := by
  refine Session.evaluate_meets hb of_not_sparing rounds ctx source (fun _ hw => hw.houses)
    fun hsource => ?_
  exact (orders_given ctx).evaluate_allowed (announce ctx source)
    ((evaluateIn (nest_object hn) rounds ctx hsource).given _) (conclude ctx)

/-- A unit is read. A session that a command opens in a context is in the one that the session is
held in. -/
theorem readUnit (htable : s.config.commands.Asks Command.Deed.Stays) (rounds : Nat)
    (ctx : Calc.host.Context) :
    Exec.Meets (Conduct.given (fun w _ w' => Accounted K i w w') (s.Apart i ctx))
      (s.readUnit run rounds ctx) := by
  have hquiet : Conduct.Quiet (Conduct.given (fun w _ w' => Accounted K i w w') (s.Apart i ctx)) :=
    quiet.given fun h hw => hw.of_accounted h
  refine hquiet.readUnit_meets
    (fun c source _ => (consult hb (nest_object hn) rounds c source).given _)
    (fun t ht w hw => hn t w ⟨?_, ?_⟩) fun command hcommand call hcall =>
      hcall ▸ htable command hcommand call
  · rintro c rfl
    exact ht c rfl ▸ hw.houses.scope
  · rintro c rfl hscope
    obtain rfl := ht c rfl
    exact hw.top hscope

theorem step (htable : s.config.commands.Asks Command.Deed.Stays) (rounds : Nat)
    (ctx : Calc.host.Context) :
    Exec.Meets (Conduct.given (fun w _ w' => Accounted K i w w') (s.Apart i ctx))
      (s.step run rounds ctx) := by
  refine (orders_given ctx).bind_meets (readUnit hb hn htable rounds ctx) fun source => ?_
  exact (orders_given ctx).bind_meets (evaluate hb hn rounds ctx source) fun outcome =>
    (quiet.print_meets s outcome).given _

end Inside

/-- What a session does to the names of scope `i` while it is on the stack. When it begins on the
top level it binds them to what it sees then, which its being put on the stack tells. -/
structure Inside (K : List Convenience) (i : Calc.ScopeId) (s : Session Calc.host)
    (ctx : Calc.host.Context)
    (w w' : World Calc.host) : Prop where
  binds : s.Houses 0 ctx w → Binds 0 w w'
  shows : s.Apart i ctx w → Sparing K (w'.since w) → ∀ v, Calc.Forest.Shows K i v w.host →
    ∃ v' ∈ v :: ((if ctx.scope = i then [w.view] else []) ++ topViews i (w'.since w)),
      Calc.Forest.Shows K i v' w'.host

theorem body
    (hb : ∀ t, Exec.Meets (Conduct.given (fun w _ w' => Binds 0 w w') fun w =>
      Calc.Sound 0 t w.host) (s.nestVia run t))
    (hn : ∀ t, Exec.Meets (Conduct.given (fun w _ w' => Accounted K i w w') fun w =>
      Calc.Aside i t w.host) (s.nestVia run t))
    (htable : s.config.commands.Asks Command.Deed.Stays) (rounds : Nat) (ctx : Calc.host.Context)
    (w : World Calc.host) : Inside K i s ctx w (s.body run rounds ctx w).2 := by
  refine ⟨Binds.body hb (Calc.reachesTo_of_stays htable 0) rounds ctx w, fun hw hspare v hv => ?_⟩
  -- The steps begin in a world with the same log and the same view.
  have hreps := (orders_given ctx).reps_meets (fun w _ => quiet.spent w)
    (step hb hn htable rounds ctx) rounds (s.bindConveniences ctx w).2
    ⟨hw.houses.of_binds (Binds.bindConveniences s ctx w), hw.top⟩
  by_cases hscope : ctx.scope = i
  · have hview : Calc.Forest.Shows K i w.view (s.bindConveniences ctx w).2.host := fun k hk => by
      have hexists := Calc.Forest.lt_size_of_get? (hv k hk)
      subst hscope
      exact hw.houses.shows hexists k hk
    obtain ⟨v', hmem, hv'⟩ := hreps.shows hspare w.view hview
    rw [if_pos hscope]
    exact ⟨v', List.mem_cons_of_mem v hmem, hv'⟩
  · rw [if_neg hscope]
    exact hreps.shows hspare v ((hv.define (.inl hscope) _).define (.inl hscope) _)

end Accounted

namespace Calc

/-- A new scope leaves the names of the others alone. -/
theorem Forest.Shows.append {f : Forest} {v : Snapshot} (h : f.Shows K i v) (s : Scope) :
    (⟨f.scopes ++ [s]⟩ : Forest).Shows K i v := by
  intro k hk
  have hi : i < f.scopes.length := lt_size_of_get? (h k hk)
  rw [← h k hk, get?, get?, bindings, bindings, List.getElem?_append_left hi]

/-- A new scope binds no names. -/
theorem Forest.get?_append_size (f : Forest) (s : Scope) (hs : s.bindings = []) (name : String) :
    (⟨f.scopes ++ [s]⟩ : Forest).get? f.size name = none := by
  rw [get?, bindings, size, List.getElem?_concat_length]
  change Bindings.get? s.bindings name = none
  rw [hs]
  rfl

/-- A target means the top level or a context, or it is given a scope of its own, which binds no
names yet. -/
theorem resolve_top_or_new (t : Target Context) (f : Forest) :
    (host.resolve t f).1 = topContext ∨ (∃ c, t = .context c ∧ (host.resolve t f).1 = c) ∨
      (host.resolve t f).1.scope = f.size ∧
        ∀ name, Forest.get? (host.resolve t f).2 f.size name = none := by
  cases t with
  | topLevel => exact .inl rfl
  | object v =>
    unfold Host.resolve
    dsimp only
    split
    · exact .inl rfl
    · exact .inr (.inr ⟨rfl, f.get?_append_size _ rfl⟩)
  | context c => exact .inr (.inl ⟨c, rfl, rfl⟩)
  | detached v => exact .inr (.inr ⟨rfl, f.get?_append_size _ rfl⟩)

/-- A target leaves the names of all scopes alone. -/
theorem Forest.Shows.resolve {f : Forest} {v : Snapshot} (h : f.Shows K i v)
    (t : Target Context) : Forest.Shows K i v (host.resolve t f).2 := by
  cases t with
  | topLevel => exact h
  | object x =>
    unfold Host.resolve
    dsimp only
    split
    · exact h
    · exact h.append _
  | context c => exact h
  | detached x => exact h.append _

end Calc

namespace Accounted

variable {w w₂ : World Calc.host} {s : Session Calc.host}

/-- A session whose scope is `i`, in which names are bound before it begins, is held on the top
level: any other scope would be new. -/
theorem apart_begun {t : Target Calc.host.Context} {w₀ : World Calc.host} {v : Snapshot}
    (ht : Calc.Avoids i t)
    (hhouses : s.Houses 0 (Calc.host.resolve t w₀.host).1
      (s.begun (Calc.host.receiver (Calc.host.resolve t w₀.host).1) w))
    (hhost : w.host = (Calc.host.resolve t w₀.host).2) {k : Convenience}
    (hk : Calc.Forest.get? w.host i k.name = some (k.value v)) :
    s.Apart i (Calc.host.resolve t w₀.host).1
      (s.begun (Calc.host.receiver (Calc.host.resolve t w₀.host).1) w) := by
  refine ⟨hhouses, fun hscope => ?_⟩
  obtain htop | ⟨c, htarget, hc⟩ | ⟨hsize, hnone⟩ := Calc.resolve_top_or_new t w₀.host
  · exact htop
  · rw [hc] at hscope ⊢
    exact ht c htarget hscope
  · rw [hhost, ← hscope, hsize, hnone] at hk
    cases hk

/-- A session is on the stack for a while. -/
theorem frame {t : Target Calc.host.Context} {w₀ : World Calc.host} (ht : Calc.Avoids i t)
    (hhouses : s.Houses 0 (Calc.host.resolve t w₀.host).1
      (s.begun (Calc.host.receiver (Calc.host.resolve t w₀.host).1) w))
    (hhost : w.host = (Calc.host.resolve t w₀.host).2)
    (hin : Inside K i s (Calc.host.resolve t w₀.host).1
      (s.begun (Calc.host.receiver (Calc.host.resolve t w₀.host).1) w) w₂)
    (hbinds : Binds 0 w (w₂.leave w.active w.depth)) :
    Accounted K i w (w₂.leave w.active w.depth) := by
  refine ⟨hbinds, fun hspare v hv => ?_⟩
  obtain rfl | ⟨k, hk⟩ : K = [] ∨ ∃ k, k ∈ K := by
    cases K with
    | nil => exact .inl rfl
    | cons k K => exact .inr ⟨k, List.mem_cons_self⟩
  · exact ⟨v, List.mem_cons_self, fun k hk => absurd hk List.not_mem_nil⟩
  have hapart := apart_begun ht hhouses hhost (hv k hk)
  have hfollows := (hin.binds hhouses).nests.follows
  rw [Session.since_leave hfollows (w₂.leave_follows _ _)] at hspare ⊢
  obtain ⟨-, hspare⟩ := sparing_append.1 hspare
  obtain ⟨v', hmem, hv'⟩ := hin.shows hapart (sparing_append.1 hspare).1 v hv
  refine ⟨v', ?_, hv'⟩
  rw [topViews_append, topViews_append]
  rcases List.mem_cons.1 hmem with rfl | hmem
  · exact List.mem_cons_self
  apply List.mem_cons_of_mem
  rcases List.mem_append.1 hmem with hmem | hmem
  · split at hmem
    · rename_i hscope
      rw [List.mem_singleton.1 hmem]
      apply List.mem_append_left
      -- That the session is put on the stack tells what it sees when it begins.
      rw [World.since_eq (s.begun_log _ w)]
      exact hapart.mem_topViews hscope (List.mem_cons_of_mem _ (List.mem_singleton_self _)) rfl rfl
    · exact absurd hmem List.not_mem_nil
  · exact List.mem_append_right _ (List.mem_append_left _ hmem)

theorem opens (c : Config Calc.host) :
    Conduct.Opens (fun (w : World Calc.host) _ w' => Accounted K i w w') c (Calc.Aside i)
      fun s ctx w _ w' => Inside K i s ctx w w' where
  toOrders := quiet.toOrders
  spent := quiet.spent
  newId w := of_host_eq ((Binds.opens c).newId w) rfl
  resolve t w ht := of_shows ((Binds.opens c).resolve t w ht.1) fun _ hv => hv.resolve t
  fire s name receiver _ := quiet.writes.fire_meets s name [receiver] fun _ =>
    record (fun _ => rfl) rfl
  frame {s t w₀ w w₂ e e'} hc ht hhost hw hin hleft := by
    have hhouses : s.Houses 0 (Calc.host.resolve t w₀.host).1
        (s.begun (Calc.host.receiver (Calc.host.resolve t w₀.host).1) w) :=
      .begun s ht.1 hw.binds
    exact frame ht.2 hhouses hhost hin
      ((Binds.opens c).frame hc ht.1 hhost hw.binds hin.binds hleft)
  aborted _ h := h.trans (record (fun _ => rfl) rfl)
  ended _ _ _ := record (fun _ => rfl) rfl
  propagated _ _ _ _ := record (fun _ => rfl) rfl

/-- In every run, what a scope has for the names is accounted for. -/
theorem run (K : List Convenience) (i : Calc.ScopeId) (rounds : Nat) (s : Session Calc.host)
    (htable : s.config.commands.Asks Command.Deed.Stays) (t : Target Calc.host.Context) :
    Exec.Meets (Conduct.given (fun w _ w' => Accounted K i w w') fun w => Calc.Aside i t w.host)
      (s.run rounds t) :=
  (opens s.config).run_meets (fun rounds s' ctx hs hn =>
    have htable' := hs ▸ htable
    body (Binds.nest rounds s' (Calc.reachesTo_of_stays htable' 0)) hn htable' rounds ctx) rounds s
    rfl t

/-- Sessions that are opened inside of others are accounted for as well. -/
theorem nest (K : List Convenience) (i : Calc.ScopeId) (rounds : Nat) (s : Session Calc.host)
    (htable : s.config.commands.Asks Command.Deed.Stays) (t : Target Calc.host.Context) :
    Exec.Meets (Conduct.given (fun w _ w' => Accounted K i w w') fun w => Calc.Aside i t w.host)
      (s.nestVia (Session.run rounds) t) := by
  intro w ht
  exact ((opens s.config).newId w).trans
    (run K i rounds ⟨w.nextId, s.config⟩ htable t { w with nextId := w.nextId + 1 } ht)

end Accounted

end CalcShell
