import CalcShell.Proofs.Calc.Agreement
import CalcShell.Proofs.Calc.Evaluations
import CalcShell.Proofs.Command.Plans
import CalcShell.Proofs.Session.Evaluating
import CalcShell.Proofs.Session.LastResult
import CalcShell.Proofs.Session.Reading

/-!
# The names that sessions bind

Before a session evaluates a unit it binds two names in the scope of its context: `_session_` to the
active session and `_` to the last result. Sessions may share a scope, a unit may bind these names
itself, and it may open sessions that bind them. None of this shows when the next unit begins: the
main statement says that at this moment `_session_` means the session that evaluates the unit, and
`_` the value of the unit that had one most recently, of all units of all sessions. Which units had
one is what evaluating them came to.

What carries it is that the session is the innermost one whenever it evaluates a unit, that there is
its scope, since no evaluation takes a scope away, and what the log tells of the last result.
-/

namespace CalcShell

/-! ## Courses over states that are kept -/

/-- Following a course is allowed if the sessions it opens are, its stops, and the states that it
comes to, which are those that stand in a relation to the state at first. -/
theorem Conduct.Quiet.follow_kept {H : Host} {R : Conduct H} (h : R.Quiet)
    {rel : H.State → H.State → Prop} (hrel : ∀ {w e w'}, R w e w' → rel w.host w'.host)
    (hhost : ∀ w state, rel w.host state → R w none { w with host := state })
    {T : Target H.Context → Prop} {nest : Target H.Context → Exec H Value}
    (hn : ∀ t, T t → Exec.Meets R (nest t)) {α : Type} {course : Course H.Context H.State α}
    {w : World H} (hcourse : course.Keeps rel w.host) (hopens : course.Opens T) :
    R w (ending (Exec.follow nest course w).1) (Exec.follow nest course w).2 := by
  induction course generalizing w with
  | done a s => exact hhost w s hcourse
  | interrupt i s => exact h.trans (hhost w s hcourse) (h.stopped _ (.interrupt i))
  | spent s => exact h.trans (hhost w s hcourse) (h.spent _)
  | nest t s k ih =>
    -- The course goes on in the state that the session leaves, which is again in the relation.
    have ht := hn t hopens.1 { w with host := s }
    have h₁ := h.trans (hhost w s hcourse.1) ht
    unfold Exec.follow
    generalize nest t { w with host := s } = r at ht h₁ ⊢
    obtain ⟨_ | u, w₁⟩ := r
    · exact h₁
    · exact h.trans h₁ (ih u w₁.host (hcourse.2 u w₁.host (hrel ht)) (hopens.2 u w₁.host))
  | attempt t s k ih =>
    have ht := h.catches.caught (hn t hopens.1 { w with host := s })
    have h₁ := h.trans (hhost w s hcourse.1) ht
    unfold Exec.follow
    generalize Exec.caught (nest t) { w with host := s } = r at ht h₁ ⊢
    obtain ⟨_ | u, w₁⟩ := r
    · exact h₁
    · exact h.trans h₁ (ih u w₁.host (hcourse.2 u w₁.host (hrel ht)) (hopens.2 u w₁.host))

namespace Calc

/-- The two names once they are bound in a scope. -/
theorem Forest.get?_bound (f : Forest) {i : ScopeId} (hi : i < f.size) (session last : Value) :
    ((f.define i "_session_" session).define i "_" last).get? i "_session_" = some session ∧
      ((f.define i "_session_" session).define i "_" last).get? i "_" = some last := by
  constructor
  · rw [get?_define, if_neg (by simp), get?_define, if_pos ⟨rfl, hi, rfl⟩]
  · rw [get?_define, if_pos ⟨rfl, by rwa [size_define], rfl⟩]

/-- A target makes sense in a forest: if it is a context, there is its scope. -/
def Known (t : Target Context) (f : Forest) : Prop := ∀ c, t = .context c → c.scope < f.size

theorem known_topLevel (f : Forest) : Known .topLevel f := nofun

/-- A deed asked for in the context `ctx` opens sessions in no other contexts than those whose scope
is the same or stands in the forest. -/
def Reaches (f : Forest) (ctx : Context) (d : Command.Deed host) : Prop :=
  ∀ c, d = .nest (.context c) → c.scope = ctx.scope ∨ c.scope < f.size

/-- A deed asked for in the context `ctx` opens sessions in no other contexts than those whose scope
is the same or up to `n`. -/
def ReachesTo (n : Nat) (ctx : Context) (d : Command.Deed host) : Prop :=
  ∀ c, d = .nest (.context c) → c.scope = ctx.scope ∨ c.scope ≤ n

theorem reachesTo_of_stays {t : Command.Table host} (h : t.Asks Command.Deed.Stays) (n : Nat) :
    t.Asks (ReachesTo n) :=
  h.mono fun _ _ hd c hc => .inl (congrArg Context.scope (hd c hc))

/-- There is the scope `i`, if there are those up to `n`. -/
def Forest.Has (n : Nat) (f : Forest) (i : ScopeId) : Prop := i ≤ n ∨ i < f.size

theorem Forest.Has.of_grows {n : Nat} {f g : Forest} {i : ScopeId} (h : f.Has n i)
    (hfg : f.Grows g) : g.Has n i :=
  h.imp_right fun hlt => Nat.lt_of_lt_of_le hlt hfg

theorem Forest.Has.lt_size {n : Nat} {f : Forest} {i : ScopeId} (h : f.Has n i) (hn : n < f.size) :
    i < f.size :=
  h.elim (fun hle => Nat.lt_of_le_of_lt hle hn) id

/-- A target makes sense in a forest, if there are the scopes up to `n`. -/
def Sound (n : Nat) (t : Target Context) (f : Forest) : Prop :=
  ∀ c, t = .context c → f.Has n c.scope

theorem sound_object (n : Nat) (v : Value) (f : Forest) : Sound n (.object v) f := nofun

theorem Known.sound {t : Target Context} {f : Forest} (h : Known t f) (n : Nat) : Sound n t f :=
  fun c hc => .inr (h c hc)

/-- A target takes no scope away, and afterwards there is the scope of the context that it means. -/
theorem resolve_grows {n : Nat} {t : Target Context} {f : Forest} (ht : Sound n t f) :
    f.Grows (host.resolve t f).2 ∧
      Forest.Has n (host.resolve t f).2 (host.resolve t f).1.scope := by
  have hadd : ∀ s : Scope, f.size < (⟨f.scopes ++ [s]⟩ : Forest).size := fun s => by
    rw [Forest.size, Forest.size, List.length_append]
    exact Nat.lt_succ_self _
  cases t with
  | topLevel => exact ⟨Nat.le_refl _, .inl (Nat.zero_le n)⟩
  | object v =>
    unfold Host.resolve
    dsimp only
    split
    · exact ⟨Nat.le_refl _, .inl (Nat.zero_le n)⟩
    · exact ⟨Nat.le_of_lt (hadd _), .inr (hadd _)⟩
  | context c => exact ⟨Nat.le_refl _, ht c rfl⟩
  | detached v => exact ⟨Nat.le_of_lt (hadd _), .inr (hadd _)⟩

end Calc

/-! ## What is bound when a unit begins -/

/-- At the moment `m`, at which the session with the number `id` begins to evaluate a unit in the
context `c`: it is the innermost session and held on the receiver of the context, the two names mean
this session and the last result, and the scope of the context binds the first one itself. -/
structure Prepared (id : SessionId) (c : Calc.Context) (m : Moment Calc.host) : Prop where
  active : m.view.active = some id
  frame : ∃ depth, m.view.stack.getLast? = some ⟨depth, c.receiver⟩
  session : m.host.lookup c.scope "_session_" = some (.session id)
  last : m.host.lookup c.scope "_" = some m.view.last
  own : m.host.get? c.scope "_session_" = some (.session id)

/-- The stack is kept, no scope is taken away, and if there are the scopes up to `n`, every unit
that is evaluated finds the names bound. -/
structure Binds (n : Nat) (w w' : World Calc.host) : Prop where
  nests : Nests (fun _ => False) w none w'
  grows : Calc.Forest.Grows w.host w'.host
  prepared : n < Calc.Forest.size w.host → ∀ m ∈ w'.since w, ∀ id c source,
    m.event = .evaluating id c source → Prepared id c m

/-- The session `s` is the innermost one, held in the context `ctx`, whose scope there is if there
are those up to `n`. -/
structure Session.Houses (s : Session Calc.host) (n : Nat) (ctx : Calc.host.Context)
    (w : World Calc.host) : Prop where
  holds : s.Holds ctx w
  scope : Calc.Forest.Has n w.host ctx.scope

/-- It stays the innermost one as long as the stack is kept, and its scope is not taken away. -/
theorem Session.Houses.of_binds {s : Session Calc.host} {n : Nat} {ctx : Calc.host.Context}
    {w w' : World Calc.host} (hw : s.Houses n ctx w) (h : Binds n w w') : s.Houses n ctx w' :=
  ⟨hw.holds.of_nests h.nests, hw.scope.of_grows h.grows⟩

/-- A session that begins is the innermost one, in the context that its target means. -/
theorem Session.Houses.begun (s : Session Calc.host) {n : Nat} {t : Target Calc.host.Context}
    {w₀ w : World Calc.host} (ht : Calc.Sound n t w₀.host)
    (hw : Binds n { w₀ with host := (Calc.host.resolve t w₀.host).2 } w) :
    s.Houses n (Calc.host.resolve t w₀.host).1
      (s.begun (Calc.host.receiver (Calc.host.resolve t w₀.host).1) w) :=
  ⟨.begun s _ w, (Calc.resolve_grows ht).2.of_grows hw.grows⟩

namespace Binds

variable {n : Nat} {w w₁ w₂ w' : World Calc.host}

theorem trans (h₁ : Binds n w w₁) (h₂ : Binds n w₁ w₂) : Binds n w w₂ where
  nests := h₁.nests.trans h₂.nests
  grows := Nat.le_trans h₁.grows h₂.grows
  prepared hpos m hm := by
    rw [World.since_trans h₂.nests.follows h₁.nests.follows] at hm
    rcases List.mem_append.1 hm with hm | hm
    · exact h₁.prepared hpos m hm
    · exact h₂.prepared (Nat.lt_of_lt_of_le hpos h₁.grows) m hm

/-- Something happens by which no unit begins. -/
theorem of_nests {ms : List (Moment Calc.host)} (hn : Nests (fun _ => False) w none w')
    (hg : Calc.Forest.Grows w.host w'.host) (hlog : w'.log.toList = w.log.toList ++ ms)
    (hms : ∀ m ∈ ms, m.event.unit? = none) : Binds n w w' where
  nests := hn
  grows := hg
  prepared _ m hm id c source hev := by
    rw [World.since_eq hlog] at hm
    have hnone := hms m hm
    rw [hev] at hnone
    cases hnone

/-- The forest grows, and nothing else happens. -/
theorem host {state : Calc.Forest} (h : Calc.Forest.Grows w.host state) :
    Binds n w { w with host := state } :=
  of_nests (Nests.works.host w state) h (List.append_nil _).symm
    fun _ hm => absurd hm List.not_mem_nil

theorem record {ev : Event Calc.host} (hstill : ev.Still) (hev : ev.unit? = none) :
    Binds n w (w.record ev) := by
  refine of_nests (Nests.record hstill) (Nat.le_refl _) (w.log_record ev) fun m hm => ?_
  rw [List.mem_singleton.1 hm]
  exact hev

theorem of_log_eq (hn : Nests (fun _ => False) w none w') (hlog : w'.log = w.log)
    (hhost : w'.host = w.host) : Binds n w w' := by
  have hlog' : w'.log.toList = w.log.toList ++ [] := by rw [hlog, List.append_nil]
  refine of_nests hn (Nat.le_of_eq ?_) hlog' fun _ hm => absurd hm List.not_mem_nil
  rw [hhost]

/-- Reading and writing evaluates nothing. -/
theorem quiet : Conduct.Quiet fun (w : World Calc.host) _ w' => Binds n w w' where
  refl w := of_log_eq (Nests.works.refl w) rfl rfl
  trans h₁ h₂ := h₁.trans h₂
  anyhow _ h := h
  record w e he := by cases e <;> first | exact record (fun _ => rfl) rfl | cases he
  sink w sink := of_log_eq (.of_log_eq rfl rfl rfl (Nat.le_refl _)) rfl rfl
  inputs w inputs := of_log_eq (Nests.works.inputs w inputs) rfl rfl

/-- Binding a name takes no scope away. -/
theorem bindConveniences (s : Session Calc.host) (c : Calc.host.Context) :
    Exec.Meets (fun w _ w' => Binds n w w') (s.bindConveniences c) := by
  have hbind : ∀ name v, Exec.Meets (fun w _ w' => Binds n w w')
      (Exec.bindName (H := Calc.host) c name v) := fun name v w =>
    host (Nat.le_of_eq (Calc.Forest.size_define w.host c.scope name v).symm)
  exact quiet.bind_meets (quiet.read_meets _) fun _ => quiet.bind_meets (hbind _ _) fun _ =>
    quiet.bind_meets (quiet.read_meets _) fun _ => hbind _ _

section Inside

variable {run : Session.Runner Calc.host} {s : Session Calc.host}
  (hn : ∀ t, Exec.Meets (Conduct.given (fun w _ w' => Binds n w w') fun w => Calc.Sound n t w.host)
    (s.nestVia run t))
include hn

theorem evaluateIn (rounds : Nat) (c : Calc.host.Context) (source : String) :
    Exec.Meets (fun w _ w' => Binds n w w') (s.evaluateIn run rounds c source) := by
  intro w
  refine quiet.follow_kept (fun h => h.grows) (fun w state h => host h) ?_
    (Calc.evaluate_keeps rounds c source w.host) (Calc.evaluate_plain rounds c source w.host).2
  rintro t ⟨v, rfl⟩ w
  exact hn (.object v) w (Calc.sound_object n v w.host)

theorem consult (rounds : Nat) (c : Calc.host.Context) (source : String) :
    Exec.Meets (fun w _ w' => Binds n w w') (s.consult run rounds c source) :=
  quiet.consult_meets (fun _ => record (fun _ => rfl) rfl) (evaluateIn hn rounds c source)

omit hn in
/-- A unit begins, for which all is prepared. -/
theorem evaluating {id : SessionId} {c : Calc.Context} {source : String}
    (h : n < Calc.Forest.size w.host →
      Prepared id c ⟨.evaluating id c source, w.view, w.host⟩) :
    Binds n w (w.record (.evaluating id c source)) where
  nests := Nests.record fun _ => rfl
  grows := Nat.le_refl _
  prepared hpos m hm id' c' source' hev := by
    rw [World.since_eq (w.log_record _), List.mem_singleton] at hm
    subst hm
    cases hev
    exact h hpos

omit hn in
/-- The two names are bound right before a unit begins. -/
theorem announce (ctx : Calc.host.Context) (source : String) :
    Exec.Meets (Conduct.given (fun w _ w' => Binds n w w') (s.Houses n ctx))
      (s.announce ctx source) := by
  intro w hhouses
  obtain ⟨⟨hactive, hframe⟩, hscope⟩ := hhouses
  have hbind : Binds n w (s.bindConveniences ctx w).2 := bindConveniences s ctx w
  refine hbind.trans (evaluating fun hpos => ?_)
  -- The forest has as many scopes as before, so that the scope of the context is one of them.
  have hsize : (Calc.Forest.size (s.bindConveniences ctx w).2.host) = Calc.Forest.size w.host :=
    (Calc.Forest.size_define _ _ _ _).trans (Calc.Forest.size_define _ _ _ _)
  have hexists : ctx.scope < Calc.Forest.size w.host := hscope.lt_size (hsize ▸ hpos)
  obtain ⟨hsession, hlast⟩ := Calc.Forest.get?_bound w.host hexists
    (.session (w.active.getD s.id)) w.last
  refine ⟨hactive, hframe, (Calc.Forest.lookup_of_get? hsession).trans ?_,
    Calc.Forest.lookup_of_get? hlast, hsession.trans ?_⟩
  all_goals rw [hactive]; rfl

omit hn in
theorem conclude (c : Calc.host.Context) (outcome : Outcome) :
    Exec.Meets (fun w _ w' => Binds n w w') (s.conclude c outcome) := by
  cases outcome with
  | value v =>
    refine quiet.bind_meets (fun w => of_log_eq (Nests.works.last w v) rfl rfl) fun _ => ?_
    exact quiet.bind_meets (fun _ => record (fun _ => rfl) rfl) fun _ => bindConveniences s c
  | fault f => exact fun _ => record (fun _ => rfl) rfl

omit hn in
/-- A session that is the innermost one in its context stays it. -/
theorem orders_given (ctx : Calc.host.Context) :
    Conduct.Orders (Conduct.given (fun w _ w' => Binds n w w') (s.Houses n ctx)) :=
  quiet.toOrders.given fun h hw => hw.of_binds h

/-- A unit finds the names bound. -/
theorem evaluate (rounds : Nat) (ctx : Calc.host.Context) (source : String) :
    Exec.Meets (Conduct.given (fun w _ w' => Binds n w w') (s.Houses n ctx))
      (s.evaluate run rounds ctx source) :=
  (orders_given ctx).evaluate_allowed (announce ctx source)
    ((evaluateIn hn rounds ctx source).given _) fun outcome => (conclude ctx outcome).given _

/-- All units that a session evaluates while it is on the stack find the names bound. -/
theorem body (htable : s.config.commands.Asks (Calc.ReachesTo n)) (rounds : Nat)
    (ctx : Calc.host.Context) (w : World Calc.host) :
    Conduct.given (fun w _ w' => Binds n w w') (s.Houses n ctx) w
      (Session.bodyEnding (s.body run rounds ctx w).1) (s.body run rounds ctx w).2 := by
  have hquiet : Conduct.Quiet (Conduct.given (fun w _ w' => Binds n w w') (s.Houses n ctx)) :=
    quiet.given fun h hw => hw.of_binds h
  refine hquiet.body_meets (fun w _ => quiet.spent w) ((bindConveniences s ctx).given _) ?_ w
  have hread : Exec.Meets (Conduct.given (fun w _ w' => Binds n w w') (s.Houses n ctx))
      (s.readUnit run rounds ctx) := by
    refine hquiet.readUnit_meets (fun c source _ => (consult hn rounds c source).given _)
      (fun t ht w hw => hn t w ?_) fun command hcommand call hcall =>
        hcall ▸ htable command hcommand call
    -- A session that a command opens in a context has the scope that this one has, or one that is
    -- there from the first.
    rintro c rfl
    rcases ht c rfl with hsame | hle
    · exact hsame ▸ hw.scope
    · exact .inl hle
  refine hquiet.bind_meets hread fun source => ?_
  exact hquiet.bind_meets (evaluate hn rounds ctx source) fun outcome =>
    (quiet.print_meets s outcome).given _

end Inside

/-- Sessions are held in contexts whose scopes there are. -/
theorem opens (c : Config Calc.host) :
    Conduct.Opens (fun (w : World Calc.host) _ w' => Binds n w w') c (Calc.Sound n)
      fun s ctx => Conduct.given (fun w _ w' => Binds n w w') (s.Houses n ctx) where
  toOrders := quiet.toOrders
  spent := quiet.spent
  newId w := of_log_eq (.of_log_eq rfl rfl rfl (Nat.le_succ _)) rfl rfl
  resolve t w ht := host (Calc.resolve_grows ht).1
  fire s name receiver _ :=
    quiet.writes.fire_meets s name [receiver] fun _ => record (fun _ => rfl) rfl
  frame {s t w₀ w w₂ e e'} _ ht _ hw hin _ := by
    have hinside := hin (.begun s ht hw)
    refine ⟨Nests.frame (fun _ hF => hF.elim) hinside.nests, hinside.grows, ?_⟩
    intro hpos m hm id c source hev
    rw [Session.since_leave hinside.nests.follows (w₂.leave_follows _ _),
      World.since_eq (s.begun_log _ w), World.since_eq (w₂.leave_log _ _)] at hm
    simp only [List.cons_append, List.nil_append, List.mem_cons, List.mem_append,
      List.not_mem_nil, or_false] at hm
    -- The session itself evaluates nothing when it begins and ends.
    rcases hm with rfl | rfl | hm | rfl
    · cases hev
    · cases hev
    · exact hinside.prepared hpos m hm id c source hev
    · cases hev
  aborted id h := h.trans (record (fun _ => rfl) rfl)
  ended _ _ _ := record (fun _ => rfl) rfl
  propagated _ _ _ _ := record (fun _ => rfl) rfl

/-- In every run, each unit finds the names bound when it begins. -/
theorem run (rounds : Nat) (s : Session Calc.host)
    (htable : s.config.commands.Asks (Calc.ReachesTo n)) (t : Target Calc.host.Context)
    (w : World Calc.host) (ht : Calc.Sound n t w.host) : Binds n w (s.run rounds t w).2 :=
  (opens s.config).run_meets (fun rounds _ ctx hs hn => body hn (hs ▸ htable) rounds ctx) rounds s
    rfl t w ht

/-- So it is for the units of sessions that are opened inside of others. -/
theorem nest (rounds : Nat) (s : Session Calc.host)
    (htable : s.config.commands.Asks (Calc.ReachesTo n)) (t : Target Calc.host.Context) :
    Exec.Meets (Conduct.given (fun w _ w' => Binds n w w') fun w => Calc.Sound n t w.host)
      (s.nestVia (Session.run rounds) t) := by
  intro w ht
  exact ((opens s.config).newId w).trans
    (run rounds ⟨w.nextId, s.config⟩ htable t { w with nextId := w.nextId + 1 } ht)

end Binds

/-! ## The names at the begin of a unit -/

/-- In every run of a session on a target, whatever sessions are opened in it, by commands or by
units, on values or in contexts that there are, and however they end: when a session begins to
evaluate a unit in its context, this session is the innermost open one, the name `_session_` means
it there, and the name `_` means the value of the last unit that had one, of all units evaluated so
far, or nil if none had. At all moments this value is the last result.

A unit has a value if evaluating it gives one: this is noted at once, and nothing is noted but the
outcome of a unit that has just been evaluated. So the last result changes by no unit that has a
fault or is interrupted, and by no source of a command. All this also holds of a further run in the
world that the run leaves. -/
theorem Session.conveniences_at_units (rounds : Nat) (s : Session Calc.host)
    (t : Target Calc.host.Context) (w : World Calc.host)
    (htable : s.config.commands.Asks (Calc.Reaches w.host)) (ht : Calc.Known t w.host)
    (hhost : 0 < Calc.Forest.size w.host) (hlast : w.last = lastValue .nil w.log.toList) :
    let r := run rounds s t w
    (∀ pre m post id c source, r.2.since w = pre ++ m :: post →
      m.event = .evaluating id c source →
        m.view.active = some id ∧
        (∀ opened, w.Fits opened → s.Fresh w opened → ∃ outer a,
          ((Roster.of opened).through pre).now = outer ++ [a] ∧ a.id = id ∧
            a.receiver = c.receiver) ∧
        m.host.lookup c.scope "_session_" = some (.session id) ∧
        m.host.lookup c.scope "_" = some (lastValue .nil (w.log.toList ++ pre))) ∧
    (∀ pre m post, r.2.since w = pre ++ m :: post →
      m.view.last = lastValue .nil (w.log.toList ++ pre ++ [m]) ∧
      (∀ id c source, m.event.Evaluates id c source →
        Evaluated s.config (w.sink.through pre) id c source m post (ending r.1)) ∧
      ∀ id outcome, m.event.noted? = some (id, outcome) →
        ∃ before x mid c source, pre = before ++ x :: mid ∧ x.event = .evaluating id c source ∧
          Completed s.config id c source x mid outcome) ∧
    0 < Calc.Forest.size r.2.host ∧ r.2.last = lastValue .nil r.2.log.toList := by
  intro r
  -- The scopes that there are at first are those up to `n`.
  obtain ⟨n, hn⟩ := Nat.exists_eq_add_one.2 hhost
  have hreaches : s.config.commands.Asks (Calc.ReachesTo n) := htable.mono fun _ _ hd c hc =>
    (hd c hc).imp_right fun hlt => Nat.le_of_lt_succ (Nat.lt_of_lt_of_eq hlt hn)
  have hbinds : Binds n w r.2 := Binds.run rounds s hreaches t w (ht.sound n)
  have hrecalls : Recalls w r.2 := Recalls.run rounds s t w
  have hmoments : ∀ pre m post, r.2.since w = pre ++ m :: post →
      m.view.last = lastValue .nil (w.log.toList ++ pre ++ [m]) := by
    intro pre m post hms
    rw [hrecalls.moments hms, List.append_assoc, lastValue_append .nil, ← hlast]
  refine ⟨?_, fun pre m post hms => ⟨hmoments pre m post hms, run_evaluated rounds s t w hms⟩,
    Nat.lt_of_lt_of_le hhost hbinds.grows, ?_⟩
  · intro pre m post id c source hms hev
    have hmem : m ∈ r.2.since w := by
      rw [hms]
      exact List.mem_append_right _ List.mem_cons_self
    obtain ⟨hactive, ⟨depth, hframe⟩, hsession, hname, -⟩ :=
      hbinds.prepared (Nat.lt_of_lt_of_eq n.lt_succ_self hn.symm) m hmem id c source hev
    refine ⟨hactive, ?_, hsession, ?_⟩
    · intro opened hfits hfresh
      have hm := ((Nests.run rounds s t w).tracked opened hfresh hfits).fits hms
      have hnow : ((Roster.of opened).through (pre ++ [m])).opened =
          ((Roster.of opened).through pre).now := by
        rw [Roster.through_append, Roster.through_cons, hev]
        rfl
      rw [hnow] at hm
      have hid := hm.active
      rw [hactive] at hid
      obtain ⟨a, ha, rfl⟩ := Option.map_eq_some_iff.1 hid.symm
      obtain ⟨outer, houter⟩ := List.getLast?_eq_some_iff.1 ha
      refine ⟨outer, a, houter, rfl, ?_⟩
      rw [hm.stack, List.getLast?_map, ha] at hframe
      exact congrArg Frame.receiver (Option.some.inj hframe)
    · -- That a unit begins is no value of a unit.
      have hnone : m.event.value? = none := by
        rw [hev]
        rfl
      rw [hname, hmoments pre m post hms, lastValue_concat _ _ hnone]
  · rw [hrecalls.last, hrecalls.follows.log_eq, lastValue_append .nil, ← hlast]

/-- A session on the top level opens a second one there, in the same scope. That one has a unit of
its own, binds the name for the session to a number and then has a fault, and a command opens a
third session on five. After all of them are left, the last unit of the first session still finds
the session itself and the value of the unit before, which is what the second session gave. -/
theorem Session.conveniences_at_units_shared :
    let w : World Calc.host :=
      { host := .single, nextId := 2,
        inputs := [.scripted { queue :=
          [.ok (.line "_ = 4"), .ok (.line "nest(self)"), .ok (.line "9"),
            .ok (.line "_session_ = _ + 1"), .ok (.line "raise(0)"), .ok (.line "cd 5"),
            .ok (.line "exit"), .ok (.line "exit"), .ok (.line "_")] }] }
    let s : Session Calc.host := ⟨1, .standard 0⟩
    s.config.commands.Asks (Calc.Reaches w.host) ∧ Calc.Known .topLevel w.host ∧
      0 < Calc.Forest.size w.host ∧ w.last = lastValue .nil w.log.toList ∧
      ∃ pre m post, (run 12 s .topLevel w).2.since w = pre ++ m :: post ∧
        m.event = .evaluating 1 Calc.topContext "_\n" ∧
        m.host.lookup 0 "_session_" = some (.session 1) ∧
        m.host.lookup 0 "_" = some .main := by
  intro w s
  have hplace : (((run 12 s .topLevel w).2.since w)[95]?.map fun m =>
      (m.event.unit?, m.view.last)) = some (some (1, Calc.topContext, "_\n"), .main) := by
    decide +kernel
  obtain ⟨pre, m, post, hms, hm⟩ := exists_split hplace
  obtain ⟨hunit, hview⟩ := Prod.mk.inj hm
  have hev := Event.eq_of_unit? hunit
  have htable : s.config.commands.Asks (Calc.Reaches w.host) :=
    Command.standard_stays.mono fun _ _ hd c hc => .inl (congrArg Calc.Context.scope (hd c hc))
  have htarget := Calc.known_topLevel w.host
  obtain ⟨hunits, hmoments, -⟩ :=
    conveniences_at_units 12 s .topLevel w htable htarget (by decide) rfl
  obtain ⟨-, -, hsession, hlast⟩ := hunits pre m post _ _ _ hms hev
  have hmain := (hmoments pre m post hms).1
  rw [lastValue_concat _ _ (by rw [hev]; rfl), hview] at hmain
  rw [← hmain] at hlast
  exact ⟨htable, htarget, by decide, rfl, pre, m, post, hms, hev, hsession, hlast⟩

end CalcShell
