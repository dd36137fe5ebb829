import CalcShell.Proofs.Session.Opening
import CalcShell.Proofs.Session.Reading

/-!
# What the open sessions have before them

Each open session has a desk. On it lie the lines that the session has read for a unit that is not
complete yet, and it shows whether the session last turned to a unit or to a command. The log tells
the desks of all open sessions, innermost first (`Desks.through`): a session gets an empty desk when
it is put on the stack, and it takes the desk with it.

Some statements about all runs can be checked moment by moment against the desks (`Audit`). What a
session does changes its own desk at most (`Audit.Moves`), and a whole run, a command or an
evaluation leaves all desks as they were (`Audit.Keeps`). `Audit.run_keeps` assembles a statement
about all runs from what is read and what is printed for a unit.
-/

namespace CalcShell

/-- What an open session has before it: the lines of a unit that is not complete yet, and whether it
last turned to a unit rather than to a command. -/
structure Desk where
  lines : List String := []
  unit : Bool := false

/-- No lines lie on the desk. -/
def Desk.Clear (d : Desk) : Prop := d.lines = []

variable {H : Host}

namespace Desks

/-- The desks of the open sessions, innermost first, after an event. -/
def after (ds : List Desk) : Event H → List Desk
  | .lineRead line => ds.modifyHead fun d => { d with lines := d.lines ++ [line] }
  | .evaluating .. => ds.modifyHead fun _ => { unit := true }
  | .dispatched _ => ds.modifyHead fun _ => {}
  | .cancelled => ds.modifyHead fun d => { d with lines := [] }
  | .pushed .. => {} :: ds
  | .popped .. => ds.tail
  | _ => ds

/-- The desks after some moments. -/
def through (ds : List Desk) (ms : List (Moment H)) : List Desk :=
  ms.foldl (fun ds m => after ds m.event) ds

@[simp]
theorem through_nil (ds : List Desk) : through ds ([] : List (Moment H)) = ds := rfl

theorem through_append (ds : List Desk) (ms ns : List (Moment H)) :
    through ds (ms ++ ns) = through (through ds ms) ns :=
  List.foldl_append

/-- The innermost session turned to a unit last, or to a command. -/
def AtUnit (unit : Bool) (ds : List Desk) : Prop := ds.head?.map Desk.unit = some unit

instance (unit : Bool) (ds : List Desk) : Decidable (AtUnit unit ds) :=
  inferInstanceAs (Decidable (_ = _))

end Desks

/-- What comes after a unit was evaluated and before the next one is read: the outcome is noted and
printed. -/
def Session.report (s : Session H) (ctx : H.Context) (outcome : Outcome) : Exec H Unit := do
  s.conclude ctx outcome
  s.print outcome

/-- A step in its four parts. -/
theorem Session.step_eq (run : Runner H) (rounds : Nat) (s : Session H) (ctx : H.Context) :
    s.step run rounds ctx = (do
      let source ← s.readUnit run rounds ctx
      s.announce ctx source
      let outcome ← s.evaluateIn run rounds ctx source
      s.report ctx outcome) := by
  funext w
  simp only [step, evaluate_eq, report, Exec.bind_apply]
  generalize s.readUnit run rounds ctx w = r
  obtain ⟨_ | source, w₁⟩ := r
  · rfl
  dsimp only
  generalize s.announce ctx source w₁ = r
  obtain ⟨_ | _, w₂⟩ := r
  · rfl
  dsimp only
  generalize s.evaluateIn run rounds ctx source w₂ = r
  obtain ⟨_ | outcome, w₃⟩ := r
  · rfl
  dsimp only
  generalize s.conclude ctx outcome w₃ = r
  obtain ⟨_ | _, w₄⟩ := r <;> rfl

/-- Whether an event shows something of a unit to the user: a prompt for it, or its outcome. -/
def Event.isShown : Event H → Bool
  | .prompted .. | .valued .. | .faulted .. | .printed .. => true
  | _ => false

/-- A statement about moments that is checked from one to the next, in view of the desks of the
sessions that are open at first. Only what is shown of units can fail it. -/
structure Audit (H : Host) where
  Ok : List Desk → List (Moment H) → Prop
  nil : ∀ ds, Ok ds []
  append : ∀ {ds ms ns}, Ok ds ms → Ok (Desks.through ds ms) ns → Ok ds (ms ++ ns)
  quiet : ∀ ds m, m.event.isShown = false → Ok ds [m]

namespace Audit

variable {A : Audit H}

/-- Between the two worlds the desks change from `ds` to `ds'`, and what happens passes the audit.
The stack is kept. -/
structure Carries (A : Audit H) (ds : List Desk) (w w' : World H) (ds' : List Desk) : Prop where
  nests : Nests (fun _ => False) w none w'
  desks : Desks.through ds (w'.since w) = ds'
  ok : A.Ok ds (w'.since w)

/-- All desks that satisfy `P` stay as they are. -/
def Keeps (A : Audit H) (P : List Desk → Prop) : Conduct H := fun w _ w' =>
  Nests (fun _ => False) w none w' ∧ ∀ ds, P ds → A.Carries ds w w' ds

/-- Only the desk of the innermost session changes, which satisfies `P` at first and `Q` in the end
if things go well. -/
def Moves (A : Audit H) (P Q : Desk → Prop) : Conduct H := fun w e w' =>
  Nests (fun _ => False) w none w' ∧
    ∀ d ds, P d → ∃ d', A.Carries (d :: ds) w w' (d' :: ds) ∧ (e = none → Q d')

namespace Carries

variable {w w₁ w₂ w' : World H} {ds ds₁ ds₂ ds' : List Desk}

theorem trans (h₁ : A.Carries ds w w₁ ds₁) (h₂ : A.Carries ds₁ w₁ w₂ ds₂) :
    A.Carries ds w w₂ ds₂ where
  nests := h₁.nests.trans h₂.nests
  desks := by
    rw [World.since_trans h₂.nests.follows h₁.nests.follows, Desks.through_append, h₁.desks,
      h₂.desks]
  ok := by
    rw [World.since_trans h₂.nests.follows h₁.nests.follows]
    refine A.append h₁.ok ?_
    rw [h₁.desks]
    exact h₂.ok

/-- Nothing is recorded. -/
theorem of_log_eq (hn : Nests (fun _ => False) w none w') (hlog : w'.log = w.log)
    (ds : List Desk) : A.Carries ds w w' ds where
  nests := hn
  desks := by rw [World.since_of_log_eq hlog, Desks.through_nil]
  ok := by
    rw [World.since_of_log_eq hlog]
    exact A.nil ds

/-- An event is recorded behind changes that leave the log alone. -/
theorem of_event {ev : Event H} {m : Moment H} (hn : Nests (fun _ => False) w none w')
    (hlog : w'.log.toList = w.log.toList ++ [m]) (hm : m.event = ev)
    (hds : Desks.after ds ev = ds') (hok : A.Ok ds [m]) : A.Carries ds w w' ds' where
  nests := hn
  desks := by
    rw [World.since_eq hlog, ← hds, ← hm]
    rfl
  ok := by
    rw [World.since_eq hlog]
    exact hok

theorem record {ev : Event H} (hstill : ev.Still) (hds : Desks.after ds ev = ds')
    (hok : A.Ok ds [⟨ev, w.view, w.host⟩]) : A.Carries ds w (w.record ev) ds' :=
  of_event (.record hstill) (w.log_record ev) rfl hds hok

/-- A session is put on the stack with an empty desk, and takes its desk with it. -/
theorem frame {s : Session H} {receiver : Value} {d : Desk}
    (h : A.Carries ({} :: ds) (s.begun receiver w) w₂ (d :: ds)) :
    A.Carries ds w (w₂.leave w.active w.depth) ds := by
  have hsince := Session.since_leave h.nests.follows (w₂.leave_follows w.active w.depth)
  rw [World.since_eq (s.begun_log receiver w), World.since_eq (w₂.leave_log _ _)] at hsince
  refine ⟨Nests.frame (fun _ hF => hF.elim) h.nests, ?_, ?_⟩
  · rw [hsince, Desks.through_append, Desks.through_append]
    change Desks.through (Desks.through ({} :: ds) (w₂.since (s.begun receiver w))) _ = ds
    rw [h.desks]
    rfl
  · rw [hsince]
    -- None of the moments around the work of the session is shown.
    have hstarted : A.Ok ds [⟨.started s.id w.depth receiver, w.view, w.host⟩] := A.quiet _ _ rfl
    refine A.append (A.append hstarted (A.quiet _ _ rfl)) (A.append ?_ (A.quiet _ _ rfl))
    exact h.ok

end Carries

namespace Keeps

variable {P : List Desk → Prop} {w w' : World H} {e : Option Stop}

theorem mono {Q : List Desk → Prop} (h : A.Keeps P w e w') (hQP : ∀ ds, Q ds → P ds) :
    A.Keeps Q w e w' :=
  ⟨h.1, fun ds hds => h.2 ds (hQP ds hds)⟩

/-- What leaves all desks alone leaves all but the first one alone. -/
theorem moves (h : A.Keeps (fun _ => True) w e w') (P : Desk → Prop) : A.Moves P P w e w' :=
  ⟨h.1, fun d ds hd => ⟨d, h.2 (d :: ds) trivial, fun _ => hd⟩⟩

/-- How something ends is nothing to the desks, so that interrupts may be caught. -/
theorem bears (t : Command.Table H) : Conduct.Bears (A.Keeps P) t := .inl fun _ _ _ h => h

theorem of_log_eq (hn : Nests (fun _ => False) w none w') (hlog : w'.log = w.log) :
    A.Keeps P w e w' :=
  ⟨hn, fun ds _ => .of_log_eq hn hlog ds⟩

/-- An event is recorded that has nothing to do with desks. -/
theorem record {ev : Event H} (hstill : ev.Still) (hev : ∀ ds, Desks.after ds ev = ds)
    (hok : ∀ ds, P ds → A.Ok ds [⟨ev, w.view, w.host⟩]) : A.Keeps P w e (w.record ev) :=
  ⟨.record hstill, fun ds hds => .record hstill (hev ds) (hok ds hds)⟩

theorem writes : Conduct.Writes (A.Keeps P) where
  refl w := of_log_eq (Nests.works.refl w) rfl
  trans h₁ h₂ := ⟨h₁.1.trans h₂.1, fun ds hds => (h₁.2 ds hds).trans (h₂.2 ds hds)⟩
  io _ _ := record (fun _ => rfl) (fun _ => rfl) fun ds _ => A.quiet ds _ rfl
  wrote w piece sink hsink :=
    have hn := Nests.works.wrote w piece sink hsink
    ⟨hn, fun ds _ => .of_event hn (World.log_record _ _) rfl rfl (A.quiet ds _ rfl)⟩

/-- What commands and evaluations do by themselves leaves desks alone where outcomes may be printed.
-/
theorem serves (hprinted : ∀ ds id outcome view host, P ds →
      A.Ok ds [⟨.printed id outcome, view, host⟩]) : Conduct.Serves (A.Keeps P) where
  toWrites := writes
  spent _ := of_log_eq (Nests.works.refl _) rfl
  host w state := of_log_eq (Nests.works.host w state) rfl
  raise _ _ := record (fun _ => rfl) (fun _ => rfl) fun ds _ => A.quiet ds _ rfl
  printed _ id outcome := record (fun _ => rfl) (fun _ => rfl) fun ds hds =>
    hprinted ds id outcome _ _ hds
  consulting _ _ _ _ := record (fun _ => rfl) (fun _ => rfl) fun ds _ => A.quiet ds _ rfl

/-- Opening and closing sessions leaves the desks of the other ones alone. -/
theorem opens (c : Config H) : Conduct.Opens (A.Keeps fun _ => True) c (fun _ _ => True)
    fun s ctx => Conduct.given (A.Moves Desk.Clear Desk.Clear) (s.Holds ctx) where
  toOrders := writes.toOrders
  spent _ := of_log_eq (Nests.works.refl _) rfl
  newId _ := of_log_eq (.of_log_eq rfl rfl rfl (Nat.le_succ _)) rfl
  resolve _ w _ := of_log_eq (Nests.works.host w _) rfl
  fire s name receiver _ := writes.fire_meets s name [receiver] fun _ =>
    record (fun _ => rfl) (fun _ => rfl) fun ds _ => A.quiet ds _ rfl
  frame {s t w₀ w w₂ _ _} _ _ _ _ hin _ := by
    obtain ⟨hn, hmoves⟩ := hin (.begun s _ w)
    refine ⟨Nests.frame (fun _ hF => hF.elim) hn, fun ds _ => ?_⟩
    obtain ⟨d, hd, -⟩ := hmoves {} ds rfl
    exact hd.frame
  aborted _ h := writes.trans (e := some (.interrupt _)) h
    (record (fun _ => rfl) (fun _ => rfl) fun ds _ => A.quiet ds _ rfl)
  ended _ _ _ := record (fun _ => rfl) (fun _ => rfl) fun ds _ => A.quiet ds _ rfl
  propagated _ _ _ _ := record (fun _ => rfl) (fun _ => rfl) fun ds _ => A.quiet ds _ rfl

/-- Evaluating a source leaves all desks alone if the sessions that it opens do. -/
theorem evaluateIn {run : Session.Runner H} {s : Session H}
    (hn : ∀ t, Exec.Meets (A.Keeps fun _ => True) (s.nestVia run t)) (rounds : Nat)
    (c : H.Context) (source : String) :
    Exec.Meets (A.Keeps fun _ => True) (s.evaluateIn run rounds c source) := by
  intro w
  refine writes.follow_all_meets (fun w state => of_log_eq (Nests.works.host w state) rfl) hn
    (fun _ _ _ h => h) (fun stop v => ?_) _ w
  cases stop with
  | interrupt i => exact record (fun _ => rfl) (fun _ => rfl) fun ds _ => A.quiet ds _ rfl
  | spent => exact of_log_eq (Nests.works.refl v) rfl

end Keeps

namespace Moves

variable {P Q : Desk → Prop} {w w' : World H} {e : Option Stop}

theorem orders (P : Desk → Prop) : Conduct.Orders (A.Moves P P) where
  refl w := (Keeps.writes.refl w).moves P
  trans h₁ h₂ := by
    refine ⟨h₁.1.trans h₂.1, fun d ds hd => ?_⟩
    obtain ⟨d₁, hcarries₁, hd₁⟩ := h₁.2 d ds hd
    obtain ⟨d₂, hcarries₂, hd₂⟩ := h₂.2 d₁ ds (hd₁ rfl)
    exact ⟨d₂, hcarries₁.trans hcarries₂, hd₂⟩

theorem mono {P' Q' : Desk → Prop} (h : A.Moves P Q w e w') (hP : ∀ d, P' d → P d)
    (hQ : ∀ d, Q d → Q' d) : A.Moves P' Q' w e w' := by
  refine ⟨h.1, fun d ds hd => ?_⟩
  obtain ⟨d', hcarries, hd'⟩ := h.2 d ds (hP d hd)
  exact ⟨d', hcarries, fun he => hQ d' (hd' he)⟩

theorem record {ev : Event H} (hstill : ev.Still)
    (hev : ∀ d ds, ∃ d', Desks.after (d :: ds) ev = d' :: ds)
    (hok : ∀ ds, A.Ok ds [⟨ev, w.view, w.host⟩]) :
    A.Moves (fun _ => True) (fun _ => True) w e (w.record ev) := by
  refine ⟨.record hstill, fun d ds _ => ?_⟩
  obtain ⟨d', hd'⟩ := hev d ds
  exact ⟨d', .record hstill hd' (hok _), fun _ => trivial⟩

/-- A session that does something of its own stays the innermost one. -/
theorem ordersIn (P : Desk → Prop) (s : Session H) (ctx : H.Context) :
    Conduct.Orders (Conduct.given (A.Moves P P) (s.Holds ctx)) :=
  (orders P).given fun h hw => hw.of_nests h.1

end Moves

section Session

variable {run : Session.Runner H} {s : Session H}
  (hn : ∀ t, Exec.Meets (A.Keeps fun _ => True) (s.nestVia run t))
  (hprinted : ∀ ds id outcome view host, Desks.AtUnit false ds →
    A.Ok ds [⟨.printed id outcome, view, host⟩])
include hn hprinted

/-- A command that is called clears the desk, and what it does leaves all desks alone. -/
theorem dispatch_carries (rounds : Nat) (ctx : H.Context) {line : String} (pending : String)
    {command : Command H} {captures : List (Option String)}
    (h : s.config.commands.find? line = some (command, captures)) (d : Desk) (ds : List Desk)
    (w : World H) :
    A.Carries (d :: ds) w (s.dispatch run rounds ctx line pending w).2 ({} :: ds) := by
  have hcalled : A.Carries (d :: ds) w (w.record (.dispatched command.usage)) ({} :: ds) :=
    .record (fun _ => rfl) rfl (A.quiet _ _ rfl)
  have hn' : ∀ t, Exec.Meets (A.Keeps (Desks.AtUnit false)) (s.nestVia run t) := fun t w =>
    (hn t w).mono fun _ _ => trivial
  let plan := command.handler ⟨line, captures, w.stack, ctx, s.config.commands.listings⟩
  have hkeeps := Command.Plan.keeps_of_forall (P := fun _ => True)
    (Q := fun _ => ∀ w₁,
      A.Keeps (Desks.AtUnit false) (w.record (.dispatched command.usage)) none w₁ → True)
    (fun _ => trivial) (fun _ _ _ => trivial) plan
  have hacts := ((((Keeps.serves hprinted).acts (Keeps.bears _)).obeys hn' rounds).carryOut_allowed
    (.inl fun _ _ _ h => h) hkeeps pending
    ((Keeps.serves hprinted).refl (w.record (.dispatched command.usage)))).2 ({} :: ds) rfl
  unfold Session.dispatch
  rw [h]
  dsimp only
  rw [World.record_stack]
  generalize s.carryOut run rounds plan pending (w.record (.dispatched command.usage)) = x
    at hacts ⊢
  obtain ⟨⟨_ | _, rest⟩, w₂⟩ := x
  · exact hcalled.trans hacts
  · exact hcalled.trans hacts

theorem dispatch_moves (rounds : Nat) (ctx : H.Context) (line pending : String) (w : World H) :
    A.Moves (fun _ => True) (fun _ => True) w
      (ending (s.dispatch run rounds ctx line pending w).1.1)
      (s.dispatch run rounds ctx line pending w).2 := by
  cases hfind : s.config.commands.find? line with
  | none =>
    rw [Session.dispatch_none run rounds s ctx pending hfind]
    exact (Moves.orders _).refl w
  | some found =>
    have hcarries := dispatch_carries hn hprinted rounds ctx pending hfind
    exact ⟨(hcarries {} [] w).nests, fun d ds _ => ⟨{}, hcarries d ds w, fun _ => trivial⟩⟩

/-- Where any prompt passes, reading a unit changes the desk of its session alone. -/
theorem listens (hprompted : ∀ ds input prompt view host,
      A.Ok ds [⟨.prompted input prompt, view, host⟩]) (rounds : Nat) :
    Conduct.Listens (A.Moves (fun _ => True) fun _ => True) run rounds s := by
  have hwrites : Conduct.Writes (A.Keeps fun _ => True) := Keeps.writes
  refine Conduct.Writes.listens ⟨Moves.orders _, fun w err => (hwrites.io w err).moves _,
    fun w piece sink hs => (hwrites.wrote w piece sink hs).moves _⟩ (fun w => ?_) ?_ ?_ ?_ ?_
    (dispatch_moves hn hprinted rounds)
  · exact Keeps.moves (Keeps.of_log_eq (Nests.works.refl w) rfl) _
  · exact fun w => Moves.record (fun _ => rfl) (fun d _ => ⟨d, rfl⟩) fun ds => A.quiet ds _ rfl
  · exact fun w inputs => Keeps.moves (Keeps.of_log_eq (Nests.works.inputs w inputs) rfl) _
  · intro w e he
    cases e with
    | prompted input prompt =>
      exact Moves.record (fun _ => rfl) (fun d _ => ⟨d, rfl⟩) fun ds => hprompted ds _ _ _ _
    | lineRead line =>
      exact Moves.record (fun _ => rfl) (fun _ _ => ⟨_, rfl⟩) fun ds => A.quiet ds _ rfl
    | _ => cases he
  · intro w e he
    cases e with
    | cancelled =>
      exact Moves.record (fun _ => rfl) (fun _ _ => ⟨_, rfl⟩) fun ds => A.quiet ds _ rfl
    | undecided f =>
      exact Moves.record (fun _ => rfl) (fun d _ => ⟨d, rfl⟩) fun ds => A.quiet ds _ rfl
    | incomplete reason =>
      exact Moves.record (fun _ => rfl) (fun d _ => ⟨d, rfl⟩) fun ds => A.quiet ds _ rfl
    | _ => cases he

end Session

/-- A unit is announced: the lines are off the desk, which shows that the session is at a unit. -/
theorem announce_carries (s : Session H) (ctx : H.Context) (source : String) (w : World H) :
    ∃ w', s.announce ctx source w = (.ok (), w') ∧
      ∀ d ds, A.Carries (d :: ds) w w' ({ unit := true } :: ds) := by
  obtain ⟨state, hstate⟩ := s.announce_apply ctx source w
  refine ⟨_, hstate, fun d ds => ?_⟩
  have hbound : A.Carries (d :: ds) w { w with host := state } (d :: ds) :=
    .of_log_eq (Nests.works.host w state) rfl _
  exact hbound.trans (.record (fun _ => rfl) rfl (A.quiet _ _ rfl))

/-- A step is as it should be if reading a unit is from a clear desk, and if noting and printing its
outcome leaves the desks alone. The desk is then clear again. -/
theorem step_moves {run : Session.Runner H} {rounds : Nat} {s : Session H} {ctx : H.Context}
    (hn : ∀ t, Exec.Meets (A.Keeps fun _ => True) (s.nestVia run t))
    (hread : Exec.Meets (Conduct.given (A.Moves Desk.Clear fun _ => True) (s.Holds ctx))
      (s.readUnit run rounds ctx))
    (hreport : ∀ outcome, Exec.Meets (A.Keeps (Desks.AtUnit true)) (s.report ctx outcome)) :
    Exec.Meets (Conduct.given (A.Moves Desk.Clear Desk.Clear) (s.Holds ctx))
      (s.step run rounds ctx) := by
  intro w hholds
  have hfirst := hread w hholds
  rw [Session.step_eq, Exec.bind_apply]
  generalize s.readUnit run rounds ctx w = r at hfirst ⊢
  obtain ⟨_ | source, w₁⟩ := r
  · refine ⟨hfirst.1, fun d ds hd => ?_⟩
    obtain ⟨d', hcarries, -⟩ := hfirst.2 d ds hd
    exact ⟨d', hcarries, nofun⟩
  have heval : Exec.Meets (A.Keeps (Desks.AtUnit true)) (s.evaluateIn run rounds ctx source) :=
    fun w => (Keeps.evaluateIn hn rounds ctx source w).mono fun _ _ => trivial
  have hrest := Keeps.writes.bind_meets heval hreport
  obtain ⟨w₂, hw₂, hannounce⟩ := announce_carries (A := A) s ctx source w₁
  dsimp only
  rw [Exec.bind_of_ok hw₂]
  refine ⟨hfirst.1.trans ((hannounce {} []).nests.trans (hrest w₂).1), fun d ds hd => ?_⟩
  obtain ⟨d', hcarries, -⟩ := hfirst.2 d ds hd
  exact ⟨{ unit := true }, hcarries.trans ((hannounce d' ds).trans
    ((hrest w₂).2 ({ unit := true } :: ds) rfl)), fun _ => rfl⟩

/-- Every run passes an audit that reading a unit passes, and noting and printing its outcome. -/
theorem run_keeps {c : Config H}
    (hread : ∀ rounds (s : Session H) ctx, s.config = c →
      (∀ t, Exec.Meets (A.Keeps fun _ => True) (s.nestVia (Session.run rounds) t)) →
      Exec.Meets (Conduct.given (A.Moves Desk.Clear fun _ => True) (s.Holds ctx))
        (s.readUnit (Session.run rounds) rounds ctx))
    (hreport : ∀ (s : Session H) ctx outcome, s.config = c →
      Exec.Meets (A.Keeps (Desks.AtUnit true)) (s.report ctx outcome))
    (rounds : Nat) (s : Session H) (hs : s.config = c) (t : Target H.Context) :
    Exec.Meets (A.Keeps fun _ => True) (s.run rounds t) := by
  refine (Keeps.opens c).run_all_meets (fun rounds s ctx hs hn => ?_) rounds s hs t
  have hbind : Exec.Meets (A.Moves Desk.Clear Desk.Clear) (s.bindConveniences ctx) :=
    (Moves.orders _).bindConveniences_meets
      (fun w state => Keeps.moves (Keeps.of_log_eq (Nests.works.host w state) rfl) _) s ctx
  exact (Moves.ordersIn _ s ctx).body_meets
    (fun w _ => Keeps.moves (Keeps.of_log_eq (Nests.works.refl w) rfl) _) (hbind.given _)
    (step_moves hn (hread rounds s ctx hs hn) fun outcome => hreport s ctx outcome hs)

end Audit

end CalcShell
