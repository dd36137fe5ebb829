import CalcShell.Proofs.Session.Sequel

/-!
# What evaluating a source leads to

The log shows where the source of a unit or of a command is handed to the host. What it goes on with
behind such a moment is what evaluating the source does, in a world like that of the moment
(`Evaluated`), and behind a unit that has an outcome the session notes this outcome at once. On the
other hand no outcome is noted but that of a unit which has just been evaluated (`Completed`). Both
are so in every run, whatever sessions are opened in it (`Session.run_evaluated`).
-/

namespace CalcShell

variable {H : Host}

/-! ## Following evaluations -/

namespace Exec

variable {α β : Type} (nest : Target H.Context → Exec H Value)

/-- A course brings the state of the host with it. -/
theorem follow_host (course : Course H.Context H.State α) (w : World H) (state : H.State) :
    follow nest course { w with host := state } = follow nest course w := by
  cases course with
  | done a s => rfl
  | interrupt i s => rfl
  | spent s => rfl
  | nest t s k => rw [follow_nest, follow_nest]
  | attempt t s k => rw [follow_attempt, follow_attempt]

/-- A course behind another one is followed from the world that the first one leads to. -/
theorem follow_bind (course : Course H.Context H.State α)
    (f : α → H.State → Course H.Context H.State β) (w : World H) :
    follow nest (course.bind f) w =
      match follow nest course w with
      | (.error stop, w') => (.error stop, w')
      | (.ok a, w') => follow nest (f a w'.host) w' := by
  induction course generalizing w with
  | done a s => exact (follow_host nest (f a s) w s).symm
  | interrupt i s => rfl
  | spent s => rfl
  | nest t s k ih =>
    rw [Course.bind, follow_nest, follow_nest]
    generalize nest t { w with host := s } = r
    obtain ⟨_ | u, w₁⟩ := r
    · rfl
    · exact ih u w₁.host w₁
  | attempt t s k ih =>
    rw [Course.bind, follow_attempt, follow_attempt]
    generalize caught (nest t) { w with host := s } = r
    obtain ⟨_ | u, w₁⟩ := r
    · rfl
    · exact ih u w₁.host w₁

end Exec

/-! ## Outcomes that are noted -/

/-- The event by which a session notes the outcome of its unit. -/
def Event.noting (id : SessionId) : Outcome → Event H
  | .value v => .valued id v
  | .fault f => .faulted id f

/-- The session that notes the outcome of its unit by an event, and the outcome. -/
def Event.noted? : Event H → Option (SessionId × Outcome)
  | .valued id v => some (id, .value v)
  | .faulted id f => some (id, .fault f)
  | _ => none

theorem Event.noted?_noting (id : SessionId) (outcome : Outcome) :
    (Event.noting (H := H) id outcome).noted? = some (id, outcome) := by
  cases outcome <;> rfl

/-- The session that notes an outcome does so at once. Nothing else is recorded meanwhile. -/
theorem Session.conclude_log (s : Session H) (c : H.Context) (outcome : Outcome) (w : World H) :
    (s.conclude c outcome w).1 = .ok () ∧
      (s.conclude c outcome w).2.log.toList = w.log.toList ++
        [⟨.noting s.id outcome, ⟨w.stack, outcome.value?.getD w.last, w.active⟩, w.host⟩] := by
  cases outcome with
  | value v => exact ⟨rfl, World.log_record { w with last := v } (.valued s.id v)⟩
  | fault f => exact ⟨rfl, World.log_record w (.faulted s.id f)⟩

/-- The session numbered `id`, made of the parts `c`, evaluates a unit in a world like that of the
moment `m`. This gives an outcome, and the moments `mid` are those at which it does. -/
def Completed (c : Config H) (id : SessionId) (ctx : H.Context) (source : String) (m : Moment H)
    (mid : List (Moment H)) (outcome : Outcome) : Prop :=
  ∃ rounds, ∃ v v' : World H, v.view = m.view ∧ v.host = m.host ∧
    Session.evaluateIn (Session.run rounds) rounds ⟨id, c⟩ ctx source v = (.ok outcome, v') ∧
      v'.since v = mid

/-- Every outcome that is noted between the two worlds is that of a unit that has just been
evaluated. -/
structure Notes (c : Config H) (w w' : World H) : Prop where
  follows : w'.Follows w
  noted : ∀ {pre x post id outcome}, w'.since w = pre ++ x :: post →
    x.event.noted? = some (id, outcome) →
    ∃ before m mid ctx source, pre = before ++ m :: mid ∧ m.event = .evaluating id ctx source ∧
      Completed c id ctx source m mid outcome

namespace Notes

variable {c : Config H} {w w₁ w₂ w' : World H}

theorem trans (h₁ : Notes c w w₁) (h₂ : Notes c w₁ w₂) : Notes c w w₂ where
  follows := h₂.follows.trans h₁.follows
  noted hms hx := by
    rw [World.since_trans h₂.follows h₁.follows] at hms
    rcases split_append hms with ⟨mid, hmid, -⟩ | ⟨mid, rfl, hmid⟩
    · exact h₁.noted hmid hx
    · obtain ⟨before, m, mid', ctx, source, rfl, hm, hcompleted⟩ := h₂.noted hmid hx
      exact ⟨w₁.since w ++ before, m, mid', ctx, source, (List.append_assoc _ _ _).symm, hm,
        hcompleted⟩

/-- The log goes on with moments at which no outcome is noted. -/
theorem of_log {ms : List (Moment H)} (hlog : w'.log.toList = w.log.toList ++ ms)
    (hms : ∀ m ∈ ms, m.event.noted? = none) : Notes c w w' where
  follows := ⟨ms, hlog.symm⟩
  noted {pre x post id outcome} hsince hx := by
    rw [World.since_eq hlog] at hsince
    have hmem : x ∈ ms := by
      rw [hsince]
      exact List.mem_append_right _ List.mem_cons_self
    rw [hms x hmem] at hx
    cases hx

theorem of_log_eq (hlog : w'.log = w.log) : Notes c w w' := by
  have hlog' : w'.log.toList = w.log.toList ++ [] := by rw [hlog, List.append_nil]
  exact of_log hlog' fun _ hm => absurd hm List.not_mem_nil

theorem record {ev : Event H} (hev : ev.noted? = none) : Notes c w (w.record ev) := by
  refine of_log (w.log_record ev) fun m hm => ?_
  rw [List.mem_singleton.1 hm]
  exact hev

/-- Nothing but a session that concludes its unit notes an outcome. -/
theorem serves : Conduct.Serves fun (w : World H) _ w' => Notes c w w' where
  refl _ := of_log_eq rfl
  trans h₁ h₂ := h₁.trans h₂
  spent _ := of_log_eq rfl
  raise _ _ := record rfl
  io _ _ := record rfl
  wrote w piece sink _ := by
    have hsink : Notes c w { w with sink := sink } := of_log_eq rfl
    exact hsink.trans (record rfl)
  host _ _ := of_log_eq rfl
  printed _ _ _ := record rfl
  consulting _ _ _ _ := record rfl

theorem bears (t : Command.Table H) : Conduct.Bears (fun (w : World H) _ w' => Notes c w w') t :=
  .inl fun _ _ _ h => h

/-- No outcome is noted when sessions are opened and closed. -/
theorem opens (c : Config H) : Conduct.Opens (fun (w : World H) _ w' => Notes c w w') c
    (fun _ _ => True) fun _ _ w _ w' => Notes c w w' where
  toOrders := serves.toOrders
  spent := serves.spent
  newId _ := of_log_eq rfl
  resolve _ _ _ := of_log_eq rfl
  fire s name receiver _ := serves.fire_meets s name [receiver] fun _ => record rfl
  frame {s _ _ w w₂ _ _} _ _ _ _ hin _ := by
    have hbegun : ∀ receiver, Notes c w (s.begun receiver w) := fun receiver =>
      of_log (s.begun_log receiver w) (by simp [Event.noted?])
    have hleave : Notes c w₂ (w₂.leave w.active w.depth) :=
      of_log (w₂.leave_log _ _) (by simp [Event.noted?])
    exact ((hbegun _).trans hin).trans hleave
  aborted _ h := h.trans (record rfl)
  ended _ _ _ := record rfl
  propagated _ _ _ _ := record rfl

/-- A unit is evaluated and its outcome is noted. -/
theorem unit {rounds : Nat} {s : Session H} (hs : s.config = c) {ctx : H.Context} {source : String}
    {ev : World H} {outcome : Outcome} (hev : ev = w.record (.evaluating s.id ctx source))
    (hx : s.evaluateIn (Session.run rounds) rounds ctx source ev = (.ok outcome, w₁))
    (hin : Notes c ev w₁) : Notes c w (s.conclude ctx outcome w₁).2 := by
  obtain ⟨-, hlog⟩ := s.conclude_log ctx outcome w₁
  have hannounced : Notes c w ev := by
    rw [hev]
    exact record rfl
  have hbefore := hannounced.trans hin
  refine ⟨.trans ⟨_, hlog.symm⟩ hbefore.follows, ?_⟩
  intro pre x post id outcome' hms hnoted
  rw [World.since_trans ⟨_, hlog.symm⟩ hbefore.follows, World.since_eq hlog] at hms
  rcases split_append hms with ⟨mid, hmid, -⟩ | ⟨mid, rfl, hmid⟩
  · exact hbefore.noted hmid hnoted
  -- It is the outcome of this unit.
  obtain ⟨rfl, hmid⟩ | ⟨_, -, hmid⟩ := List.cons_eq_append_iff.1 hmid
  · obtain ⟨rfl, -⟩ := List.cons.inj hmid
    rw [Event.noted?_noting] at hnoted
    obtain ⟨rfl, rfl⟩ := Prod.mk.inj (Option.some.inj hnoted)
    have hrecorded : ev.since w = [⟨.evaluating s.id ctx source, w.view, w.host⟩] := by
      rw [hev]
      exact World.since_eq (w.log_record _)
    refine ⟨[], ⟨.evaluating s.id ctx source, w.view, w.host⟩, w₁.since ev, ctx, source, ?_, rfl,
      rounds, ev, w₁, by rw [hev]; rfl, by rw [hev]; rfl, ?_, rfl⟩
    · rw [World.since_trans hin.follows hannounced.follows, hrecorded, List.append_nil]
      rfl
    · rw [← hs]
      exact hx
  · exact absurd hmid (by simp)

end Notes

/-! ## Sources that are evaluated -/

/-- The source of the moment `m` is evaluated by the session numbered `id`, made of the parts `c`,
in a world like that of `m` with the given output. The moments `post` begin with those of evaluating
it. If that took more rounds than were allowed, so did whatever ended as `e` says, and behind that
only sessions are taken off the stack. If it gives an outcome and the source is a unit, the outcome
is noted at once. -/
def Evaluated (c : Config H) (sink : Sink) (id : SessionId) (ctx : H.Context) (source : String)
    (m : Moment H) (post : List (Moment H)) (e : Option Stop) : Prop :=
  ∃ rounds, ∃ v : World H, ∃ rest,
    v.view = m.view ∧ v.host = m.host ∧ v.sink = sink ∧
      post =
        (Session.evaluateIn (Session.run rounds) rounds ⟨id, c⟩ ctx source v).2.since v ++ rest ∧
      EndsLike (ending (Session.evaluateIn (Session.run rounds) rounds ⟨id, c⟩ ctx source v).1) rest
        e ∧
      ∀ outcome,
        (Session.evaluateIn (Session.run rounds) rounds ⟨id, c⟩ ctx source v).1 = .ok outcome →
        m.event = .evaluating id ctx source →
        ∃ x later, rest = x :: later ∧ x.event = .noting id outcome

/-- A source that is evaluated is evaluated also if more happens afterwards. -/
theorem Evaluated.widen {c : Config H} {sink : Sink} {id : SessionId} {ctx : H.Context}
    {source : String} {m : Moment H} {post more : List (Moment H)} {e e' : Option Stop}
    (h : Evaluated c sink id ctx source m post e) (he : EndsLike e more e') :
    Evaluated c sink id ctx source m (post ++ more) e' := by
  obtain ⟨rounds, v, rest, hview, hhost, hsink, rfl, hends, hnoted⟩ := h
  refine ⟨rounds, v, rest ++ more, hview, hhost, hsink, List.append_assoc _ _ _, hends.append he,
    ?_⟩
  intro outcome hout hev
  obtain ⟨x, later, rfl, hx⟩ := hnoted outcome hout hev
  exact ⟨x, later ++ more, rfl, hx⟩

/-- The source of a unit or of a command is evaluated by an event. -/
def Event.Evaluates (ev : Event H) (id : SessionId) (ctx : H.Context) (source : String) : Prop :=
  ev = .evaluating id ctx source ∨ ev = .consulting id ctx source

/-- Every source that is handed to the host is evaluated. -/
def Sequel.evaluated (c : Config H) : Sequel H where
  marks ev := ev.unit?.isSome || ev.isConsulting
  After sink m post e := ∀ id ctx source, m.event.Evaluates id ctx source →
    Evaluated c sink id ctx source m post e
  inner {ev} hev := by cases ev <;> first | rfl | cases hev
  widen h he id ctx source hm := (h id ctx source hm).widen he

/-- The stack is kept, the log tells what is written, and every source that is handed to the host is
evaluated. -/
abbrev Evaluates (c : Config H) : Conduct H := (Sequel.evaluated c).Leads

namespace Evaluates

variable {c : Config H} {w w₁ w₂ w' : World H} {e : Option Stop}

theorem work (w : World H) {ev : Event H} (hev : ev.isWork = true) (hunit : ev.unit? = none) :
    Evaluates c w none (w.record ev) := by
  cases ev <;>
    first | exact .record (fun _ => rfl) ⟨rfl, rfl⟩ | (cases hev; done) | cases hunit

/-- A source is handed to the host and evaluated, and what comes behind that is as it should be. -/
theorem source {rounds : Nat} {s : Session H} (hs : s.config = c) {ctx : H.Context}
    {source : String} {ev : Event H} (hev : ev.Evaluates s.id ctx source)
    {x : Except Stop Outcome} (hw₁ : w.record ev = w₁)
    (hx : s.evaluateIn (Session.run rounds) rounds ctx source w₁ = (x, w₂))
    (hin : Evaluates c w₁ (ending x) w₂) (hlater : Evaluates c w₂ e w')
    (he : EndsLike (ending x) (w'.since w₂) e)
    (hnoted : ∀ outcome, x = .ok outcome → ev = .evaluating s.id ctx source →
      ∃ y later, w'.since w₂ = y :: later ∧ y.event = .noting s.id outcome) :
    Evaluates c w e w' := by
  have hlog : w₁.log.toList = w.log.toList ++ [⟨ev, w.view, w.host⟩] := hw₁ ▸ w.log_record ev
  have hstill : ev.Still := by rcases hev with rfl | rfl <;> exact fun _ => rfl
  have hwrote : ev.wrote? = none := by rcases hev with rfl | rfl <;> rfl
  refine Sequel.Leads.cons (hw₁ ▸ .record hstill) (by rw [← hw₁]; rfl) hlog hwrote rfl
    (hin.append hlater he) fun _ id ctx' source' hm => ?_
  obtain ⟨rfl, rfl, rfl⟩ : s.id = id ∧ ctx = ctx' ∧ source = source' := by
    rcases hev with rfl | rfl <;> rcases hm with hm | hm <;> cases hm <;> exact ⟨rfl, rfl, rfl⟩
  subst hs
  refine ⟨rounds, w₁, w'.since w₂, by rw [← hw₁]; rfl, by rw [← hw₁]; rfl, by rw [← hw₁]; rfl,
    ?_, ?_, ?_⟩
  · rw [hx]
    exact World.since_trans hlater.nests.follows hin.nests.follows
  · rw [hx]
    exact he
  · rw [hx]
    exact hnoted

end Evaluates

namespace Session

open Exec

variable {s : Session H} {rounds : Nat}
  (hn : ∀ t, Meets (Evaluates (H := H) s.config) (s.nestVia (run rounds) t))
include hn

/-- The source of a command is evaluated. -/
theorem consult_evaluates (ctx : H.Context) (source : String) :
    Meets (Evaluates (H := H) s.config) (s.consult (run rounds) rounds ctx source) := by
  intro w
  have hin := Sequel.Leads.evaluateIn_meets hn rounds ctx source
    (w.record (.consulting s.id ctx source))
  change Evaluates s.config w
    (ending
      (s.evaluateIn (run rounds) rounds ctx source (w.record (.consulting s.id ctx source))).1)
    (s.evaluateIn (run rounds) rounds ctx source (w.record (.consulting s.id ctx source))).2
  generalize hx : s.evaluateIn (run rounds) rounds ctx source _ = r at hin ⊢
  obtain ⟨x, w₂⟩ := r
  have hsame : ∀ e, Evaluates s.config w₂ e w₂ := fun _ =>
    .of_log_eq (.of_log_eq rfl rfl rfl (Nat.le_refl _)) rfl rfl
  refine Evaluates.source rfl (.inr rfl) rfl hx hin (hsame _) ?_ nofun
  rw [World.since_self]
  exact .refl _

/-- A unit is evaluated, and its outcome noted. -/
theorem evaluate_evaluates (ctx : H.Context) (source : String) :
    Meets (Evaluates (H := H) s.config) (s.evaluate (run rounds) rounds ctx source) := by
  intro w
  obtain ⟨state, hstate⟩ := s.announce_apply ctx source w
  have hhost : Evaluates s.config w none { w with host := state } := Sequel.Leads.runs.host w state
  refine hhost.trans ?_
  have hin := Sequel.Leads.evaluateIn_meets hn rounds ctx source
    (World.record { w with host := state } (.evaluating s.id ctx source))
  rw [evaluate_eq, bind_of_ok hstate, bind_apply]
  generalize hx : s.evaluateIn (run rounds) rounds ctx source _ = r at hin ⊢
  obtain ⟨stop | outcome, w₂⟩ := r
  · have hsame : Evaluates s.config w₂ (some stop) w₂ :=
      .of_log_eq (.of_log_eq rfl rfl rfl (Nat.le_refl _)) rfl rfl
    refine Evaluates.source rfl (.inl rfl) rfl hx hin hsame ?_ nofun
    rw [World.since_self]
    exact .refl _
  · obtain ⟨hok, hlog⟩ := s.conclude_log ctx outcome w₂
    have hconclude : Meets (Evaluates (H := H) s.config) (s.conclude ctx outcome) := by
      have hbind := Sequel.Leads.runs (S := Sequel.evaluated s.config).bindConveniences_meets s ctx
      cases outcome with
      | value v =>
        refine Sequel.Leads.runs.bind_meets (fun w => Sequel.Leads.last w v) fun _ => ?_
        exact Sequel.Leads.runs.bind_meets (fun w => Evaluates.work w rfl rfl) fun _ => hbind
      | fault f => exact fun w => Evaluates.work w rfl rfl
    have hlater := hconclude w₂
    dsimp only
    rw [bind_apply]
    generalize s.conclude ctx outcome w₂ = r at hok hlog hlater ⊢
    obtain ⟨x, w₃⟩ := r
    obtain rfl : x = .ok () := hok
    refine Evaluates.source rfl (.inl rfl) rfl hx hin hlater (.of_ne (by simp) _ _) ?_
    rintro _ ⟨⟩ -
    exact ⟨_, [], World.since_eq hlog, rfl⟩

/-- All sources that a session hands to the host while it is on the stack are evaluated. -/
theorem body_evaluates (ctx : H.Context) (w : World H) :
    Evaluates s.config w (bodyEnding (s.body (run rounds) rounds ctx w).1)
      (s.body (run rounds) rounds ctx w).2 := by
  have hruns : Conduct.Runs (Evaluates (H := H) s.config) := Sequel.Leads.runs
  have hobeys : Conduct.Obeys (Evaluates (H := H) s.config) (run rounds) rounds s (fun _ => True)
      fun _ _ => True :=
    { toOrders := hruns.toOrders
      raise := fun w i _ => Sequel.Leads.raise w i
      put := fun writing _ => Sequel.Leads.writes.put_meets writing
      consult := fun ctx source _ => consult_evaluates hn ctx source
      print := Sequel.Leads.print_meets s
      nest := fun t _ => hn t }
  have hlistens : Conduct.Listens (Evaluates (H := H) s.config) (run rounds) rounds s := by
    refine Sequel.Leads.writes.listens hruns.spent (fun w => Sequel.Leads.raise w _)
      Sequel.Leads.inputs (fun w ev hev => ?_) (fun w ev hev => ?_) fun ctx line pending w => ?_
    · cases ev <;> first | exact .record (fun _ => rfl) ⟨rfl, rfl⟩ | cases hev
    · cases ev <;> first | exact .record (fun _ => rfl) ⟨rfl, rfl⟩ | cases hev
    · exact hobeys.dispatch_allowed (fun w _ => Evaluates.work w rfl rfl)
        (.inl fun _ _ _ h => h.caught) ctx line pending w fun _ _ _ =>
          Command.Plan.keeps_of_forall (fun _ => trivial) (fun _ _ _ => trivial) _
  exact hruns.body_meets (hlistens.step_allowed (evaluate_evaluates hn ctx)
    (Sequel.Leads.print_meets s)) w

end Session

/-- Every source that is handed to the host in a run is evaluated. -/
theorem Evaluates.run (rounds : Nat) (s : Session H) (t : Target H.Context) :
    Exec.Meets (Evaluates (H := H) s.config) (s.run rounds t) := by
  refine (Sequel.Leads.opens s.config).run_all_meets (fun rounds s' ctx hs hn w _ => ?_) rounds s
    rfl t
  rw [← hs] at hn ⊢
  exact Session.body_evaluates hn ctx w

/-- Every outcome that is noted in a run is that of a unit that has just been evaluated. -/
theorem Notes.run (rounds : Nat) (s : Session H) (t : Target H.Context) :
    Exec.Meets (fun (w : World H) _ w' => Notes s.config w w') (s.run rounds t) := by
  refine (Notes.opens s.config).run_all_meets (fun rounds s' ctx hs hn w => ?_) rounds s rfl t
  have hlistens := Notes.serves.listens (Notes.bears _) hn (fun _ _ => Notes.of_log_eq rfl)
    (fun _ ev hev => Notes.record (by cases ev <;> first | rfl | cases hev))
    (fun _ ev hev => Notes.record (by cases ev <;> first | rfl | cases hev))
    (fun _ _ => Notes.record rfl) rounds
  refine Notes.serves.body_meets (hlistens.step_allowed (fun source w => ?_)
    (Notes.serves.print_meets s')) w
  obtain ⟨state, hstate⟩ := s'.announce_apply ctx source w
  have hhost : Notes s.config w { w with host := state } := Notes.of_log_eq rfl
  have hin := Notes.serves.evaluateIn_meets (Notes.bears _) hn rounds ctx source
    (World.record { w with host := state } (.evaluating s'.id ctx source))
  rw [Session.evaluate_eq, Exec.bind_of_ok hstate, Exec.bind_apply]
  generalize hx : s'.evaluateIn (Session.run rounds) rounds ctx source _ = r at hin ⊢
  obtain ⟨stop | outcome, w₂⟩ := r
  · exact hhost.trans ((Notes.record rfl).trans hin)
  · have hunit := hhost.trans (Notes.unit hs rfl hx hin)
    obtain ⟨hok, -⟩ := s'.conclude_log ctx outcome w₂
    dsimp only
    rw [Exec.bind_apply]
    generalize s'.conclude ctx outcome w₂ = r at hok hunit ⊢
    obtain ⟨x, w₃⟩ := r
    obtain rfl : x = .ok () := hok
    exact hunit

/-- In every run, whatever sessions are opened in it: each source of a unit or of a command is
evaluated in a world like that of the moment at which it is handed to the host, and the outcome of a
unit is noted at once. No outcome is noted but that of a unit which has just been evaluated. -/
theorem Session.run_evaluated (rounds : Nat) (s : Session H) (t : Target H.Context) (w : World H)
    {pre post : List (Moment H)} {m : Moment H}
    (hms : (s.run rounds t w).2.since w = pre ++ m :: post) :
    (∀ id ctx source, m.event.Evaluates id ctx source →
      Evaluated s.config (w.sink.through pre) id ctx source m post
        (ending (s.run rounds t w).1)) ∧
    ∀ id outcome, m.event.noted? = some (id, outcome) →
      ∃ before x mid ctx source, pre = before ++ x :: mid ∧ x.event = .evaluating id ctx source ∧
        Completed s.config id ctx source x mid outcome := by
  refine ⟨fun id ctx source hm => ?_, fun _ _ hm => (Notes.run rounds s t w).noted hms hm⟩
  have hmarks : (Sequel.evaluated s.config).marks m.event = true := by
    rcases hm with hm | hm <;> rw [hm] <;> rfl
  obtain ⟨-, -, -, hafter⟩ := (Evaluates.run rounds s t w).marked hms hmarks
  exact hafter id ctx source hm

end CalcShell
