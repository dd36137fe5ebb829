import CalcShell.Proofs.Session.Delivery
import CalcShell.Proofs.Session.Desks
import CalcShell.Proofs.Session.Evaluating
import CalcShell.Proofs.Session.Landing

/-!
# What becomes of outcomes

A session evaluates a unit, and if that gives an outcome, the session notes it, prints it and asks
for the next unit. The main statement says so of every run, whatever sessions are opened and left
while units are evaluated. It has two parts. What the log goes on with behind the moment at which a
unit is evaluated is told by a sequel (`Answered`): evaluating it, and behind that the outcome, how
it is printed and the next prompt (`Reported`). That no outcome is printed twice, in another order
or for no unit is told by comparing the outcomes printed with those noted (`tally`), where the desks
tell the outcomes of units from those of commands.
-/

namespace CalcShell

variable {H : Host}

/-! ## Outcomes in the log -/

/-- Between the two worlds the session numbered `id` notes the outcome of its unit and hands it to
be printed. The last result is then the value, if it has one. -/
structure Handed (id : SessionId) (outcome : Outcome) (w : World H) (noted handed : Moment H)
    (w' : World H) : Prop where
  nests : Nests (fun _ => False) w none w'
  log : w'.log.toList = w.log.toList ++ [noted, handed]
  sink : w'.sink = w.sink
  noted_event : noted.event = .noting id outcome
  noted_view : noted.view = ⟨w.stack, outcome.value?.getD w.last, w.active⟩
  handed_event : handed.event = .printed id outcome
  handed_view : handed.view = noted.view
  view : w'.view = noted.view

/-- An outcome is noted and handed to be printed, and then it is written. -/
theorem Session.report_apply (s : Session H) (ctx : H.Context) (outcome : Outcome) (w : World H) :
    ∃ w' noted handed, s.report ctx outcome w = Exec.put (s.config.print outcome).flushed w' ∧
      Handed s.id outcome w noted handed w' := by
  have hworks : Conduct.Works (Nests (H := H) fun _ => False) := Nests.works
  cases outcome with
  | value v =>
    let w₁ : World H := World.record { w with last := v } (.valued s.id v)
    have hw₁ : Nests (fun _ => False) w none w₁ :=
      hworks.trans (hworks.last w v) (hworks.work _ _ rfl)
    obtain ⟨state, hstate⟩ : ∃ state, s.bindConveniences ctx w₁ =
        (.ok (), { w₁ with host := state }) := ⟨_, rfl⟩
    have hw₂ := hworks.trans (hworks.host w₁ state) (hworks.printed _ s.id (.value v))
    refine ⟨World.record { w₁ with host := state } (.printed s.id (.value v)),
      ⟨.valued s.id v, { w.view with last := v }, w.host⟩,
      ⟨.printed s.id (.value v), { w.view with last := v }, state⟩, ?_,
      hw₁.trans hw₂, ?_, rfl, rfl, rfl, rfl, rfl, rfl⟩
    · change (s.bindConveniences ctx >>= fun _ => s.print (.value v)) w₁ = _
      rw [Exec.bind_of_ok hstate]
      rfl
    · rw [World.log_record]
      change (World.record { w with last := v } (.valued s.id v)).log.toList ++ _ = _
      rw [World.log_record, List.append_assoc]
      rfl
  | fault f =>
    refine ⟨(w.record (.faulted s.id f)).record (.printed s.id (.fault f)),
      ⟨.faulted s.id f, w.view, w.host⟩, ⟨.printed s.id (.fault f), w.view, w.host⟩, rfl,
      hworks.trans (hworks.work w _ rfl) (hworks.printed _ s.id _), ?_, rfl, rfl, rfl, rfl, rfl,
      rfl⟩
    rw [World.log_record, World.log_record, List.append_assoc]
    rfl

/-- Where writing stops, it is for a failure that the log shows. -/
structure Broken (w : World H) (e : Option Stop) (w' : World H) : Prop where
  follows : w'.Follows w
  raised : e ≠ none → ∃ x ∈ w'.since w, ∃ i, x.event = .raised i

theorem Broken.writes : Conduct.Writes (Broken (H := H)) where
  refl w := ⟨.refl w, fun h => absurd rfl h⟩
  trans h₁ h₂ := by
    refine ⟨h₂.follows.trans h₁.follows, fun he => ?_⟩
    obtain ⟨x, hx, hraised⟩ := h₂.raised he
    rw [World.since_trans h₂.follows h₁.follows]
    exact ⟨x, List.mem_append_right _ hx, hraised⟩
  io w err := by
    refine ⟨w.record_follows _, fun _ => ?_⟩
    rw [World.since_eq (w.log_record _)]
    exact ⟨_, List.mem_singleton.2 rfl, _, rfl⟩
  wrote w piece sink _ :=
    ⟨⟨_, (World.log_record { w with sink := sink } _).symm⟩, fun h => absurd rfl h⟩

/-- The moments `rest` stand behind the evaluation of a unit in the context `ctx` by a session made
of `c`, which was recorded at the moment `m`, gave `outcome` and left the world `v`. The outcome is
noted and at once handed to be printed, the moments `out` are those of writing it, and unless this
fails the same session asks for a new unit. -/
structure Reported (c : Config H) (id : SessionId) (ctx : H.Context) (outcome : Outcome)
    (m : Moment H) (v : World H) (rest : List (Moment H)) (e : Option Stop)
    (noted handed : Moment H) (out later : List (Moment H)) : Prop where
  /-- What the log goes on with. -/
  moments : rest = noted :: handed :: (out ++ later)
  /-- The outcome is noted. -/
  noted_event : noted.event = .noting id outcome
  /-- The same sessions are open as before the unit. A value is the last result from then on, and
  for a fault the last result is what it was. -/
  noted_view : noted.view = ⟨m.view.stack, outcome.value?.getD v.last, m.view.active⟩
  /-- The same outcome is handed to be printed. -/
  handed_event : handed.event = .printed id outcome
  handed_view : handed.view = noted.view
  /-- It is written and flushed, in full or up to a failure. -/
  printed : out.map Moment.event = v.sink.deliver (c.print outcome).flushed.utterance
  /-- Unless there is a failure, the prompt for a new unit is shown at the same level and for the
  same receiver, unless the allowed rounds have come to their end by then, and all that is left is
  that sessions are taken off the stack. -/
  resumes : (∀ x ∈ out, ∀ i, x.event ≠ .raised i) →
    e = some .spent ∧ Closing later ∨
      ∃ level next tail, m.view.stack.getLast? = some ⟨level, H.receiver ctx⟩ ∧
        later = next :: tail ∧
        next.event = .prompted c.input (c.prompts.fresh (H.receiver ctx) level) ∧
        next.view = noted.view

/-- The unit of the moment `m` is evaluated in a world like that of `m`, with the given output. The
moments `post` begin with those of its evaluation, and if this gives an outcome, they go on as they
should. -/
def Answered (c : Config H) (sink : Sink) (id : SessionId) (ctx : H.Context) (source : String)
    (m : Moment H) (post : List (Moment H)) (e : Option Stop) : Prop :=
  ∃ rounds, ∃ v : World H, ∃ rest,
    v.view = m.view ∧ v.host = m.host ∧ v.sink = sink ∧
      post =
        (Session.evaluateIn (Session.run rounds) rounds ⟨id, c⟩ ctx source v).2.since v ++ rest ∧
      ∀ outcome v',
        Session.evaluateIn (Session.run rounds) rounds ⟨id, c⟩ ctx source v = (.ok outcome, v') →
        ∃ noted handed out later, Reported c id ctx outcome m v' rest e noted handed out later

/-- A unit that is evaluated is evaluated also if more happens afterwards. -/
theorem Answered.widen {c : Config H} {sink : Sink} {id : SessionId} {ctx : H.Context}
    {source : String} {m : Moment H} {post more : List (Moment H)} {e e' : Option Stop}
    (h : Answered c sink id ctx source m post e) (he : EndsLike e more e') :
    Answered c sink id ctx source m (post ++ more) e' := by
  obtain ⟨rounds, v, rest, hview, hhost, hsink, rfl, hreported⟩ := h
  refine ⟨rounds, v, rest ++ more, hview, hhost, hsink, List.append_assoc _ _ _, ?_⟩
  intro outcome v' hv'
  obtain ⟨noted, handed, out, later, hr⟩ := hreported outcome v' hv'
  refine ⟨noted, handed, out, later ++ more, ?_, hr.noted_event, hr.noted_view, hr.handed_event,
    hr.handed_view, hr.printed, fun hout => ?_⟩
  · rw [hr.moments, List.cons_append, List.cons_append, List.append_assoc]
  · rcases hr.resumes hout with ⟨hspent, hlater⟩ | ⟨level, next, tail, hlevel, rfl, hnext⟩
    · obtain ⟨he', hmore⟩ := he hspent
      exact .inl ⟨he', List.forall_mem_append.2 ⟨hlater, hmore⟩⟩
    · exact .inr ⟨level, next, tail ++ more, hlevel, rfl, hnext⟩

/-- Every unit is evaluated by the active session, and goes on as it should. -/
def Sequel.answered (c : Config H) : Sequel H where
  marks ev := ev.unit?.isSome
  After sink m post e := ∀ id ctx source, m.event = .evaluating id ctx source →
    m.view.active = some id ∧ Answered c sink id ctx source m post e
  inner {ev} hev := by cases ev <;> first | rfl | cases hev
  widen h he id ctx source hm := ⟨(h id ctx source hm).1, (h id ctx source hm).2.widen he⟩

/-- The stack is kept, and every unit that is evaluated goes on as it should. -/
abbrev Answers (c : Config H) : Conduct H := (Sequel.answered c).Leads

theorem Answers.serves (c : Config H) : Conduct.Serves (Answers (H := H) c) :=
  Sequel.Leads.serves fun ev hev => by cases ev <;> first | rfl | cases hev

/-! ## Units in a run -/

namespace Session

variable {s : Session H} {rounds : Nat}

/-- Where a session has noted and printed an outcome, it is reported. -/
theorem report_reported {ctx : H.Context} {outcome : Outcome} {m : Moment H} {v w₁ w' : World H}
    {e : Option Stop} {x : Except Stop Unit} (hx : s.report ctx outcome v = (x, w₁))
    (hstack : v.stack = m.view.stack) (hactive : v.active = m.view.active)
    {level : Nat} (hframe : m.view.stack.getLast? = some ⟨level, H.receiver ctx⟩)
    (hfollows : w'.Follows w₁)
    (hnext : x = .ok () → e = some .spent ∧ w' = w₁ ∨ w'.Follows (w₁.record
      (.prompted s.config.input (s.config.prompts.fresh (H.receiver ctx) w₁.level)))) :
    ∃ noted handed out later,
      Reported s.config s.id ctx outcome m v (w'.since v) e noted handed out later := by
  obtain ⟨v₁, noted, handed, hreport, h⟩ := s.report_apply ctx outcome v
  rw [hreport] at hx
  have hput : w₁ = (Exec.put (s.config.print outcome).flushed v₁).2 := by rw [hx]
  have hsteady := Steady.writes.put_meets (s.config.print outcome).flushed v₁
  rw [← hput] at hsteady
  have hview : w₁.view = noted.view := hsteady.view.trans h.view
  have hnoted : noted.view = ⟨m.view.stack, outcome.value?.getD v.last, m.view.active⟩ := by
    rw [h.noted_view, hstack, hactive]
  refine ⟨noted, handed, w₁.since v₁, w'.since w₁, ?_, h.noted_event, hnoted, h.handed_event,
    h.handed_view, ?_, ?_⟩
  · rw [World.since_trans (hfollows.trans hsteady.follows) h.nests.follows, World.since_eq h.log,
      World.since_trans hfollows hsteady.follows]
    rfl
  · rw [hput, put_events, h.sink]
  · intro hout
    have hok : x = .ok () := by
      have hbroken := Broken.writes.put_meets (s.config.print outcome).flushed v₁
      rw [hx] at hbroken
      cases x with
      | ok u => rfl
      | error stop =>
        obtain ⟨y, hy, i, hi⟩ := hbroken.raised (by simp)
        exact absurd hi (hout y hy i)
    rcases hnext hok with ⟨hspent, rfl⟩ | hprompt
    · refine .inl ⟨hspent, ?_⟩
      rw [World.since_self]
      exact fun _ hm => absurd hm List.not_mem_nil
    right
    have hlevel : w₁.level = level := by
      change levelOf w₁.view.stack = level
      rw [hview, hnoted, levelOf, hframe]
      rfl
    rw [hlevel] at hprompt
    have hshown := World.since_trans hprompt (w₁.record_follows _)
    rw [World.since_eq (w₁.log_record _)] at hshown
    exact ⟨level, _, _, hframe, hshown, rfl, hview⟩

/-- The steps of a session begin with the prompt for a new unit, unless the allowed rounds have come
to their end. -/
theorem reps_prompts (ctx : H.Context) (n : Nat) (w : World H) :
    bodyEnding (s.reps (run rounds) rounds ctx n w).1 = some .spent ∧
        (s.reps (run rounds) rounds ctx n w).2 = w ∨
      (s.reps (run rounds) rounds ctx n w).2.Follows (w.record
        (.prompted s.config.input (s.config.prompts.fresh (H.receiver ctx) w.level))) := by
  cases n with
  | zero => exact .inl ⟨rfl, rfl⟩
  | succ n =>
    obtain ⟨hending, hworld⟩ := Prod.mk.inj (reps_succ (run rounds) rounds s ctx n w)
    rw [hending, hworld]
    cases rounds with
    | zero => exact .inl ⟨rfl, rfl⟩
    | succ rounds =>
      right
      have hprompt := readUnitFrom_prompts (rounds + 1) s ctx rounds "" w
      generalize hk : rounds + 1 = k at hprompt ⊢
      have hsteps : Conduct.Steps (Nests (H := H) fun _ => False) (run k) k s :=
        Nests.works.steps (Nests.bears _) (Nests.nestVia (Nests.run _) s) _
      have hrest : ∀ v : World H, (s.reps (run k) k ctx n v).2.Follows v :=
        fun v => (hsteps.reps_meets hsteps.spent (hsteps.step_meets ctx) n v).follows
      simp only [step, readUnit, Exec.bind_apply]
      generalize s.readUnitFrom (run k) k ctx k "" w = r at hprompt ⊢
      obtain ⟨_ | source, w₁⟩ := r
      · exact hprompt
      have htail := hsteps.bind_meets (hsteps.evaluate_meets ctx source) hsteps.print w₁
      dsimp only
      rw [← Exec.bind_apply]
      generalize (s.evaluate (run k) k ctx source >>= _) w₁ = r at htail ⊢
      obtain ⟨_ | _, w₂⟩ := r
      · exact htail.follows.trans hprompt
      · exact (hrest w₂).trans (htail.follows.trans hprompt)

/-- Before a unit is evaluated the stack is kept. -/
theorem announced_nests (ctx : H.Context) (source : String) (state : H.State) (w : World H) :
    Nests (fun _ => False) w none
      (World.record { w with host := state } (.evaluating s.id ctx source)) := by
  have hbound : Nests (fun _ => False) w none { w with host := state } := Nests.works.host w state
  exact Nests.works.trans hbound (.record fun _ => rfl)

/-- A session evaluates a unit, and what it does from then on is as it should be. -/
theorem unit_answers {ctx : H.Context} {source : String} {state : H.State} {w w₁ w₂ w' : World H}
    {e : Option Stop} {x : Except Stop Outcome} (hholds : s.Holds ctx w)
    (hw₁ : World.record { w with host := state } (.evaluating s.id ctx source) = w₁)
    (hx : s.evaluateIn (run rounds) rounds ctx source w₁ = (x, w₂))
    (hin : Answers s.config w₁ (ending x) w₂) (hlater : Answers s.config w₂ e w')
    (he : EndsLike (ending x) (w'.since w₂) e)
    (hreported : ∀ outcome, x = .ok outcome → ∃ noted handed out later,
      Reported s.config s.id ctx outcome ⟨.evaluating s.id ctx source, w.view, state⟩ w₂
        (w'.since w₂) e noted handed out later) :
    Answers s.config w e w' := by
  have hannounced : Nests (fun _ => False) w none w₁ := hw₁ ▸ announced_nests ctx source state w
  have hlog : w₁.log.toList =
      w.log.toList ++ [⟨.evaluating s.id ctx source, w.view, state⟩] :=
    hw₁ ▸ World.log_record { w with host := state } _
  have hsink : w₁.sink = w.sink := by rw [← hw₁]; rfl
  refine Sequel.Leads.cons hannounced hsink hlog rfl rfl (hin.append hlater he)
    fun _ id ctx' source' hm => ?_
  cases hm
  refine ⟨hholds.active, rounds, w₁, w'.since w₂, by rw [← hw₁]; rfl, by rw [← hw₁]; rfl,
    hsink, ?_, ?_⟩
  · rw [hx]
    exact World.since_trans hlater.nests.follows hin.nests.follows
  · intro outcome v' hv'
    obtain ⟨rfl, rfl⟩ := Prod.mk.inj (hx.symm.trans hv')
    exact hreported outcome rfl

/-- Noting and printing an outcome evaluates no unit. -/
theorem report_answers (ctx : H.Context) (outcome : Outcome) :
    Exec.Meets (Answers (H := H) s.config) (s.report ctx outcome) := by
  have hserves := Answers.serves s.config
  refine hserves.bind_meets ?_ fun _ => hserves.print_meets s outcome
  cases outcome with
  | value v =>
    refine hserves.bind_meets (fun w => Sequel.Leads.last w v) fun _ => ?_
    exact hserves.bind_meets (fun w => .record (fun _ => rfl) ⟨rfl, rfl⟩) fun _ =>
      hserves.bindConveniences_meets s ctx
  | fault f => exact fun w => .record (fun _ => rfl) ⟨rfl, rfl⟩

variable (hn : ∀ t, Exec.Meets (Answers (H := H) s.config) (s.nestVia (run rounds) t))
include hn

/-- The units of sessions that are opened while a unit is read are answered. -/
theorem readUnit_answers (ctx : H.Context) :
    Exec.Meets (Answers (H := H) s.config) (s.readUnit (run rounds) rounds ctx) := by
  refine ((Answers.serves s.config).listens (Sequel.Leads.bears _) hn Sequel.Leads.inputs
    (fun w ev hev => ?_) (fun w ev hev => ?_) (fun w _ => .record (fun _ => rfl) ⟨rfl, rfl⟩)
    rounds).readUnitFrom_meets ctx rounds ""
  · cases ev <;> first | exact .record (fun _ => rfl) ⟨rfl, rfl⟩ | cases hev
  · cases ev <;> first | exact .record (fun _ => rfl) ⟨rfl, rfl⟩ | cases hev

/-- All units of the steps of a session are answered. -/
theorem reps_answers (ctx : H.Context) (n : Nat) (w : World H) :
    (Answers s.config).given (s.Holds ctx) w
      (bodyEnding (s.reps (run rounds) rounds ctx n w).1)
      (s.reps (run rounds) rounds ctx n w).2 := by
  have hserves := Answers.serves s.config
  -- By induction on the rounds left: behind the outcome of a unit comes the next prompt.
  induction n generalizing w with
  | zero => exact fun _ => hserves.spent w
  | succ n ih =>
    intro hholds
    obtain ⟨hending, hworld⟩ := Prod.mk.inj (reps_succ (run rounds) rounds s ctx n w)
    rw [hending, hworld, step_eq]
    have hfirst := readUnit_answers hn ctx w
    simp only [Exec.bind_apply]
    generalize s.readUnit (run rounds) rounds ctx w = r at hfirst ⊢
    obtain ⟨_ | source, w₁⟩ := r
    · exact hfirst
    have hholds₁ := hholds.of_nests hfirst.nests
    obtain ⟨state, hstate⟩ := s.announce_apply ctx source w₁
    dsimp only
    rw [hstate]
    have heval := Sequel.Leads.evaluateIn_meets hn rounds ctx source
      (World.record { w₁ with host := state } (.evaluating s.id ctx source))
    dsimp only
    generalize hx : s.evaluateIn (run rounds) rounds ctx source _ = r at heval ⊢
    obtain ⟨stop | outcome, w₂⟩ := r
    · have hnone : Answers s.config w₂ (some stop) w₂ :=
        .of_log_eq (.of_log_eq rfl rfl rfl (Nat.le_refl _)) rfl rfl
      refine hserves.trans hfirst (unit_answers hholds₁ rfl hx heval hnone ?_ nofun)
      rw [World.since_self]
      exact .refl _
    -- The outcome is reported, and the world is still like that when the unit began.
    have hsecond := report_answers (s := s) ctx outcome w₂
    have hkept : Nests (fun _ => False) w₁ none w₂ :=
      (announced_nests ctx source state w₁).trans heval.nests
    obtain ⟨level, hframe⟩ := hholds₁.frame
    dsimp only
    generalize hy : s.report ctx outcome w₂ = r at hsecond ⊢
    obtain ⟨stop | u, w₃⟩ := r
    · refine hserves.trans hfirst
        (unit_answers hholds₁ rfl hx heval hsecond (.of_ne (by simp) _ _) ?_)
      rintro _ ⟨⟩
      exact report_reported hy hkept.stack hkept.active hframe (.refl w₃) nofun
    · have hrest := ih w₃ ((hholds₁.of_nests hkept).of_nests hsecond.nests)
      refine hserves.trans hfirst
        (unit_answers hholds₁ rfl hx heval (hserves.trans hsecond hrest) (.of_ne (by simp) _ _) ?_)
      rintro _ ⟨⟩
      exact report_reported hy hkept.stack hkept.active hframe hrest.nests.follows
        fun _ => reps_prompts ctx n w₃

end Session

/-- Every unit that is evaluated in a run is answered. -/
theorem Answers.run (rounds : Nat) (s : Session H) (t : Target H.Context) :
    Exec.Meets (Answers (H := H) s.config) (s.run rounds t) := by
  refine (Sequel.Leads.opens s.config).run_all_meets (fun rounds s' ctx hs hn w hholds => ?_) rounds
    s rfl t
  rw [← hs] at hn ⊢
  obtain ⟨state, hstate⟩ : ∃ state, s'.bindConveniences ctx w =
      (.ok (), { w with host := state }) := ⟨_, rfl⟩
  have hbound : Answers s'.config w none { w with host := state } := Sequel.Leads.runs.host w state
  rw [Session.body, Exec.bind_of_ok hstate]
  exact hbound.trans
    (Session.reps_answers hn ctx rounds { w with host := state } (hholds.of_nests hbound.nests))

end CalcShell
