import CalcShell.Proofs.Command.Matching
import CalcShell.Proofs.Session.Delivery
import CalcShell.Proofs.Session.Hearing
import CalcShell.Proofs.Session.Visiting

/-!
# Interrupts that end everything

No session takes up the end of the input, a request to end the program, or a failure to read or
write. Behind the moment at which such an interrupt arises, the open sessions are taken off the
stack from the innermost one outward, and nothing else happens: no hook is called, nothing is read,
written or evaluated, and neither the state of the host nor the last result changes. The run ends by
this interrupt, and by no other than one that arose in it. This is so wherever evaluations and
commands pass interrupts on (`Passes.run`).

Since every failure to read or write arises as an interrupt, none is passed over: a hook that fails
while sessions unwind puts its failure in the place of the unwinding. What a command writes by
itself is read off its plan (`Command.Plan.lead`), and a call of `exit` that a program comes to is
one that is visited (`Calc.Visits`).
-/

namespace CalcShell

variable {H : Host}

/-! ## Where an interrupt goes that no session takes up -/

/-- An interrupt that does not unwind to a level, so that no session takes it up. -/
def Interrupt.Final : Interrupt → Prop
  | .breakout _ => False
  | _ => True

/-- The events by which such an interrupt ends an open session: it is taken off the stack. -/
def Activation.aborting (i : Interrupt) (a : Activation) : List (Event H) :=
  [.popped a.depth true, .aborted a.id i]

/-- Behind the moment `m`, at which the interrupt arises, it ends the sessions `own`, outermost
last, and all else stays as it is until the world `w'`, with which it ends. -/
structure Dropped (i : Interrupt) (own : List Activation) (m : Moment H) (post : List (Moment H))
    (e : Option Stop) (w' : World H) : Prop where
  events : post.map Moment.event = own.reverse.flatMap (Activation.aborting i)
  same : ∀ x ∈ post, x.host = m.host ∧ x.view.last = m.view.last
  stop : e = some (.interrupt i)
  host : w'.host = m.host
  last : w'.last = m.view.last

/-- No interrupt arises between the two worlds. -/
structure Quiet (w w' : World H) : Prop where
  follows : w'.Follows w
  none_raised : ∀ m ∈ w'.since w, m.event.raised? = none

namespace Quiet

variable {w w' : World H}

theorem of_log {ms : List (Moment H)} (hlog : w'.log.toList = w.log.toList ++ ms)
    (hms : ∀ m ∈ ms, m.event.raised? = none) : Quiet w w' where
  follows := ⟨ms, hlog.symm⟩
  none_raised := by
    rw [World.since_eq hlog]
    exact hms

theorem of_log_eq (hlog : w'.log = w.log) : Quiet w w' := by
  have hlog' : w'.log.toList = w.log.toList ++ [] := by rw [hlog, List.append_nil]
  exact of_log hlog' fun _ hm => absurd hm List.not_mem_nil

theorem record {e : Event H} (he : e.raised? = none) : Quiet w (w.record e) := by
  apply of_log (w.log_record e)
  intro m hm
  rw [List.mem_singleton.1 hm]
  exact he

theorem not_raised (h : Quiet w w') {m : Moment H} (hm : m ∈ w'.since w) (i : Interrupt) :
    m.event ≠ .raised i := by
  intro hraised
  have hnone := h.none_raised m hm
  rw [hraised] at hnone
  cases hnone

end Quiet

/-- The stack is kept, an interrupt that no session takes up ends everything where it arises, and
arises where it ends something. -/
structure Passes (w : World H) (e : Option Stop) (w' : World H) : Prop where
  nests : Nests (fun _ => False) w e w'
  raises : ∀ {pre m post i}, w'.since w = pre ++ m :: post → m.event = .raised i → i.Final →
    ∃ own, Chain w pre own ∧ Dropped i own m post e w'
  raised : ∀ {i}, e = some (.interrupt i) → i.Final → ∃ m ∈ w'.since w, m.event = .raised i

/-- Something did not end by an interrupt that no session takes up. -/
def Passing (e : Option Stop) : Prop := ∀ i, i.Final → e ≠ some (.interrupt i)

theorem passing_none : Passing none := by
  intro i _ h
  cases h

theorem passing_spent : Passing (some .spent) := by
  intro i _ h
  cases h

theorem passing_breakout (level : Nat) : Passing (some (.interrupt (.breakout level))) := by
  rintro i hi h
  cases h
  exact hi

namespace Passes

variable {w w₁ w₂ w' : World H} {e : Option Stop}

theorem trans (h₁ : Passes w none w₁) (h₂ : Passes w₁ e w₂) : Passes w e w₂ where
  nests := h₁.nests.trans h₂.nests
  raises hms hm hi := by
    rw [World.since_trans h₂.nests.follows h₁.nests.follows] at hms
    rcases split_append hms with ⟨mid, hmid, -⟩ | ⟨mid, rfl, hmid⟩
    · -- What arises in the first part would have ended it.
      obtain ⟨own, -, hdropped⟩ := h₁.raises hmid hm hi
      exact absurd hdropped.stop (by simp)
    · obtain ⟨own, hown, hdropped⟩ := h₂.raises hmid hm hi
      exact ⟨own, hown.earlier h₁.nests, hdropped⟩
  raised he hi := by
    obtain ⟨m, hm, hraised⟩ := h₂.raised he hi
    refine ⟨m, ?_, hraised⟩
    rw [World.since_trans h₂.nests.follows h₁.nests.follows]
    exact List.mem_append_right _ hm

/-- Something happens by which no interrupt arises. -/
theorem of_quiet (hn : Nests (fun _ => False) w e w') (hq : Quiet w w') (he : Passing e) :
    Passes w e w' where
  nests := hn
  raises {pre m post i} hms hm _ := by
    have hmem : m ∈ w'.since w := by
      rw [hms]
      exact List.mem_append_right _ List.mem_cons_self
    exact absurd hm (hq.not_raised hmem i)
  raised hstop hi := absurd hstop (he _ hi)

/-- Where an interrupt arises, no session has been opened yet. -/
theorem raise (w : World H) (i : Interrupt) :
    Passes w (some (.interrupt i)) (w.record (.raised i)) where
  nests := Nests.works.raise w i
  raises {pre m post j} hms hm hj := by
    rw [World.since_eq (w.log_record _)] at hms
    obtain ⟨rfl, hms⟩ | ⟨_, -, hms⟩ := List.cons_eq_append_iff.1 hms
    · obtain ⟨rfl, rfl⟩ := List.cons.inj hms
      cases hm
      exact ⟨[], Chain.nil w, rfl, fun _ hx => absurd hx List.not_mem_nil, rfl, rfl, rfl⟩
    · exact absurd hms (by simp)
  raised he _ := by
    cases he
    rw [World.since_eq (w.log_record _)]
    exact ⟨_, List.mem_cons_self, rfl⟩

/-- Interrupts go all the way in what a session does. -/
theorem works : Conduct.Works (Passes (H := H)) where
  refl w := of_quiet (Nests.works.refl w) (.of_log_eq rfl) passing_none
  trans h₁ h₂ := h₁.trans h₂
  spent w := of_quiet (Nests.works.spent w) (.of_log_eq rfl) passing_spent
  raise := raise
  wrote w piece sink hs := by
    refine of_quiet (Nests.works.wrote w piece sink hs) ?_ passing_none
    exact .of_log (World.log_record { w with sink := sink } _) (by simp [Event.raised?])
  host w state := of_quiet (Nests.works.host w state) (.of_log_eq rfl) passing_none
  printed w id outcome :=
    of_quiet (Nests.works.printed w id outcome) (.record rfl) passing_none
  consulting w id ctx source :=
    of_quiet (Nests.works.consulting w id ctx source) (.record rfl) passing_none
  last w v := of_quiet (Nests.works.last w v) (.of_log_eq rfl) passing_none
  inputs w inputs := of_quiet (Nests.works.inputs w inputs) (.of_log_eq rfl) passing_none
  reading w ev hev := by
    refine of_quiet (Nests.works.reading w ev hev) (.record ?_) passing_none
    cases ev <;> first | rfl | simp [Event.isReading] at hev
  work w ev hev := by
    refine of_quiet (Nests.works.work w ev hev) (.record ?_) passing_none
    cases ev <;> first | rfl | simp [Event.isWork] at hev

/-- The failure of a hook goes all the way. -/
theorem fire {s : Session H} {name : String} {args : List Value} {x : Except Stop Unit}
    (hx : s.fire name args w = (x, w')) : Passes w (ending x) w' := by
  have hfired : ∀ v : World H, Passes v none (v.record (.fired name args)) := fun _ =>
    of_quiet (Nests.record fun _ => rfl) (.record rfl) passing_none
  have h := works.fire_meets s name args hfired w
  rwa [hx] at h

theorem begun_quiet (s : Session H) (receiver : Value) (w : World H) :
    Quiet w (s.begun receiver w) :=
  .of_log (s.begun_log receiver w) (by simp [Event.raised?])

theorem leave_quiet (w : World H) (active : Option SessionId) (depth : Nat) :
    Quiet w (w.leave active depth) :=
  .of_log (w.leave_log active depth) (by simp [Event.raised?])

/-- What arises while a session is on the stack, where nothing arises afterwards. -/
theorem inside {s : Session H} {receiver : Value} (h : Passes (s.begun receiver w) e w₂)
    (hq : Quiet w₂ w') {pre post : List (Moment H)} {m : Moment H} {i : Interrupt}
    (hms : w'.since w = pre ++ m :: post) (hm : m.event = .raised i) (hi : i.Final) :
    ∃ own out, Chain w pre (s.activation receiver w :: own) ∧ post = out ++ w'.since w₂ ∧
      Dropped i own m out e w₂ := by
  rw [Session.since_leave h.nests.follows hq.follows] at hms
  obtain ⟨mid, out, rfl, hmid, rfl⟩ := split_between hms
    (fun hmem => (begun_quiet s receiver w).not_raised hmem i hm)
    fun hmem => hq.not_raised hmem i hm
  obtain ⟨own, hown, hdropped⟩ := h.raises hmid hm hi
  exact ⟨own, out, hown.begun, rfl, hdropped⟩

/-- A session is on the stack for a while and does not end by an interrupt that none takes up. -/
theorem frame {s : Session H} {receiver : Value} {e' : Option Stop}
    (h : Passes (s.begun receiver w) e w₂) (he : Passing e) (he' : Passing e') :
    Passes w e' (w₂.leave w.active w.depth) where
  nests := Nests.frame (fun _ hF => hF.elim) h.nests
  raises hms hm hi := by
    obtain ⟨own, out, -, -, hdropped⟩ := h.inside (leave_quiet w₂ _ _) hms hm hi
    exact absurd hdropped.stop (he _ hi)
  raised hstop hi := absurd hstop (he' _ hi)

/-- A session is ended by an interrupt that none takes up, and passes it on. -/
theorem abort {s : Session H} {receiver : Value} {i : Interrupt}
    (h : Passes (s.begun receiver w) (some (.interrupt i)) w₂) (hi : i.Final) :
    Passes w (some (.interrupt i))
      ((w₂.leave w.active w.depth).record (.aborted s.id i)) := by
  have hleave : Nests (fun _ => False) w none (w₂.leave w.active w.depth) :=
    Nests.frame (fun _ hF => hF.elim) h.nests
  have hfound : (!w₂.stack.isEmpty) = true := by
    rw [h.nests.stack, s.begun_stack]
    simp
  have hlog : ((w₂.leave w.active w.depth).record (.aborted s.id i)).log.toList =
      w₂.log.toList ++
        [⟨.popped w.depth true, (w₂.leave w.active w.depth).view, w₂.host⟩,
          ⟨.aborted s.id i, (w₂.leave w.active w.depth).view, w₂.host⟩] := by
    rw [World.log_record, World.leave_log, List.append_assoc, hfound]
    rfl
  have hq : Quiet w₂ ((w₂.leave w.active w.depth).record (.aborted s.id i)) :=
    .of_log hlog (by simp [Event.raised?])
  refine ⟨hleave.trans (Nests.record fun _ => rfl), ?_, ?_⟩
  · intro pre m post j hms hm hj
    obtain ⟨own, out, hchain, rfl, hdropped⟩ := h.inside hq hms hm hj
    obtain rfl : i = j := by
      have := hdropped.stop
      cases this
      rfl
    refine ⟨_, hchain, ?_, ?_, rfl, hdropped.host, hdropped.last⟩
    · rw [List.map_append, hdropped.events, World.since_eq hlog, List.reverse_cons,
        List.flatMap_append, List.flatMap_singleton]
      rfl
    · intro x hx
      rcases List.mem_append.1 hx with hx | hx
      · exact hdropped.same x hx
      · simp only [World.since_eq hlog, List.mem_cons, List.not_mem_nil, or_false] at hx
        rcases hx with rfl | rfl
        · exact ⟨hdropped.host, hdropped.last⟩
        · exact ⟨hdropped.host, hdropped.last⟩
  · intro j hj _
    cases hj
    obtain ⟨m, hm, hraised⟩ := h.raised rfl hi
    refine ⟨m, ?_, hraised⟩
    rw [Session.since_leave h.nests.follows hq.follows]
    exact List.mem_append_right _ (List.mem_append_left _ hm)

/-- Running a session passes on every interrupt that it does not take up. -/
theorem ran {s : Session H} {receiver : Value} {body : Exec H Nat} {r : Except Stop Value}
    (hran : s.Ran receiver body w r w')
    (hbody : ∀ w, Passes w (Session.bodyEnding (body w).1) (body w).2)
    (hcaught : ∀ w level, (body w).1 ≠ .error (.interrupt (.breakout level))) :
    Passes w (ending r) w' := by
  have hinside : ∀ {w₁ w₂ : World H} {x : Except Stop Nat},
      body (s.begun receiver w₁) = (x, w₂) →
      Passes (s.begun receiver w₁) (Session.bodyEnding x) w₂ := by
    intro w₁ w₂ x hx
    have h := hbody (s.begun receiver w₁)
    rwa [hx] at h
  have hrecord : ∀ (v : World H) {ev : Event H} {e : Option Stop}, ev.raised? = none →
      ev.Still → Passing e → Passes v e (v.record ev) :=
    fun v _ _ hev hstill he => of_quiet (Nests.record hstill) (.record hev) he
  cases hran with
  | refused hb => exact fire hb
  | @aborted w₁ w₂ i hb hx =>
    have hi : i.Final := by
      cases i with
      | breakout level => exact absurd (congrArg Prod.fst hx) (hcaught _ level)
      | _ => trivial
    exact (fire hb).trans ((hinside hx).abort hi)
  | spent hb hx => exact (fire hb).trans ((hinside hx).frame passing_spent passing_spent)
  | failed hb hx ha =>
    exact ((fire hb).trans ((hinside hx).frame (passing_breakout _) passing_none)).trans (fire ha)
  | ended hb hx ha =>
    exact (((fire hb).trans ((hinside hx).frame (passing_breakout _) passing_none)).trans
      (fire ha)).trans (hrecord _ rfl (fun _ => rfl) passing_none)
  | propagated hb hx ha =>
    exact (((fire hb).trans ((hinside hx).frame (passing_breakout _) passing_none)).trans
      (fire ha)).trans (hrecord _ rfl (fun _ => rfl) (passing_breakout _))

/-- Opening a session inside of another one passes on what running it does. -/
theorem nestVia {run : Session.Runner H}
    (hrun : ∀ (s : Session H) (t : Target H.Context) (w : World H), s.PassesOn →
      Passes w (ending (run s t w).1) (run s t w).2) {s : Session H} (hp : s.PassesOn)
    (t : Target H.Context) : Exec.Meets Passes (s.nestVia run t) := by
  intro w
  rw [Session.nestVia_apply]
  have hid : Passes w none { w with nextId := w.nextId + 1 } :=
    of_quiet (.of_log_eq rfl rfl rfl (Nat.le_succ _)) (.of_log_eq rfl) passing_none
  exact hid.trans (hrun ⟨w.nextId, s.config⟩ t { w with nextId := w.nextId + 1 } hp)

/-- Every interrupt that no session takes up goes all the way through a run. -/
theorem run (rounds : Nat) (s : Session H) (t : Target H.Context) (w : World H) (hp : s.PassesOn) :
    Passes w (ending (Session.run rounds s t w).1) (Session.run rounds s t w).2 := by
  induction rounds generalizing s t w with
  | zero => exact works.spent w
  | succ rounds ih =>
    rw [Session.run_succ]
    have hran := Session.runIn_ran (Session.run rounds) rounds s (H.resolve t w.host).1
      { w with host := (H.resolve t w.host).2 }
    have hbody := works.body_meets
      (works.step_meets (.inr hp) (nestVia ih hp) rounds (H.resolve t w.host).1)
    exact (works.host w _).trans (ran hran hbody (Session.body_caught _ rounds s _))

end Passes

/-! ## The end of everything -/

/-- Where an interrupt arises and then only sessions are taken off the stack, output and inputs stay
as they are. -/
theorem Dropped.through {i : Interrupt} {own : List Activation} {m : Moment H}
    {post : List (Moment H)} {e : Option Stop} {w' : World H} (h : Dropped i own m post e w')
    (hm : m.event = .raised i) (c : Config H) (d : Devices) : d.through c (m :: post) = d := by
  apply Devices.through_eq_self
  intro x hx d
  rcases List.mem_cons.1 hx with rfl | hx
  · rw [hm]
    rfl
  · have hevent : x.event ∈ post.map Moment.event := List.mem_map_of_mem hx
    rw [h.events] at hevent
    obtain ⟨a, -, ha⟩ := List.mem_flatMap.1 hevent
    simp only [Activation.aborting, List.mem_cons, List.not_mem_nil, or_false] at ha
    rcases ha with ha | ha
    · rw [ha]
      rfl
    · rw [ha]
      rfl

/-! ## What commands write -/

/-- Something is written, and something else behind that unless an interrupt comes in between. -/
def Utterance.andThen (u v : Utterance) : Utterance :=
  match u.interrupt with
  | none => ⟨u.pieces ++ v.pieces, v.interrupt⟩
  | some _ => u

theorem Exec.say_andThen (u v : Utterance) (w : World H) :
    say (u.andThen v) w = (say u >>= fun _ => say v) w := by
  obtain ⟨ps, _ | i⟩ := u
  · rw [Utterance.andThen, say_append]
    simp only [say, bind_apply]
    generalize writePieces ps w = r
    obtain ⟨_ | _, w₁⟩ := r <;> rfl
  · rw [Utterance.andThen, say]
    simp only [bind_apply]
    generalize writePieces ps w = r
    obtain ⟨_ | _, w₁⟩ := r <;> rfl

namespace Command.Plan

/-- What a plan writes by itself before it asks for anything else, and the interrupt that it comes
to behind that, where the view of the sessions and the state of the host are as given. -/
def lead (view : Snapshot) (host : H.State) : Plan H → String → Utterance
  | .interrupt i, _ => ⟨[], some i⟩
  | .edit f p, pending => p.lead view host (f pending)
  | .look k, pending => (k ⟨pending, view, host⟩).lead view host pending
  | .act (.write w) k, pending => w.utterance.andThen ((k ()).lead view host pending)
  | _, _ => ⟨[], none⟩

end Command.Plan

/-- Writing changes nothing that can be seen of the sessions, nor the state of the host. -/
theorem Exec.say_same (u : Utterance) (w : World H) :
    (say u w).2.view = w.view ∧ (say u w).2.host = w.host := by
  have hwrites : Conduct.Writes fun (w : World H) _ w' => w'.view = w.view ∧ w'.host = w.host :=
    { refl := fun _ => ⟨rfl, rfl⟩
      trans := fun h₁ h₂ => ⟨h₂.1.trans h₁.1, h₂.2.trans h₁.2⟩
      io := fun _ _ => ⟨rfl, rfl⟩
      wrote := fun _ _ _ _ => ⟨rfl, rfl⟩ }
  refine hwrites.bind_meets (hwrites.writePieces_meets _) (fun _ => ?_) w
  split
  · exact hwrites.pure_meets ()
  · exact fun _ => ⟨rfl, rfl⟩

namespace Session

/-- Carrying out a plan adds to the log. -/
theorem carryOut_follows (rounds : Nat) (s : Session H) (plan : Command.Plan H) (pending : String)
    (w : World H) :
    (s.carryOut (run rounds) rounds plan pending w).2.Follows w := by
  have hacts := Nests.works.acts (R := Nests fun _ => False) (Nests.bears s.config.commands)
  have hn := Nests.nestVia (F := fun _ => False) (Nests.run rounds) s
  exact ((hacts.obeys hn rounds).carryOut_allowed (.inl fun _ _ _ h => h.anyhow none)
    (Command.Plan.keeps_of_forall (fun _ => trivial) (fun _ _ _ => trivial) plan) pending
    (Nests.works.refl w)).follows

/-- Carrying out a plan begins with what the plan writes by itself. -/
theorem carryOut_lead (rounds : Nat) (s : Session H) (plan : Command.Plan H) (pending : String)
    (w : World H) :
    (w.sink.deliver (plan.lead w.view w.host pending) : List (Event H)) <+:
      ((s.carryOut (run rounds) rounds plan pending w).2.since w).map Moment.event := by
  induction plan generalizing pending w with
  | done => exact List.nil_prefix
  | interrupt i =>
    change [.raised i] <+: ((w.record (.raised i)).since w).map Moment.event
    rw [World.since_eq (w.log_record _)]
    exact List.prefix_rfl
  | edit f p ih => exact ih (f pending) w
  | look k ih => exact ih _ pending w
  | act d k ih =>
    cases d with
    | write writing =>
      obtain ⟨hview, hhost⟩ := Exec.say_same writing.utterance w
      rw [Command.Plan.lead, ← say_events, Exec.say_andThen, Exec.bind_apply, carryOut, perform,
        Exec.put_eq_say]
      have hwritten : (Exec.say writing.utterance w).2.Follows w :=
        (Silent.say_meets (c := s.config) writing.utterance w).follows
      generalize Exec.say writing.utterance w = r at hview hhost hwritten ⊢
      obtain ⟨_ | u, w₁⟩ := r
      · exact List.prefix_rfl
      · -- The plan goes on behind what was written, and nothing that it looks at has changed.
        have hrest := ih () pending w₁
        rw [hview, hhost, ← say_events] at hrest
        have hsaid := (Silent.say_meets (c := s.config)
          ((k ()).lead w.view w.host pending) w₁).follows
        dsimp only
        rw [World.since_trans hsaid hwritten,
          World.since_trans (carryOut_follows rounds s _ _ _) hwritten,
          List.map_append, List.map_append]
        exact (List.prefix_append_right_inj _).2 hrest
    | _ => exact List.nil_prefix
  | attempt d k ih => exact List.nil_prefix

/-- What a session does with a line begins with looking it up. -/
theorem goOnWith_follows (rounds : Nat) (s : Session H) (ctx : H.Context) (n : Nat)
    (pending line : String) (w : World H) :
    (s.goOnWith (run rounds) rounds ctx n pending line w).2.Follows
      (s.dispatch (run rounds) rounds ctx line (pending ++ line ++ "\n") w).2 := by
  have hsteps : Conduct.Steps (Nests (H := H) fun _ => False) (run rounds) rounds s :=
    Nests.works.steps (Nests.bears _) (Nests.nestVia (Nests.run rounds) s) rounds
  rw [goOnWith, Exec.bind_apply, lookUp]
  generalize s.dispatch (run rounds) rounds ctx line _ w = r
  obtain ⟨⟨_ | _, rest⟩, w₁⟩ := r
  · exact .refl w₁
  dsimp only
  split
  · exact (hsteps.readUnitFrom_meets ctx n rest w₁).follows
  · refine (hsteps.toOrders.bind_meets (hsteps.isComplete_meets hsteps.note rest)
      (fun complete => ?_) w₁).follows
    split
    · exact hsteps.pure_meets rest
    · exact hsteps.readUnitFrom_meets ctx n rest

end Session

/-- A command that a line calls begins with what its plan writes by itself. -/
theorem Heard.lead {c : Config H} {sink : Sink} {line : String} {m : Moment H}
    {post : List (Moment H)} {e : Option Stop} (h : Heard c sink line m post e)
    {command : Command H} {captures : List (Option String)}
    (hfind : c.commands.find? line = some (command, captures)) :
    ∃ ctx pending, m.view.stack.getLast?.map Frame.receiver = some (H.receiver ctx) ∧
      .dispatched command.usage :: sink.deliver ((command.handler
        ⟨line, captures, m.view.stack, ctx, c.commands.listings⟩).lead m.view m.host pending) <+:
          post.map Moment.event := by
  obtain ⟨rounds, id, ctx, n, pending, v, rest, hview, hhost, hsink, hlast, rfl, -⟩ := h
  refine ⟨ctx, pending ++ line ++ "\n", hlast, ?_⟩
  have hstack : v.stack = m.view.stack := congrArg Snapshot.stack hview
  have hlater := Session.goOnWith_follows rounds ⟨id, c⟩ ctx n pending line v
  have hcalled : (Session.dispatch (Session.run rounds) rounds ⟨id, c⟩ ctx line
      (pending ++ line ++ "\n") v).2 = (Session.carryOut (Session.run rounds) rounds ⟨id, c⟩
        (command.handler ⟨line, captures, m.view.stack, ctx, c.commands.listings⟩)
          (pending ++ line ++ "\n") (v.record (.dispatched command.usage))).2 := by
    rw [Session.dispatch, hfind, ← hstack]
    dsimp only
    rw [World.record_stack]
    generalize Session.carryOut (Session.run rounds) rounds ⟨id, c⟩ _ _ _ = r
    obtain ⟨⟨_ | _, _⟩, w₁⟩ := r <;> rfl
  rw [hcalled] at hlater
  have hlead := Session.carryOut_lead rounds ⟨id, c⟩
    (command.handler ⟨line, captures, m.view.stack, ctx, c.commands.listings⟩)
    (pending ++ line ++ "\n") (v.record (.dispatched command.usage))
  have hplan := Session.carryOut_follows rounds ⟨id, c⟩
    (command.handler ⟨line, captures, m.view.stack, ctx, c.commands.listings⟩)
    (pending ++ line ++ "\n") (v.record (.dispatched command.usage))
  rw [World.record_view, hview] at hlead
  change (v.sink.deliver ((command.handler _).lead m.view v.host _) : List (Event H)) <+: _ at hlead
  rw [hhost, hsink] at hlead
  rw [World.since_trans hlater (hplan.trans (v.record_follows _)),
    World.since_trans hplan (v.record_follows _), World.since_eq (v.log_record _)]
  simp only [List.map_append, List.map_cons, List.append_assoc, List.cons_append, List.nil_append]
  exact (List.prefix_cons_inj _).2 (hlead.trans (List.prefix_append _ _))

/-! ## The end of everything -/

namespace Session

variable {s : Session H} {rounds : Nat} {t : Target H.Context} {w : World H}
  {pre post : List (Moment H)} {m : Moment H}

end Session

end CalcShell
