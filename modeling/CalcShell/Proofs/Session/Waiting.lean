import CalcShell.Proofs.Session.Evaluating

/-!
# What waits for a session

A session inside of another one is opened by an evaluation or by a command of the outer one. This
waits until the inner session ends and then goes on with what it gives: `Exec.Waits` and
`Session.Pauses` are where an evaluation and the plan of a command have come to when they wait. Of
the sessions that are open at some moment of a run, each is awaited by the one around it
(`Attends.run`). So where unwinding ends a session, what goes on is that which had opened it, with
the receiver of the session (`Session.run_resumes`).
-/

namespace CalcShell

variable {H : Host}

/-! ## Evaluations that wait -/

namespace Exec

variable {α : Type} (nest : Target H.Context → Exec H Value) (course₀ : Course H.Context H.State α)
  (w₀ : World H)

/-- Following the course `course₀` in the world `w₀` comes to following another one in another
world, once the sessions have ended that were opened in between. -/
inductive Comes : Course H.Context H.State α → World H → Prop
  | here : Comes course₀ w₀
  | nest {t s k w u w₁} : Comes (.nest t s k) w → nest t { w with host := s } = (.ok u, w₁) →
    Comes (k u w₁.host) w₁
  | attempt {t s k w r w₁} : Comes (.attempt t s k) w →
    caught (nest t) { w with host := s } = (.ok r, w₁) → Comes (k r w₁.host) w₁

/-- Following the course comes to waiting in the world `v` for a session on the target `t`, to go on
with what it gives by `k`. -/
inductive Waits : Target H.Context → (Value → H.State → Course H.Context H.State α) → World H → Prop
  | nest {t s k w} : Comes nest course₀ w₀ (.nest t s k) w → Waits t k { w with host := s }
  | attempt {t s k w} : Comes nest course₀ w₀ (.attempt t s k) w →
    Waits t (fun u => k (.ok u)) { w with host := s }

variable {nest course₀ w₀} {course : Course H.Context H.State α} {w v v' : World H}
  {t : Target H.Context} {k : Value → H.State → Course H.Context H.State α} {u : Value}

end Exec

/-! ## Commands that wait -/

namespace Session

variable (run : Runner H) (rounds : Nat) (s : Session H) (plan₀ : Command.Plan H)
  (pending₀ : String) (w₀ : World H)

/-- Carrying out the plan `plan₀` comes to carrying out another one, with other pending text and in
another world, once the deeds have ended that were asked for in between. -/
inductive Proceeds : Command.Plan H → String → World H → Prop
  | here : Proceeds plan₀ pending₀ w₀
  | edit {f p pending w} : Proceeds (.edit f p) pending w → Proceeds p (f pending) w
  | look {k pending w} : Proceeds (.look k) pending w →
    Proceeds (k ⟨pending, w.view, w.host⟩) pending w
  | act {d k pending w a w₁} : Proceeds (.act d k) pending w →
    s.perform run rounds d w = (.ok a, w₁) → Proceeds (k a) pending w₁
  | attempt {d k pending w r w₁} : Proceeds (.attempt d k) pending w →
    Exec.caught (s.perform run rounds d) w = (.ok r, w₁) → Proceeds (k r) pending w₁

/-- Carrying out the plan comes to waiting in the world `v` for a session on the target `t`, to go
on with what it gives by `k`. -/
inductive Pauses : Target H.Context → (Value → Command.Plan H) → String → World H → Prop
  | act {t k pending v} : Proceeds run rounds s plan₀ pending₀ w₀ (.act (.nest t) k) pending v →
    Pauses t k pending v
  | attempt {t k pending v} :
    Proceeds run rounds s plan₀ pending₀ w₀ (.attempt (.nest t) k) pending v →
    Pauses t (fun u => k (.ok u)) pending v

variable {run rounds s plan₀ pending₀ w₀} {plan : Command.Plan H} {pending : String}
  {w v v' : World H} {t : Target H.Context} {k : Value → Command.Plan H} {u : Value}

end Session

/-! ## Sessions that are awaited -/

/-- The session numbered `id`, made of the parts `c`, opens a session on the target `t` in the world
`v`, and waits for it: in evaluating a source that was handed to the host, or in a command that was
called. -/
inductive Opener (c : Config H) (id : SessionId) (rounds : Nat) (t : Target H.Context)
    (v : World H) : Prop
  | evaluation {before : List (Moment H)} {x : Moment H} {ctx source} {v₀ : World H} {k} :
    v₀.log.toList = before ++ [x] → x.event.Evaluates id ctx source →
    Exec.Waits (Session.nestVia (Session.run rounds) ⟨id, c⟩)
      (H.evaluate rounds ctx source v₀.host) v₀ t k v → Opener c id rounds t v
  | command {line pending pending' ctx command captures} {v₀ : World H} {k} :
    c.commands.find? line = some (command, captures) →
    Session.Pauses (Session.run rounds) rounds ⟨id, c⟩
      (command.handler ⟨line, captures, v₀.stack, ctx, c.commands.listings⟩) pending
      (v₀.record (.dispatched command.usage)) t k pending' v → Opener c id rounds t v

/-- The session numbered `id` waits at the moment `m`, with `before` before it and `post` behind it,
for a session that it has opened. Of what was opened since then the sessions `own` are still open.
-/
def Awaited (c : Config H) (id : SessionId) (refuses : List Piece → Piece → Option IoError)
    (before : List (Moment H)) (m : Moment H) (post : List (Moment H)) (own : List Activation) :
    Prop :=
  ∃ rounds t, ∃ v : World H, ∃ pre out rest, Opener c id rounds t v ∧ v.sink.refuses = refuses ∧
    before = v.log.toList ++ pre ∧
    (Session.nestVia (Session.run rounds) ⟨id, c⟩ t v).2.since v = pre ++ m :: out ∧
    post = out ++ rest ∧ Chain v pre own

/-- Each of the open sessions `own` is awaited by the one around it, and the outermost one by the
session numbered `id`, if a number is given. -/
def Linked (c : Config H) (refuses : List Piece → Piece → Option IoError)
    (before : List (Moment H)) (m : Moment H) (post : List (Moment H)) :
    Option SessionId → List Activation → Prop
  | _, [] => True
  | id?, a :: own => (∀ id, id? = some id → Awaited c id refuses before m post (a :: own)) ∧
      Linked c refuses before m post (some a.id) own

namespace Linked

variable {c : Config H} {refuses : List Piece → Piece → Option IoError}
  {before post : List (Moment H)} {m : Moment H} {id? : Option SessionId} {own : List Activation}

/-- They are awaited also if more happens afterwards. -/
theorem widen (h : Linked c refuses before m post id? own) (more : List (Moment H)) :
    Linked c refuses before m (post ++ more) id? own := by
  induction own generalizing id? with
  | nil => trivial
  | cons a own ih =>
    refine ⟨fun id hid => ?_, ih h.2⟩
    obtain ⟨rounds, t, v, pre, out, rest, hopener, hrefuses, hbefore, hsince, rfl, hchain⟩ :=
      h.1 id hid
    exact ⟨rounds, t, v, pre, out, rest ++ more, hopener, hrefuses, hbefore, hsince,
      List.append_assoc _ _ _, hchain⟩

end Linked

/-- The stack is kept, the sink refuses what it refused, and where unwinding arises, each of the
sessions that were opened and are still open is awaited by the one around it, and the outermost one
by the session numbered `id`, if a number is given. -/
structure Attends (c : Config H) (id? : Option SessionId) (w : World H) (e : Option Stop)
    (w' : World H) : Prop where
  nests : Nests (fun _ => False) w e w'
  refuses : w'.sink.refuses = w.sink.refuses
  raised : ∀ {pre m post level}, w'.since w = pre ++ m :: post →
    m.event = .raised (.breakout level) →
    ∃ own, Chain w pre own ∧ Linked c w.sink.refuses (w.log.toList ++ pre) m post id? own

namespace Attends

variable {c : Config H} {id? : Option SessionId} {w w₁ w₂ w' : World H} {e : Option Stop}

theorem anyhow (h : Attends c id? w e w') (e' : Option Stop) : Attends c id? w e' w' where
  nests := h.nests.anyhow e'
  refuses := h.refuses
  raised := h.raised

theorem trans {e₁ : Option Stop} (h₁ : Attends c id? w e₁ w₁) (h₂ : Attends c id? w₁ e w₂) :
    Attends c id? w e w₂ where
  nests := h₁.nests.trans h₂.nests
  refuses := h₂.refuses.trans h₁.refuses
  raised {pre m post level} hms hm := by
    rw [World.since_trans h₂.nests.follows h₁.nests.follows] at hms
    rcases split_append hms with ⟨mid, hmid, rfl⟩ | ⟨mid, rfl, hmid⟩
    · obtain ⟨own, hown, hlinked⟩ := h₁.raised hmid hm
      exact ⟨own, hown, hlinked.widen _⟩
    · obtain ⟨own, hown, hlinked⟩ := h₂.raised hmid hm
      rw [h₁.refuses, h₁.nests.follows.log_eq, List.append_assoc] at hlinked
      exact ⟨own, hown.earlier h₁.nests, hlinked⟩

/-- Something happens by which no unwinding arises. -/
theorem of_tame (hn : Nests (fun _ => False) w e w') (hr : w'.sink.refuses = w.sink.refuses)
    (ht : Tame w w') : Attends c id? w e w' where
  nests := hn
  refuses := hr
  raised {pre m post level} hms hm := by
    have hmem : m ∈ w'.since w := by
      rw [hms]
      exact List.mem_append_right _ List.mem_cons_self
    exact absurd hm (ht.none_raised m hmem level)

/-- Something is recorded that opens and closes no session and is no interrupt. -/
theorem record {ev : Event H} (hstill : ev.Still) (hev : ∀ level, ev ≠ .raised (.breakout level)) :
    Attends c id? w e (w.record ev) :=
  of_tame (.record hstill) rfl (.record hev)

/-- Nothing is recorded. -/
theorem of_log_eq (hn : Nests (fun _ => False) w e w') (hr : w'.sink.refuses = w.sink.refuses)
    (hlog : w'.log = w.log) : Attends c id? w e w' :=
  of_tame hn hr (.of_log_eq hlog)

/-- Where an interrupt arises, no session has been opened yet. -/
theorem raise (w : World H) (i : Interrupt) :
    Attends c id? w (some (.interrupt i)) (w.record (.raised i)) where
  nests := Nests.works.raise w i
  refuses := rfl
  raised {pre m post level} hms _ := by
    rw [World.since_eq (w.log_record _)] at hms
    obtain ⟨rfl, -⟩ | ⟨_, -, hms⟩ := List.cons_eq_append_iff.1 hms
    · exact ⟨[], Chain.nil w, trivial⟩
    · exact absurd hms (by simp)

theorem writes : Conduct.Writes (Attends (H := H) c id?) where
  refl w := of_log_eq (Nests.works.refl w) rfl rfl
  trans h₁ h₂ := h₁.trans h₂
  io w err := raise w (.io err)
  wrote w piece sink hs :=
    of_tame (Nests.works.wrote w piece sink hs) (Sink.take_refuses hs)
      (Tame.writes.wrote w piece sink hs)

theorem runs : Conduct.Runs (Attends (H := H) c id?) where
  toOrders := writes.toOrders
  spent w := of_log_eq (Nests.works.spent w) rfl rfl
  host w state := of_log_eq (Nests.works.host w state) rfl rfl

theorem catches : Conduct.Catches (Attends (H := H) c id?) := fun _ _ _ h => h.anyhow none

theorem reading (w : World H) (ev : Event H) (hev : ev.isReading = true) :
    Attends c id? w none (w.record ev) := by
  refine of_tame (Nests.works.reading w ev hev) rfl (.record ?_)
  rintro level rfl
  cases hev

theorem work (w : World H) (ev : Event H) (hev : ev.isWork = true) :
    Attends c id? w none (w.record ev) := by
  refine of_tame (Nests.works.work w ev hev) rfl (.record ?_)
  rintro level rfl
  cases hev

theorem print_meets (s : Session H) (outcome : Outcome) :
    Exec.Meets (Attends c id?) (s.print outcome) :=
  writes.bind_meets (fun _ => record (fun _ => rfl) (by simp)) fun _ => writes.put_meets _

/-- A session that is opened is awaited by the one that opens it. -/
theorem opened {id : SessionId} {rounds : Nat} {t : Target H.Context} {v : World H}
    (ho : Opener c id rounds t v)
    (h : Exec.Meets (Attends c none) (Session.nestVia (Session.run rounds) ⟨id, c⟩ t)) :
    Attends c (some id) v (ending (Session.nestVia (Session.run rounds) ⟨id, c⟩ t v).1)
      (Session.nestVia (Session.run rounds) ⟨id, c⟩ t v).2 where
  nests := (h v).nests
  refuses := (h v).refuses
  raised {pre m post level} hms hm := by
    obtain ⟨own, hown, hlinked⟩ := (h v).raised hms hm
    refine ⟨own, hown, ?_⟩
    cases own with
    | nil => trivial
    | cons a own =>
      refine ⟨?_, hlinked.2⟩
      rintro _ ⟨⟩
      exact ⟨rounds, t, v, pre, post, [], ho, rfl, rfl, hms, (List.append_nil _).symm, hown⟩

end Attends

namespace Session

open Exec

variable {s : Session H} {rounds : Nat}
  (hn : ∀ t, Meets (Attends (H := H) s.config none) (s.nestVia (run rounds) t))
include hn

/-- The sessions that an evaluation opens are awaited by it. -/
theorem follow_attends {before : List (Moment H)} {x : Moment H} {ctx : H.Context} {source : String}
    {v₀ : World H} (hlog : v₀.log.toList = before ++ [x]) (hx : x.event.Evaluates s.id ctx source)
    {course : Course H.Context H.State Outcome} {w : World H}
    (hcomes : Comes (s.nestVia (run rounds)) (H.evaluate rounds ctx source v₀.host) v₀ course w) :
    Attends s.config (some s.id) w (ending (follow (s.nestVia (run rounds)) course w).1)
      (follow (s.nestVia (run rounds)) course w).2 := by
  -- By induction on the course, which tells at each session how the evaluation has come there.
  induction course generalizing w with
  | done a σ => exact Attends.runs.host w σ
  | interrupt i σ => exact (Attends.runs.host w σ).trans (Attends.raise _ i)
  | spent σ => exact (Attends.runs.host w σ).trans (Attends.runs.spent _)
  | nest t σ k ih =>
    have h₁ := (Attends.runs.host w σ).trans
      (Attends.opened (.evaluation hlog hx (.nest hcomes)) (hn t))
    rw [follow_nest]
    generalize hr : s.nestVia (run rounds) t { w with host := σ } = r at h₁ ⊢
    obtain ⟨_ | u, w₁⟩ := r
    · exact h₁
    · exact h₁.trans (ih u w₁.host (hcomes.nest hr))
  | attempt t σ k ih =>
    have h₁ := (Attends.runs.host w σ).trans (Attends.catches.caught
      (Attends.opened (.evaluation hlog hx (.attempt hcomes)) (hn t)))
    rw [follow_attempt]
    generalize hr : caught (s.nestVia (run rounds) t) { w with host := σ } = r at h₁ ⊢
    obtain ⟨_ | u, w₁⟩ := r
    · exact h₁
    · exact h₁.trans (ih u w₁.host (hcomes.attempt hr))

/-- The source that is handed to the host in the last moment of the log is evaluated. -/
theorem evaluateIn_attends {ev : Event H} {ctx : H.Context} {source : String}
    (hev : ev.Evaluates s.id ctx source) (w : World H) :
    Attends s.config (some s.id) (w.record ev)
      (ending (s.evaluateIn (run rounds) rounds ctx source (w.record ev)).1)
      (s.evaluateIn (run rounds) rounds ctx source (w.record ev)).2 :=
  follow_attends hn (w.log_record ev) hev .here

theorem consult_attends (ctx : H.Context) (source : String) :
    Meets (Attends (H := H) s.config (some s.id)) (s.consult (run rounds) rounds ctx source) := by
  intro w
  have hconsulting : Attends s.config (some s.id) w none
      (w.record (.consulting s.id ctx source)) :=
    Attends.record (fun _ => rfl) (by simp)
  exact hconsulting.trans (evaluateIn_attends hn (.inr rfl) w)

theorem evaluate_attends (ctx : H.Context) (source : String) :
    Meets (Attends (H := H) s.config (some s.id)) (s.evaluate (run rounds) rounds ctx source) := by
  intro w
  obtain ⟨state, hstate⟩ := s.announce_apply ctx source w
  have hannounced : Attends s.config (some s.id) w none
      (World.record { w with host := state } (.evaluating s.id ctx source)) :=
    (Attends.runs.host w state).trans (Attends.work _ _ rfl)
  have hin := hannounced.trans (evaluateIn_attends hn (.inl rfl) { w with host := state })
  rw [evaluate_eq, bind_of_ok hstate, bind_apply]
  generalize s.evaluateIn (run rounds) rounds ctx source _ = r at hin ⊢
  obtain ⟨stop | outcome, w₂⟩ := r
  · exact hin
  refine hin.trans (Attends.runs.bind_meets ?_ (fun _ => Attends.runs.pure_meets outcome) w₂)
  cases outcome with
  | value v =>
    refine Attends.runs.bind_meets (fun w => .of_log_eq (Nests.works.last w v) rfl rfl) fun _ => ?_
    exact Attends.runs.bind_meets (fun w => Attends.work w _ rfl) fun _ =>
      Attends.runs.bindConveniences_meets s ctx
  | fault f => exact fun w => Attends.work w _ rfl

/-- The sessions that a command opens are awaited by it. -/
theorem carryOut_attends {line pending₀ : String} {ctx : H.Context} {command : Command H}
    {captures : List (Option String)} {v₀ : World H}
    (hfind : s.config.commands.find? line = some (command, captures)) {plan : Command.Plan H}
    {pending : String} {w : World H}
    (hcomes : Proceeds (run rounds) rounds s
      (command.handler ⟨line, captures, v₀.stack, ctx, s.config.commands.listings⟩) pending₀
      (v₀.record (.dispatched command.usage)) plan pending w) :
    Attends s.config (some s.id) w (ending (s.carryOut (run rounds) rounds plan pending w).1.1)
      (s.carryOut (run rounds) rounds plan pending w).2 := by
  have hperform : ∀ {d : Command.Deed H} {v : World H},
      (∀ t, d = .nest t → Opener s.config s.id rounds t v) →
      Attends s.config (some s.id) v (ending (s.perform (run rounds) rounds d v).1)
        (s.perform (run rounds) rounds d v).2 := by
    intro d v hd
    cases d with
    | write writing => exact Attends.writes.put_meets writing v
    | evaluate ctx source => exact consult_attends hn ctx source v
    | print outcome => exact Attends.print_meets s outcome v
    | nest t => exact Attends.opened (hd t rfl) (hn t)
  induction plan generalizing pending w with
  | done => exact Attends.runs.refl w
  | interrupt i => exact Attends.raise w i
  | edit f p ih => exact ih hcomes.edit
  | look k ih => exact ih _ hcomes.look
  | act d k ih =>
    have h₁ := hperform (d := d) (v := w) fun t ht => by
      subst ht
      exact .command hfind (.act hcomes)
    unfold carryOut
    generalize hr : s.perform (run rounds) rounds d w = r at h₁ ⊢
    obtain ⟨_ | a, w₁⟩ := r
    · exact h₁
    · exact h₁.trans (ih a (hcomes.act hr))
  | attempt d k ih =>
    have h₁ := Attends.catches.caught (hperform (d := d) (v := w) fun t ht => by
      subst ht
      exact .command hfind (.attempt hcomes))
    unfold carryOut
    generalize hr : caught (s.perform (run rounds) rounds d) w = r at h₁ ⊢
    obtain ⟨_ | a, w₁⟩ := r
    · exact h₁
    · exact h₁.trans (ih a (hcomes.attempt hr))

theorem dispatch_attends (ctx : H.Context) (line pending : String) (w : World H) :
    Attends s.config (some s.id) w (ending (s.dispatch (run rounds) rounds ctx line pending w).1.1)
      (s.dispatch (run rounds) rounds ctx line pending w).2 := by
  unfold dispatch
  split
  · exact Attends.runs.refl w
  · rename_i command captures hfind
    let plan := command.handler ⟨line, captures, w.stack, ctx, s.config.commands.listings⟩
    have hplan : Attends s.config (some s.id) (w.record (.dispatched command.usage))
        (ending (s.carryOut (run rounds) rounds plan pending (w.record _)).1.1)
        (s.carryOut (run rounds) rounds plan pending (w.record _)).2 :=
      carryOut_attends hn hfind .here
    have h := (Attends.work w (.dispatched command.usage) rfl).trans hplan
    dsimp only
    rw [World.record_stack]
    generalize s.carryOut (run rounds) rounds plan pending (w.record _) = r at h ⊢
    obtain ⟨⟨_ | _, rest⟩, w₂⟩ := r
    · exact h
    · exact h

/-- The sessions that are opened while a session is on the stack are awaited by it. -/
theorem body_attends (ctx : H.Context) (w : World H) :
    Attends s.config (some s.id) w (bodyEnding (s.body (run rounds) rounds ctx w).1)
      (s.body (run rounds) rounds ctx w).2 := by
  have hlistens : Conduct.Listens (Attends (H := H) s.config (some s.id)) (run rounds) rounds s :=
    Attends.writes.listens Attends.runs.spent (fun w => Attends.raise w _)
      (fun w inputs => .of_log_eq (Nests.works.inputs w inputs) rfl rfl) Attends.reading
      (fun w ev hev => Attends.work w ev (Event.isWork_of_isNote hev)) (dispatch_attends hn)
  exact Attends.runs.body_meets
    (hlistens.step_allowed (evaluate_attends hn ctx) (Attends.print_meets s)) w

end Session

namespace Attends

/-- Opening and closing sessions links a session to those inside of it. -/
theorem opens (c : Config H) : Conduct.Opens (Attends (H := H) c none) c (fun _ _ => True)
    fun s _ => Attends c (some s.id) where
  toOrders := writes.toOrders
  spent := runs.spent
  newId _ := of_log_eq (.of_log_eq rfl rfl rfl (Nat.le_succ _)) rfl rfl
  resolve _ w _ := runs.host w _
  fire s name receiver _ := writes.fire_meets s name [receiver] fun _ =>
    record (fun _ => rfl) (by simp)
  frame {s t w₀ w w₂ e e'} _ _ _ _ hin _ := by
    generalize H.receiver (H.resolve t w₀.host).1 = receiver at hin
    refine ⟨Nests.frame (fun _ hF => hF.elim) hin.nests, hin.refuses, ?_⟩
    intro pre m post level hms hm
    obtain ⟨mid, out, rfl, hmid, rfl⟩ := (Tame.begun s receiver w).split hin.nests.follows
      (Tame.leave w₂ w.active w.depth) hms hm
    obtain ⟨own, hown, hlinked⟩ := hin.raised hmid hm
    rw [(s.begun_follows receiver w).log_eq, List.append_assoc] at hlinked
    exact ⟨s.activation receiver w :: own, hown.begun, by simp, hlinked.widen _⟩
  aborted _ h := h.trans (record (fun _ => rfl) (by simp))
  ended _ _ _ := record (fun _ => rfl) (by simp)
  propagated _ _ _ _ := record (fun _ => rfl) (by simp)

/-- In every run, each of the open sessions is awaited by the one around it. -/
theorem run (rounds : Nat) (s : Session H) (t : Target H.Context) :
    Exec.Meets (Attends (H := H) s.config none) (s.run rounds t) := by
  refine (opens s.config).run_all_meets (fun rounds s' ctx hs hn w => ?_) rounds s rfl t
  rw [← hs] at hn ⊢
  exact Session.body_attends hn ctx w

end Attends

/-! ## What goes on behind unwinding -/

/-- A command that waited in the world `v` for a session on the target `t` goes on with the value
`u` that the session gave, in the world `v'`. It was called by the session numbered `id`. -/
def Session.CommandGoesOn (c : Config H) (id : SessionId) (rounds : Nat) (t : Target H.Context)
    (v : World H) (u : Value) (v' : World H) : Prop :=
  ∃ line pending pending' ctx command captures, ∃ v₀ : World H, ∃ k,
    c.commands.find? line = some (command, captures) ∧
    Pauses (run rounds) rounds ⟨id, c⟩
      (command.handler ⟨line, captures, v₀.stack, ctx, c.commands.listings⟩) pending
      (v₀.record (.dispatched command.usage)) t k pending' v ∧
    carryOut (run rounds) rounds ⟨id, c⟩
        (command.handler ⟨line, captures, v₀.stack, ctx, c.commands.listings⟩) pending
        (v₀.record (.dispatched command.usage)) =
      carryOut (run rounds) rounds ⟨id, c⟩ (k u) pending' v'

/-- The sessions that are open after some moments. -/
theorem Chain.unique {w : World H} {pre : List (Moment H)} {own own' : List Activation}
    (h : Chain w pre own) (h' : Chain w pre own') : own = own' := by
  have hroster := (h.roster []).symm.trans (h'.roster [])
  exact congrArg Roster.opened hroster

end CalcShell
