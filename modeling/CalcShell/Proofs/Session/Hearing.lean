import CalcShell.Proofs.Session.Reading
import CalcShell.Proofs.Session.Sequel

/-!
# What a line that is read leads to

The log shows where a line is read. Each such moment belongs to a session that is open then, is the
innermost one and has just read the line, and what the log goes on with is what this session does
with the line (`Session.goOnWith`): it looks the line up and, unless that stops it, reads on or has
its unit. Whatever else is recorded behind that comes later. So what a line leads to in a run can
be read off a single session, wherever in the run the line is read.
-/

namespace CalcShell

variable {H : Host}

/-- What a session does with a line that it has read when `pending` was pending: it looks the line
up, and gives the unit that the line completes or one that it reads in further rounds. -/
def Session.goOnWith (run : Runner H) (rounds : Nat) (s : Session H) (ctx : H.Context) (n : Nat)
    (pending line : String) : Exec H String := do
  let pending ← s.lookUp run rounds ctx line (pending ++ line ++ "\n")
  if pending.isEmpty then s.readUnitFrom run rounds ctx n pending
  else if ← isComplete pending then return pending
  else s.readUnitFrom run rounds ctx n pending

/-- A line that was read is first remembered. -/
theorem Session.respond_line (run : Runner H) (rounds : Nat) (s : Session H) (ctx : H.Context)
    (n : Nat) (pending line : String) (w : World H) :
    s.respond run rounds ctx n pending (.line line) w =
      s.goOnWith run rounds ctx n pending line (w.heard s.config.input line) := by
  rw [respond, Exec.bind_apply, takeLine_apply]
  rfl

/-- A line that was read is recorded. That the input may remember it changes nothing else. -/
theorem World.heard_eq (w : World H) (input : Nat) (line : String) :
    (w.heard input line).log.toList = w.log.toList ++ [⟨.lineRead line, w.view, w.host⟩] ∧
      (w.heard input line).view = w.view ∧ (w.heard input line).host = w.host ∧
      (w.heard input line).sink = w.sink ∧ (w.heard input line).nextId = w.nextId := by
  unfold heard
  dsimp only
  split
  all_goals exact ⟨w.log_record _, rfl, rfl, rfl, rfl⟩

theorem World.heard_nests (w : World H) (input : Nat) (line : String) :
    Nests (fun _ => False) w none (w.heard input line) := by
  obtain ⟨hlog, hview, -, -, hids⟩ := w.heard_eq input line
  have hrecord : Nests (fun _ => False) w none (w.record (.lineRead line)) := .record fun _ => rfl
  exact hrecord.trans (.of_log_eq (Array.toList_inj.1 (hlog.trans (w.log_record _).symm))
    (congrArg Snapshot.stack hview) (congrArg Snapshot.active hview) (Nat.le_of_eq hids.symm))

/-! ## Lines that are heard -/

/-- The line of the moment `m` was read by a session made of the parts `c` whose receiver is that of
the innermost frame, in a world with the given output. The moments `post` begin with those of what
the session did with the line, and if that took more rounds than were allowed, so did whatever ended
as `e` says, and behind that only sessions are taken off the stack. -/
def Heard (c : Config H) (sink : Sink) (line : String) (m : Moment H) (post : List (Moment H))
    (e : Option Stop) : Prop :=
  ∃ rounds id ctx n pending, ∃ v : World H, ∃ rest,
    v.view = m.view ∧ v.host = m.host ∧ v.sink = sink ∧
      m.view.stack.getLast?.map Frame.receiver = some (H.receiver ctx) ∧
      post =
        (Session.goOnWith (Session.run rounds) rounds ⟨id, c⟩ ctx n pending line v).2.since v ++
          rest ∧
      EndsLike
        (ending (Session.goOnWith (Session.run rounds) rounds ⟨id, c⟩ ctx n pending line v).1) rest
        e

/-- A line that was heard was heard also if more happens afterwards. -/
theorem Heard.widen {c : Config H} {sink : Sink} {line : String} {m : Moment H}
    {post more : List (Moment H)} {e e' : Option Stop} (h : Heard c sink line m post e)
    (he : EndsLike e more e') : Heard c sink line m (post ++ more) e' := by
  obtain ⟨rounds, id, ctx, n, pending, v, rest, hview, hhost, hsink, hlast, rfl, hspent⟩ := h
  exact ⟨rounds, id, ctx, n, pending, v, rest ++ more, hview, hhost, hsink, hlast,
    List.append_assoc _ _ _, hspent.append he⟩

/-- Every line that is read is heard. -/
def Sequel.heard (c : Config H) : Sequel H where
  marks ev := ev.lineRead?.isSome
  After sink m post e := ∀ line, m.event = .lineRead line → Heard c sink line m post e
  inner {ev} hev := by cases ev <;> first | rfl | cases hev
  widen h he line hm := (h line hm).widen he

/-- The stack is kept, the log tells what is written, and every line that is read was heard by the
innermost of the sessions that are open then. -/
abbrev Hears (c : Config H) : Conduct H := (Sequel.heard c).Leads

namespace Hears

variable {c : Config H} {w w₁ w₂ w' : World H} {e e₁ : Option Stop}

/-- Each line that is read, and what it leads to. -/
theorem lines (h : Hears c w e w') {pre post : List (Moment H)} {m : Moment H} {line : String}
    (hms : w'.since w = pre ++ m :: post) (hm : m.event = .lineRead line) :
    ∃ own, Chain w pre own ∧ m.view.stack = w.stack ++ own.map Activation.frame ∧
      Heard c (w.sink.through pre) line m post e := by
  have hmarks : (Sequel.heard c).marks m.event = true := by
    rw [hm]
    rfl
  obtain ⟨own, hown, hstack, hafter⟩ := h.marked hms hmarks
  exact ⟨own, hown, hstack, hafter line hm⟩

theorem work (w : World H) (ev : Event H) (hev : ev.isWork = true) :
    Hears c w none (w.record ev) := by
  cases ev <;> first | exact .record (fun _ => rfl) ⟨rfl, rfl⟩ | cases hev

/-- What commands and evaluations do by themselves is nothing to lines. -/
theorem serves : Conduct.Serves (Hears (H := H) c) :=
  Sequel.Leads.serves fun ev hev => by cases ev <;> first | rfl | cases hev

/-- A line is read, and the session goes on with it. -/
theorem heard {rounds id n : Nat} {ctx : H.Context} {pending line : String}
    {x : Except Stop String}
    (hx : Session.goOnWith (Session.run rounds) rounds ⟨id, c⟩ ctx n pending line
      (w.heard c.input line) = (x, w'))
    (hlast : w.stack.getLast?.map Frame.receiver = some (H.receiver ctx))
    (h : Hears c (w.heard c.input line) (ending x) w') : Hears c w (ending x) w' := by
  obtain ⟨hlog, hview, hhost, hsink, -⟩ := w.heard_eq c.input line
  refine Sequel.Leads.cons (w.heard_nests _ line) hsink hlog rfl rfl h fun _ line' hline' => ?_
  cases hline'
  refine ⟨rounds, id, ctx, n, pending, w.heard c.input line, [], hview, hhost, hsink, hlast, ?_, ?_⟩
  · rw [hx, List.append_nil]
  · rw [hx]
    exact .refl _

end Hears

/-! ## Lines heard in a run -/

namespace Session

open Exec

variable {s : Session H} {rounds : Nat}
  (hn : ∀ t, Meets (Hears (H := H) s.config) (s.nestVia (run rounds) t))
include hn

theorem readUnitFrom_hears (ctx : H.Context) (n : Nat) (pending : String) :
    Meets ((Hears s.config).given (s.Holds ctx))
      (s.readUnitFrom (run rounds) rounds ctx n pending) := by
  have hserves : Conduct.Serves (Hears (H := H) s.config) := Hears.serves
  have horders := Sequel.Leads.ordersIn (S := Sequel.heard s.config) s ctx
  have hnote : ∀ (w : World H) e, e.isNote = true → Hears s.config w none (w.record e) :=
    fun w e he => Hears.work w e (Event.isWork_of_isNote he)
  have hlookUp : ∀ line pending, Meets (Hears (H := H) s.config)
      (s.lookUp (run rounds) rounds ctx line pending) := fun line pending w =>
    lookUp_allowed
      (hserves.dispatch_meets (Sequel.Leads.bears _) hn (fun w _ => Hears.work w _ rfl) rounds ctx
      line pending w)
  have hreadLine : ∀ prompt, Meets (Hears (H := H) s.config) (readLine s.config.input prompt) :=
    fun _ => hserves.readLine_meets (fun _ => .record (fun _ => rfl) ⟨rfl, rfl⟩) Sequel.Leads.inputs
  -- By induction on the rounds left: the lines behind the first one are read in fewer of them.
  induction n generalizing pending with
  | zero => exact fun w _ => hserves.spent w
  | succ n ih =>
    have hgoOn : ∀ pending line, Meets ((Hears s.config).given (s.Holds ctx))
        (s.goOnWith (run rounds) rounds ctx n pending line) := by
      intro pending line
      refine horders.bind_meets ((hlookUp line _).given _) fun rest => ?_
      split
      · exact ih rest
      · refine horders.bind_meets ((hserves.isComplete_meets hnote rest).given _)
          fun complete => ?_
        split
        · exact horders.pure_meets rest
        · exact ih rest
    rw [readUnitFrom_succ]
    refine horders.bind_meets (horders.read_meets _) fun level => ?_
    refine horders.bind_meets ((hreadLine _).given _) fun r => ?_
    cases r with
    | eof => exact fun w _ => hserves.raise w _
    | interrupted =>
      exact horders.bind_meets (fun w _ => Hears.work w _ rfl) fun _ => ih ""
    | line line =>
      intro w hholds
      obtain ⟨-, hview, -⟩ := w.heard_eq s.config.input line
      have hrest := hgoOn pending line (w.heard s.config.input line)
        (hholds.of_eq (congrArg Snapshot.stack hview) (congrArg Snapshot.active hview))
      obtain ⟨depth, hframe⟩ := hholds.frame
      rw [respond_line]
      exact hrest.heard rfl (by rw [hframe]; rfl)

theorem step_hears (ctx : H.Context) :
    Meets ((Hears s.config).given (s.Holds ctx)) (s.step (run rounds) rounds ctx) := by
  have hserves : Conduct.Serves (Hears (H := H) s.config) := Hears.serves
  have horders := Sequel.Leads.ordersIn (S := Sequel.heard s.config) s ctx
  refine horders.bind_meets (readUnitFrom_hears hn ctx rounds "") fun source => ?_
  refine horders.bind_meets (Exec.Meets.given ?_ _) fun outcome => ?_
  · exact hserves.toOrders.evaluate_meets hserves.host Sequel.Leads.last Hears.work
      (Sequel.Leads.evaluateIn_meets hn rounds ctx source)
  · exact (hserves.print_meets s outcome).given _

end Session

/-- Every line that is read in a run is heard by the innermost of the sessions open then. -/
theorem Hears.run (rounds : Nat) (s : Session H) (t : Target H.Context) :
    Exec.Meets (Hears (H := H) s.config) (s.run rounds t) := by
  refine (Sequel.Leads.opens s.config).run_all_meets (fun rounds s' ctx hs hn => ?_) rounds s rfl t
  have hserves : Conduct.Serves (Hears (H := H) s.config) := Hears.serves
  rw [← hs] at hn hserves ⊢
  exact (Sequel.Leads.ordersIn s' ctx).body_meets (fun w _ => hserves.spent w)
    ((hserves.bindConveniences_meets s' ctx).given _) (Session.step_hears hn ctx)

end CalcShell
