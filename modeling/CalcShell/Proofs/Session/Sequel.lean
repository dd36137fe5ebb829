import CalcShell.Proofs.Session.Opening
import CalcShell.Proofs.Session.Unwinding

/-!
# What certain moments lead to

Some moments stand at the begin of something: a line is read, a unit is evaluated. A `Sequel` says
which moments these are and what the log goes on with behind them. It has to hold for one session
only, where more may happen afterwards. `Sequel.Leads` says that it holds for all such moments
between two worlds, each of which belongs to the innermost of the sessions open then, and
`Sequel.run_leads` that it does so in every run if it does in the steps of a session.
-/

namespace CalcShell

variable {H : Host}

/-! ## The output and the end -/

/-- The piece that is written by an event. -/
def Event.wrote? : Event H → Option Piece
  | .wrote piece => some piece
  | _ => none

/-- The sink after some moments. -/
def Sink.through (sink : Sink) (ms : List (Moment H)) : Sink :=
  { sink with written := (ms.filterMap fun m => m.event.wrote?).reverse ++ sink.written }

theorem Sink.through_append (sink : Sink) (ms ns : List (Moment H)) :
    sink.through (ms ++ ns) = (sink.through ms).through ns := by
  simp only [through, List.filterMap_append, List.reverse_append, List.append_assoc]

/-- Moments at which nothing is written leave the sink as it is. -/
theorem Sink.through_eq_self (sink : Sink) {ms : List (Moment H)}
    (hms : ∀ m ∈ ms, m.event.wrote? = none) : sink.through ms = sink := by
  rw [through, List.filterMap_eq_nil_iff.2 hms]
  rfl

theorem Sink.through_cons_of_none (sink : Sink) {m : Moment H} (hm : m.event.wrote? = none)
    (ms : List (Moment H)) : sink.through (m :: ms) = sink.through ms := by
  simp only [through, List.filterMap_cons, hm]

/-- A sink that takes a piece is as it was, but for the piece. -/
theorem Sink.eq_of_take {sink sink' : Sink} {piece : Piece} (h : sink.take piece = .ok sink') :
    sink' = { sink with written := piece :: sink.written } := by
  unfold Sink.take at h
  split at h
  · cases h
  · exact (Except.ok.inj h).symm

/-- Whether an event is that the source of a command is evaluated. -/
def Event.isConsulting : Event H → Bool
  | .consulting .. => true
  | _ => false

/-- Nothing happens but that sessions are taken off the stack. -/
def Closing (ms : List (Moment H)) : Prop := ∀ m ∈ ms, ∃ depth found, m.event = .popped depth found

/-- Things end as `e` says, where `e` is the end of the allowed rounds only if things ended by it
before the moments `ms`, at which sessions are at most taken off the stack. -/
def EndsLike (e₁ : Option Stop) (ms : List (Moment H)) (e : Option Stop) : Prop :=
  e₁ = some .spent → e = some .spent ∧ Closing ms

theorem EndsLike.refl (e : Option Stop) : EndsLike (H := H) e [] e :=
  fun he => ⟨he, fun _ hm => absurd hm List.not_mem_nil⟩

/-- What ends like something ends like it also if both go on. -/
theorem EndsLike.append {e₁ e₂ e : Option Stop} {ms ns : List (Moment H)} (h₁ : EndsLike e₁ ms e₂)
    (h₂ : EndsLike e₂ ns e) : EndsLike e₁ (ms ++ ns) e := by
  intro he
  obtain ⟨he₂, hms⟩ := h₁ he
  obtain ⟨he', hns⟩ := h₂ he₂
  exact ⟨he', List.forall_mem_append.2 ⟨hms, hns⟩⟩

theorem EndsLike.of_ne {e₁ : Option Stop} (h : e₁ ≠ some .spent) (ms : List (Moment H))
    (e : Option Stop) : EndsLike e₁ ms e := fun he => absurd he h

/-! ## Rules -/

/-- A rule for what follows certain moments. -/
structure Sequel (H : Host) where
  /-- Whether the rule is about an event. -/
  marks : Event H → Bool
  /-- What the log goes on with behind a moment, at which the output is as given, where things end
  as the stop says. -/
  After : Sink → Moment H → List (Moment H) → Option Stop → Prop
  /-- The rule is about what a session does itself while it is on the stack. -/
  inner : ∀ {ev : Event H}, (ev.isReading || ev.isWork || ev.isConsulting) = false →
    marks ev = false
  /-- More may happen afterwards, but not where the allowed rounds have come to their end. -/
  widen : ∀ {sink m post e e' more}, After sink m post e → EndsLike e more e' →
    After sink m (post ++ more) e'

namespace Sequel

variable {S : Sequel H}

/-- The stack is kept, the log tells what is written, and behind every marked moment the log goes on
as it should. The sessions open then are known. -/
structure Leads (S : Sequel H) (w : World H) (e : Option Stop) (w' : World H) : Prop where
  nests : Nests (fun _ => False) w e w'
  sink : w'.sink = w.sink.through (w'.since w)
  marked : ∀ {pre m post}, w'.since w = pre ++ m :: post → S.marks m.event = true →
    ∃ own, Chain w pre own ∧ m.view.stack = w.stack ++ own.map Activation.frame ∧
      S.After (w.sink.through pre) m post e

namespace Leads

variable {w w₁ w₂ w' : World H} {e e₁ : Option Stop}

/-- One after the other: if the first one took too many rounds, so did both, and the second one is
only that sessions are taken off the stack. -/
theorem append (h₁ : S.Leads w e₁ w₁) (h₂ : S.Leads w₁ e w₂)
    (he : EndsLike e₁ (w₂.since w₁) e) : S.Leads w e w₂ where
  nests := h₁.nests.trans h₂.nests
  sink := by
    rw [World.since_trans h₂.nests.follows h₁.nests.follows, Sink.through_append, ← h₁.sink,
      h₂.sink]
  marked {pre m post} hms hm := by
    rw [World.since_trans h₂.nests.follows h₁.nests.follows] at hms
    rcases split_append hms with ⟨mid, hmid, rfl⟩ | ⟨mid, rfl, hmid⟩
    · obtain ⟨own, hown, hstack, hafter⟩ := h₁.marked hmid hm
      exact ⟨own, hown, hstack, S.widen hafter he⟩
    · -- Before the second part no session was left open.
      obtain ⟨own, hown, hstack, hafter⟩ := h₂.marked hmid hm
      rw [h₁.nests.stack] at hstack
      rw [h₁.sink, ← Sink.through_append] at hafter
      exact ⟨own, hown.earlier h₁.nests, hstack, hafter⟩

theorem trans (h₁ : S.Leads w none w₁) (h₂ : S.Leads w₁ e w₂) : S.Leads w e w₂ :=
  h₁.append h₂ (.of_ne (by simp) _ _)

/-- How things end does not matter as long as it is not by the end of the allowed rounds. -/
theorem caught {i : Interrupt} (h : S.Leads w (some (.interrupt i)) w') : S.Leads w none w' where
  nests := h.nests.anyhow none
  sink := h.sink
  marked {pre m post} hms hm := by
    obtain ⟨own, hown, hstack, hafter⟩ := h.marked hms hm
    refine ⟨own, hown, hstack, ?_⟩
    rw [← List.append_nil post]
    exact S.widen hafter (.of_ne (by simp) [] none)

/-- Interrupts may be caught. -/
theorem bears (t : Command.Table H) : Conduct.Bears (S.Leads) t := .inl fun _ _ _ h => h.caught

/-- A moment comes first, behind which the log goes on as it should if the moment is marked. -/
theorem cons {m : Moment H} (hn : Nests (fun _ => False) w none w₁) (hs : w₁.sink = w.sink)
    (hlog : w₁.log.toList = w.log.toList ++ [m]) (hwrote : m.event.wrote? = none)
    (hview : m.view.stack = w.stack) (h : S.Leads w₁ e w')
    (hafter : S.marks m.event = true → S.After w.sink m (w'.since w₁) e) : S.Leads w e w' where
  nests := hn.trans h.nests
  sink := by
    rw [World.since_trans h.nests.follows hn.follows, World.since_eq hlog, List.singleton_append,
      Sink.through_cons_of_none _ hwrote, ← hs, h.sink]
  marked {pre x post} hms hx := by
    rw [World.since_trans h.nests.follows hn.follows, World.since_eq hlog] at hms
    rcases split_append hms with ⟨mid, hmid, rfl⟩ | ⟨mid, rfl, hmid⟩
    · -- It is this moment.
      obtain ⟨rfl, hmid⟩ | ⟨_, -, hmid⟩ := List.cons_eq_append_iff.1 hmid
      · obtain ⟨rfl, rfl⟩ := List.cons.inj hmid
        exact ⟨[], Chain.nil w, by rw [hview, List.map_nil, List.append_nil], hafter hx⟩
      · exact absurd hmid (by simp)
    · -- It is one of the later ones.
      obtain ⟨own, hown, hstack, hlater⟩ := h.marked hmid hx
      have hchain := hown.earlier hn
      rw [World.since_eq hlog] at hchain
      rw [hn.stack] at hstack
      rw [hs, ← Sink.through_cons_of_none _ hwrote] at hlater
      exact ⟨own, hchain, hstack, hlater⟩

/-- The log goes on with moments none of which is marked and at which nothing is written. -/
theorem of_log {ms : List (Moment H)} (hn : Nests (fun _ => False) w e w') (hs : w'.sink = w.sink)
    (hlog : w'.log.toList = w.log.toList ++ ms)
    (hms : ∀ m ∈ ms, m.event.wrote? = none ∧ S.marks m.event = false) : S.Leads w e w' where
  nests := hn
  sink := by rw [World.since_eq hlog, Sink.through_eq_self _ fun m hm => (hms m hm).1, hs]
  marked {pre m post} hsince hm := by
    rw [World.since_eq hlog] at hsince
    have hmem : m ∈ ms := by
      rw [hsince]
      exact List.mem_append_right _ List.mem_cons_self
    rw [(hms m hmem).2] at hm
    cases hm

/-- Nothing is recorded. -/
theorem of_log_eq (hn : Nests (fun _ => False) w e w') (hs : w'.sink = w.sink)
    (hlog : w'.log = w.log) : S.Leads w e w' := by
  have hlog' : w'.log.toList = w.log.toList ++ [] := by rw [hlog, List.append_nil]
  exact of_log hn hs hlog' fun _ hm => absurd hm List.not_mem_nil

/-- An event is recorded that is not marked, opens and closes nothing and writes nothing. -/
theorem record {ev : Event H} (hstill : ev.Still) (hev : ev.wrote? = none ∧ S.marks ev = false) :
    S.Leads w e (w.record ev) := by
  refine of_log (.record hstill) rfl (w.log_record ev) fun m hm => ?_
  rw [List.mem_singleton.1 hm]
  exact hev

/-- A piece is written, which is nothing that the rule is about. -/
theorem wrote {piece : Piece} {sink : Sink} (hs : w.sink.take piece = .ok sink) :
    S.Leads w none (World.record { w with sink := sink } (.wrote piece)) := by
  have hlog : (World.record { w with sink := sink } (.wrote piece)).log.toList =
      w.log.toList ++ [⟨.wrote piece, w.view, w.host⟩] := World.log_record _ _
  refine ⟨Nests.works.wrote w piece sink hs, ?_, ?_⟩
  · rw [World.since_eq hlog]
    exact Sink.eq_of_take hs
  · intro pre m post hms hm
    rw [World.since_eq hlog] at hms
    have hmem : m ∈ [(⟨.wrote piece, w.view, w.host⟩ : Moment H)] := by
      rw [hms]
      exact List.mem_append_right _ List.mem_cons_self
    rw [List.mem_singleton.1 hmem, S.inner rfl] at hm
    cases hm

theorem writes : Conduct.Writes (H := H) S.Leads where
  refl w := of_log_eq (Nests.works.refl w) rfl rfl
  trans h₁ h₂ := h₁.trans h₂
  io _ _ := record (fun _ => rfl) ⟨rfl, S.inner rfl⟩
  wrote _ _ _ hs := wrote hs

theorem runs : Conduct.Runs (H := H) S.Leads where
  toOrders := writes.toOrders
  spent w := of_log_eq (Nests.works.spent w) rfl rfl
  host w state := of_log_eq (Nests.works.host w state) rfl rfl

theorem raise (w : World H) (i : Interrupt) :
    S.Leads w (some (.interrupt i)) (w.record (.raised i)) :=
  record (fun _ => rfl) ⟨rfl, S.inner rfl⟩

theorem print_meets (s : Session H) (outcome : Outcome) : Exec.Meets S.Leads (s.print outcome) :=
  writes.bind_meets (fun _ => record (fun _ => rfl) ⟨rfl, S.inner rfl⟩) fun _ => writes.put_meets _

/-- What commands and evaluations do by themselves is nothing that the rule is about, unless it is
about the sources of commands. -/
theorem serves (hconsulting : ∀ ev : Event H, ev.isConsulting = true → S.marks ev = false) :
    Conduct.Serves (H := H) S.Leads where
  toWrites := writes
  spent := runs.spent
  host := runs.host
  raise := raise
  printed _ _ _ := record (fun _ => rfl) ⟨rfl, S.inner rfl⟩
  consulting _ _ _ _ := record (fun _ => rfl) ⟨rfl, hconsulting _ rfl⟩

/-- Evaluating a source is as it should be if the sessions are that it opens. -/
theorem evaluateIn_meets {run : Session.Runner H} {s : Session H}
    (hn : ∀ t, Exec.Meets S.Leads (s.nestVia run t)) (rounds : Nat) (c : H.Context)
    (source : String) : Exec.Meets S.Leads (s.evaluateIn run rounds c source) := by
  intro w
  refine runs.toOrders.follow_all_meets runs.host hn (fun _ _ _ h => h.caught) (fun stop v => ?_) _
    w
  cases stop with
  | interrupt i => exact raise v i
  | spent => exact runs.spent v

theorem last (w : World H) (v : Value) : S.Leads w none { w with last := v } :=
  of_log_eq (Nests.works.last w v) rfl rfl

theorem inputs (w : World H) (inputs : List Line.Source) :
    S.Leads w none { w with inputs := inputs } :=
  of_log_eq (Nests.works.inputs w inputs) rfl rfl

/-- A session is put on the stack, the rule holds while it is there, and it is taken off. -/
theorem frame {s : Session H} {receiver : Value} (h : S.Leads (s.begun receiver w) e₁ w₂)
    (he : e₁ = some .spent → e = some .spent) : S.Leads w e (w₂.leave w.active w.depth) where
  nests := Nests.frame (fun _ hF => hF.elim) h.nests
  sink := by
    have hbegun : ∀ m ∈ (s.begun receiver w).since w, m.event.wrote? = none := by
      rw [World.since_eq (s.begun_log receiver w)]
      simp [Event.wrote?]
    have hleave : ∀ m ∈ (w₂.leave w.active w.depth).since w₂, m.event.wrote? = none := by
      rw [World.since_eq (w₂.leave_log _ _)]
      simp [Event.wrote?]
    rw [Session.since_leave h.nests.follows (w₂.leave_follows _ _), Sink.through_append,
      Sink.through_append, Sink.through_eq_self _ hbegun, Sink.through_eq_self _ hleave]
    exact h.sink
  marked {pre m post} hms hm := by
    rw [Session.since_leave h.nests.follows (w₂.leave_follows _ _)] at hms
    have hunmarked : ∀ {x : Moment H},
        (x.event.isReading || x.event.isWork || x.event.isConsulting) = false → m ≠ x := by
      rintro x hx rfl
      rw [S.inner hx] at hm
      cases hm
    have hbefore : m ∉ (s.begun receiver w).since w := by
      rw [World.since_eq (s.begun_log receiver w)]
      simp only [List.mem_cons, List.not_mem_nil, or_false, not_or]
      exact ⟨hunmarked rfl, hunmarked rfl⟩
    have hafter : m ∉ (w₂.leave w.active w.depth).since w₂ := by
      rw [World.since_eq (w₂.leave_log _ _), List.mem_singleton]
      exact hunmarked rfl
    have hclosing : EndsLike e₁ ((w₂.leave w.active w.depth).since w₂) e := by
      refine fun hspent => ⟨he hspent, ?_⟩
      rw [World.since_eq (w₂.leave_log _ _)]
      exact fun x hx => ⟨_, _, congrArg Moment.event (List.mem_singleton.1 hx)⟩
    obtain ⟨mid, out, rfl, hmid, rfl⟩ := split_between hms hbefore hafter
    obtain ⟨own, hown, hstack, hrest⟩ := h.marked hmid hm
    refine ⟨s.activation receiver w :: own, hown.begun, ?_, ?_⟩
    · rw [hstack, s.begun_stack, List.append_assoc]
      rfl
    · rw [Sink.through_append, Sink.through_eq_self w.sink ?_]
      · exact S.widen hrest hclosing
      · rw [World.since_eq (s.begun_log receiver w)]
        simp [Event.wrote?]

/-- Opening and closing sessions is nothing that the rule is about. -/
theorem opens (c : Config H) : Conduct.Opens (H := H) S.Leads c (fun _ _ => True)
    fun s ctx => Conduct.given S.Leads (s.Holds ctx) where
  toOrders := runs.toOrders
  spent := runs.spent
  newId _ := of_log_eq (.of_log_eq rfl rfl rfl (Nat.le_succ _)) rfl rfl
  resolve _ w _ := runs.host w _
  fire s name receiver _ := writes.fire_meets s name [receiver] fun _ =>
    record (fun _ => rfl) ⟨rfl, S.inner rfl⟩
  frame _ _ _ _ hin hleft := (hin (.begun _ _ _)).frame hleft.spent
  aborted _ h := h.append (record (fun _ => rfl) ⟨rfl, S.inner rfl⟩) (.of_ne (by simp) _ _)
  ended _ _ _ := record (fun _ => rfl) ⟨rfl, S.inner rfl⟩
  propagated _ _ _ _ := record (fun _ => rfl) ⟨rfl, S.inner rfl⟩

/-- A session that does something of its own stays the innermost one. -/
theorem ordersIn (s : Session H) (ctx : H.Context) :
    Conduct.Orders (Conduct.given S.Leads (s.Holds ctx)) :=
  runs.toOrders.given fun h hw => hw.of_nests h.nests

end Leads

end Sequel

end CalcShell
