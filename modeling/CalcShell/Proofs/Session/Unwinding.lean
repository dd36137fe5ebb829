import CalcShell.Proofs.Calc.Evaluations
import CalcShell.Proofs.Command.Plans
import CalcShell.Proofs.Session.Nesting
import CalcShell.Session.Echo

/-!
# Unwinding to a level

An interrupt that unwinds to a level ends the open sessions from the innermost one outward, and each
of them is taken off the stack and then calls its hook for the end. The session that was entered at
this level takes the interrupt up: it ends as well, and gives its receiver to whatever opened it.
Where there is no such session the interrupt ends all of them.

The log shows where an interrupt arises. The main statement says what the log goes on with behind
such a moment: exactly the events by which these sessions end (`Activation.leaving`), so that in
between no line is read, nothing is evaluated or printed, and neither the state of the host nor the
last result changes.
-/

namespace CalcShell

variable {H : Host}

/-- The events by which an open session ends where unwinding goes to a level: it is taken off the
stack, its hook for the end is called and writes, and it takes the unwinding up or passes it on. -/
def Activation.leaving (hooks : Hooks) (level : Nat) (a : Activation) : List (Event H) :=
  .popped a.depth true :: .fired afterSession [a.receiver] ::
    (((hooks.writing afterSession [a.receiver]).pieces.filter (· ≠ .text "")).map .wrote ++
      [if level = a.depth then .ended a.id level else .propagated a.id level a.depth])

/-- Whatever a session evaluates and whatever its commands do, the interrupts that end sessions are
passed on. -/
def Session.PassesOn (s : Session H) : Prop := H.PassesOn ∧ s.config.commands.PassesOn

/-- Sessions of the calculator with the standard commands pass interrupts on. -/
theorem Session.passesOn_standard {s : Session Calc.host}
    (hs : s.config.commands = Command.standard) : s.PassesOn :=
  ⟨Calc.host_passesOn, hs ▸ Command.standard_passesOn⟩

/-- The hook for the end of a session never fails: not by itself, and not for the sink. -/
structure Hooks.EndWell (hooks : Hooks) (sink : Sink) : Prop where
  failure : ∀ receiver, (hooks.writing afterSession [receiver]).failure = none
  accepted : ∀ receiver, ∀ piece ∈ (hooks.writing afterSession [receiver]).pieces,
    ∀ written, sink.refuses written piece = none

/-! ## Where an unwinding interrupt goes -/

/-- A sink refuses after a piece what it would have refused before. -/
theorem Sink.take_refuses {sink sink' : Sink} {piece : Piece}
    (h : sink.take piece = .ok sink') : sink'.refuses = sink.refuses := by
  unfold Sink.take at h
  split at h
  · cases h
  · cases h
    rfl

/-- No unwinding arises between the two worlds. -/
structure Tame (w w' : World H) : Prop where
  follows : w'.Follows w
  none_raised : ∀ m ∈ w'.since w, ∀ level, m.event ≠ .raised (.breakout level)

namespace Tame

variable {w w₁ w₂ w' : World H}

theorem trans (h₁ : Tame w w₁) (h₂ : Tame w₁ w₂) : Tame w w₂ where
  follows := h₂.follows.trans h₁.follows
  none_raised m hm := by
    rw [World.since_trans h₂.follows h₁.follows] at hm
    rcases List.mem_append.1 hm with hm | hm
    · exact h₁.none_raised m hm
    · exact h₂.none_raised m hm

/-- The log goes on with moments none of which is one where unwinding arises. -/
theorem of_log {ms : List (Moment H)} (hlog : w'.log.toList = w.log.toList ++ ms)
    (hms : ∀ m ∈ ms, ∀ level, m.event ≠ .raised (.breakout level)) : Tame w w' where
  follows := ⟨ms, hlog.symm⟩
  none_raised := by
    rw [World.since_eq hlog]
    exact hms

/-- Nothing is recorded. -/
theorem of_log_eq (hlog : w'.log = w.log) : Tame w w' where
  follows := .of_log_eq hlog
  none_raised := by
    rw [World.since_of_log_eq hlog]
    exact fun _ hm => absurd hm List.not_mem_nil

theorem record {ev : Event H} (hev : ∀ level, ev ≠ .raised (.breakout level)) :
    Tame w (w.record ev) := by
  apply of_log (w.log_record ev)
  intro m hm
  rw [List.mem_singleton.1 hm]
  exact hev

/-- No unwinding arises by writing. -/
theorem writes : Conduct.Writes fun (w : World H) _ w' => Tame w w' where
  refl w := of_log_eq rfl
  trans h₁ h₂ := h₁.trans h₂
  io w err := record (by simp)
  wrote w piece sink _ := by
    have h : Tame { w with sink := sink }
        (World.record { w with sink := sink } (.wrote piece)) := record (by simp)
    exact ⟨h.follows, h.none_raised⟩

/-- No unwinding arises by calling a hook. -/
theorem fire {s : Session H} {name : String} {args : List Value} {x : Except Stop Unit}
    (hx : s.fire name args w = (x, w')) : Tame w w' := by
  have h := writes.fire_meets s name args (fun w => record (w := w) (by simp)) w
  rw [hx] at h
  exact ⟨h.follows, h.none_raised⟩

/-- No unwinding arises when a session begins. -/
theorem begun (s : Session H) (receiver : Value) (w : World H) :
    Tame w (s.begun receiver w) :=
  of_log (s.begun_log receiver w) (by simp)

/-- No unwinding arises when a session is taken off the stack. -/
theorem leave (w : World H) (active : Option SessionId) (depth : Nat) :
    Tame w (w.leave active depth) :=
  of_log (w.leave_log active depth) (by simp)

end Tame

/-- A list in two parts that has an element at some place has it in the one or in the other. -/
theorem split_append {α : Type} {as bs pre post : List α} {x : α}
    (h : as ++ bs = pre ++ x :: post) :
    (∃ mid, as = pre ++ x :: mid ∧ post = mid ++ bs) ∨
      (∃ mid, pre = as ++ mid ∧ bs = mid ++ x :: post) := by
  rcases List.append_eq_append_iff.1 h with ⟨mid, hpre, hbs⟩ | ⟨mid, has, hx⟩
  · exact .inr ⟨mid, hpre, hbs⟩
  · cases mid with
    | nil =>
      rw [List.append_nil] at has
      exact .inr ⟨[], by rw [has, List.append_nil], hx.symm⟩
    | cons y mid =>
      obtain ⟨rfl, rfl⟩ := List.cons.inj hx
      exact .inl ⟨mid, has, rfl⟩

/-- A list in three parts that has an element at some place, which is neither in the first nor in
the last part, has it in the second. -/
theorem split_between {α : Type} {as bs cs pre post : List α} {x : α}
    (h : as ++ (bs ++ cs) = pre ++ x :: post) (has : x ∉ as) (hcs : x ∉ cs) :
    ∃ mid out, pre = as ++ mid ∧ bs = mid ++ x :: out ∧ post = out ++ cs := by
  rcases split_append h with ⟨mid, hmid, -⟩ | ⟨mid, hpre, hrest⟩
  · rw [hmid] at has
    exact absurd (List.mem_append_right _ List.mem_cons_self) has
  rcases split_append hrest with ⟨out, hout, hpost⟩ | ⟨out, -, hlast⟩
  · exact ⟨mid, out, hpre, hout, hpost⟩
  · rw [hlast] at hcs
    exact absurd (List.mem_append_right _ List.mem_cons_self) hcs

/-- The element at a place of a list, of which something is known, and the list around it. -/
theorem exists_split {α β : Type} {xs : List α} {i : Nat} {f : α → β} {b : β}
    (h : xs[i]?.map f = some b) : ∃ pre x post, xs = pre ++ x :: post ∧ f x = b := by
  obtain ⟨x, hget, hx⟩ := Option.map_eq_some_iff.1 h
  obtain ⟨hlt, rfl⟩ := List.getElem?_eq_some_iff.1 hget
  exact ⟨xs.take i, xs[i], xs.drop (i + 1), by simp, hx⟩

/-- Where unwinding can only arise in between, it does. -/
theorem Tame.split {w w₁ w₂ w' : World H} (h₁ : Tame w w₁)
    (h₂ : w₂.Follows w₁) (h₃ : Tame w₂ w') {pre post : List (Moment H)} {m : Moment H}
    {level : Nat} (hms : w'.since w = pre ++ m :: post)
    (hm : m.event = .raised (.breakout level)) :
    ∃ mid out, pre = w₁.since w ++ mid ∧ w₂.since w₁ = mid ++ m :: out ∧
      post = out ++ w'.since w₂ := by
  rw [World.since_trans (h₃.follows.trans h₂) h₁.follows, World.since_trans h₃.follows h₂] at hms
  exact split_between hms (fun hmem => h₁.none_raised m hmem level hm)
    fun hmem => h₃.none_raised m hmem level hm

/-- The moments behind `m` are those by which the given sessions end, outermost last, and host and
last result are as at `m`. -/
structure Leaves (hooks : Hooks) (level : Nat) (ends : List Activation) (m : Moment H)
    (out : List (Moment H)) : Prop where
  events : out.map Moment.event = ends.reverse.flatMap (Activation.leaving hooks level)
  same : ∀ x ∈ out, x.host = m.host ∧ x.view.last = m.view.last

/-- The call that opened the session `a` within the history `before`, at the depth that `a` noted,
gave the receiver of `a` when the history was `after`. -/
def Returned (a : Activation) (before after : List (Moment H)) : Prop :=
  ∃ rounds s t, ∃ w w' : World H,
    Session.run rounds s t w = (.ok a.receiver, w') ∧ s.id = a.id ∧ w.depth = a.depth ∧
      (∃ x ∈ w'.since w, x.event = .started a.id a.depth a.receiver) ∧
      w.log.toList <+: before ∧ w'.log.toList = after

/-- One of the given open sessions was entered at the level, takes up the unwinding that arises at
the moment `m`, with `pre` before it and `post` behind it since the world `w`, and gives its
receiver. -/
def Absorbed (hooks : Hooks) (level : Nat) (w : World H) (pre : List (Moment H)) (m : Moment H)
    (post : List (Moment H)) (own : List Activation) : Prop :=
  ∃ outer a inner out rest, own = outer ++ a :: inner ∧ a.depth = level ∧
    (∀ b ∈ inner, b.depth ≠ level) ∧ post = out ++ rest ∧ Leaves hooks level (a :: inner) m out ∧
    Returned a (w.log.toList ++ pre) (w.log.toList ++ (pre ++ m :: out))

/-- None of the given open sessions was entered at the level, and all of them end. -/
structure Escaped (hooks : Hooks) (level : Nat) (m : Moment H) (post : List (Moment H))
    (own : List Activation) (e : Option Stop) (w' : World H) : Prop where
  unmatched : ∀ b ∈ own, b.depth ≠ level
  leaves : Leaves hooks level own m post
  stop : e = some (.interrupt (.breakout level))
  host : w'.host = m.host
  last : w'.last = m.view.last

/-- Unwinding that is taken up is taken up also if more happens before and afterwards. -/
theorem Absorbed.widen {hooks : Hooks} {level : Nat} {w w₁ : World H}
    {pre post : List (Moment H)} {m : Moment H} {own : List Activation}
    (h : Absorbed hooks level w₁ pre m post own) (hw : w₁.Follows w) (outer : List Activation)
    (rest : List (Moment H)) :
    Absorbed hooks level w (w₁.since w ++ pre) m (post ++ rest) (outer ++ own) := by
  obtain ⟨outer', a, inner, out, rest', rfl, ha, hinner, rfl, hout, hret⟩ := h
  refine ⟨outer ++ outer', a, inner, out, rest' ++ rest, ?_, ha, hinner, ?_, hout, ?_⟩
  · rw [List.append_assoc]
  · rw [List.append_assoc]
  · rw [hw.log_eq] at hret
    simpa only [List.append_assoc] using hret

/-- The sessions `own` are those that have been opened since the world `w` and are still open after
the moments `pre`: they were entered one inside of the other, at one depth after the other. -/
structure Chain (w : World H) (pre : List (Moment H)) (own : List Activation) : Prop where
  roster : ∀ opened, (Roster.of opened).through pre = .of (opened ++ own)
  depths : own.map Activation.depth = List.range' w.depth own.length

theorem Chain.nil (w : World H) : Chain w [] [] where
  roster opened := by rw [Roster.through_nil, List.append_nil]
  depths := rfl

/-- What keeps the stack may happen before. -/
theorem Chain.earlier {w w₁ : World H} {pre : List (Moment H)} {own : List Activation}
    {e : Option Stop} (h : Chain w₁ pre own) (hn : Nests (fun _ => False) w e w₁) :
    Chain w (w₁.since w ++ pre) own where
  roster opened := by rw [Roster.through_append, hn.balanced, h.roster]
  depths := by
    have hdepth : w₁.depth = w.depth := congrArg List.length hn.stack
    rw [h.depths, hdepth]

/-- A session that begins is the outermost one of those that are opened from then on. -/
theorem Chain.begun {s : Session H} {receiver : Value} {w : World H} {pre : List (Moment H)}
    {own : List Activation} (h : Chain (s.begun receiver w) pre own) :
    Chain w ((s.begun receiver w).since w ++ pre) (s.activation receiver w :: own) where
  roster opened := by
    have hbegun : (Roster.of opened).through ((s.begun receiver w).since w) =
        .of (opened ++ [s.activation receiver w]) := by
      rw [World.since_eq (s.begun_log receiver w)]
      rfl
    rw [Roster.through_append, hbegun, h.roster, List.append_assoc]
    rfl
  depths := by
    rw [List.map_cons, h.depths, List.length_cons, List.range'_succ, s.begun_depth]
    rfl

/-- The stack is kept, the sink refuses what it refused, and if the hooks for the end never fail,
all unwinding that arises goes where it should. -/
structure Unwinds (hooks : Hooks) (w : World H) (e : Option Stop) (w' : World H) : Prop where
  nests : Nests (fun _ => False) w e w'
  refuses : w'.sink.refuses = w.sink.refuses
  raises : hooks.EndWell w.sink → ∀ {pre m post level}, w'.since w = pre ++ m :: post →
    m.event = .raised (.breakout level) →
    ∃ own, Chain w pre own ∧
      (Absorbed hooks level w pre m post own ∨ Escaped hooks level m post own e w')

/-- Whether the hook for the end fails for the sink depends only on what the sink refuses. -/
theorem Hooks.EndWell.of_refuses {hooks : Hooks} {sink sink' : Sink} (h : hooks.EndWell sink)
    (hs : sink'.refuses = sink.refuses) : hooks.EndWell sink' := by
  refine ⟨h.failure, ?_⟩
  rw [hs]
  exact h.accepted

namespace Unwinds

variable {hooks : Hooks} {w w₁ w₂ w' : World H} {e : Option Stop}

theorem trans (h₁ : Unwinds hooks w none w₁) (h₂ : Unwinds hooks w₁ e w₂) :
    Unwinds hooks w e w₂ where
  nests := h₁.nests.trans h₂.nests
  refuses := h₂.refuses.trans h₁.refuses
  raises hhooks pre m post level hms hm := by
    rw [World.since_trans h₂.nests.follows h₁.nests.follows] at hms
    rcases split_append hms with ⟨mid, hmid, rfl⟩ | ⟨mid, rfl, hmid⟩
    · -- It arises in the first part, which has a result and so takes it up.
      obtain ⟨own, hown, hto⟩ := h₁.raises hhooks hmid hm
      refine ⟨own, hown, .inl ?_⟩
      rcases hto with habs | hesc
      · have habs := habs.widen (.refl w) [] (w₂.since w₁)
        rwa [World.since_self] at habs
      · exact absurd hesc.stop (by simp)
    · -- It arises in the second part, before which no session was left open.
      obtain ⟨own, hown, hto⟩ := h₂.raises (hhooks.of_refuses h₁.refuses) hmid hm
      refine ⟨own, hown.earlier h₁.nests, ?_⟩
      rcases hto with habs | hesc
      · have habs := habs.widen h₁.nests.follows [] []
        rw [List.append_nil] at habs
        exact .inl habs
      · exact .inr hesc

/-- Something happens by which no unwinding arises. -/
theorem of_tame (hn : Nests (fun _ => False) w e w') (hr : w'.sink.refuses = w.sink.refuses)
    (ht : Tame w w') : Unwinds hooks w e w' where
  nests := hn
  refuses := hr
  raises _ pre m post level hms hm := by
    have hmem : m ∈ w'.since w := by
      rw [hms]
      exact List.mem_append_right _ List.mem_cons_self
    exact absurd hm (ht.none_raised m hmem level)

/-- Where an interrupt arises no session has been opened yet, and none takes it up. -/
theorem raise (w : World H) (i : Interrupt) :
    Unwinds hooks w (some (.interrupt i)) (w.record (.raised i)) where
  nests := Nests.works.raise w i
  refuses := rfl
  raises _ pre m post level hms hm := by
    rw [World.since_eq (w.log_record _)] at hms
    obtain ⟨rfl, hms⟩ | ⟨_, -, hms⟩ := List.cons_eq_append_iff.1 hms
    · obtain ⟨rfl, rfl⟩ := List.cons.inj hms
      cases hm
      refine ⟨[], Chain.nil w, .inr ⟨?_, ⟨rfl, ?_⟩, rfl, rfl, rfl⟩⟩
      · exact fun _ hb => absurd hb List.not_mem_nil
      · exact fun _ hx => absurd hx List.not_mem_nil
    · exact absurd hms (by simp)

/-- All unwinding that arises in what a session does goes where it should. -/
theorem works : Conduct.Works (Unwinds (H := H) hooks) where
  refl w := of_tame (Nests.works.refl w) rfl (Tame.of_log_eq rfl)
  trans h₁ h₂ := h₁.trans h₂
  spent w := of_tame (Nests.works.spent w) rfl (Tame.of_log_eq rfl)
  raise := raise
  wrote w piece sink hs := by
    have hr : sink.refuses = w.sink.refuses := Sink.take_refuses hs
    exact of_tame (Nests.works.wrote w piece sink hs) hr (Tame.writes.wrote w piece sink hs)
  host w state := of_tame (Nests.works.host w state) rfl (Tame.of_log_eq rfl)
  printed w id outcome := of_tame (Nests.works.printed w id outcome) rfl (Tame.record (by simp))
  consulting w id ctx source :=
    of_tame (Nests.works.consulting w id ctx source) rfl (Tame.record (by simp))
  last w v := of_tame (Nests.works.last w v) rfl (Tame.of_log_eq rfl)
  inputs w inputs := of_tame (Nests.works.inputs w inputs) rfl (Tame.of_log_eq rfl)
  reading w ev hev := by
    refine of_tame (Nests.works.reading w ev hev) rfl (Tame.record ?_)
    rintro level rfl
    simp [Event.isReading] at hev
  work w ev hev := by
    refine of_tame (Nests.works.work w ev hev) rfl (Tame.record ?_)
    rintro level rfl
    simp [Event.isWork] at hev

/-- All unwinding that arises in a hook goes where it should: there is none. -/
theorem fire {s : Session H} {name : String} {args : List Value} {x : Except Stop Unit}
    (hx : s.fire name args w = (x, w')) : Unwinds hooks w (ending x) w' := by
  have hfired : ∀ v : World H, Unwinds hooks v none (v.record (.fired name args)) := fun _ =>
    of_tame (Nests.record fun _ => rfl) rfl (Tame.record (by simp))
  have h := works.fire_meets s name args hfired w
  rw [hx] at h
  exact h

end Unwinds

/-! ## Unwinding in a session -/

/-- The events by which a session ends that has been on the stack so far, where the hook for the end
never fails. -/
theorem Calm.leaving {s : Session H} {receiver : Value} {w w' : World H} {active : Option SessionId}
    {depth : Nat} {x : Except Stop Unit} (level : Nat) (hstack : w.stack ≠ [])
    (hhooks : s.config.hooks.EndWell w.sink)
    (hx : s.fire afterSession [receiver] (w.leave active depth) = (x, w')) :
    x = .ok () ∧
      Calm w (Activation.leaving s.config.hooks level ⟨s.id, depth, receiver⟩)
        (w'.record (if level = depth then .ended s.id level
          else .propagated s.id level depth)) := by
  -- First the frame, then the hook, then the level.
  have hpop : Calm w [.popped depth true] (w.leave active depth) := by
    have hfound : (!w.stack.isEmpty) = true := by simpa using hstack
    rw [World.leave, hfound]
    exact record rfl rfl rfl rfl rfl
  obtain ⟨w'', hfire, hhook⟩ := fire s afterSession [receiver] (w.leave active depth)
    (hhooks.failure receiver) (hhooks.accepted receiver)
  rw [hfire] at hx
  obtain ⟨rfl, rfl⟩ := Prod.mk.inj hx
  have hend := (hpop.trans hhook).trans
    (record (e := if level = depth then .ended s.id level else .propagated s.id level depth)
      rfl rfl rfl rfl rfl)
  exact ⟨rfl, hend⟩

/-- Behind the moments by which inner sessions end, an outer one ends. -/
theorem Leaves.outward {hooks : Hooks} {level : Nat} {own : List Activation} {m : Moment H}
    {out : List (Moment H)} {w w' : World H} (h : Leaves hooks level own m out) {a : Activation}
    (hcalm : Calm w (a.leaving hooks level) w') (hhost : w.host = m.host)
    (hlast : w.last = m.view.last) : Leaves hooks level (a :: own) m (out ++ w'.since w) where
  events := by
    rw [List.map_append, h.events, hcalm.events, List.reverse_cons, List.flatMap_append,
      List.flatMap_singleton]
  same x hx := by
    rcases List.mem_append.1 hx with hx | hx
    · exact h.same x hx
    · rw [← hhost, ← hlast]
      exact hcalm.moments x hx

/-- What becomes of unwinding that arises while a session runs, where `a` is the session itself and
`own` are those that are open inside of it. -/
inductive Concluded (hooks : Hooks) (level : Nat) (w : World H) (pre : List (Moment H))
    (m : Moment H) (post : List (Moment H)) (a : Activation) (own : List Activation)
    (r : Except Stop Value) (w' : World H) : Prop where
  /-- One of the inner sessions takes it up. -/
  | inside : Absorbed hooks level w pre m post own → Concluded hooks level w pre m post a own r w'
  /-- The session itself takes it up, and gives its receiver. -/
  | here : a.depth = level → (∀ b ∈ own, b.depth ≠ level) → Leaves hooks level (a :: own) m post →
      r = .ok a.receiver → Concluded hooks level w pre m post a own r w'
  /-- The session passes it on. -/
  | onward : Escaped hooks level m post (a :: own) (ending r) w' →
      Concluded hooks level w pre m post a own r w'

namespace Session.Ran

variable {s : Session H} {receiver : Value} {body : Exec H Nat} {w w' : World H}
  {r : Except Stop Value}

/-- From before the hook for the begin until the session is on the stack. -/
theorem entered {w₁ : World H} (hb : s.fire beforeSession [receiver] w = (.ok (), w₁)) :
    (s.begun receiver w₁).Follows w ∧ (s.begun receiver w₁).sink.refuses = w.sink.refuses ∧
      w₁.depth = w.depth ∧ Tame w (s.begun receiver w₁) ∧
      (∃ x ∈ (s.begun receiver w₁).since w, x.event = .started s.id w₁.depth receiver) ∧
      ∀ {pre own}, Chain (s.begun receiver w₁) pre own →
        Chain w ((s.begun receiver w₁).since w ++ pre) (s.activation receiver w₁ :: own) := by
  have hfired : Unwinds s.config.hooks w none w₁ := Unwinds.fire hb
  have hnests := hfired.nests
  have hsince := World.since_trans (s.begun_follows receiver w₁) hnests.follows
  refine ⟨(s.begun_follows receiver w₁).trans hnests.follows, hfired.refuses,
    congrArg List.length hnests.stack, (Tame.fire hb).trans (Tame.begun s receiver w₁), ?_, ?_⟩
  · rw [hsince, World.since_eq (s.begun_log receiver w₁)]
    exact ⟨_, List.mem_append_right _ List.mem_cons_self, rfl⟩
  · intro pre own hchain
    rw [hsince, List.append_assoc]
    exact hchain.begun.earlier hnests

section Concluded

variable (hbody : ∀ w, Unwinds s.config.hooks w (bodyEnding (body w).1) (body w).2)
  (hhooks : s.config.hooks.EndWell w.sink) {pre post : List (Moment H)} {m : Moment H}
  {level : Nat} (hms : w'.since w = pre ++ m :: post) (hm : m.event = .raised (.breakout level))
include hbody hhooks hms hm

/-- Where the session gets on the stack: if unwinding is not taken up inside of it, it remains to be
said what follows. -/
theorem concluded_of_begun {w₁ w₂ : World H} {x : Except Stop Nat}
    (hb : s.fire beforeSession [receiver] w = (.ok (), w₁))
    (hx : body (s.begun receiver w₁) = (x, w₂)) (hafter : Tame w₂ w')
    (hout : ∀ own out, w₂.stack ≠ [] → s.config.hooks.EndWell w₂.sink →
      Escaped s.config.hooks level m out own (bodyEnding x) w₂ →
      Concluded s.config.hooks level w pre m (out ++ w'.since w₂) (s.activation receiver w₁) own
        r w') :
    ∃ a own, a.id = s.id ∧ a.depth = w.depth ∧
      (∃ x ∈ pre, x.event = .started a.id a.depth a.receiver) ∧
      Chain w pre (a :: own) ∧
      Concluded s.config.hooks level w pre m post a own r w' := by
  have hin := hbody (s.begun receiver w₁)
  rw [hx] at hin
  obtain ⟨hfollows, hrefuses, hdepth, htame, ⟨y, hy, hstarted⟩, hopen⟩ := entered hb
  -- Neither getting on the stack nor what comes after the session is where unwinding arises.
  obtain ⟨mid, out, rfl, hmid, rfl⟩ := htame.split hin.nests.follows hafter hms hm
  have hwell := hhooks.of_refuses hrefuses
  obtain ⟨own, hown, hto⟩ := hin.raises hwell hmid hm
  refine ⟨s.activation receiver w₁, own, rfl, hdepth,
    ⟨y, List.mem_append_left _ hy, hstarted⟩, hopen hown, ?_⟩
  rcases hto with habs | hesc
  · exact .inside (habs.widen hfollows [] _)
  · have hstack : w₂.stack ≠ [] := by
      rw [hin.nests.stack, s.begun_stack]
      simp
    exact hout own out hstack (hwell.of_refuses hin.refuses) hesc

/-- Unwinding that arises while a session runs arises while it is on the stack, and either is taken
up inside of it or ends it. -/
theorem concluded (hran : s.Ran receiver body w r w')
    (hcaught : ∀ w level, (body w).1 ≠ .error (.interrupt (.breakout level))) :
    ∃ a own, a.id = s.id ∧ a.depth = w.depth ∧
      (∃ x ∈ pre, x.event = .started a.id a.depth a.receiver) ∧
      Chain w pre (a :: own) ∧
      Concluded s.config.hooks level w pre m post a own r w' := by
  cases hran with
  | refused hb =>
    -- A hook that fails raises another interrupt.
    have hmem : m ∈ w'.since w := by
      rw [hms]
      exact List.mem_append_right _ List.mem_cons_self
    exact absurd hm ((Tame.fire hb).none_raised m hmem level)
  | @aborted w₁ w₂ i hb hx =>
    refine concluded_of_begun hbody hhooks hms hm hb hx
      ((Tame.leave w₂ _ _).trans (Tame.record (by simp))) ?_
    intro own out _ _ hesc
    -- Unwinding that reaches the session ends its steps with a level, not by an interrupt.
    have hi := hesc.stop
    cases hi
    exact absurd (congrArg Prod.fst hx) (hcaught _ _)
  | @spent w₁ w₂ hb hx =>
    refine concluded_of_begun hbody hhooks hms hm hb hx (Tame.leave w₂ _ _) ?_
    intro own out _ _ hesc
    exact absurd hesc.stop (by simp [bodyEnding])
  | @failed w₁ w₂ _ _ _ hb hx ha =>
    refine concluded_of_begun hbody hhooks hms hm hb hx
      ((Tame.leave w₂ _ _).trans (Tame.fire ha)) ?_
    intro own out hstack hwell _
    -- The hook for the end never fails.
    exact absurd (Calm.leaving level hstack hwell ha).1 (by simp)
  | @ended w₁ w₂ w₃ level' hb hx ha hl =>
    refine concluded_of_begun hbody hhooks hms hm hb hx
      (((Tame.leave w₂ _ _).trans (Tame.fire ha)).trans (Tame.record (by simp))) ?_
    intro own out hstack hwell hesc
    have hlevel := hesc.stop
    cases hlevel
    have hcalm := (Calm.leaving level hstack hwell ha).2
    rw [if_pos hl] at hcalm
    exact .here hl.symm hesc.unmatched (hesc.leaves.outward hcalm hesc.host hesc.last) rfl
  | @propagated w₁ w₂ w₃ level' hb hx ha hl =>
    refine concluded_of_begun hbody hhooks hms hm hb hx
      (((Tame.leave w₂ _ _).trans (Tame.fire ha)).trans (Tame.record (by simp))) ?_
    intro own out hstack hwell hesc
    have hlevel := hesc.stop
    cases hlevel
    have hcalm := (Calm.leaving level hstack hwell ha).2
    rw [if_neg hl] at hcalm
    refine .onward ⟨?_, hesc.leaves.outward hcalm hesc.host hesc.last, rfl,
      hcalm.host.trans hesc.host, hcalm.last.trans hesc.last⟩
    intro b hb
    rcases List.mem_cons.1 hb with rfl | hb
    · exact Ne.symm hl
    · exact hesc.unmatched b hb

end Concluded

/-- The sink refuses what it refused. -/
theorem refuses (hran : s.Ran receiver body w r w')
    (hbody : ∀ w, Unwinds s.config.hooks w (bodyEnding (body w).1) (body w).2) :
    w'.sink.refuses = w.sink.refuses := by
  have hinside : ∀ {w₁ w₂ : World H} {x : Except Stop Nat},
      s.fire beforeSession [receiver] w = (.ok (), w₁) →
      body (s.begun receiver w₁) = (x, w₂) → w₂.sink.refuses = w.sink.refuses := by
    intro w₁ w₂ x hb hx
    obtain ⟨-, hrefuses, -⟩ := entered hb
    have hin := hbody (s.begun receiver w₁)
    rw [hx] at hin
    exact hin.refuses.trans hrefuses
  have hfire : ∀ {name : String} {v v' : World H} {x : Except Stop Unit},
      s.fire name [receiver] v = (x, v') → v'.sink.refuses = v.sink.refuses := by
    intro name v v' x hx
    have h : Unwinds s.config.hooks v (ending x) v' := Unwinds.fire hx
    exact h.refuses
  cases hran with
  | refused hb => exact hfire hb
  | aborted hb hx => exact (hinside hb hx :)
  | spent hb hx => exact (hinside hb hx :)
  | failed hb hx ha => exact (hfire ha).trans (hinside hb hx :)
  | ended hb hx ha => exact (hfire ha).trans (hinside hb hx :)
  | propagated hb hx ha => exact (hfire ha).trans (hinside hb hx :)

end Session.Ran

namespace Session

/-- The steps of a session end by unwinding only in that they give the level. -/
theorem reps_caught (run : Runner H) (rounds : Nat) (s : Session H) (ctx : H.Context) (n : Nat)
    (w : World H) (level : Nat) :
    (s.reps run rounds ctx n w).1 ≠ .error (.interrupt (.breakout level)) := by
  induction n generalizing w with
  | zero => simp [reps, Exec.stop]
  | succ n ih =>
    simp only [reps, rep, Exec.bind_apply, Exec.attempt]
    generalize s.step run rounds ctx w = x
    obtain ⟨((_ | _ | _ | _) | _) | _, w₁⟩ := x
    all_goals first | exact ih w₁ | simp [Exec.stop, Exec.pure_apply]

theorem body_caught (run : Runner H) (rounds : Nat) (s : Session H) (ctx : H.Context) (w : World H)
    (level : Nat) : (s.body run rounds ctx w).1 ≠ .error (.interrupt (.breakout level)) :=
  reps_caught run rounds s ctx rounds _ level

/-- Unwinding that arises in a run, if all that arises in the sessions opened inside goes where it
should. -/
theorem run_concluded_of {rounds : Nat} {s : Session H} (hp : s.PassesOn)
    (hn : ∀ t, Exec.Meets (Unwinds (H := H) s.config.hooks) (s.nestVia (run rounds) t))
    (t : Target H.Context) (w : World H) (hhooks : s.config.hooks.EndWell w.sink)
    {pre post : List (Moment H)} {m : Moment H} {level : Nat}
    (hms : (run (rounds + 1) s t w).2.since w = pre ++ m :: post)
    (hm : m.event = .raised (.breakout level)) :
    ∃ a own, a.id = s.id ∧ a.depth = w.depth ∧
      (∃ x ∈ pre, x.event = .started a.id a.depth a.receiver) ∧
      Chain w pre (a :: own) ∧
      Concluded s.config.hooks level w pre m post a own (run (rounds + 1) s t w).1
        (run (rounds + 1) s t w).2 := by
  have hran := runIn_ran (run rounds) rounds s (H.resolve t w.host).1
    { w with host := (H.resolve t w.host).2 }
  rw [← run_succ] at hran
  obtain ⟨a, own, hid, hdepth, hstarted, hchain, hconc⟩ := Ran.concluded
    (w := { w with host := (H.resolve t w.host).2 })
    (Unwinds.works.body_meets (Unwinds.works.step_meets (.inr hp) hn rounds _))
    hhooks hms hm hran (body_caught _ rounds s _)
  refine ⟨a, own, hid, hdepth, hstarted, ⟨hchain.roster, hchain.depths⟩, ?_⟩
  cases hconc with
  | inside h => exact .inside h
  | here hd hb hl hr => exact .here hd hb hl hr
  | onward h => exact .onward h

/-- A run that gives the receiver of the session it opened. -/
theorem run_returned {rounds : Nat} {s : Session H} {t : Target H.Context} {w : World H}
    {pre post : List (Moment H)} {m : Moment H} {a : Activation}
    (hms : (run rounds s t w).2.since w = pre ++ m :: post) (hid : a.id = s.id)
    (hdepth : a.depth = w.depth)
    (hstarted : ∃ x ∈ pre, x.event = .started a.id a.depth a.receiver)
    (hr : (run rounds s t w).1 = .ok a.receiver) :
    Returned a (w.log.toList ++ pre) (w.log.toList ++ (pre ++ m :: post)) := by
  obtain ⟨x, hx, hstarted⟩ := hstarted
  refine ⟨rounds, s, t, w, _, Prod.ext hr rfl, hid.symm, hdepth.symm, ⟨x, ?_, hstarted⟩,
    List.prefix_append _ _, ?_⟩
  · rw [hms]
    exact List.mem_append_left _ hx
  · rw [(Nests.run rounds s t w).follows.log_eq, hms]

end Session

namespace Unwinds

/-- A session that is opened inside of another one has the same hooks and commands. -/
theorem nestVia {run : Session.Runner H}
    (hrun : ∀ (s : Session H) (t : Target H.Context) (w : World H), s.PassesOn →
      Unwinds s.config.hooks w (ending (run s t w).1) (run s t w).2) {s : Session H}
    (hp : s.PassesOn) (t : Target H.Context) :
    Exec.Meets (Unwinds s.config.hooks) (s.nestVia run t) := by
  intro w
  rw [Session.nestVia_apply]
  have h := hrun ⟨w.nextId, s.config⟩ t { w with nextId := w.nextId + 1 } hp
  have hid : Unwinds s.config.hooks w none { w with nextId := w.nextId + 1 } :=
    of_tame (.of_log_eq rfl rfl rfl (Nat.le_succ _)) rfl (.of_log_eq rfl)
  exact hid.trans h

/-- All unwinding that arises in a run goes where it should. -/
theorem run (rounds : Nat) (s : Session H) (t : Target H.Context) (w : World H)
    (hp : s.PassesOn) :
    Unwinds s.config.hooks w (ending (Session.run rounds s t w).1)
      (Session.run rounds s t w).2 := by
  -- By induction on the rounds: the sessions opened inside have fewer of them.
  induction rounds generalizing s t w with
  | zero => exact works.spent w
  | succ rounds ih =>
    have hnests := Nests.run (rounds + 1) s t w
    refine ⟨⟨hnests.follows, hnests.stack, hnests.active, hnests.ids, hnests.balanced,
      fun _ hF => hF.elim⟩, ?_, ?_⟩
    · have hran := Session.runIn_ran (Session.run rounds) rounds s (H.resolve t w.host).1
        { w with host := (H.resolve t w.host).2 }
      exact hran.refuses (works.body_meets (works.step_meets (.inr hp) (nestVia ih hp) rounds _))
    · intro hhooks pre m post level hms hm
      obtain ⟨a, own, hid, hdepth, hstarted, hchain, hconc⟩ :=
        Session.run_concluded_of hp (nestVia ih hp) t w hhooks hms hm
      refine ⟨a :: own, hchain, ?_⟩
      cases hconc with
      | inside habs =>
        -- The session itself is open around the one that takes it up.
        have habs := habs.widen (.refl w) [a] []
        rw [World.since_self, List.append_nil] at habs
        exact .inl habs
      | here hd hb hl hr =>
        exact .inl ⟨[], a, own, post, [], rfl, hd, hb, (List.append_nil _).symm, hl,
          Session.run_returned hms hid hdepth hstarted hr⟩
      | onward hesc => exact .inr hesc

end Unwinds

/-- What becomes of unwinding that arises in a run. -/
theorem Session.run_concluded (rounds : Nat) (s : Session H) (t : Target H.Context) (w : World H)
    (hp : s.PassesOn) (hhooks : s.config.hooks.EndWell w.sink) {pre post : List (Moment H)}
    {m : Moment H}
    {level : Nat} (hms : (run rounds s t w).2.since w = pre ++ m :: post)
    (hm : m.event = .raised (.breakout level)) :
    ∃ a own, a.id = s.id ∧ a.depth = w.depth ∧
      (∃ x ∈ pre, x.event = .started a.id a.depth a.receiver) ∧
      Chain w pre (a :: own) ∧
      Concluded s.config.hooks level w pre m post a own (run rounds s t w).1
        (run rounds s t w).2 := by
  cases rounds with
  | zero => exact absurd hms (by simp [run, Exec.stop])
  | succ rounds =>
    exact run_concluded_of hp (Unwinds.nestVia (Unwinds.run rounds) hp) t w hhooks hms hm

/-! ## Unwinding to a level -/

/-- The session of a chain that was entered at a level, and those inside of it. -/
theorem Chain.split {w : World H} {pre : List (Moment H)} {own outer inner : List Activation}
    {a : Activation} (h : Chain w pre own) (hown : own = outer ++ a :: inner) :
    a.depth = w.depth + outer.length ∧ own[outer.length]? = some a ∧
      own.drop outer.length = a :: inner := by
  have hdepths := h.depths
  subst hown
  refine ⟨?_, by simp, List.drop_left⟩
  have hget : ((outer ++ a :: inner).map Activation.depth)[outer.length]? = some a.depth := by
    simp
  rw [hdepths, List.getElem?_range' (by simp)] at hget
  have := Option.some.inj hget
  omega

/-- A level at which a session of a chain was entered is the depth of one of them. -/
theorem Chain.exists_depth {w : World H} {pre : List (Moment H)} {own : List Activation}
    (h : Chain w pre own) {level : Nat} (hlow : w.depth ≤ level)
    (hhigh : level < w.depth + own.length) : ∃ b ∈ own, b.depth = level := by
  have hmem : level ∈ own.map Activation.depth := by
    rw [h.depths, List.mem_range'_1]
    exact ⟨hlow, hhigh⟩
  exact List.mem_map.1 hmem

/-- Let unwinding to a level arise in a run, where evaluations and commands pass interrupts on and
the hooks for the end of sessions never fail. The
sessions that the run has opened by then and that are still open were entered one inside of the
other, at one depth after the other from that of the run. If one of them was entered at the level,
exactly this one and those inside of it end, from the innermost one outward, each by being taken off
the stack and then calling its hook for the end; its call gives its receiver, and if it is the
session of the run itself, the run gives its receiver. Otherwise all of them end in this way, and
then the run ends by unwinding to the same level. In between nothing else happens, and neither the
state of the host nor the last result changes. -/
theorem Session.unwinding_to_level {H : Host} (rounds : Nat) (s : Session H) (t : Target H.Context)
    (w : World H) (hpasses : s.PassesOn) (hhooks : s.config.hooks.EndWell w.sink)
    {pre post : List (Moment H)} {m : Moment H} {level : Nat}
    (hms : (run rounds s t w).2.since w = pre ++ m :: post)
    (hm : m.event = .raised (.breakout level)) :
    ∃ own, own ≠ [] ∧ Chain w pre own ∧
      (∀ opened, w.Fits opened → s.Fresh w opened → m.view.Fits (opened ++ own)) ∧
      (w.depth ≤ level ∧ level < w.depth + own.length →
        ∃ a out rest, own[level - w.depth]? = some a ∧ post = out ++ rest ∧
          Leaves s.config.hooks level (own.drop (level - w.depth)) m out ∧
          Returned a (w.log.toList ++ pre) (w.log.toList ++ (pre ++ m :: out)) ∧
          (level = w.depth → rest = [] ∧ (run rounds s t w).1 = .ok a.receiver)) ∧
      (level < w.depth ∨ w.depth + own.length ≤ level →
        Leaves s.config.hooks level own m post ∧
          (run rounds s t w).1 = .error (.interrupt (.breakout level))) := by
  obtain ⟨a, own, hid, hdepth, hstarted, hchain, hconc⟩ :=
    run_concluded rounds s t w hpasses hhooks hms hm
  refine ⟨a :: own, List.cons_ne_nil a own, hchain, ?_, ?_, ?_⟩
  · intro opened hw hs
    have hfits := ((Nests.run rounds s t w).tracked opened hs hw).fits hms
    rw [Roster.through_append, hchain.roster, Roster.through_cons, hm] at hfits
    exact hfits
  · -- A session was entered at the level.
    rintro ⟨hlow, hhigh⟩
    cases hconc with
    | inside habs =>
      obtain ⟨outer, b, inner, out, rest, rfl, hb, -, rfl, hout, hret⟩ := habs
      obtain ⟨hplace, hget, hdrop⟩ := hchain.split (List.cons_append (a := a)).symm
      have hsub : level - w.depth = (a :: outer).length := by omega
      rw [← hsub] at hget hdrop
      refine ⟨b, out, rest, hget, rfl, hdrop.symm ▸ hout, hret, ?_⟩
      intro htop
      rw [List.length_cons] at hsub
      omega
    | here hd hb hl hr =>
      have hsub : level - w.depth = 0 := by omega
      rw [hsub]
      exact ⟨a, post, [], rfl, (List.append_nil _).symm, hl,
        run_returned hms hid hdepth hstarted hr, fun _ => ⟨rfl, hr⟩⟩
    | onward hesc =>
      obtain ⟨b, hb, hdepth⟩ := hchain.exists_depth hlow hhigh
      exact absurd hdepth (hesc.unmatched b hb)
  · -- No session was entered at it, so that none can have taken it up.
    intro hout
    cases hconc with
    | inside habs =>
      obtain ⟨outer, b, inner, out, rest, rfl, hb, -⟩ := habs
      obtain ⟨hplace, -⟩ := hchain.split (List.cons_append (a := a)).symm
      simp only [List.length_cons, List.length_append] at hout hplace
      omega
    | here hd _ _ _ =>
      rw [List.length_cons] at hout
      omega
    | onward hesc => exact ⟨hesc.leaves, ending_eq_some hesc.stop⟩

/-- The interrupt that arises by an event. -/
def Event.raised? : Event H → Option Interrupt
  | .raised i => some i
  | _ => none

theorem Event.eq_of_raised? {e : Event H} {i : Interrupt} (h : e.raised? = some i) :
    e = .raised i := by
  cases e <;> simp_all [raised?]

/-- Unwinding through two sessions, of which the inner one is on the number seven: the user leaves
them all, both end with their banners, and the run gives the receiver of the outer one. -/
theorem Session.unwinding_through_two :
    let w : World Calc.host :=
      { host := .single, nextId := 2,
        inputs := [.scripted { queue := [.ok (.line "cd 7"), .ok (.line "exit_all")] }] }
    let s : Session Calc.host := ⟨1, .standard 0⟩
    s.PassesOn ∧ s.config.hooks.EndWell w.sink ∧
      ∃ pre m post, (run 9 s .topLevel w).2.since w = pre ++ m :: post ∧
        m.event = .raised (.breakout 0) ∧
        ∃ own, own ≠ [] ∧ Chain w pre own ∧ Leaves s.config.hooks 0 own m post ∧
          ∃ a, own[0]? = some a ∧ (run 9 s .topLevel w).1 = .ok a.receiver := by
  intro w s
  have hhooks : s.config.hooks.EndWell w.sink := ⟨fun _ => rfl, fun _ _ _ _ => rfl⟩
  have hpasses : s.PassesOn := passesOn_standard rfl
  have hraised : (((run 9 s .topLevel w).2.since w)[21]?.bind fun m => m.event.raised?) =
      some (.breakout 0) := by decide +kernel
  -- The moment at which the interrupt arises, and the log around it.
  obtain ⟨m, hget, hm⟩ := Option.bind_eq_some_iff.1 hraised
  have hm := Event.eq_of_raised? hm
  obtain ⟨hlt, hget⟩ := List.getElem?_eq_some_iff.1 hget
  have hms : (run 9 s .topLevel w).2.since w =
      ((run 9 s .topLevel w).2.since w).take 21 ++
        m :: ((run 9 s .topLevel w).2.since w).drop 22 := by
    rw [← hget, ← List.drop_eq_getElem_cons hlt, List.take_append_drop]
  obtain ⟨own, hne, hchain, -, htaken, -⟩ :=
    unwinding_to_level 9 s .topLevel w hpasses hhooks hms hm
  have hin : w.depth ≤ 0 ∧ 0 < w.depth + own.length :=
    ⟨Nat.le_refl 0, Nat.add_pos_right _ (List.length_pos_iff.2 hne)⟩
  obtain ⟨a, out, rest, hfirst, hpost, hleaves, -, htop⟩ := htaken hin
  obtain ⟨rfl, hr⟩ := htop rfl
  rw [List.append_nil] at hpost
  subst hpost
  exact ⟨hpasses, hhooks, _, m, _, hms, hm, own, hne, hchain, hleaves, a, hfirst, hr⟩

end CalcShell
