import CalcShell.Calc.Host
import CalcShell.Proofs.Session.Conduct
import CalcShell.Session.Workspace

/-!
# The stack of open sessions

A session is open from when it has begun, which it notes itself, until it is taken off the stack.
The log tells which sessions are open after each moment (`Roster.through`), without looking at the
stack. The main statement compares the two: however a run ends, the stack and the active session are
afterwards what they were before, and at every moment of it the stack has one frame for each open
session, in order and with the depth and the receiver that the session itself noted, the active
session is the innermost one, and no two open sessions have the same number.
-/

namespace CalcShell

/-- A session as it is open: its number, the depth that it noted when it began, and what it is held
on. -/
structure Activation where
  id : SessionId
  depth : Nat
  receiver : Value
deriving DecidableEq

/-- The frame that a session ought to have. -/
def Activation.frame (a : Activation) : Frame := ⟨a.depth, a.receiver⟩

/-- What is seen fits the open sessions, which stand outermost first. -/
structure Snapshot.Fits (v : Snapshot) (opened : List Activation) : Prop where
  /-- There is one frame for each open session. -/
  stack : v.stack = opened.map Activation.frame
  /-- The depth that a session noted is its place. -/
  depths : opened.map Activation.depth = List.range opened.length
  /-- The active session is the innermost one. -/
  active : v.active = opened.getLast?.map Activation.id
  /-- No two sessions have the same number. -/
  distinct : (opened.map Activation.id).Nodup

/-- The world fits the open sessions, and no open session has a number that is still to be given. -/
structure World.Fits {H : Host} (w : World H) (opened : List Activation) : Prop where
  view : w.view.Fits opened
  ids : ∀ a ∈ opened, a.id < w.nextId

/-- What the log tells of open sessions: the one that has just begun, if there was no other event
since, and the ones that were open before, outermost first. -/
structure Roster where
  begun : Option Activation
  opened : List Activation

namespace Roster

variable {H : Host}

/-- The roster with some open sessions of which none has just begun. -/
def of (opened : List Activation) : Roster := ⟨none, opened⟩

/-- The sessions that are open when the next event comes. -/
def now (r : Roster) : List Activation :=
  match r.begun with
  | none => r.opened
  | some a => r.opened ++ [a]

/-- The roster after an event. A session that begins is open from the next event on. -/
def after (r : Roster) : Event H → Roster
  | .started id depth receiver => ⟨some ⟨id, depth, receiver⟩, r.now⟩
  | .popped _ _ => .of r.now.dropLast
  | _ => .of r.now

/-- The roster after some moments. -/
def through (r : Roster) (ms : List (Moment H)) : Roster := ms.foldl (fun r m => r.after m.event) r

@[simp]
theorem through_nil (r : Roster) : r.through ([] : List (Moment H)) = r := rfl

@[simp]
theorem through_cons (r : Roster) (m : Moment H) (ms : List (Moment H)) :
    r.through (m :: ms) = (r.after m.event).through ms :=
  rfl

theorem through_append (r : Roster) (ms ns : List (Moment H)) :
    r.through (ms ++ ns) = (r.through ms).through ns := by
  simp [through]

end Roster

/-- An event opens and closes nothing. -/
def Event.Still {H : Host} (e : Event H) : Prop :=
  ∀ opened, (Roster.of opened).after e = .of opened

/-- At each of the moments, what was seen fits the sessions that are open by then. -/
def Tracked {H : Host} : Roster → List (Moment H) → Prop
  | _, [] => True
  | r, m :: ms => m.view.Fits (r.after m.event).opened ∧ Tracked (r.after m.event) ms

section Tracked

variable {H : Host}

theorem tracked_append {r : Roster} {ms ns : List (Moment H)} :
    Tracked r (ms ++ ns) ↔ Tracked r ms ∧ Tracked (r.through ms) ns := by
  induction ms generalizing r with
  | nil => simp [Tracked]
  | cons m ms ih => simp only [List.cons_append, Tracked, ih, Roster.through_cons, and_assoc]

/-- Tracking says something of every single moment. -/
theorem Tracked.fits {r : Roster} {ms pre post : List (Moment H)} {m : Moment H}
    (h : Tracked r ms) (hms : ms = pre ++ m :: post) :
    m.view.Fits (r.through (pre ++ [m])).opened := by
  subst hms
  obtain ⟨-, hm, -⟩ := tracked_append.1 h
  rw [Roster.through_append]
  exact hm

end Tracked

/-! ## Runs keep the stack -/

/-- The stack and the active session are as before, the sessions opened meanwhile are closed again,
and if the world fitted open sessions that satisfy `F`, it did so at every moment. -/
structure Nests {H : Host} (F : List Activation → Prop) (w : World H) (e : Option Stop)
    (w' : World H) : Prop where
  follows : w'.Follows w
  stack : w'.stack = w.stack
  active : w'.active = w.active
  ids : w.nextId ≤ w'.nextId
  balanced : ∀ opened, (Roster.of opened).through (w'.since w) = .of opened
  tracked : ∀ opened, F opened → w.Fits opened → Tracked (.of opened) (w'.since w)

namespace Nests

variable {H : Host} {F : List Activation → Prop} {w w₁ w₂ w' : World H} {e e₁ : Option Stop}

/-- A world that fitted open sessions still does. -/
theorem fits (h : Nests F w e w') {opened : List Activation} (hw : w.Fits opened) :
    w'.Fits opened where
  view := by
    obtain ⟨hs, hd, ha, hi⟩ := hw.view
    exact ⟨h.stack.trans hs, hd, h.active.trans ha, hi⟩
  ids a ha := Nat.lt_of_lt_of_le (hw.ids a ha) h.ids

theorem trans (h₁ : Nests F w e₁ w₁) (h₂ : Nests F w₁ e w₂) : Nests F w e w₂ where
  follows := h₂.follows.trans h₁.follows
  stack := h₂.stack.trans h₁.stack
  active := h₂.active.trans h₁.active
  ids := Nat.le_trans h₁.ids h₂.ids
  balanced opened := by
    rw [World.since_trans h₂.follows h₁.follows, Roster.through_append, h₁.balanced, h₂.balanced]
  tracked opened hF hw := by
    rw [World.since_trans h₂.follows h₁.follows, tracked_append, h₁.balanced]
    exact ⟨h₁.tracked opened hF hw, h₂.tracked opened hF (h₁.fits hw)⟩

/-- Nothing that matters to the stack changes, and nothing is recorded. -/
theorem of_log_eq (hlog : w'.log = w.log) (hstack : w'.stack = w.stack)
    (hactive : w'.active = w.active) (hids : w.nextId ≤ w'.nextId) : Nests F w e w' := by
  have hsince := World.since_of_log_eq hlog
  refine ⟨.of_log_eq hlog, hstack, hactive, hids, ?_, ?_⟩
  · intro opened
    rw [hsince, Roster.through_nil]
  · intro opened _ _
    rw [hsince]
    trivial

/-- An event is recorded that opens and closes nothing. -/
theorem record {ev : Event H} (hev : ev.Still) : Nests F w e (w.record ev) := by
  have hsince : (w.record ev).since w = [⟨ev, w.view, w.host⟩] := World.since_eq (w.log_record ev)
  refine ⟨w.record_follows ev, rfl, rfl, Nat.le_refl _, ?_, ?_⟩
  · intro opened
    rw [hsince, Roster.through_cons, hev, Roster.through_nil]
  · intro opened _ hw
    rw [hsince]
    refine ⟨?_, trivial⟩
    rw [hev]
    exact hw.view

/-- Whatever a session does once it is on the stack keeps the stack. -/
theorem works : Conduct.Works (Nests (H := H) F) where
  refl w := of_log_eq rfl rfl rfl (Nat.le_refl _)
  trans h₁ h₂ := h₁.trans h₂
  spent w := of_log_eq rfl rfl rfl (Nat.le_refl _)
  raise w i := record fun _ => rfl
  wrote w _ sink _ := by
    have hsink : Nests F w none { w with sink := sink } := of_log_eq rfl rfl rfl (Nat.le_refl _)
    exact hsink.trans (record fun _ => rfl)
  host w state := of_log_eq rfl rfl rfl (Nat.le_refl _)
  printed w id outcome := record fun _ => rfl
  consulting w id ctx source := record fun _ => rfl
  last w v := of_log_eq rfl rfl rfl (Nat.le_refl _)
  inputs w inputs := of_log_eq rfl rfl rfl (Nat.le_refl _)
  -- None of these events is about the stack; the others are ruled out.
  reading w ev hev := by
    apply record
    intro opened
    cases ev <;> first | rfl | simp [Event.isReading] at hev
  work w ev hev := by
    apply record
    intro opened
    cases ev <;> first | rfl | simp [Event.isWork] at hev

/-- How something ends is nothing to the stack. -/
theorem anyhow (h : Nests F w e w') (e' : Option Stop) : Nests F w e' w' :=
  ⟨h.follows, h.stack, h.active, h.ids, h.balanced, h.tracked⟩

/-- So interrupts may be caught. -/
theorem bears (t : Command.Table H) : Conduct.Bears (Nests F) t :=
  .inl fun _ _ _ h => h.anyhow none

end Nests

/-! ## Sessions are put on the stack and taken off -/

namespace Session

variable {H : Host}

/-- A session has a number that was given to it and to no open session. -/
def Fresh (s : Session H) (w : World H) (opened : List Activation) : Prop :=
  s.id < w.nextId ∧ s.id ∉ opened.map Activation.id

/-- A session as it is open once it has begun in the world `w`. -/
def activation (s : Session H) (receiver : Value) (w : World H) : Activation :=
  ⟨s.id, w.depth, receiver⟩

theorem begun_stack (s : Session H) (receiver : Value) (w : World H) :
    (s.begun receiver w).stack = w.stack ++ [(s.activation receiver w).frame] :=
  rfl

theorem begun_depth (s : Session H) (receiver : Value) (w : World H) :
    (s.begun receiver w).depth = w.depth + 1 := by
  rw [World.depth, begun_stack, List.length_append]
  rfl

/-- When a session begins, it notes its depth and is put on the stack. -/
theorem begun_log (s : Session H) (receiver : Value) (w : World H) :
    (s.begun receiver w).log.toList = w.log.toList ++
      [⟨.started s.id w.depth receiver, w.view, w.host⟩,
        ⟨.pushed s.id w.depth, (s.begun receiver w).view, w.host⟩] := by
  rw [begun, World.enter, World.log_record, World.log_record, List.append_assoc]
  rfl

theorem begun_follows (s : Session H) (receiver : Value) (w : World H) :
    (s.begun receiver w).Follows w :=
  ⟨_, (s.begun_log receiver w).symm⟩

/-- A session that has begun under a number of its own is the innermost open one. -/
theorem begun_fits {s : Session H} {w : World H} {opened : List Activation} (hw : w.Fits opened)
    (hs : s.Fresh w opened) (receiver : Value) :
    (s.begun receiver w).Fits (opened ++ [s.activation receiver w]) := by
  obtain ⟨⟨hstack, hdepths, hactive, hdistinct⟩, hids⟩ := hw
  obtain ⟨hid, hnew⟩ := hs
  have hdepth : w.depth = opened.length := by
    rw [World.depth, show w.stack = _ from hstack, List.length_map]
  -- One more frame, at the depth that counts the frames before it; the session is the active one,
  -- and its number is new.
  refine ⟨⟨?_, ?_, ?_, ?_⟩, ?_⟩
  · rw [List.map_append, ← hstack]
    rfl
  · rw [List.map_append, hdepths, List.length_append, List.length_singleton, List.range_succ,
      ← hdepth]
    rfl
  · rw [List.getLast?_concat]
    rfl
  · rw [List.map_append, List.nodup_append]
    refine ⟨hdistinct, by simp, ?_⟩
    intro a ha b hb
    rw [List.mem_singleton.1 hb]
    rintro rfl
    exact hnew ha
  · intro a ha
    rcases List.mem_append.1 ha with ha | ha
    · exact hids a ha
    · rw [List.mem_singleton.1 ha]
      exact hid

end Session

namespace World

variable {H : Host}

theorem leave_log (w : World H) (active : Option SessionId) (depth : Nat) :
    (w.leave active depth).log.toList = w.log.toList ++
      [⟨.popped depth !w.stack.isEmpty, (w.leave active depth).view, w.host⟩] := by
  rw [leave, log_record]
  rfl

theorem leave_follows (w : World H) (active : Option SessionId) (depth : Nat) :
    (w.leave active depth).Follows w :=
  ⟨_, (w.leave_log active depth).symm⟩

end World

/-- The moments while a session is on the stack: its begin, those of what it does, and its end. -/
theorem Session.since_leave {H : Host} {s : Session H} {receiver : Value} {w w₂ w' : World H}
    (h : w₂.Follows (s.begun receiver w)) (h' : w'.Follows w₂) :
    w'.since w = (s.begun receiver w).since w ++
      (w₂.since (s.begun receiver w) ++ w'.since w₂) := by
  rw [World.since_trans (h'.trans h) (s.begun_follows receiver w), World.since_trans h' h]

namespace Nests

variable {H : Host} {F : List Activation → Prop}

/-- A session is put on the stack, does what keeps the stack, and is taken off: this keeps the stack
as well, and the world fits the open sessions at every moment if the session has a number of its
own. -/
theorem frame {G : List Activation → Prop} {s : Session H} {receiver : Value} {w w₂ : World H}
    {e e' : Option Stop}
    (hF : ∀ opened, F opened → s.Fresh w opened ∧ G (opened ++ [s.activation receiver w]))
    (h : Nests G (s.begun receiver w) e w₂) :
    Nests F w e' (w₂.leave w.active w.depth) := by
  have hstack : (w₂.leave w.active w.depth).stack = w.stack := by
    change w₂.stack.dropLast = w.stack
    rw [h.stack, s.begun_stack, List.dropLast_concat]
  have hfollows : (w₂.leave w.active w.depth).Follows w :=
    ((w₂.leave_follows _ _).trans h.follows).trans (s.begun_follows receiver w)
  have hsince := Session.since_leave h.follows (w₂.leave_follows w.active w.depth)
  rw [World.since_eq (s.begun_log receiver w), World.since_eq (w₂.leave_log _ _)] at hsince
  have hopen : ∀ opened, (Roster.of opened).through
      [(⟨.started s.id w.depth receiver, w.view, w.host⟩ : Moment H),
        ⟨.pushed s.id w.depth, (s.begun receiver w).view, w.host⟩] =
      .of (opened ++ [s.activation receiver w]) := fun _ => rfl
  have hclose : ∀ opened, (Roster.of (opened ++ [s.activation receiver w])).through
      [(⟨.popped w.depth !w₂.stack.isEmpty, (w₂.leave w.active w.depth).view, w₂.host⟩ :
        Moment H)] = .of opened := by
    intro opened
    simp only [Roster.through_cons, Roster.through_nil, Roster.after, Roster.now, Roster.of,
      List.dropLast_concat]
  refine ⟨hfollows, hstack, rfl, h.ids, ?_, ?_⟩
  · -- What is opened first is closed last.
    intro opened
    rw [hsince, Roster.through_append, hopen, Roster.through_append, h.balanced, hclose]
  · -- At the begin the world fits the sessions before, from then on one more, and in the end those
    -- before again.
    intro opened hFo hw
    obtain ⟨hfresh, hG⟩ := hF opened hFo
    have hfits := Session.begun_fits hw hfresh receiver
    rw [hsince, tracked_append, hopen, tracked_append, h.balanced]
    refine ⟨⟨hw.view, hfits.view, trivial⟩, h.tracked _ hG hfits, ?_, trivial⟩
    have hc := congrArg Roster.opened (hclose opened)
    simp only [Roster.through_cons, Roster.through_nil] at hc
    rw [hc]
    exact ⟨hstack.trans hw.view.stack, hw.view.depths, hw.view.active, hw.view.distinct⟩

/-- Calling a hook keeps the stack. -/
theorem fire {s : Session H} {name : String} {args : List Value} {w w' : World H}
    {x : Except Stop Unit} (hx : s.fire name args w = (x, w')) : Nests F w (ending x) w' := by
  have hfired : ∀ v : World H, Nests F v none (v.record (.fired name args)) := fun _ =>
    record fun _ => rfl
  have h := works.fire_meets s name args hfired w
  rw [hx] at h
  exact h

/-- Running a session keeps the stack, and the world fits the open sessions at every moment if the
session has a number of its own. -/
theorem ran {s : Session H} {receiver : Value} {body : Exec H Nat} {w w' : World H}
    {r : Except Stop Value} (hran : s.Ran receiver body w r w')
    (hbody : ∀ w, Nests (fun _ => True) w (Session.bodyEnding (body w).1) (body w).2) :
    Nests (s.Fresh w) w (ending r) w' := by
  -- Whatever follows the begin: the session is on the stack for a while.
  have hframe : ∀ {w₁ w₂ : World H} {x : Except Stop Nat},
      s.fire beforeSession [receiver] w = (.ok (), w₁) → body (s.begun receiver w₁) = (x, w₂) →
      ∀ e, Nests (s.Fresh w) w e (w₂.leave w₁.active w₁.depth) := by
    intro w₁ w₂ x hb hx e
    have h₁ : Nests (s.Fresh w) w none w₁ := fire hb
    have h₂ := hbody (s.begun receiver w₁)
    rw [hx] at h₂
    exact h₁.trans (frame (fun _ ho => ⟨⟨Nat.lt_of_lt_of_le ho.1 h₁.ids, ho.2⟩, trivial⟩) h₂)
  cases hran with
  | refused hb => exact fire hb
  | aborted hb hx => exact (hframe hb hx none).trans (record fun _ => rfl)
  | spent hb hx => exact hframe hb hx _
  | failed hb hx ha => exact (hframe hb hx none).trans (fire ha)
  | ended hb hx ha => exact ((hframe hb hx none).trans (fire ha)).trans (record fun _ => rfl)
  | propagated hb hx ha => exact ((hframe hb hx none).trans (fire ha)).trans (record fun _ => rfl)

/-- A session that is opened inside of another one has a number of its own. -/
theorem nestVia {run : Session.Runner H}
    (hrun : ∀ (s : Session H) (t : Target H.Context) (w : World H),
      Nests (s.Fresh w) w (ending (run s t w).1) (run s t w).2) (s : Session H)
    (t : Target H.Context) : Exec.Meets (Nests F) (s.nestVia run t) := by
  intro w
  rw [Session.nestVia_apply]
  have h := hrun ⟨w.nextId, s.config⟩ t { w with nextId := w.nextId + 1 }
  refine ⟨h.follows, h.stack, h.active, Nat.le_trans (Nat.le_succ _) h.ids, h.balanced, ?_⟩
  intro opened _ hw
  -- The number is the next one to be given, so that no open session has it.
  refine h.tracked opened ⟨Nat.lt_succ_self _, ?_⟩ ⟨hw.view, ?_⟩
  · intro hmem
    obtain ⟨a, ha, heq⟩ := List.mem_map.1 hmem
    exact absurd (hw.ids a ha) (heq ▸ Nat.lt_irrefl _)
  · intro a ha
    exact Nat.lt_succ_of_lt (hw.ids a ha)

/-- Every run keeps the stack. -/
theorem run (rounds : Nat) (s : Session H) (t : Target H.Context) (w : World H) :
    Nests (s.Fresh w) w (ending (Session.run rounds s t w).1) (Session.run rounds s t w).2 := by
  -- By induction on the rounds, which bound how deep sessions are opened inside of one another.
  induction rounds generalizing s t w with
  | zero => exact works.spent w
  | succ rounds ih =>
    rw [Session.run_succ]
    have hran := Session.runIn_ran (Session.run rounds) rounds s (H.resolve t w.host).1
      { w with host := (H.resolve t w.host).2 }
    have hhost : Nests (s.Fresh w) w none { w with host := (H.resolve t w.host).2 } :=
      works.host w _
    exact hhost.trans
      (ran hran (works.body_meets (works.step_meets (bears _) (nestVia ih s) rounds _)))

/-- Opening a session inside of another one keeps the stack. -/
theorem nest (rounds : Nat) (s : Session H) (t : Target H.Context) :
    Exec.Meets (Nests (H := H) F) (s.nest rounds t) :=
  nestVia (run rounds) s t

end Nests

/-! ## The states between requests -/

namespace Workspace

variable {H : Host}

/-- A workspace that requests lead to. -/
def Reachable (ws : Workspace H) : Prop :=
  ∃ rounds lines sink overrides rs, ws = ((make rounds lines sink overrides).requests rs).2

/-- No session is open, and the numbers of the sessions are given. -/
structure Idle (ws : Workspace H) : Prop where
  stack : ws.world.stack = []
  active : ws.world.active = none
  ids : ∀ s ∈ ws.sessions, s.id < ws.world.nextId

/-- Where no session is open, the world fits that. -/
theorem Idle.fits {ws : Workspace H} (h : ws.Idle) : ws.world.Fits [] where
  view := ⟨h.stack, rfl, h.active, List.nodup_nil⟩
  ids _ ha := absurd ha List.not_mem_nil

/-- The world changes in a way that keeps the stack. -/
theorem Idle.of_nests {F : List Activation → Prop} {ws : Workspace H} {e : Option Stop}
    {w : World H} (h : ws.Idle) (hw : Nests F ws.world e w) : Idle { ws with world := w } where
  stack := hw.stack.trans h.stack
  active := hw.active.trans h.active
  ids s hs := Nat.lt_of_lt_of_le (h.ids s hs) hw.ids

theorem exec_idle {F : List Activation → Prop} {α : Type} {ws : Workspace H} (h : ws.Idle)
    {m : Exec H α} (hm : Exec.Meets (Nests F) m) (reply : α → Reply) :
    (ws.exec m reply).2.Idle := by
  have hw := hm ws.world
  unfold exec
  generalize m ws.world = r at hw ⊢
  obtain ⟨_ | _, w⟩ := r
  · exact h.of_nests hw
  · exact h.of_nests hw

theorem withSession_idle {ws : Workspace H} (h : ws.Idle) (i : Nat)
    {f : Session H → Reply × Workspace H} (hf : ∀ s, (f s).2.Idle) :
    (ws.withSession i f).2.Idle := by
  unfold withSession
  split
  · exact h
  · exact hf _

theorem withContext_idle {ws : Workspace H} (h : ws.Idle) (i : Nat)
    {f : H.Context → Reply × Workspace H} (hf : ∀ c, (f c).2.Idle) :
    (ws.withContext i f).2.Idle := by
  unfold withContext
  split
  · exact h
  · exact hf _

theorem addInput_idle {ws : Workspace H} (h : ws.Idle) (p : Parts H) : (ws.addInput p).2.Idle := by
  unfold addInput
  split
  · exact h
  · exact ⟨h.stack, h.active, h.ids⟩

/-- A step keeps the stack, also where unwinding is caught. -/
theorem rep_nests {F : List Activation → Prop} {run : Session.Runner H} {s : Session H}
    (hn : ∀ t, Exec.Meets (Nests F) (s.nestVia run t)) (rounds : Nat) (c : H.Context) :
    Exec.Meets (Nests F) (s.rep run rounds c) := by
  intro w
  have h := Nests.works.step_meets (Nests.bears _) hn rounds c w
  simp only [Session.rep, Exec.bind_apply, Exec.attempt]
  generalize s.step run rounds c w = r at h ⊢
  -- One case for each interrupt, one for the rounds and one for a result.
  obtain ⟨((_ | _ | _ | _) | _) | _, w₁⟩ := r
  all_goals exact h.anyhow _

/-- A request leaves no session open. -/
theorem perform_idle {ws : Workspace H} (h : ws.Idle) (r : Request H) : (ws.perform r).2.Idle := by
  have hw : Conduct.Works (Nests (H := H) fun _ => True) := Nests.works
  have hn : ∀ s t, Exec.Meets (Nests fun _ => True) (Session.nestVia ws.runner s t) :=
    Nests.nestVia (Nests.run ws.rounds)
  cases r with
  | run i t =>
    -- What a run asks of the open sessions depends on the world, so `exec_idle` does not apply.
    apply withSession_idle h
    intro s
    have hrun := Nests.run ws.rounds s t ws.world
    unfold exec runner
    generalize Session.run ws.rounds s t ws.world = x at hrun ⊢
    obtain ⟨_ | _, w⟩ := x
    · exact h.of_nests hrun
    · exact h.of_nests hrun
  | nest i t => exact withSession_idle h i fun s => exec_idle h (hn s t) _
  | newSession parts =>
    have ha := addInput_idle h parts
    simp only [perform]
    generalize ws.addInput parts = x at ha ⊢
    obtain ⟨overrides, v⟩ := x
    -- The new session has the last number given.
    refine ⟨ha.stack, ha.active, ?_⟩
    intro s hs
    rcases List.mem_append.1 hs with hs | hs
    · exact Nat.lt_succ_of_lt (ha.ids s hs)
    · rw [List.mem_singleton.1 hs]
      exact Nat.lt_succ_self _
  | setDefaults parts =>
    have ha := addInput_idle h parts
    exact ⟨ha.stack, ha.active, ha.ids⟩
  | context t => exact ⟨h.stack, h.active, h.ids⟩
  | rep i j =>
    exact withSession_idle h i fun s => withContext_idle h j fun c =>
      exec_idle h (rep_nests (hn s) ws.rounds c) _
  | evaluate i j source =>
    exact withSession_idle h i fun s => withContext_idle h j fun c =>
      exec_idle h ((hw.steps (Nests.bears _) (hn s) ws.rounds).evaluate_meets c source) _
  | evaluateIn i j source =>
    exact withSession_idle h i fun s => withContext_idle h j fun c =>
      exec_idle h (hw.evaluateIn_meets (Nests.bears _) (hn s) ws.rounds c source) _
  | bind j name v =>
    exact withContext_idle h j fun c => exec_idle h (hw.bindName_meets c name v) _
  | names j => exact withContext_idle h j fun _ => h
  | print i outcome => exact withSession_idle h i fun s => exec_idle h (hw.print_meets s outcome) _
  | dispatch i j line pending =>
    exact withSession_idle h i fun s => withContext_idle h j fun c =>
      h.of_nests (hw.dispatch_meets (Nests.bears _) (hn s) (fun w _ => hw.work w _ rfl) ws.rounds c
        line pending ws.world)
  | fire i name args =>
    exact withSession_idle h i fun s =>
      exec_idle h (hw.fire_meets s name args fun _ => Nests.record fun _ => rfl) _
  | prompt i fresh receiver level => exact withSession_idle h i fun _ => h
  | judge text =>
    have hnote : ∀ (w : World H) e, e.isNote = true → Nests (fun _ => True) w none (w.record e) :=
      fun w e he => hw.work w e (Event.isWork_of_isNote he)
    exact exec_idle h (hw.judge_meets hnote text) _
  | info i => exact withSession_idle h i fun _ => h
  | describe i => exact withSession_idle h i fun _ => h
  | describeCommands i => exact withSession_idle h i fun _ => h
  | describeTarget t => exact h

/-- Requests in order leave no session open. -/
theorem requests_idle {ws : Workspace H} (h : ws.Idle) (rs : List (Request H)) :
    (ws.requests rs).2.Idle := by
  induction rs generalizing ws with
  | nil => exact h
  | cons r rs ih => exact ih (perform_idle h r)

/-- In every workspace that requests lead to, no session is open. -/
theorem Reachable.idle {ws : Workspace H} (h : ws.Reachable) : ws.Idle := by
  obtain ⟨rounds, lines, sink, overrides, rs, rfl⟩ := h
  apply requests_idle
  refine ⟨rfl, rfl, ?_⟩
  intro s hs
  rw [List.mem_singleton.1 hs]
  exact Nat.lt_succ_self 1

/-- A session of such a workspace has a number of its own. -/
theorem Reachable.fresh {ws : Workspace H} (h : ws.Reachable) {s : Session H}
    (hs : s ∈ ws.sessions) : s.Fresh ws.world [] :=
  ⟨h.idle.ids s hs, List.not_mem_nil⟩

end Workspace

/-! ## The discipline of the stack -/

/-- At every moment, what was seen fits the sessions that are open by then, where `opened` were open
at first. -/
def FitsThroughout {H : Host} (opened : List Activation) (ms : List (Moment H)) : Prop :=
  ∀ pre m post, ms = pre ++ m :: post →
    m.view.Fits ((Roster.of opened).through (pre ++ [m])).opened

/-- However a session ends that is run on a target, and likewise one that is opened on it inside of
another one, the log goes on, and the stack and the active session are as before. If the world
fitted the open sessions at first, it fits them at every moment in between: there is one frame for
each session that has begun and is not yet taken off, with its receiver and the depth it noted,
which is its place, the active session is the innermost one, and their numbers are distinct.

Whenever a session runs in a context, and the hook for its begin has not failed, all that it does
itself it does from a world in which its frame was put on top and it is the active session, and so
they are when it has done that. In every workspace that requests lead to, the world fits that no
session is open, and each session has a number of its own to be run under. -/
theorem Session.stack_discipline {H : Host} (rounds : Nat) (s : Session H) (t : Target H.Context)
    (w : World H) :
    ((run rounds s t w).2.Follows w ∧ (run rounds s t w).2.stack = w.stack ∧
      (run rounds s t w).2.active = w.active) ∧
    ((nest rounds s t w).2.Follows w ∧ (nest rounds s t w).2.stack = w.stack ∧
      (nest rounds s t w).2.active = w.active) ∧
    (∀ opened, w.Fits opened →
      (s.Fresh w opened → FitsThroughout opened ((run rounds s t w).2.since w)) ∧
      FitsThroughout opened ((nest rounds s t w).2.since w)) ∧
    (∀ n (s' : Session H) ctx v,
      s'.Ran (H.receiver ctx) (s'.body (run n) n ctx) v (s'.runIn (run n) n ctx v).1
        (s'.runIn (run n) n ctx v).2 ∧
      ∀ v₁, s'.fire beforeSession [H.receiver ctx] v = (.ok (), v₁) →
        (s'.begun (H.receiver ctx) v₁).stack = v.stack ++ [⟨v.depth, H.receiver ctx⟩] ∧
        (s'.begun (H.receiver ctx) v₁).active = some s'.id ∧
        (s'.body (run n) n ctx (s'.begun (H.receiver ctx) v₁)).2.stack =
          v.stack ++ [⟨v.depth, H.receiver ctx⟩] ∧
        (s'.body (run n) n ctx (s'.begun (H.receiver ctx) v₁)).2.active = some s'.id) ∧
    (∀ ws : Workspace H, ws.Reachable →
      ws.world.Fits [] ∧ ∀ s ∈ ws.sessions, s.Fresh ws.world []) := by
  have hrun := Nests.run rounds s t w
  have hnest : Nests (fun _ => True) w _ (nest rounds s t w).2 := Nests.nest rounds s t w
  refine ⟨⟨hrun.follows, hrun.stack, hrun.active⟩, ⟨hnest.follows, hnest.stack, hnest.active⟩,
    ?_, fun n s' ctx v => ⟨runIn_ran _ n s' ctx v, fun v₁ hbefore => ?_⟩, ?_⟩
  · intro opened hw
    refine ⟨fun hs pre m post hms => ?_, fun pre m post hms => ?_⟩
    · exact (hrun.tracked opened hs hw).fits hms
    · exact (hnest.tracked opened trivial hw).fits hms
  · -- The hook leaves the stack alone, and so does what the session does on it.
    have hfired : Nests (fun _ => True) v none v₁ := Nests.fire hbefore
    have hstack : (s'.begun (H.receiver ctx) v₁).stack =
        v.stack ++ [⟨v.depth, H.receiver ctx⟩] := by
      rw [s'.begun_stack, activation, Activation.frame, World.depth, World.depth, hfired.stack]
    have hworks : Conduct.Works (Nests (H := H) fun _ => True) := Nests.works
    have hbody := hworks.body_meets
      (hworks.step_meets (Nests.bears _) (Nests.nestVia (Nests.run n) s') n ctx)
      (s'.begun (H.receiver ctx) v₁)
    exact ⟨hstack, rfl, hbody.stack.trans hstack, hbody.active⟩
  · intro ws hws
    exact ⟨hws.idle.fits, fun s hs => hws.fresh hs⟩

/-- The discipline for a second session inside of a first one, on the number five, which the user
leaves. -/
theorem Session.stack_discipline_inside :
    let w : World Calc.host :=
      { host := .single, stack := [⟨0, .main⟩], active := some 1, nextId := 2,
        inputs := [.scripted { queue := [.ok (.line "exit")] }] }
    let s : Session Calc.host := ⟨1, .standard 0⟩
    let five : Value := .int ⟨5, by decide, by decide⟩
    w.Fits [⟨1, 0, .main⟩] ∧
      FitsThroughout [⟨1, 0, .main⟩] ((nest 9 s (.object five) w).2.since w) := by
  intro w s five
  have hw : w.Fits [⟨1, 0, .main⟩] :=
    ⟨⟨rfl, rfl, rfl, by simp⟩, by simp [w]⟩
  exact ⟨hw, ((stack_discipline 9 s (.object five) w).2.2.1 _ hw).2⟩

end CalcShell
