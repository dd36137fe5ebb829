import CalcShell.Proofs.Session.Nesting
import CalcShell.Proofs.Session.Reading

/-!
# Two sessions side by side

Two sessions whose parts differ in nothing but hooks, prompts and the printing of outcomes
(`Config.Alike`) are run from the same world. As long as none of these fails, the sink refuses
nothing and the lines are prepared ones, the two worlds stay abreast (`Abreast`): they differ in
nothing but the texts that were shown. What happens in them falls into occasions, and on each the
two sessions do the same but for what they write (`Occasion`).

`Alongside` says this of two things that run. It is proved for everything that a session is made of,
from writing a line up to running a session, and at last by induction on the rounds for whole runs
(`Alongside.run`).
-/

namespace CalcShell

variable {H : Host} {α β : Type}

/-! ## Parts that differ in presentation -/

/-- Neither the hooks nor the printing of outcomes fail by themselves. -/
structure Config.NeverFails (c : Config H) : Prop where
  hooks : ∀ name args, (c.hooks.writing name args).failure = none
  print : ∀ outcome, (c.print outcome).failure = none

/-- The parts differ in nothing but hooks, prompts and printing, and these do not fail. -/
structure Config.Alike (c c' : Config H) : Prop where
  input : c'.input = c.input
  commands : c'.commands = c.commands
  neverFails : c.NeverFails
  neverFails' : c'.NeverFails

/-- The events by which something is written in full. -/
def Writing.events (writing : Writing) : List (Event H) :=
  (writing.pieces.filter (· ≠ .text "")).map .wrote

/-- Whether an event belongs to the begin or the end of a session, where hooks are called. -/
def Event.isStaged : Event H → Bool
  | .fired .. | .started .. | .ended .. | .propagated .. => true
  | _ => false

theorem Writing.events_unstaged (writing : Writing) :
    ∀ e ∈ (writing.events : List (Event H)), e.isStaged = false := by
  intro e he
  obtain ⟨p, -, rfl⟩ := List.mem_map.1 he
  rfl

/-- A session begins, or unwinding ends it. -/
inductive Turn where
  | beginning (a : Activation)
  | ending (a : Activation)

namespace Turn

/-- The session. -/
def session : Turn → Activation
  | .beginning a => a
  | .ending a => a

/-- The hook that is called for it. -/
def hook : Turn → String
  | .beginning _ => beforeSession
  | .ending _ => afterSession

/-- The event by which the session notes it, once the hook was called. -/
inductive Noted : Turn → Event H → Prop where
  | started (a : Activation) : Noted (.beginning a) (.started a.id a.depth a.receiver)
  | ended (a : Activation) : Noted (.ending a) (.ended a.id a.depth)
  | propagated (a : Activation) (level : Nat) :
      Noted (.ending a) (.propagated a.id level a.depth)

/-- What happens when the hook, which writes something, is called and the event is noted. -/
def events (turn : Turn) (writing : Writing) (e : Event H) : List (Event H) :=
  .fired turn.hook [turn.session.receiver] :: (writing.events ++ [e])

end Turn

/-- What happens on one occasion in a session made of `c`, and in one made of `c'`. -/
inductive Occasion (c c' : Config H) : List (Event H) → List (Event H) → Prop where
  | same {e : Event H} : e.isStaged = false → Occasion c c' [e] [e]
  | prompted (input : Nat) (prompt prompt' : String) :
      Occasion c c' [.prompted input prompt] [.prompted input prompt']
  | printed (id : SessionId) (outcome : Outcome) :
      Occasion c c' (.printed id outcome :: (c.print outcome).flushed.events)
        (.printed id outcome :: (c'.print outcome).flushed.events)
  | turned {turn : Turn} {e : Event H} : turn.Noted e →
      Occasion c c' (turn.events (c.hooks.writing turn.hook [turn.session.receiver]) e)
        (turn.events (c'.hooks.writing turn.hook [turn.session.receiver]) e)

/-- What happens to the two sessions on one occasion after the other. All events of one occasion see
the same. -/
inductive Occasions (c c' : Config H) : List (Moment H) → List (Moment H) → Prop where
  | nil : Occasions c c' [] []
  | cons {es es' : List (Event H)} {ms ms' : List (Moment H)} (view : Snapshot) (host : H.State) :
      Occasion c c' es es' → Occasions c c' ms ms' →
      Occasions c c' (es.map (⟨·, view, host⟩) ++ ms) (es'.map (⟨·, view, host⟩) ++ ms')

theorem Occasions.append {c c' : Config H} {ms ms' ns ns' : List (Moment H)}
    (h : Occasions c c' ms ms') (hn : Occasions c c' ns ns') :
    Occasions c c' (ms ++ ns) (ms' ++ ns') := by
  induction h with
  | nil => exact hn
  | cons view host ho _ ih =>
    rw [List.append_assoc, List.append_assoc]
    exact .cons view host ho ih

/-! ## Worlds abreast -/

namespace Line

/-- The script without the texts of the prompts that it was shown. -/
def Scripted.faceless (s : Scripted) : Scripted :=
  { s with prompts := s.prompts.map fun _ => "" }

/-- The input without the texts of the prompts that it was shown, if it keeps them. -/
def Source.faceless : Source → Source
  | .scripted s => .scripted s.faceless
  | source => source

/-- What a script gives has nothing to do with the prompts it is shown. -/
theorem Scripted.readLine_faceless {s s' : Scripted} (h : s.faceless = s'.faceless)
    (prompt prompt' : String) :
    (s.readLine prompt).1 = (s'.readLine prompt').1 ∧
      (s.readLine prompt).2.faceless = (s'.readLine prompt').2.faceless := by
  obtain ⟨queue, prompts, history⟩ := s
  obtain ⟨queue', prompts', history'⟩ := s'
  simp only [faceless, Scripted.mk.injEq] at h
  obtain ⟨rfl, hprompts, rfl⟩ := h
  cases queue <;> simp [readLine, faceless, hprompts]

namespace Source

theorem remember_faceless (source : Source) (entry : String) :
    (source.remember entry).faceless = source.faceless.remember entry := by
  cases source <;> rfl

theorem map_faceless_modify (sources : List Source) (input : Nat) (entry : String) :
    (sources.modify input (·.remember entry)).map faceless =
      (sources.map faceless).modify input (·.remember entry) := by
  apply List.ext_getElem?
  intro i
  rw [List.getElem?_map, List.getElem?_modify, List.getElem?_modify, List.getElem?_map]
  cases sources[i]? with
  | none => rfl
  | some source =>
    simp only [Option.map_eq_map, Option.map_some, apply_ite faceless, remember_faceless]

/-- Only a script looks like a script. -/
theorem eq_scripted_of_faceless {source : Source} {s : Scripted}
    (h : source.faceless = .scripted s) : ∃ s', source = .scripted s' ∧ s'.faceless = s := by
  cases source with
  | scripted s' => exact ⟨s', rfl, Source.scripted.inj h⟩
  | plain p => cases h
  | editor e => cases h

end Source

end Line

/-- Two worlds that differ in nothing but the texts shown, where lines come from a script and
everything written is taken. -/
structure Abreast (input : Nat) (w w' : World H) : Prop where
  host : w.host = w'.host
  view : w.view = w'.view
  nextId : w.nextId = w'.nextId
  inputs : w.inputs.map Line.Source.faceless = w'.inputs.map Line.Source.faceless
  script : ∃ script, w.inputs[input]? = some (.scripted script)
  accepts : w.Accepts
  accepts' : w'.Accepts

/-- An event, and what is seen in the world when it happens. -/
def World.moment (w : World H) (e : Event H) : Moment H := ⟨e, w.view, w.host⟩

namespace Abreast

variable {input : Nat} {w w' : World H}

theorem stack (h : Abreast input w w') : w.stack = w'.stack := congrArg Snapshot.stack h.view

theorem depth (h : Abreast input w w') : w.depth = w'.depth := congrArg List.length h.stack

theorem last (h : Abreast input w w') : w.last = w'.last := congrArg Snapshot.last h.view

theorem active (h : Abreast input w w') : w.active = w'.active := congrArg Snapshot.active h.view

theorem moment (h : Abreast input w w') : w.moment = w'.moment := by
  funext e
  rw [World.moment, World.moment, h.view, h.host]

/-- What is read from are two scripts that differ in nothing but the prompts shown. -/
theorem scripts (h : Abreast input w w') :
    ∃ s s', w.inputs[input]? = some (.scripted s) ∧ w'.inputs[input]? = some (.scripted s') ∧
      s.faceless = s'.faceless := by
  obtain ⟨s, hs⟩ := h.script
  have hplace := congrArg (·[input]?) h.inputs
  simp only [List.getElem?_map, hs, Option.map_some] at hplace
  obtain ⟨source, hsource, hface⟩ := Option.map_eq_some_iff.1 hplace.symm
  obtain ⟨s', rfl, hs'⟩ := Line.Source.eq_scripted_of_faceless hface
  exact ⟨s, s', hs, hsource, hs'.symm⟩

/-- The host, what is seen, and the number of the next session are set to the same. -/
theorem update (h : Abreast input w w') {v v' : World H} (hhost : v.host = v'.host)
    (hview : v.view = v'.view) (hid : v.nextId = v'.nextId) (hinputs : v.inputs = w.inputs)
    (hinputs' : v'.inputs = w'.inputs) (hrefuses : v.sink.refuses = w.sink.refuses)
    (hrefuses' : v'.sink.refuses = w'.sink.refuses) : Abreast input v v' where
  host := hhost
  view := hview
  nextId := hid
  inputs := by rw [hinputs, hinputs', h.inputs]
  script := by rw [hinputs]; exact h.script
  accepts := by rw [World.Accepts, hrefuses]; exact h.accepts
  accepts' := by rw [World.Accepts, hrefuses']; exact h.accepts'

end Abreast

/-- From the worlds `w` and `w'` the two sessions go on to `v` and `v'`, which are abreast, by the
same occasions. -/
structure Onward (c c' : Config H) (w w' v v' : World H) : Prop where
  abreast : Abreast c.input v v'
  follows : v.Follows w
  follows' : v'.Follows w'
  occasions : Occasions c c' (v.since w) (v'.since w')

namespace Onward

variable {c c' : Config H} {w w' v v' u u' : World H}

theorem trans (h₁ : Onward c c' w w' v v') (h₂ : Onward c c' v v' u u') :
    Onward c c' w w' u u' where
  abreast := h₂.abreast
  follows := h₂.follows.trans h₁.follows
  follows' := h₂.follows'.trans h₁.follows'
  occasions := by
    rw [World.since_trans h₂.follows h₁.follows, World.since_trans h₂.follows' h₁.follows']
    exact h₁.occasions.append h₂.occasions

/-- Nothing is recorded. -/
theorem of_log_eq (hv : Abreast c.input v v') (hlog : v.log = w.log) (hlog' : v'.log = w'.log) :
    Onward c c' w w' v v' where
  abreast := hv
  follows := .of_log_eq hlog
  follows' := .of_log_eq hlog'
  occasions := by
    rw [World.since_of_log_eq hlog, World.since_of_log_eq hlog']
    exact .nil

/-- One occasion is recorded. -/
theorem of_occasion {es es' : List (Event H)} (hw : Abreast c.input w w')
    (ho : Occasion c c' es es') (hv : Abreast c.input v v')
    (hlog : v.log.toList = w.log.toList ++ es.map w.moment)
    (hlog' : v'.log.toList = w'.log.toList ++ es'.map w'.moment) : Onward c c' w w' v v' where
  abreast := hv
  follows := ⟨_, hlog.symm⟩
  follows' := ⟨_, hlog'.symm⟩
  occasions := by
    rw [World.since_eq hlog, World.since_eq hlog', ← hw.moment, ← List.append_nil (es.map _),
      ← List.append_nil (es'.map _)]
    exact .cons w.view w.host ho .nil

/-- The same event is recorded. -/
theorem record {e : Event H} (he : e.isStaged = false) (hw : Abreast c.input w w') :
    Onward c c' w w' (w.record e) (w'.record e) :=
  of_occasion hw (.same he) (hw.update hw.host hw.view hw.nextId rfl rfl rfl rfl)
    (w.log_record e) (w'.log_record e)

/-- The same session is put on the stack. -/
theorem enter (hw : Abreast c.input w w') (id : SessionId) (receiver : Value) :
    Onward c c' w w' (w.enter id receiver) (w'.enter id receiver) := by
  have hentered : Onward c c' w w'
      { w with stack := w.stack ++ [⟨w.depth, receiver⟩], active := some id }
      { w' with stack := w'.stack ++ [⟨w'.depth, receiver⟩], active := some id } := by
    refine .of_log_eq (hw.update hw.host ?_ hw.nextId rfl rfl rfl rfl) rfl rfl
    rw [World.view, World.view, hw.stack, hw.depth, hw.last]
  rw [World.enter, World.enter, ← hw.depth]
  rw [← hw.depth] at hentered
  exact hentered.trans (.record rfl hentered.abreast)

/-- The innermost session is taken off the stack. -/
theorem leave (hw : Abreast c.input w w') (active : Option SessionId) (depth : Nat) :
    Onward c c' w w' (w.leave active depth) (w'.leave active depth) := by
  have hleft : Onward c c' w w' { w with stack := w.stack.dropLast, active := active }
      { w' with stack := w'.stack.dropLast, active := active } := by
    refine .of_log_eq (hw.update hw.host ?_ hw.nextId rfl rfl rfl rfl) rfl rfl
    rw [World.view, World.view, hw.stack, hw.last]
  rw [World.leave, World.leave, ← hw.stack]
  rw [← hw.stack] at hleft
  exact hleft.trans (.record rfl hleft.abreast)

end Onward

/-! ## Doing things alongside -/

/-- From worlds that are abreast, `m` and `m'` come to the same and go on by the same occasions. -/
def Alongside (c c' : Config H) (m m' : World H → β × World H) : Prop :=
  ∀ ⦃w w'⦄, Abreast c.input w w' → (m w).1 = (m' w').1 ∧ Onward c c' w w' (m w).2 (m' w').2

namespace Alongside

variable {c c' : Config H}

protected theorem pure (a : α) : Alongside c c' (pure a : Exec H α) (pure a : Exec H α) :=
  fun _ _ hw => ⟨rfl, .of_log_eq hw rfl rfl⟩

/-- What the two come to, and where. -/
theorem reach {m m' : World H → β × World H} (hm : Alongside c c' m m') {w w' : World H}
    (hw : Abreast c.input w w') :
    ∃ x v v', m w = (x, v) ∧ m' w' = (x, v') ∧ Onward c c' w w' v v' :=
  ⟨(m w).1, (m w).2, (m' w').2, rfl, Prod.ext (hm hw).1.symm rfl, (hm hw).2⟩

/-- Whatever was done before, something is done alongside. -/
theorem after {m m' : World H → β × World H} (hm : Alongside c c' m m') {w w' v v' : World H}
    (h : Onward c c' w w' v v') :
    (m v).1 = (m' v').1 ∧ Onward c c' w w' (m v).2 (m' v').2 :=
  ⟨(hm h.abreast).1, h.trans (hm h.abreast).2⟩

protected theorem bind {m m' : Exec H α} {f f' : α → Exec H β} (hm : Alongside c c' m m')
    (hf : ∀ a, Alongside c c' (f a) (f' a)) : Alongside c c' (m >>= f) (m' >>= f') := by
  intro w w' hw
  obtain ⟨x, v, v', hx, hx', honward⟩ := hm.reach hw
  rw [Exec.bind_apply, Exec.bind_apply, hx, hx']
  cases x with
  | error stop => exact ⟨rfl, honward⟩
  | ok a => exact (hf a).after honward

protected theorem stop (stop : Stop) :
    Alongside c c' (Exec.stop stop : Exec H α) (Exec.stop stop : Exec H α) :=
  fun _ _ hw => ⟨rfl, .of_log_eq hw rfl rfl⟩

protected theorem read {f : World H → α}
    (hf : ∀ ⦃w w'⦄, Abreast c.input w w' → f w = f w') :
    Alongside c c' (Exec.read f) (Exec.read f) :=
  fun _ _ hw => ⟨congrArg Except.ok (hf hw), .of_log_eq hw rfl rfl⟩

protected theorem record {e : Event H} (he : e.isStaged = false) :
    Alongside c c' (Exec.record e) (Exec.record e) :=
  fun _ _ hw => ⟨rfl, .record he hw⟩

protected theorem interrupt (i : Interrupt) :
    Alongside c c' (Exec.interrupt i : Exec H α) (Exec.interrupt i : Exec H α) :=
  .bind (.record rfl) fun _ => .stop _

protected theorem attempt {m m' : Exec H α} (hm : Alongside c c' m m') :
    Alongside c c' (Exec.attempt m) (Exec.attempt m') :=
  fun _ _ hw => ⟨congrArg Except.ok (hm hw).1, (hm hw).2⟩

protected theorem caught {m m' : Exec H α} (hm : Alongside c c' m m') :
    Alongside c c' (Exec.caught m) (Exec.caught m') := by
  intro w w' hw
  obtain ⟨x, v, v', hx, hx', honward⟩ := hm.reach hw
  rw [Exec.caught, Exec.caught, hx, hx']
  obtain ⟨i | _⟩ | a := x
  · exact ⟨rfl, honward⟩
  · exact ⟨rfl, honward⟩
  · exact ⟨rfl, honward⟩

/-- The host, what is seen and the number of the next session change in the same way. -/
protected theorem change {f : World H → World H}
    (hf : ∀ ⦃w w'⦄, Abreast c.input w w' → Abreast c.input (f w) (f w'))
    (hlog : ∀ w, (f w).log = w.log) : Alongside c c' (Exec.change f) (Exec.change f) :=
  fun w w' hw => ⟨rfl, .of_log_eq (hf hw) (hlog w) (hlog w')⟩

protected theorem bindName (ctx : H.Context) (name : String) (v : Value) :
    Alongside c c' (Exec.bindName ctx name v) (Exec.bindName ctx name v) := by
  refine .change (fun w w' hw => ?_) fun _ => rfl
  exact hw.update (congrArg (H.bind ctx name v) hw.host) hw.view hw.nextId rfl rfl rfl rfl

end Alongside

/-! ## Writing -/

/-- Writing something that does not fail to a sink that takes it. -/
theorem put_of_accepts {writing : Writing} (hfail : writing.failure = none) {w : World H}
    (hw : w.Accepts) :
    ∃ sink log, Exec.put writing w = (.ok (), { w with sink := sink, log := log }) ∧
      sink.refuses = w.sink.refuses ∧
      log.toList = w.log.toList ++ writing.events.map w.moment := by
  obtain ⟨pieces, failure⟩ := writing
  obtain rfl : failure = none := hfail
  induction pieces generalizing w with
  | nil => exact ⟨w.sink, w.log, rfl, rfl, by simp [Writing.events]⟩
  | cons p ps ih =>
    rw [Exec.put_cons, Exec.bind_apply, Exec.write]
    by_cases hp : p = .text ""
    · obtain ⟨sink, log, hps, hrefuses, hlog⟩ := ih hw
      rw [if_pos hp]
      refine ⟨sink, log, hps, hrefuses, ?_⟩
      rw [hlog, Writing.events, Writing.events, List.filter_cons_of_neg (by simpa using hp)]
    · rw [if_neg hp, Sink.take, hw]
      dsimp only
      generalize hw₁ : World.record _ (.wrote p) = w₁
      have hw₁' : w₁.Accepts := by
        rw [← hw₁]
        exact hw
      obtain ⟨sink, log, hps, hrefuses, hlog⟩ := ih hw₁'
      refine ⟨sink, log, ?_, ?_, ?_⟩
      · rw [hps, ← hw₁]
        rfl
      · rw [hrefuses, ← hw₁]
        rfl
      · have hmoment : w₁.moment = w.moment := by
          rw [← hw₁]
          rfl
        have hone : w₁.log.toList = w.log.toList ++ [w.moment (.wrote p)] := by
          rw [← hw₁]
          exact World.log_record _ _
        rw [hlog, hmoment, hone, Writing.events, Writing.events,
          List.filter_cons_of_pos (by simpa using hp), List.append_assoc]
        rfl

/-- An event, and then something that is written because of it. -/
theorem record_put_of_accepts {writing : Writing} (hfail : writing.failure = none) {w : World H}
    (hw : w.Accepts) (e : Event H) :
    ∃ sink log, Exec.put writing (w.record e) = (.ok (), { w with sink := sink, log := log }) ∧
      sink.refuses = w.sink.refuses ∧
      log.toList = w.log.toList ++ (e :: writing.events).map w.moment := by
  obtain ⟨sink, log, hput, hrefuses, hlog⟩ := put_of_accepts hfail (w := w.record e) hw
  refine ⟨sink, log, hput, hrefuses, ?_⟩
  rw [hlog, World.log_record, List.append_assoc]
  rfl

/-- Calling a hook that does not fail, and what is then noted. -/
theorem Session.fire_of_accepts {s : Session H} {turn : Turn}
    (hfail : (s.config.hooks.writing turn.hook [turn.session.receiver]).failure = none)
    {w : World H} (hw : w.Accepts) :
    ∃ sink log, s.fire turn.hook [turn.session.receiver] w =
        (.ok (), { w with sink := sink, log := log }) ∧
      sink.refuses = w.sink.refuses ∧
      ∀ e, (World.record { w with sink := sink, log := log } e).log.toList = w.log.toList ++
        (turn.events (s.config.hooks.writing turn.hook [turn.session.receiver]) e).map
          w.moment := by
  obtain ⟨sink, log, hput, hrefuses, hlog⟩ :=
    record_put_of_accepts hfail hw (.fired turn.hook [turn.session.receiver])
  refine ⟨sink, log, hput, hrefuses, fun e => ?_⟩
  rw [World.log_record, hlog, List.append_assoc, Turn.events, ← List.cons_append, List.map_append]
  rfl

namespace Alongside

variable {c c' : Config H}

/-- A piece is written by both. -/
theorem write (p : Piece) : Alongside c c' (Exec.write p : Exec H Unit) (Exec.write p) := by
  intro w w' hw
  rw [Exec.write, Exec.write]
  split
  · exact ⟨rfl, .of_log_eq hw rfl rfl⟩
  · rw [Sink.take, Sink.take, hw.accepts, hw.accepts']
    refine ⟨rfl, .of_occasion hw (.same (e := .wrote p) rfl) ?_ ?_ ?_⟩
    · exact hw.update hw.host hw.view hw.nextId rfl rfl rfl rfl
    · exact World.log_record _ _
    · exact World.log_record _ _

theorem writePieces (pieces : List Piece) :
    Alongside c c' (Exec.writePieces pieces : Exec H Unit) (Exec.writePieces pieces) := by
  induction pieces with
  | nil => exact .pure ()
  | cons p ps ih => exact .bind (write p) fun _ => ih

/-- The same is written by both. -/
theorem put (writing : Writing) :
    Alongside c c' (Exec.put writing : Exec H Unit) (Exec.put writing) := by
  refine .bind (writePieces _) fun _ => ?_
  split
  · exact .pure ()
  · exact .interrupt _

/-- An outcome is printed by each in its own way. -/
theorem print (h : c.Alike c') (id : SessionId) (outcome : Outcome) :
    Alongside c c' (Session.print ⟨id, c⟩ outcome : Exec H Unit)
      (Session.print ⟨id, c'⟩ outcome) := by
  intro w w' hw
  obtain ⟨sink, log, hput, hrefuses, hlog⟩ :=
    record_put_of_accepts ((Writing.flushed_failure _).trans (h.neverFails.print outcome))
      hw.accepts (.printed id outcome)
  obtain ⟨sink', log', hput', hrefuses', hlog'⟩ :=
    record_put_of_accepts ((Writing.flushed_failure _).trans (h.neverFails'.print outcome))
      hw.accepts' (.printed id outcome)
  have hprint : Session.print ⟨id, c⟩ outcome w = (.ok (), { w with sink := sink, log := log }) :=
    hput
  have hprint' : Session.print ⟨id, c'⟩ outcome w' =
      (.ok (), { w' with sink := sink', log := log' }) := hput'
  rw [hprint, hprint']
  refine ⟨rfl, .of_occasion hw (.printed id outcome) ?_ hlog hlog'⟩
  exact hw.update hw.host hw.view hw.nextId rfl rfl hrefuses hrefuses'

end Alongside

/-! ## Reading -/

namespace Alongside

variable {c c' : Config H}

/-- Each asks its script for a line, under a prompt of its own. -/
theorem readLine (prompt prompt' : String) :
    Alongside c c' (Exec.readLine c.input prompt : Exec H Line.Read)
      (Exec.readLine c.input prompt') := by
  intro w w' hw
  obtain ⟨s, s', hs, hs', hface⟩ := hw.scripts
  obtain ⟨hresult, hnext⟩ := Line.Scripted.readLine_faceless hface prompt prompt'
  have hasked : Onward c c' w w'
      ((w.record (.prompted c.input prompt)).asked c.input prompt (.scripted s))
      ((w'.record (.prompted c.input prompt')).asked c.input prompt' (.scripted s')) := by
    refine .of_occasion hw (.prompted c.input prompt prompt') ?_ (w.log_record _)
      (w'.log_record _)
    refine ⟨hw.host, hw.view, hw.nextId, ?_, ?_, hw.accepts, hw.accepts'⟩
    · change (w.inputs.set c.input _).map _ = (w'.inputs.set c.input _).map _
      rw [List.map_set, List.map_set, hw.inputs]
      exact congrArg _ (congrArg Line.Source.scripted hnext)
    · obtain ⟨hlt, -⟩ := List.getElem?_eq_some_iff.1 hs
      exact ⟨_, List.getElem?_set_self hlt⟩
  rw [Exec.readLine_of_scripted hs, Exec.readLine_of_scripted hs', ← hresult]
  cases (s.readLine prompt).1 with
  | ok r => exact ⟨rfl, hasked⟩
  | error err => exact (Alongside.interrupt (α := Line.Read) (.io err)).after hasked

/-- A line that was read is remembered by both. -/
theorem heard (line : String) {w w' : World H} (hw : Abreast c.input w w') :
    Onward c c' w w' (w.heard c.input line) (w'.heard c.input line) := by
  have hread : Onward c c' w w' (w.record (.lineRead line)) (w'.record (.lineRead line)) :=
    .record rfl hw
  unfold World.heard
  dsimp only
  split
  · refine hread.trans (.of_log_eq ⟨hw.host, hw.view, hw.nextId, ?_, ?_, hw.accepts, hw.accepts'⟩
      rfl rfl)
    · change (w.inputs.modify c.input _).map _ = (w'.inputs.modify c.input _).map _
      rw [Line.Source.map_faceless_modify, Line.Source.map_faceless_modify, hw.inputs]
    · obtain ⟨script, hs⟩ := hw.script
      refine ⟨script.remember line, ?_⟩
      change (w.inputs.modify c.input _)[c.input]? = _
      rw [List.getElem?_modify_eq, hs]
      rfl
  · exact hread

theorem isComplete (text : String) :
    Alongside c c' (Session.isComplete text : Exec H Bool) (Session.isComplete text) := by
  have hjudge : Alongside c c' (Session.judge text : Exec H Verdict) (Session.judge text) := by
    unfold Session.judge
    split
    · exact .bind (.record rfl) fun _ => .pure _
    · exact .pure _
  refine .bind hjudge fun verdict => ?_
  cases verdict with
  | complete => exact .pure _
  | incomplete reason => exact .pure _
  | fault f => exact .bind (.record rfl) fun _ => .pure _

end Alongside

/-! ## Commands and evaluations -/

namespace Alongside

variable {c c' : Config H} {run run' : Session.Runner H}
  (hrun : ∀ id t, Alongside c c' (run ⟨id, c⟩ t) (run' ⟨id, c'⟩ t))
include hrun

/-- A session that is opened inside gets the same number. -/
theorem nestVia (id : SessionId) (t : Target H.Context) :
    Alongside c c' (Session.nestVia run ⟨id, c⟩ t) (Session.nestVia run' ⟨id, c'⟩ t) := by
  intro w w' hw
  rw [Session.nestVia_apply, Session.nestVia_apply, ← hw.nextId]
  have hid : Onward c c' w w' { w with nextId := w.nextId + 1 }
      { w' with nextId := w.nextId + 1 } :=
    .of_log_eq (hw.update hw.host hw.view rfl rfl rfl rfl rfl) rfl rfl
  exact (hrun w.nextId t).after hid

theorem follow (id : SessionId) (course : Course H.Context H.State α) :
    Alongside c c' (Exec.follow (Session.nestVia run ⟨id, c⟩) course)
      (Exec.follow (Session.nestVia run' ⟨id, c'⟩) course) := by
  -- The state of the host is the same for both, so that both follow the same course.
  have hstate : ∀ {w w' : World H} (state : H.State), Abreast c.input w w' →
      Onward c c' w w' { w with host := state } { w' with host := state } := fun state hw =>
    .of_log_eq (hw.update rfl hw.view hw.nextId rfl rfl rfl rfl) rfl rfl
  have hhost : ∀ ⦃w w' : World H⦄, Abreast c.input w w' → w.host = w'.host := fun _ _ hw => hw.host
  induction course with
  | done a state => exact fun w w' hw => ⟨rfl, hstate state hw⟩
  | interrupt i state =>
    exact fun w w' hw => (Alongside.interrupt (α := α) i).after (hstate state hw)
  | spent state => exact fun w w' hw => ⟨rfl, hstate state hw⟩
  | nest t state k ih =>
    rw [Exec.follow_nest_bind, Exec.follow_nest_bind]
    exact fun w w' hw => (Alongside.bind (nestVia hrun id t) fun u =>
      .bind (.read hhost) fun state => ih u state).after (hstate state hw)
  | attempt t state k ih =>
    rw [Exec.follow_attempt_bind, Exec.follow_attempt_bind]
    exact fun w w' hw => (Alongside.bind (Alongside.caught (nestVia hrun id t)) fun r =>
      .bind (.read hhost) fun state => ih r state).after (hstate state hw)

theorem evaluateIn (rounds : Nat) (id : SessionId) (ctx : H.Context) (source : String) :
    Alongside c c' (Session.evaluateIn run rounds ⟨id, c⟩ ctx source)
      (Session.evaluateIn run' rounds ⟨id, c'⟩ ctx source) := by
  intro w w' hw
  rw [Session.evaluateIn, Session.evaluateIn, ← hw.host]
  exact follow hrun id _ hw

theorem consult (rounds : Nat) (id : SessionId) (ctx : H.Context) (source : String) :
    Alongside c c' (Session.consult run rounds ⟨id, c⟩ ctx source)
      (Session.consult run' rounds ⟨id, c'⟩ ctx source) :=
  .bind (.record rfl) fun _ => evaluateIn hrun rounds id ctx source

variable (h : c.Alike c')
include h

theorem perform (rounds : Nat) (id : SessionId) (d : Command.Deed H) :
    Alongside c c' (Session.perform run rounds ⟨id, c⟩ d)
      (Session.perform run' rounds ⟨id, c'⟩ d) := by
  cases d with
  | write writing => exact put writing
  | evaluate ctx source => exact consult hrun rounds id ctx source
  | print outcome => exact print h id outcome
  | nest t => exact nestVia hrun id t

theorem carryOut (rounds : Nat) (id : SessionId) (plan : Command.Plan H) (pending : String) :
    Alongside c c' (Session.carryOut run rounds ⟨id, c⟩ plan pending)
      (Session.carryOut run' rounds ⟨id, c'⟩ plan pending) := by
  -- The pending text is beside the world, so that the deeds are no plain sequence.
  induction plan generalizing pending with
  | done => exact fun _ _ hw => ⟨rfl, .of_log_eq hw rfl rfl⟩
  | interrupt i => exact fun _ _ hw => ⟨rfl, .record rfl hw⟩
  | edit f p ih => exact ih (f pending)
  | look k ih =>
    intro w w' hw
    rw [Session.carryOut, Session.carryOut, ← hw.view, ← hw.host]
    exact ih ⟨pending, w.view, w.host⟩ pending hw
  | act d k ih =>
    intro w w' hw
    obtain ⟨x, v, v', hx, hx', honward⟩ := (perform hrun h rounds id d).reach hw
    rw [Session.carryOut, Session.carryOut, hx, hx']
    cases x with
    | error stop => exact ⟨rfl, honward⟩
    | ok a => exact (ih a pending).after honward
  | attempt d k ih =>
    intro w w' hw
    obtain ⟨x, v, v', hx, hx', honward⟩ :=
      (Alongside.caught (perform hrun h rounds id d)).reach hw
    rw [Session.carryOut, Session.carryOut, hx, hx']
    cases x with
    | error stop => exact ⟨rfl, honward⟩
    | ok r => exact (ih r pending).after honward

/-- The same command is called by both. -/
theorem dispatch (rounds : Nat) (id : SessionId) (ctx : H.Context) (line pending : String) :
    Alongside c c' (Session.dispatch run rounds ⟨id, c⟩ ctx line pending)
      (Session.dispatch run' rounds ⟨id, c'⟩ ctx line pending) := by
  intro w w' hw
  unfold Session.dispatch
  simp only [h.commands]
  cases c.commands.find? line with
  | none => exact ⟨rfl, .of_log_eq hw rfl rfl⟩
  | some found =>
    obtain ⟨command, captures⟩ := found
    have hcalled : Onward c c' w w' (w.record (.dispatched command.usage))
        (w'.record (.dispatched command.usage)) := .record rfl hw
    obtain ⟨x, v, v', hx, hx', honward⟩ :=
      (carryOut hrun h rounds id (command.handler ⟨line, captures, w.stack, ctx,
        c.commands.listings⟩) pending).reach hcalled.abreast
    simp only [World.record_stack, ← hw.stack, hx, hx']
    obtain ⟨_ | _, rest⟩ := x
    · exact ⟨rfl, hcalled.trans honward⟩
    · exact ⟨rfl, hcalled.trans honward⟩

/-! ## The rounds of a session -/

theorem takeLine (rounds : Nat) (id : SessionId) (ctx : H.Context) (pending line : String) :
    Alongside c c' (Session.takeLine run rounds ⟨id, c⟩ ctx pending line)
      (Session.takeLine run' rounds ⟨id, c'⟩ ctx pending line) := by
  intro w w' hw
  rw [Session.takeLine_apply, Session.takeLine_apply, Session.lookUp, Session.lookUp]
  simp only [h.input]
  have hheard : Onward c c' w w' (w.heard c.input line) (w'.heard c.input line) := heard line hw
  obtain ⟨x, v, v', hx, hx', honward⟩ :=
    (dispatch hrun h rounds id ctx line (pending ++ line ++ "\n")).reach hheard.abreast
  rw [hx, hx']
  obtain ⟨_ | _, rest⟩ := x
  · exact ⟨rfl, hheard.trans honward⟩
  · exact ⟨rfl, hheard.trans honward⟩

theorem readUnitFrom (rounds : Nat) (id : SessionId) (ctx : H.Context) (n : Nat)
    (pending : String) :
    Alongside c c' (Session.readUnitFrom run rounds ⟨id, c⟩ ctx n pending)
      (Session.readUnitFrom run' rounds ⟨id, c'⟩ ctx n pending) := by
  induction n generalizing pending with
  | zero => exact .stop _
  | succ n ih =>
    rw [Session.readUnitFrom_succ, Session.readUnitFrom_succ]
    simp only [h.input]
    refine .bind (.read fun _ _ hw => congrArg levelOf hw.stack) fun level => ?_
    refine .bind (readLine _ _) fun r => ?_
    cases r with
    | eof => exact .interrupt _
    | interrupted => exact .bind (.record rfl) fun _ => ih ""
    | line line =>
      refine .bind (takeLine hrun h rounds id ctx pending line) fun rest => ?_
      split
      · exact ih rest
      · refine .bind (isComplete rest) fun complete => ?_
        split
        · exact .pure rest
        · exact ih rest

omit hrun h in
theorem bindConveniences (id : SessionId) (ctx : H.Context) :
    Alongside c c' (Session.bindConveniences ⟨id, c⟩ ctx : Exec H Unit)
      (Session.bindConveniences ⟨id, c'⟩ ctx) :=
  .bind (.read fun _ _ hw => hw.active) fun _ =>
    .bind (.bindName ctx _ _) fun _ =>
      .bind (.read fun _ _ hw => hw.last) fun _ => .bindName ctx _ _

omit h in
theorem evaluate (rounds : Nat) (id : SessionId) (ctx : H.Context) (source : String) :
    Alongside c c' (Session.evaluate run rounds ⟨id, c⟩ ctx source)
      (Session.evaluate run' rounds ⟨id, c'⟩ ctx source) := by
  rw [Session.evaluate_eq, Session.evaluate_eq]
  refine .bind (.bind (bindConveniences id ctx) fun _ => .record rfl) fun _ => ?_
  refine .bind (evaluateIn hrun rounds id ctx source) fun outcome => ?_
  refine .bind ?_ fun _ => .pure outcome
  cases outcome with
  | value v =>
    refine .bind (.change (fun w w' hw => ?_) fun _ => rfl) fun _ =>
      .bind (.record rfl) fun _ => bindConveniences id ctx
    refine hw.update hw.host ?_ hw.nextId rfl rfl rfl rfl
    rw [World.view, World.view, hw.stack, hw.active]
  | fault f => exact .record rfl

theorem step (rounds : Nat) (id : SessionId) (ctx : H.Context) :
    Alongside c c' (Session.step run rounds ⟨id, c⟩ ctx)
      (Session.step run' rounds ⟨id, c'⟩ ctx) :=
  .bind (readUnitFrom hrun h rounds id ctx rounds "") fun source =>
    .bind (evaluate hrun rounds id ctx source) fun _ => print h id _

theorem reps (rounds : Nat) (id : SessionId) (ctx : H.Context) (n : Nat) :
    Alongside c c' (Session.reps run rounds ⟨id, c⟩ ctx n)
      (Session.reps run' rounds ⟨id, c'⟩ ctx n) := by
  induction n with
  | zero => exact .stop _
  | succ n ih =>
    refine .bind (.bind (.attempt (step hrun h rounds id ctx)) fun r => ?_) fun flow => ?_
    · split
      · exact .pure _
      · exact .pure _
      · exact .stop _
    · cases flow with
      | goOn => exact ih
      | breakout level => exact .pure level

theorem body (rounds : Nat) (id : SessionId) (ctx : H.Context) :
    Alongside c c' (Session.body run rounds ⟨id, c⟩ ctx)
      (Session.body run' rounds ⟨id, c'⟩ ctx) :=
  .bind (bindConveniences id ctx) fun _ => reps hrun h rounds id ctx rounds

end Alongside

/-! ## Running -/

namespace Session

/-- What comes after a session is off the stack because of unwinding. -/
def depart (s : Session H) (receiver : Value) (depth level : Nat) : Exec H Value := do
  s.fire afterSession [receiver]
  if level = depth then
    Exec.record (.ended s.id level)
    return receiver
  else
    Exec.record (.propagated s.id level depth)
    Exec.stop (.interrupt (.breakout level))

/-- A session whose hook for the begin did not fail. -/
theorem runIn_of_fire {run : Runner H} {rounds : Nat} {s : Session H} {ctx : H.Context}
    {w w₁ : World H} (hfire : s.fire beforeSession [H.receiver ctx] w = (.ok (), w₁)) :
    s.runIn run rounds ctx w =
      match s.body run rounds ctx (s.begun (H.receiver ctx) w₁) with
      | (.error (.interrupt i), w₂) =>
        (.error (.interrupt i), (w₂.leave w₁.active w₁.depth).record (.aborted s.id i))
      | (.error .spent, w₂) => (.error .spent, w₂.leave w₁.active w₁.depth)
      | (.ok level, w₂) =>
        s.depart (H.receiver ctx) w₁.depth level (w₂.leave w₁.active w₁.depth) := by
  unfold runIn
  simp only [Exec.bind_apply, hfire]
  simp only [Exec.read, Exec.record, Exec.change, Exec.attempt, Exec.withFrame]
  generalize hbody : s.body run rounds ctx (s.begun (H.receiver ctx) w₁) = inside
  unfold body begun at hbody
  rw [hbody]
  obtain ⟨(i | _) | level, w₂⟩ := inside <;> rfl

end Session

namespace Alongside

variable {c c' : Config H} (h : c.Alike c')
include h

/-- Each calls its own hook, and notes behind that what it was called for. -/
theorem fire (id : SessionId) (turn : Turn) {w w' : World H} (hw : Abreast c.input w w') :
    ∃ w₁ w₁', Session.fire ⟨id, c⟩ turn.hook [turn.session.receiver] w = (.ok (), w₁) ∧
      Session.fire ⟨id, c'⟩ turn.hook [turn.session.receiver] w' = (.ok (), w₁') ∧
      w₁.view = w.view ∧ w₁'.view = w.view ∧
      ∀ e, turn.Noted e → Onward c c' w w' (w₁.record e) (w₁'.record e) := by
  obtain ⟨sink, log, hfire, hrefuses, hlog⟩ :=
    Session.fire_of_accepts (s := ⟨id, c⟩) (h.neverFails.hooks _ _) hw.accepts
  obtain ⟨sink', log', hfire', hrefuses', hlog'⟩ :=
    Session.fire_of_accepts (s := ⟨id, c'⟩) (h.neverFails'.hooks _ _) hw.accepts'
  refine ⟨_, _, hfire, hfire', rfl, hw.view.symm, fun e he => ?_⟩
  refine .of_occasion hw (.turned he) ?_ (hlog e) (hlog' e)
  exact hw.update hw.host hw.view hw.nextId rfl rfl hrefuses hrefuses'

/-- A session that unwinding ends notes that, and whether unwinding goes on. -/
theorem depart (id : SessionId) (receiver : Value) (depth level : Nat) :
    Alongside c c' (Session.depart ⟨id, c⟩ receiver depth level : Exec H Value)
      (Session.depart ⟨id, c'⟩ receiver depth level) := by
  intro w w' hw
  obtain ⟨w₁, w₁', hfire, hfire', -, -, hnoted⟩ := fire h id (.ending ⟨id, depth, receiver⟩) hw
  change Session.fire ⟨id, c⟩ afterSession [receiver] w = _ at hfire
  change Session.fire ⟨id, c'⟩ afterSession [receiver] w' = _ at hfire'
  rw [Session.depart, Session.depart, Exec.bind_of_ok hfire, Exec.bind_of_ok hfire']
  by_cases hlevel : level = depth
  · simp only [hlevel, if_pos]
    exact ⟨rfl, hnoted _ (.ended _)⟩
  · simp only [hlevel, if_neg, not_false_eq_true]
    exact ⟨rfl, hnoted _ (.propagated _ level)⟩

theorem runIn {run run' : Session.Runner H}
    (hrun : ∀ id t, Alongside c c' (run ⟨id, c⟩ t) (run' ⟨id, c'⟩ t)) (rounds : Nat)
    (id : SessionId) (ctx : H.Context) :
    Alongside c c' (Session.runIn run rounds ⟨id, c⟩ ctx)
      (Session.runIn run' rounds ⟨id, c'⟩ ctx) := by
  intro w w' hw
  obtain ⟨w₁, w₁', hfire, hfire', hview, hview', hnoted⟩ :=
    fire h id (.beginning ⟨id, w.depth, H.receiver ctx⟩) hw
  have hactive : w₁'.active = w₁.active := congrArg Snapshot.active (hview'.trans hview.symm)
  have hdepth₁ : w₁.depth = w.depth := congrArg Snapshot.depth hview
  have hdepth : w₁'.depth = w₁.depth := congrArg Snapshot.depth (hview'.trans hview.symm)
  have hstarted := hnoted _ (.started _)
  have hbegun : Onward c c' w w' (Session.begun ⟨id, c⟩ (H.receiver ctx) w₁)
      (Session.begun ⟨id, c'⟩ (H.receiver ctx) w₁') := by
    rw [Session.begun, Session.begun, hdepth, hdepth₁]
    exact hstarted.trans (.enter hstarted.abreast id (H.receiver ctx))
  obtain ⟨x, v, v', hx, hx', hbody⟩ := (body hrun h rounds id ctx).reach hbegun.abreast
  have hleft := (hbegun.trans hbody).trans (.leave hbody.abreast w₁.active w₁.depth)
  rw [Session.runIn_of_fire hfire, Session.runIn_of_fire hfire', hx, hx', hactive, hdepth]
  cases x with
  | error stop =>
    cases stop with
    | interrupt i => exact ⟨rfl, hleft.trans (.record rfl hleft.abreast)⟩
    | spent => exact ⟨rfl, hleft⟩
  | ok level => exact (depart h id (H.receiver ctx) w₁.depth level).after hleft

/-- Whole runs go alongside. -/
theorem run (rounds : Nat) (id : SessionId) (t : Target H.Context) :
    Alongside c c' (Session.run rounds ⟨id, c⟩ t : Exec H Value)
      (Session.run rounds ⟨id, c'⟩ t) := by
  -- By induction on the rounds: the sessions opened inside have fewer of them.
  induction rounds generalizing id t with
  | zero => exact .stop _
  | succ rounds ih =>
    intro w w' hw
    have hresolved : Onward c c' w w' { w with host := (H.resolve t w.host).2 }
        { w' with host := (H.resolve t w.host).2 } :=
      .of_log_eq (hw.update rfl hw.view hw.nextId rfl rfl rfl rfl) rfl rfl
    rw [Session.run_succ, Session.run_succ, ← hw.host]
    exact (runIn h ih rounds id (H.resolve t w.host).1).after hresolved

end Alongside

end CalcShell
