import CalcShell.Proofs.Session.Courses
import CalcShell.Session.Engine

/-!
# What whatever runs does to the world

A `Conduct` relates the world before something runs, how it ended, and the world after. `Meets R m`
says that `m` never does anything but what `R` allows. A conduct that allows the single deeds of
commands and evaluations, and deeds in order, is met by every command and every evaluation
(`Conduct.Acts`), and one that allows all that a step is made of is met by the rounds of a session
(`Conduct.Steps`). In both cases the sessions opened on the way must meet it themselves. So a
statement about all runs is proved from its single deeds, from what running a session in a context
can come to (`Session.runIn_ran`), and by induction on the rounds.

Where it does not matter which interrupts arise nor how something is written, a conduct has only to
allow each piece that is written and every interrupt (`Conduct.Serves`, `Conduct.Works`).

What happened between two worlds is `World.since`: the part of the log that the second adds to that
of the first.
-/

namespace CalcShell

/-- How something ended: with a result (`none`) or by a stop. -/
def ending {α : Type} : Except Stop α → Option Stop
  | .ok _ => none
  | .error stop => some stop

@[simp]
theorem ending_ok {α : Type} (a : α) : ending (.ok a : Except Stop α) = none := rfl

@[simp]
theorem ending_error {α : Type} (stop : Stop) : ending (.error stop : Except Stop α) = some stop :=
  rfl

theorem ending_eq_some {α : Type} {r : Except Stop α} {stop : Stop} (h : ending r = some stop) :
    r = .error stop := by
  cases r with
  | ok a => cases h
  | error stop' => rw [Option.some.inj h]

namespace World

variable {H : Host}

/-- What the world `w'` has in its log beyond the length of the log of `w`. -/
def since (w' w : World H) : List (Moment H) := w'.log.toList.drop w.log.size

/-- The log of `w'` goes on from that of `w`. -/
def Follows (w' w : World H) : Prop := w.log.toList <+: w'.log.toList

theorem Follows.refl (w : World H) : w.Follows w := List.prefix_rfl

theorem Follows.trans {w₂ w₁ w : World H} (h₂ : w₂.Follows w₁) (h₁ : w₁.Follows w) :
    w₂.Follows w :=
  List.IsPrefix.trans h₁ h₂

/-- A log that goes on consists of the old part and what happened since. -/
theorem Follows.log_eq {w' w : World H} (h : w'.Follows w) :
    w'.log.toList = w.log.toList ++ w'.since w := by
  obtain ⟨rest, hrest⟩ := h
  rw [since, ← hrest, ← Array.length_toList, List.drop_left]

/-- What happened since `w`, read off a log that is the one of `w` and more. -/
theorem since_eq {w' w : World H} {ms : List (Moment H)}
    (h : w'.log.toList = w.log.toList ++ ms) : w'.since w = ms := by
  rw [since, h, ← Array.length_toList, List.drop_left]

@[simp]
theorem since_self (w : World H) : w.since w = [] := by
  simp [since]

/-- Nothing was recorded. -/
theorem Follows.of_log_eq {w' w : World H} (h : w'.log = w.log) : w'.Follows w :=
  ⟨[], by rw [h, List.append_nil]⟩

theorem since_of_log_eq {w' w : World H} (h : w'.log = w.log) : w'.since w = [] := by
  apply since_eq
  rw [h, List.append_nil]

/-- What happened over two stretches of time is what happened in the one and then in the other. -/
theorem since_trans {w₂ w₁ w : World H} (h₂ : w₂.Follows w₁) (h₁ : w₁.Follows w) :
    w₂.since w = w₁.since w ++ w₂.since w₁ := by
  apply since_eq
  rw [h₂.log_eq, h₁.log_eq, List.append_assoc]

@[simp]
theorem record_stack (w : World H) (e : Event H) : (w.record e).stack = w.stack := rfl

@[simp]
theorem record_active (w : World H) (e : Event H) : (w.record e).active = w.active := rfl

@[simp]
theorem record_depth (w : World H) (e : Event H) : (w.record e).depth = w.depth := rfl

@[simp]
theorem record_nextId (w : World H) (e : Event H) : (w.record e).nextId = w.nextId := rfl

@[simp]
theorem record_inputs (w : World H) (e : Event H) : (w.record e).inputs = w.inputs := rfl

@[simp]
theorem record_view (w : World H) (e : Event H) : (w.record e).view = w.view := rfl

@[simp]
theorem log_record (w : World H) (e : Event H) :
    (w.record e).log.toList = w.log.toList ++ [⟨e, w.view, w.host⟩] := by
  simp [record]

theorem record_follows (w : World H) (e : Event H) : (w.record e).Follows w :=
  ⟨_, (w.log_record e).symm⟩

/-- Recording adds one moment. -/
theorem since_record {w' w : World H} (h : w'.Follows w) (e : Event H) :
    (w'.record e).since w = w'.since w ++ [⟨e, w'.view, w'.host⟩] := by
  apply since_eq
  rw [log_record, h.log_eq, List.append_assoc]

end World

/-- What is allowed to happen: the world before, how it ended, and the world after. -/
abbrev Conduct (H : Host) := World H → Option Stop → World H → Prop

namespace Exec

variable {H : Host} {α β : Type}

theorem pure_apply (a : α) (w : World H) : (pure a : Exec H α) w = (.ok a, w) := rfl

theorem bind_apply (m : Exec H α) (f : α → Exec H β) (w : World H) :
    (m >>= f) w =
      match m w with
      | (.error stop, w) => (.error stop, w)
      | (.ok a, w) => f a w :=
  rfl

theorem bind_of_ok {m : Exec H α} {w w' : World H} {a : α} (h : m w = (.ok a, w'))
    (f : α → Exec H β) : (m >>= f) w = f a w' := by
  rw [bind_apply, h]

/-- Writing pieces goes well if writing them as a whole does. -/
theorem writePieces_of_put {pieces : List Piece} {w w' : World H}
    (h : put ⟨pieces, none⟩ w = (.ok (), w')) : writePieces pieces w = (.ok (), w') := by
  simp only [put, bind_apply] at h
  generalize writePieces pieces w = r at h
  obtain ⟨_ | _, w₁⟩ := r
  · cases h
  · exact h

/-- Writing begins with the first piece, and goes on with the others as if they were all. -/
theorem put_cons (p : Piece) (ps : List Piece) (failure : Option IoError) (w : World H) :
    put ⟨p :: ps, failure⟩ w = (write p >>= fun _ => put ⟨ps, failure⟩) w := by
  simp only [put, writePieces, bind_apply]
  generalize write p w = r
  obtain ⟨_ | _, w₁⟩ := r <;> rfl

theorem if_apply (c : Prop) [Decidable c] (m n : Exec H α) (w : World H) :
    (if c then m else n : Exec H α) w = if c then m w else n w := by
  split <;> rfl

/-- All that `m` does is as `R` allows. -/
def Meets (R : Conduct H) (m : Exec H α) : Prop := ∀ w, R w (ending (m w).1) (m w).2

theorem change_meets {R : Conduct H} {f : World H → World H} (hf : ∀ w, R w none (f w)) :
    Meets R (Exec.change f) := hf

end Exec

/-- A conduct that allows deeds in order. -/
structure Conduct.Orders {H : Host} (R : Conduct H) : Prop where
  /-- Nothing happens. -/
  refl : ∀ w, R w none w
  /-- Something happens after something else that went well. -/
  trans : ∀ {w w₁ w₂ e}, R w none w₁ → R w₁ e w₂ → R w e w₂

namespace Conduct.Orders

open Exec

variable {H : Host} {R : Conduct H} (h : R.Orders) {α β : Type}
include h

theorem pure_meets (a : α) : Meets R (pure a : Exec H α) := fun w => h.refl w

theorem read_meets (f : World H → α) : Meets R (Exec.read f) := fun w => h.refl w

/-- One after the other is allowed if both are. -/
theorem bind_meets {m : Exec H α} {f : α → Exec H β} (hm : Meets R m) (hf : ∀ a, Meets R (f a)) :
    Meets R (m >>= f) := by
  intro w
  have h₁ := hm w
  rw [bind_apply]
  generalize m w = r at h₁ ⊢
  obtain ⟨_ | a, w₁⟩ := r
  · exact h₁
  · exact h.trans h₁ (hf a w₁)

end Conduct.Orders

/-! ## Conducts asked for in some worlds -/

/-- The conduct `R`, which is asked for only where `P` holds at first. -/
def Conduct.given {H : Host} (R : Conduct H) (P : World H → Prop) : Conduct H :=
  fun w e w' => P w → R w e w'

/-- Deeds in order are still allowed if none of them that goes well makes `P` fail. -/
theorem Conduct.Orders.given {H : Host} {R : Conduct H} (h : R.Orders) {P : World H → Prop}
    (hP : ∀ {w w'}, R w none w' → P w → P w') : (R.given P).Orders where
  refl w _ := h.refl w
  trans h₁ h₂ hw := h.trans (h₁ hw) (h₂ (hP (h₁ hw) hw))

theorem Exec.Meets.given {H : Host} {α : Type} {R : Conduct H} {m : Exec H α}
    (h : Exec.Meets R m) (P : World H → Prop) : Exec.Meets (R.given P) m := fun w _ => h w

/-! ## Writing -/

/-- A conduct that allows deeds in order and all that comes of writing. -/
structure Conduct.Writes {H : Host} (R : Conduct H) : Prop extends R.Orders where
  /-- The output fails. -/
  io : ∀ w err, R w (some (.interrupt (.io err))) (w.record (.raised (.io err)))
  /-- A piece is written. -/
  wrote : ∀ w piece sink, w.sink.take piece = .ok sink →
    R w none (World.record { w with sink := sink } (.wrote piece))

namespace Conduct.Writes

open Exec

variable {H : Host} {R : Conduct H} (h : R.Writes)
include h

theorem write_meets (piece : Piece) : Meets R (Exec.write piece) := by
  intro w
  unfold Exec.write
  split
  · exact h.refl w
  · split
    · exact h.io w _
    · rename_i sink hs
      exact h.wrote w piece sink hs

theorem writePieces_meets (pieces : List Piece) : Meets R (Exec.writePieces pieces) := by
  induction pieces with
  | nil => exact h.pure_meets ()
  | cons p ps ih => exact h.bind_meets (h.write_meets p) fun _ => ih

theorem put_meets (writing : Writing) : Meets R (Exec.put writing) := by
  apply h.bind_meets (h.writePieces_meets _)
  intro _
  split
  · exact h.pure_meets ()
  · exact fun w => h.io w _

/-- Calling a hook is allowed if it is allowed to begin. -/
theorem fire_meets (s : Session H) (name : String) (args : List Value)
    (hf : ∀ w, R w none (w.record (.fired name args))) : Meets R (s.fire name args) :=
  h.bind_meets (change_meets hf) fun _ => h.put_meets _

/-- Writing is still allowed where it is asked for only where `P` holds, if nothing that goes well
makes `P` fail. -/
theorem given {P : World H → Prop} (hP : ∀ {w w'}, R w none w' → P w → P w') :
    (R.given P).Writes where
  toOrders := h.toOrders.given hP
  io w err _ := h.io w err
  wrote w piece sink hs _ := h.wrote w piece sink hs

end Conduct.Writes

/-! ## Writing that goes well -/

/-- The sink of the world refuses nothing. -/
def World.Accepts {H : Host} (w : World H) : Prop :=
  ∀ written piece, w.sink.refuses written piece = none

/-- Between two worlds the given events happened, and neither the state of the host nor the last
result nor the inputs changed. -/
structure Calm {H : Host} (w : World H) (es : List (Event H)) (w' : World H) : Prop where
  follows : w'.Follows w
  events : (w'.since w).map Moment.event = es
  moments : ∀ m ∈ w'.since w, m.host = w.host ∧ m.view.last = w.last
  host : w'.host = w.host
  last : w'.last = w.last
  inputs : w'.inputs = w.inputs
  refuses : w'.sink.refuses = w.sink.refuses

namespace Calm

variable {H : Host} {w w₁ w₂ w' : World H} {es es₁ es₂ : List (Event H)}

theorem refl (w : World H) : Calm w [] w :=
  ⟨.refl w, by simp, by simp, rfl, rfl, rfl, rfl⟩

theorem trans (h₁ : Calm w es₁ w₁) (h₂ : Calm w₁ es₂ w₂) : Calm w (es₁ ++ es₂) w₂ where
  follows := h₂.follows.trans h₁.follows
  events := by
    rw [World.since_trans h₂.follows h₁.follows, List.map_append, h₁.events, h₂.events]
  moments m hm := by
    rw [World.since_trans h₂.follows h₁.follows] at hm
    rcases List.mem_append.1 hm with hm | hm
    · exact h₁.moments m hm
    · rw [← h₁.host, ← h₁.last]
      exact h₂.moments m hm
  host := h₂.host.trans h₁.host
  last := h₂.last.trans h₁.last
  inputs := h₂.inputs.trans h₁.inputs
  refuses := h₂.refuses.trans h₁.refuses

/-- Something is recorded behind changes that leave all that counts and the log alone. -/
theorem record {e : Event H} (hlog : w'.log = w.log) (hhost : w'.host = w.host)
    (hlast : w'.last = w.last) (hinputs : w'.inputs = w.inputs)
    (hrefuses : w'.sink.refuses = w.sink.refuses) : Calm w [e] (w'.record e) := by
  have hsince : (w'.record e).since w = [⟨e, w'.view, w'.host⟩] := by
    apply World.since_eq
    rw [World.log_record, hlog]
  refine ⟨?_, ?_, ?_, hhost, hlast, hinputs, hrefuses⟩
  · rw [World.Follows, World.log_record, hlog]
    exact List.prefix_append _ _
  · rw [hsince]
    rfl
  · intro m hm
    rw [hsince, List.mem_singleton] at hm
    subst hm
    exact ⟨hhost, hlast⟩

/-- Writing a piece that the sink takes. An empty piece is not written at all. -/
theorem write (piece : Piece) (w : World H)
    (h : piece ≠ .text "" → ∀ written, w.sink.refuses written piece = none) :
    ∃ w', Exec.write piece w = (.ok (), w') ∧
      Calm w (([piece].filter (· ≠ .text "")).map .wrote) w' := by
  rw [Exec.write]
  by_cases hp : piece = .text ""
  · rw [if_pos hp, List.filter_cons_of_neg (by simpa using hp)]
    exact ⟨w, rfl, refl w⟩
  · rw [if_neg hp, List.filter_cons_of_pos (by simpa using hp), Sink.take, h hp]
    exact ⟨_, rfl, record rfl rfl rfl rfl rfl⟩

/-- Writing pieces that the sink takes. -/
theorem writePieces (pieces : List Piece) (w : World H)
    (h : ∀ piece ∈ pieces, ∀ written, w.sink.refuses written piece = none) :
    ∃ w', Exec.writePieces pieces w = (.ok (), w') ∧
      Calm w ((pieces.filter (· ≠ .text "")).map .wrote) w' := by
  induction pieces generalizing w with
  | nil => exact ⟨w, rfl, refl w⟩
  | cons p ps ih =>
    obtain ⟨w₁, hw₁, hc₁⟩ := write p w fun _ => h p List.mem_cons_self
    -- The sink refuses no more after the first piece than before.
    have hps : ∀ q ∈ ps, ∀ written, w₁.sink.refuses written q = none := by
      intro q hq written
      rw [hc₁.refuses]
      exact h q (List.mem_cons_of_mem p hq) written
    obtain ⟨w', hw', hc⟩ := ih w₁ hps
    refine ⟨w', ?_, ?_⟩
    · rw [Exec.writePieces, Exec.bind_of_ok hw₁]
      exact hw'
    · rw [← List.singleton_append, List.filter_append, List.map_append]
      exact hc₁.trans hc

/-- Writing something that does not fail by itself and that the sink takes. -/
theorem put (writing : Writing) (w : World H) (hfail : writing.failure = none)
    (h : ∀ piece ∈ writing.pieces, ∀ written, w.sink.refuses written piece = none) :
    ∃ w', Exec.put writing w = (.ok (), w') ∧
      Calm w ((writing.pieces.filter (· ≠ .text "")).map .wrote) w' := by
  obtain ⟨w', hw', hc⟩ := writePieces writing.pieces w h
  refine ⟨w', ?_, hc⟩
  simp only [Exec.put, Exec.bind_apply]
  rw [hw', hfail]
  rfl

/-- Calling a hook that does not fail by itself and whose text the sink takes. -/
theorem fire (s : Session H) (name : String) (args : List Value) (w : World H)
    (hfail : (s.config.hooks.writing name args).failure = none)
    (h : ∀ piece ∈ (s.config.hooks.writing name args).pieces,
      ∀ written, w.sink.refuses written piece = none) :
    ∃ w', s.fire name args w = (.ok (), w') ∧
      Calm w (.fired name args ::
        ((s.config.hooks.writing name args).pieces.filter (· ≠ .text "")).map .wrote) w' := by
  have h₁ : Calm w [.fired name args] (w.record (.fired name args)) := record rfl rfl rfl rfl rfl
  obtain ⟨w', hw', hc⟩ := put (s.config.hooks.writing name args) (w.record (.fired name args))
    hfail h
  exact ⟨w', hw', h₁.trans hc⟩

end Calm

/-! ## Commands and evaluations -/

/-- What is allowed to end by an interrupt is allowed as well if the interrupt is caught. -/
def Conduct.Catches {H : Host} (R : Conduct H) : Prop :=
  ∀ w i w', R w (some (.interrupt i)) w' → R w none w'

/-- Whatever evaluations and the commands of the table do about interrupts is allowed: either these
may be caught or none of them is. -/
def Conduct.Bears {H : Host} (R : Conduct H) (t : Command.Table H) : Prop :=
  R.Catches ∨ H.PassesOn ∧ t.PassesOn

/-- Catching the interrupt by which something ends is allowed if it may be caught. -/
theorem Conduct.Catches.caught {H : Host} {R : Conduct H} (h : R.Catches) {α : Type}
    {m : Exec H α} {w : World H} (hm : R w (ending (m w).1) (m w).2) :
    R w (ending (Exec.caught m w).1) (Exec.caught m w).2 := by
  unfold Exec.caught
  generalize m w = r at hm ⊢
  obtain ⟨(i | _) | a, w'⟩ := r
  · exact h w i w' hm
  · exact hm
  · exact hm

/-- Binding the names of a session is allowed if the state of the host may change. -/
theorem Conduct.Orders.bindConveniences_meets {H : Host} {R : Conduct H} (h : R.Orders)
    (hhost : ∀ w state, R w none { w with host := state }) (s : Session H) (c : H.Context) :
    Exec.Meets R (s.bindConveniences c) :=
  h.bind_meets (h.read_meets _) fun _ =>
    h.bind_meets (fun w => hhost w _) fun _ =>
      h.bind_meets (h.read_meets _) fun _ w => hhost w _

/-- A conduct that allows deeds in order, changes of the state of the host, and the end of the
allowed rounds. -/
structure Conduct.Runs {H : Host} (R : Conduct H) : Prop extends R.Orders where
  /-- The allowed rounds come to their end. -/
  spent : ∀ w, R w (some .spent) w
  /-- The state of the host changes. -/
  host : ∀ w state, R w none { w with host := state }

namespace Conduct.Runs

open Exec

variable {H : Host} {R : Conduct H} (h : R.Runs)
include h

theorem bindName_meets (c : H.Context) (name : String) (v : Value) :
    Meets R (Exec.bindName c name v) := fun w => h.host w _

theorem bindConveniences_meets (s : Session H) (c : H.Context) : Meets R (s.bindConveniences c) :=
  h.toOrders.bindConveniences_meets h.host s c

end Conduct.Runs

/-- The world in which a stop is met by whatever it ends: an interrupt is recorded. -/
def World.stopped {H : Host} (w : World H) : Stop → World H
  | .interrupt i => w.record (.raised i)
  | .spent => w

namespace Exec

variable {H : Host} {α : Type} (nest : Target H.Context → Exec H Value)

/-- A course that waits for a session goes on in the world that the session leaves. -/
theorem follow_nest (t : Target H.Context) (s : H.State)
    (k : Value → H.State → Course H.Context H.State α) (w : World H) :
    follow nest (.nest t s k) w =
      match nest t { w with host := s } with
      | (.error stop, w') => (.error stop, w')
      | (.ok u, w') => follow nest (k u w'.host) w' :=
  congrFun (follow.eq_def nest (.nest t s k)) w

/-- So does a course that asks to be told how the session ended. -/
theorem follow_attempt (t : Target H.Context) (s : H.State)
    (k : Except Interrupt Value → H.State → Course H.Context H.State α) (w : World H) :
    follow nest (.attempt t s k) w =
      match caught (nest t) { w with host := s } with
      | (.error stop, w') => (.error stop, w')
      | (.ok r, w') => follow nest (k r w'.host) w' :=
  congrFun (follow.eq_def nest (.attempt t s k)) w

/-- Waiting as one thing after the other: the session, a look at the state that it leaves, and what
the course goes on with. -/
theorem follow_nest_bind (t : Target H.Context) (s : H.State)
    (k : Value → H.State → Course H.Context H.State α) :
    follow nest (.nest t s k) = fun w =>
      (nest t >>= fun u => read World.host >>= fun state => follow nest (k u state))
        { w with host := s } := by
  funext w
  rw [follow_nest, bind_apply]
  generalize nest t { w with host := s } = r
  obtain ⟨_ | u, w₁⟩ := r <;> rfl

theorem follow_attempt_bind (t : Target H.Context) (s : H.State)
    (k : Except Interrupt Value → H.State → Course H.Context H.State α) :
    follow nest (.attempt t s k) = fun w =>
      (caught (nest t) >>= fun r => read World.host >>= fun state => follow nest (k r state))
        { w with host := s } := by
  funext w
  rw [follow_attempt, bind_apply]
  generalize caught (nest t) { w with host := s } = r
  obtain ⟨_ | r, w₁⟩ := r <;> rfl

end Exec

section Following

variable {H : Host} {R : Conduct H} (h : R.Orders)
  (hhost : ∀ w state, R w none { w with host := state })
  {nest : Target H.Context → Exec H Value} (hn : ∀ t, Exec.Meets R (nest t)) {α : Type}
include h hhost hn

/-- Following a course is allowed if the sessions it opens are, and the stops it comes to. -/
theorem Conduct.Orders.follow_meets {course : Course H.Context H.State α}
    (hb : R.Catches ∨ course.PassesOn)
    (hcourse : course.Stops fun stop => ∀ w, R w (some stop) (w.stopped stop)) :
    Exec.Meets R (Exec.follow nest course) := by
  -- By induction on the course: whatever a session leaves, the course goes on as a smaller one.
  induction course with
  | done a s => exact fun w => hhost w s
  | interrupt i s => exact fun w => h.trans (hhost w s) (hcourse _)
  | spent s => exact fun w => h.trans (hhost w s) (hcourse _)
  | nest t s k ih =>
    rw [Exec.follow_nest_bind]
    intro w
    refine h.trans (hhost w s) (h.bind_meets (hn t) (fun u => ?_) _)
    exact h.bind_meets (h.read_meets _) fun state =>
      ih u state (hb.imp_right fun hp => hp u state) (hcourse u state)
  | attempt t s k ih =>
    have hcatch := hb.resolve_right fun hp => hp
    rw [Exec.follow_attempt_bind]
    intro w
    refine h.trans (hhost w s) (h.bind_meets (fun w => hcatch.caught (hn t w)) (fun r => ?_) _)
    exact h.bind_meets (h.read_meets _) fun state => ih r state (.inl hcatch) (hcourse r state)

/-- Following any course is allowed if all stops are, and interrupts may be caught. -/
theorem Conduct.Orders.follow_all_meets (hcatch : R.Catches)
    (hstop : ∀ stop w, R w (some stop) (w.stopped stop)) (course : Course H.Context H.State α) :
    Exec.Meets R (Exec.follow nest course) :=
  h.follow_meets hhost hn (.inl hcatch) (course.stops_of_forall hstop)

end Following

/-- A conduct that allows all that the commands of the session `s` are made of, where `run` runs the
sessions that they open. Only deeds that satisfy `P` are asked for, and an interrupt `i` arises in a
world `w` only if `may w i`. -/
structure Conduct.Obeys {H : Host} (R : Conduct H) (run : Session.Runner H) (rounds : Nat)
    (s : Session H) (P : Command.Deed H → Prop) (may : World H → Interrupt → Prop) : Prop
    extends R.Orders where
  /-- An interrupt arises. -/
  raise : ∀ w i, may w i → R w (some (.interrupt i)) (w.record (.raised i))
  /-- A command writes something. -/
  put : ∀ writing, P (.write writing) → Exec.Meets R (Exec.put writing)
  /-- The source of a command is evaluated. -/
  consult : ∀ c source, P (.evaluate c source) → Exec.Meets R (s.consult run rounds c source)
  /-- An outcome is printed. -/
  print : ∀ outcome, Exec.Meets R (s.print outcome)
  /-- A session is opened. -/
  nest : ∀ t, P (.nest t) → Exec.Meets R (s.nestVia run t)

/-- Evaluating the source of a command is allowed if it may be recorded and the source evaluated. -/
theorem Conduct.Orders.consult_meets {H : Host} {R : Conduct H} (h : R.Orders)
    {run : Session.Runner H} {rounds : Nat} {s : Session H} {c : H.Context} {source : String}
    (hconsulting : ∀ w, R w none (w.record (.consulting s.id c source)))
    (heval : Exec.Meets R (s.evaluateIn run rounds c source)) :
    Exec.Meets R (s.consult run rounds c source) :=
  h.bind_meets hconsulting fun _ => heval

namespace Conduct.Obeys

open Exec

variable {H : Host} {R : Conduct H} {run : Session.Runner H} {rounds : Nat} {s : Session H}
  {P : Command.Deed H → Prop} {may : World H → Interrupt → Prop}
  (h : R.Obeys run rounds s P may)
include h

theorem perform_meets {d : Command.Deed H} (hd : P d) : Meets R (s.perform run rounds d) := by
  cases d with
  | write w => exact h.put w hd
  | evaluate c source => exact h.consult c source hd
  | print outcome => exact h.print outcome
  | nest t => exact h.nest t hd

/-- Carrying a plan out is allowed if the deeds are that it asks for, and the interrupts that it
comes to by itself wherever it may have led by then. -/
theorem carryOut_allowed {plan : Command.Plan H} (hb : R.Catches ∨ plan.PassesOn) {w₀ w : World H}
    (hplan : plan.Keeps P fun i => ∀ w, R w₀ none w → may w i) (pending : String)
    (hw : R w₀ none w) :
    R w (ending (s.carryOut run rounds plan pending w).1.1)
      (s.carryOut run rounds plan pending w).2 := by
  -- The pending text is beside the world, so that the deeds are no plain sequence.
  induction plan generalizing pending w with
  | done => exact h.refl w
  | interrupt i => exact h.raise w i (hplan w hw)
  | edit f p ih => exact ih hb hplan (f pending) hw
  | look k ih => exact ih _ (hb.imp_right fun hp => hp _) (hplan _) pending hw
  | act d k ih =>
    have h₁ := h.perform_meets hplan.1 w
    unfold Session.carryOut
    generalize s.perform run rounds d w = r at h₁ ⊢
    obtain ⟨_ | a, w₁⟩ := r
    · exact h₁
    · exact h.trans h₁
        (ih a (hb.imp_right fun hp => hp a) (hplan.2 a) pending (h.trans hw h₁))
  | attempt d k ih =>
    have hcatch := hb.resolve_right fun hp => hp
    have h₁ := hcatch.caught (h.perform_meets hplan.1 w)
    unfold Session.carryOut
    generalize Exec.caught (s.perform run rounds d) w = r at h₁ ⊢
    obtain ⟨_ | a, w₁⟩ := r
    · exact h₁
    · exact h.trans h₁ (ih a (.inl hcatch) (hplan.2 a) pending (h.trans hw h₁))

/-- Calling the command that a line means is allowed, if its call may be recorded and its plan
carried out. -/
theorem dispatch_allowed (hcall : ∀ w usage, R w none (w.record (.dispatched usage)))
    (hb : R.Catches ∨ s.config.commands.PassesOn) (ctx : H.Context) (line pending : String)
    (w : World H)
    (hplan : ∀ command captures, s.config.commands.find? line = some (command, captures) →
      (command.handler ⟨line, captures, w.stack, ctx, s.config.commands.listings⟩).Keeps P
        fun i => ∀ w₁, R (w.record (.dispatched command.usage)) none w₁ → may w₁ i) :
    R w (ending (s.dispatch run rounds ctx line pending w).1.1)
      (s.dispatch run rounds ctx line pending w).2 := by
  unfold Session.dispatch
  split
  · exact h.refl w
  · rename_i command captures hfind
    have h₁ := hcall w command.usage
    have h₂ := h.carryOut_allowed
      (hb.imp_right fun hp => hp command (Command.Table.mem_of_find? hfind) _)
      (hplan command captures hfind) pending (h.refl _)
    dsimp only
    rw [World.record_stack]
    generalize s.carryOut run rounds _ pending (w.record (.dispatched command.usage)) = r at h₂ ⊢
    obtain ⟨⟨_ | _, rest⟩, w₂⟩ := r
    · exact h.trans h₁ h₂
    · exact h.trans h₁ h₂

end Conduct.Obeys

/-- A conduct that allows what evaluations and the commands of the session `s` do. Only deeds that
satisfy `P` are asked for, and an interrupt `i` arises in a world `w` only if `may w i`. -/
structure Conduct.Acts {H : Host} (R : Conduct H) (s : Session H) (P : Command.Deed H → Prop)
    (may : World H → Interrupt → Prop) : Prop extends R.Runs where
  /-- Interrupts may be caught if there is anything to catch them. -/
  bears : R.Bears s.config.commands
  /-- An interrupt arises. -/
  raise : ∀ w i, may w i → R w (some (.interrupt i)) (w.record (.raised i))
  /-- Evaluations come to no other interrupt. -/
  courses : ∀ rounds c source state,
    (H.evaluate rounds c source state).Raises fun i => ∀ w, may w i
  /-- A command writes something. -/
  put : ∀ writing, P (.write writing) → Exec.Meets R (Exec.put writing)
  /-- An outcome is printed. -/
  print : ∀ outcome, Exec.Meets R (s.print outcome)
  /-- The source of a command is handed to be evaluated. -/
  consulting : ∀ w id ctx source, R w none (w.record (.consulting id ctx source))

namespace Conduct.Acts

open Exec

variable {H : Host} {R : Conduct H} {s : Session H} {P : Command.Deed H → Prop}
  {may : World H → Interrupt → Prop} (h : R.Acts s P may) {run : Session.Runner H}
  (hn : ∀ t, Meets R (s.nestVia run t))
include h hn

theorem evaluateIn_meets (rounds : Nat) (c : H.Context) (source : String) :
    Meets R (s.evaluateIn run rounds c source) := by
  intro w
  have hcourse := (h.courses rounds c source w.host).stops (fun i hi w => h.raise w i (hi w))
    (Q := fun stop => ∀ w, R w (some stop) (w.stopped stop)) h.spent
  exact h.follow_meets h.host hn (h.bears.imp_right fun hp => hp.1 rounds c source w.host) hcourse w

/-- Every command is allowed that asks only for deeds with `P`. -/
theorem obeys (rounds : Nat) : R.Obeys run rounds s P may where
  toOrders := h.toOrders
  raise := h.raise
  put := h.put
  consult c source _ := h.toOrders.consult_meets (fun w => h.consulting w s.id c source)
    (h.evaluateIn_meets hn rounds c source)
  print := h.print
  nest t _ := hn t

/-- Calling the command that a line means is allowed, if its call may be recorded and it asks only
for deeds with `P` and comes by itself only to interrupts that are allowed. -/
theorem dispatch_allowed (hcall : ∀ w usage, R w none (w.record (.dispatched usage))) (rounds : Nat)
    (ctx : H.Context) (line pending : String) (w : World H)
    (hplan : ∀ command captures, s.config.commands.find? line = some (command, captures) →
      (command.handler ⟨line, captures, w.stack, ctx, s.config.commands.listings⟩).Keeps P
        fun i => ∀ w₁, R (w.record (.dispatched command.usage)) none w₁ → may w₁ i) :
    R w (ending (s.dispatch run rounds ctx line pending w).1.1)
      (s.dispatch run rounds ctx line pending w).2 :=
  (h.obeys hn rounds).dispatch_allowed hcall (h.bears.imp_right And.right) ctx line pending w hplan

end Conduct.Acts

/-! ## The rounds of a session -/

/-- Whether an event belongs to reading a line. -/
def Event.isReading {H : Host} : Event H → Bool
  | .prompted .. | .lineRead .. => true
  | _ => false

/-- Whether an event belongs to what a session does between two lines: it calls commands and
evaluates units. -/
def Event.isWork {H : Host} : Event H → Bool
  | .cancelled | .dispatched .. | .undecided .. | .incomplete .. | .evaluating .. | .valued ..
  | .faulted .. => true
  | _ => false

/-- Whether an event is a note on lines that are no unit: they are given up, or not complete. -/
def Event.isNote {H : Host} : Event H → Bool
  | .cancelled | .undecided .. | .incomplete .. => true
  | _ => false

theorem Event.isWork_of_isNote {H : Host} {e : Event H} (h : e.isNote = true) :
    e.isWork = true := by
  cases e <;> first | rfl | simp [Event.isNote] at h

/-- The session, the context and the source of the unit that begins by an event. -/
def Event.unit? {H : Host} : Event H → Option (SessionId × H.Context × String)
  | .evaluating id c source => some (id, c, source)
  | _ => none

theorem Event.eq_of_unit? {H : Host} {e : Event H} {id : SessionId} {c : H.Context}
    {source : String} (h : e.unit? = some (id, c, source)) : e = .evaluating id c source := by
  cases e with
  | evaluating id' c' source' =>
    cases h
    rfl
  | _ => cases h

/-- The world after a line was read from an input, which remembers it unless it is blank. -/
def World.heard {H : Host} (w : World H) (input : Nat) (line : String) : World H :=
  let w := w.record (.lineRead line)
  if !Text.isBlankText line then { w with inputs := w.inputs.modify input (·.remember line) } else w

/-- A line that was read is first remembered and then looked up. -/
theorem Session.takeLine_apply {H : Host} (run : Runner H) (rounds : Nat) (s : Session H)
    (ctx : H.Context) (pending line : String) (w : World H) :
    s.takeLine run rounds ctx pending line w =
      s.lookUp run rounds ctx line (pending ++ line ++ "\n") (w.heard s.config.input line) := by
  unfold takeLine World.heard
  split <;> rfl

/-- Why reading failed, if it did. -/
def Line.failure? : Line.ReadResult → Option IoError
  | .ok _ => none
  | .error err => some err

/-- What was read, unless that failed. -/
def Line.read : Line.ReadResult → Line.Read
  | .ok r => r
  | .error _ => .eof

/-- The world after an input, which was found as `source`, has read under a prompt. -/
def World.asked {H : Host} (w : World H) (input : Nat) (prompt : String) (source : Line.Source) :
    World H :=
  { w with inputs := w.inputs.set input (source.readLine prompt).2.2 }

namespace Exec

variable {H : Host} {input : Nat} {w : World H}

theorem readLine_of_none (h : w.inputs[input]? = none) (prompt : String) :
    readLine input prompt w = (.ok .eof, w.record (.prompted input prompt)) := by
  simp only [readLine, bind_apply, record, change, read, World.record_inputs]
  rw [h]
  rfl

/-- The prompt is written by an input that is asked for a line, which then reads, shows something
and gives what it has read, or fails. -/
theorem readLine_of_some {source : Line.Source} (h : w.inputs[input]? = some source)
    (prompt : String) :
    readLine input prompt w =
      (writePieces (source.announce prompt) >>= fun _ =>
        change (·.asked input prompt source) >>= fun _ =>
          put ⟨[.text (source.readLine prompt).2.1], Line.failure? (source.readLine prompt).1⟩ >>=
            fun _ => pure (Line.read (source.readLine prompt).1))
        (w.record (.prompted input prompt)) := by
  simp only [readLine, bind_apply, record, change, read, World.record_inputs, h]
  generalize writePieces _ _ = r
  obtain ⟨_ | _, w'⟩ := r
  · rfl
  · simp only [put, writePieces, bind_apply, World.asked]
    generalize write _ _ = r
    obtain ⟨_ | _, w'⟩ := r
    · rfl
    · dsimp only
      cases (source.readLine prompt).1 <;> rfl

/-- A script writes nothing by itself. -/
theorem readLine_of_scripted {script : Line.Scripted}
    (h : w.inputs[input]? = some (.scripted script)) (prompt : String) :
    readLine input prompt w =
      match (script.readLine prompt).1 with
      | .ok r => (.ok r, (w.record (.prompted input prompt)).asked input prompt (.scripted script))
      | .error err => interrupt (.io err)
        ((w.record (.prompted input prompt)).asked input prompt (.scripted script)) := by
  have hread : readLine input prompt w =
      (put ⟨[.text ""], Line.failure? (script.readLine prompt).1⟩ >>= fun _ =>
        pure (Line.read (script.readLine prompt).1))
        ((w.record (.prompted input prompt)).asked input prompt (.scripted script)) :=
    readLine_of_some h prompt
  rw [hread]
  cases (script.readLine prompt).1 <;> rfl

end Exec

/-- What a session does with what it has read when `pending` was pending: it gives the unit that a
line completes, or reads on. -/
def Session.respond {H : Host} (run : Runner H) (rounds : Nat) (s : Session H) (ctx : H.Context)
    (n : Nat) (pending : String) : Line.Read → Exec H String
  | .eof => Exec.interrupt .endOfInput
  | .interrupted => do
    Exec.record .cancelled
    s.readUnitFrom run rounds ctx n ""
  | .line line => do
    let pending ← s.takeLine run rounds ctx pending line
    if pending.isEmpty then s.readUnitFrom run rounds ctx n pending
    else if ← isComplete pending then return pending
    else s.readUnitFrom run rounds ctx n pending

/-- A session that reads a unit asks for a line and responds to what it has read. -/
theorem Session.readUnitFrom_succ {H : Host} (run : Runner H) (rounds : Nat) (s : Session H)
    (ctx : H.Context) (n : Nat) (pending : String) :
    s.readUnitFrom run rounds ctx (n + 1) pending = (do
      let level ← Exec.read World.level
      let r ← Exec.readLine s.config.input
        (s.config.prompts.select pending.isEmpty (H.receiver ctx) level)
      s.respond run rounds ctx n pending r) := by
  unfold readUnitFrom respond
  rfl

/-- Asking the host about a text is allowed if it may be recorded. -/
theorem Conduct.Orders.judge_meets {H : Host} {R : Conduct H} (h : R.Orders)
    (hnote : ∀ w e, e.isNote = true → R w none (w.record e)) (text : String) :
    Exec.Meets R (Session.judge (H := H) text) := by
  unfold Session.judge
  split
  · exact h.bind_meets (Exec.change_meets fun w => hnote w _ rfl) fun _ => h.pure_meets _
  · exact h.pure_meets _

/-- Asking whether a text is complete is allowed if it may be recorded. -/
theorem Conduct.Orders.isComplete_meets {H : Host} {R : Conduct H} (h : R.Orders)
    (hnote : ∀ w e, e.isNote = true → R w none (w.record e)) (text : String) :
    Exec.Meets R (Session.isComplete (H := H) text) := by
  apply h.bind_meets (h.judge_meets hnote text)
  intro verdict
  split
  · exact h.pure_meets _
  · exact h.pure_meets _
  · exact h.bind_meets (Exec.change_meets fun w => hnote w _ rfl) fun _ => h.pure_meets _

/-- Looking a line up is allowed if calling the command is that it means. -/
theorem Session.lookUp_allowed {H : Host} {R : Conduct H} {run : Runner H} {rounds : Nat}
    {s : Session H} {ctx : H.Context} {line pending : String} {w : World H}
    (h : R w (ending (s.dispatch run rounds ctx line pending w).1.1)
      (s.dispatch run rounds ctx line pending w).2) :
    R w (ending (s.lookUp run rounds ctx line pending w).1)
      (s.lookUp run rounds ctx line pending w).2 := by
  unfold lookUp
  generalize s.dispatch run rounds ctx line pending w = r at h ⊢
  obtain ⟨⟨_ | _, rest⟩, w₁⟩ := r
  · exact h
  · exact h

namespace Session

variable {H : Host}

/-- What comes before a unit is evaluated: the names are bound, and it is recorded. -/
def announce (s : Session H) (c : H.Context) (source : String) : Exec H Unit := do
  s.bindConveniences c
  Exec.record (.evaluating s.id c source)

/-- What comes after a unit was evaluated: its value becomes the last result, or its fault is
recorded. -/
def conclude (s : Session H) (c : H.Context) : Outcome → Exec H Unit
  | .value v => do
    Exec.change fun w => { w with last := v }
    Exec.record (.valued s.id v)
    s.bindConveniences c
  | .fault f => Exec.record (.faulted s.id f)

/-- Before a unit is evaluated, names are bound and it is recorded. -/
theorem announce_apply (s : Session H) (ctx : H.Context) (source : String) (w : World H) :
    ∃ state, s.announce ctx source w =
      (.ok (), World.record { w with host := state } (.evaluating s.id ctx source)) :=
  ⟨_, rfl⟩

/-- Evaluating a unit in its three parts. -/
theorem evaluate_eq (run : Runner H) (rounds : Nat) (s : Session H) (c : H.Context)
    (source : String) :
    s.evaluate run rounds c source = (do
      s.announce c source
      let outcome ← s.evaluateIn run rounds c source
      s.conclude c outcome
      return outcome) := by
  funext w
  simp only [evaluate, announce, Exec.bind_apply]
  generalize s.bindConveniences c w = r
  obtain ⟨_ | _, w₁⟩ := r
  · rfl
  simp only [Exec.record, Exec.change]
  generalize s.evaluateIn run rounds c source _ = r
  obtain ⟨_ | outcome, w₂⟩ := r
  · rfl
  · cases outcome <;> rfl

end Session

/-- Evaluating a unit is allowed if each of its parts is. -/
theorem Conduct.Orders.evaluate_allowed {H : Host} {R : Conduct H} (h : R.Orders)
    {run : Session.Runner H} {rounds : Nat} {s : Session H} {c : H.Context} {source : String}
    (hannounce : Exec.Meets R (s.announce c source))
    (heval : Exec.Meets R (s.evaluateIn run rounds c source))
    (hconclude : ∀ outcome, Exec.Meets R (s.conclude c outcome)) :
    Exec.Meets R (s.evaluate run rounds c source) := by
  rw [Session.evaluate_eq]
  refine h.bind_meets hannounce fun _ => h.bind_meets heval fun outcome => ?_
  exact h.bind_meets (hconclude outcome) fun _ => h.pure_meets _

/-- Evaluating a unit is allowed if its source may be evaluated, what comes of it may be recorded,
and the state of the host and the last result may change. -/
theorem Conduct.Orders.evaluate_meets {H : Host} {R : Conduct H} (h : R.Orders)
    (hhost : ∀ w state, R w none { w with host := state })
    (hlast : ∀ w v, R w none { w with last := v })
    (hwork : ∀ w e, e.isWork = true → R w none (w.record e)) {run : Session.Runner H} {rounds : Nat}
    {s : Session H} {c : H.Context} {source : String}
    (heval : Exec.Meets R (s.evaluateIn run rounds c source)) :
    Exec.Meets R (s.evaluate run rounds c source) := by
  have hbind := h.bindConveniences_meets hhost s c
  refine h.evaluate_allowed (h.bind_meets hbind fun _ w => hwork w _ rfl) heval fun outcome => ?_
  cases outcome with
  | value v =>
    refine h.bind_meets (fun w => hlast w v) fun _ => ?_
    exact h.bind_meets (fun w => hwork w _ rfl) fun _ => hbind
  | fault f => exact fun w => hwork w _ rfl

/-- Reading a line is allowed if the prompt may be recorded and the inputs may change. -/
theorem Conduct.Writes.readLine_meets {H : Host} {R : Conduct H} (h : R.Writes)
    {input : Nat} {prompt : String} (hprompted : ∀ w, R w none (w.record (.prompted input prompt)))
    (hinputs : ∀ w inputs, R w none { w with inputs := inputs }) :
    Exec.Meets R (Exec.readLine input prompt) := by
  apply h.bind_meets (Exec.change_meets hprompted)
  intro _
  apply h.bind_meets (h.read_meets _)
  intro inputs
  split
  · exact h.pure_meets _
  · refine h.bind_meets (h.writePieces_meets _) fun _ => ?_
    refine h.bind_meets (Exec.change_meets fun w => hinputs w _) fun _ => ?_
    refine h.bind_meets (h.write_meets _) fun _ => ?_
    split
    · exact h.pure_meets _
    · exact fun w => h.io w _

/-- A conduct that allows all that the session `s` does in the context `ctx` with what it has read.
-/
structure Conduct.RespondsIn {H : Host} (R : Conduct H) (run : Session.Runner H) (rounds : Nat)
    (s : Session H) (ctx : H.Context) : Prop extends R.Orders where
  /-- The allowed rounds come to their end. -/
  spent : ∀ w, R w (some .spent) w
  /-- Lines are given up, or not complete. -/
  note : ∀ w e, e.isNote = true → R w none (w.record e)
  /-- There is no more input. -/
  endOfInput : ∀ w, R w (some (.interrupt .endOfInput)) (w.record (.raised .endOfInput))
  /-- The line that was read is remembered. -/
  heard : ∀ w line, R w none (w.heard s.config.input line)
  /-- A command is called. -/
  dispatch : ∀ line pending w, R w (ending (s.dispatch run rounds ctx line pending w).1.1)
    (s.dispatch run rounds ctx line pending w).2

namespace Conduct.RespondsIn

open Exec

variable {H : Host} {R : Conduct H} {run : Session.Runner H} {rounds : Nat} {s : Session H}
  {ctx : H.Context} (h : R.RespondsIn run rounds s ctx)
include h

theorem takeLine_meets (pending line : String) :
    Meets R (s.takeLine run rounds ctx pending line) := by
  intro w
  rw [Session.takeLine_apply]
  exact h.trans (h.heard w line) (Session.lookUp_allowed (h.dispatch line _ _))

theorem respond_meets {n : Nat}
    (hread : ∀ pending, Meets R (s.readUnitFrom run rounds ctx n pending)) (pending : String)
    (r : Line.Read) : Meets R (s.respond run rounds ctx n pending r) := by
  cases r with
  | eof => exact fun w => h.endOfInput w
  | interrupted => exact h.bind_meets (fun w => h.note w _ rfl) fun _ => hread ""
  | line line =>
    apply h.bind_meets (h.takeLine_meets pending line)
    intro rest
    split
    · exact hread rest
    · apply h.bind_meets (h.toOrders.isComplete_meets h.note rest)
      intro complete
      split
      · exact h.pure_meets rest
      · exact hread rest

/-- Reading a unit is allowed if lines may be read. -/
theorem readUnitFrom_meets
    (hreadLine : ∀ prompt, Meets R (Exec.readLine s.config.input prompt)) (n : Nat)
    (pending : String) : Meets R (s.readUnitFrom run rounds ctx n pending) := by
  induction n generalizing pending with
  | zero => exact fun w => h.spent w
  | succ n ih =>
    rw [Session.readUnitFrom_succ]
    refine h.bind_meets (h.read_meets _) fun level => ?_
    exact h.bind_meets (hreadLine _) fun r => h.respond_meets ih pending r

end Conduct.RespondsIn

/-- A conduct that allows all that the session `s` does with what it has read. -/
structure Conduct.Responds {H : Host} (R : Conduct H) (run : Session.Runner H) (rounds : Nat)
    (s : Session H) : Prop extends R.Orders where
  /-- The allowed rounds come to their end. -/
  spent : ∀ w, R w (some .spent) w
  /-- Lines are given up, or not complete. -/
  note : ∀ w e, e.isNote = true → R w none (w.record e)
  /-- There is no more input. -/
  endOfInput : ∀ w, R w (some (.interrupt .endOfInput)) (w.record (.raised .endOfInput))
  /-- The line that was read is remembered. -/
  heard : ∀ w line, R w none (w.heard s.config.input line)
  /-- A command is called. -/
  dispatch : ∀ ctx line pending w, R w (ending (s.dispatch run rounds ctx line pending w).1.1)
    (s.dispatch run rounds ctx line pending w).2

namespace Conduct.Responds

open Exec

variable {H : Host} {R : Conduct H} {run : Session.Runner H} {rounds : Nat} {s : Session H}
  (h : R.Responds run rounds s)
include h

/-- It is allowed in each context. -/
theorem inContext (ctx : H.Context) : R.RespondsIn run rounds s ctx :=
  { h with dispatch := h.dispatch ctx }

theorem respond_meets (ctx : H.Context) {n : Nat}
    (hread : ∀ pending, Meets R (s.readUnitFrom run rounds ctx n pending)) (pending : String)
    (r : Line.Read) : Meets R (s.respond run rounds ctx n pending r) :=
  (h.inContext ctx).respond_meets hread pending r

end Conduct.Responds

/-- A conduct that allows all by which the session `s` reads a unit. -/
structure Conduct.Listens {H : Host} (R : Conduct H) (run : Session.Runner H) (rounds : Nat)
    (s : Session H) : Prop extends R.Responds run rounds s where
  /-- A line is read. -/
  readLine : ∀ prompt, Exec.Meets R (Exec.readLine s.config.input prompt)

namespace Conduct.Listens

open Exec

variable {H : Host} {R : Conduct H} {run : Session.Runner H} {rounds : Nat} {s : Session H}
  (h : R.Listens run rounds s)
include h

theorem readUnitFrom_meets (ctx : H.Context) (n : Nat) (pending : String) :
    Meets R (s.readUnitFrom run rounds ctx n pending) :=
  (h.inContext ctx).readUnitFrom_meets h.readLine n pending

/-- A step is allowed if units may be evaluated and outcomes printed. -/
theorem step_allowed {ctx : H.Context}
    (heval : ∀ source, Meets R (s.evaluate run rounds ctx source))
    (hprint : ∀ outcome, Meets R (s.print outcome)) : Meets R (s.step run rounds ctx) :=
  h.bind_meets (h.readUnitFrom_meets ctx rounds "") fun _ =>
    h.bind_meets (heval _) fun _ => hprint _

end Conduct.Listens

/-- Remembering a line that was read is allowed if the line may be recorded and the inputs may
change. -/
theorem Conduct.Orders.heard_allowed {H : Host} {R : Conduct H} (h : R.Orders) {input : Nat}
    {line : String} (hline : ∀ w, R w none (w.record (.lineRead line)))
    (hinputs : ∀ w inputs, R w none { w with inputs := inputs }) (w : World H) :
    R w none (w.heard input line) := by
  unfold World.heard
  dsimp only
  split
  · exact h.trans (hline w) (hinputs _ _)
  · exact hline w

/-- Reading a unit is allowed if the inputs may change, what is read may be recorded, and commands
may be called. -/
theorem Conduct.Writes.listens {H : Host} {R : Conduct H} (h : R.Writes)
    {run : Session.Runner H} {rounds : Nat} {s : Session H} (hspent : ∀ w, R w (some .spent) w)
    (hend : ∀ w, R w (some (.interrupt .endOfInput)) (w.record (.raised .endOfInput)))
    (hinputs : ∀ w inputs, R w none { w with inputs := inputs })
    (hreading : ∀ w e, e.isReading = true → R w none (w.record e))
    (hnote : ∀ w e, e.isNote = true → R w none (w.record e))
    (hdispatch : ∀ ctx line pending w, R w (ending (s.dispatch run rounds ctx line pending w).1.1)
      (s.dispatch run rounds ctx line pending w).2) : R.Listens run rounds s where
  toOrders := h.toOrders
  spent := hspent
  note := hnote
  endOfInput := hend
  readLine _ := h.readLine_meets (fun w => hreading w _ rfl) hinputs
  heard w _ := h.toOrders.heard_allowed (fun w => hreading w _ rfl) hinputs w
  dispatch := hdispatch

/-- A conduct that allows all that the steps of the session `s` are made of. -/
structure Conduct.Steps {H : Host} (R : Conduct H) (run : Session.Runner H) (rounds : Nat)
    (s : Session H) : Prop extends R.Runs, R.Listens run rounds s where
  /-- The last result changes. -/
  last : ∀ w v, R w none { w with last := v }
  /-- Something of the work of a session happens. -/
  work : ∀ w e, e.isWork = true → R w none (w.record e)
  /-- A source is evaluated. -/
  evaluateIn : ∀ c source, Exec.Meets R (s.evaluateIn run rounds c source)
  /-- An outcome is printed. -/
  print : ∀ outcome, Exec.Meets R (s.print outcome)
  note := fun w e he => work w e (Event.isWork_of_isNote he)

namespace Conduct.Steps

open Exec

variable {H : Host} {R : Conduct H} {run : Session.Runner H} {rounds : Nat} {s : Session H}
  (h : R.Steps run rounds s)
include h

theorem evaluate_meets (c : H.Context) (source : String) :
    Meets R (s.evaluate run rounds c source) :=
  h.toOrders.evaluate_meets h.host h.last h.work (h.evaluateIn c source)

theorem step_meets (ctx : H.Context) : Meets R (s.step run rounds ctx) :=
  h.step_allowed (h.evaluate_meets ctx) h.print

end Conduct.Steps

/-! ## Conducts that allow every interrupt -/

/-- A conduct that allows all that commands and evaluations do by themselves. -/
structure Conduct.Serves {H : Host} (R : Conduct H) : Prop extends R.Writes, R.Runs where
  /-- An interrupt arises. -/
  raise : ∀ w i, R w (some (.interrupt i)) (w.record (.raised i))
  /-- An outcome is handed to be printed. -/
  printed : ∀ w id outcome, R w none (w.record (.printed id outcome))
  /-- The source of a command is handed to be evaluated. -/
  consulting : ∀ w id ctx source, R w none (w.record (.consulting id ctx source))
  io w err := raise w (.io err)

namespace Conduct.Serves

open Exec

variable {H : Host} {R : Conduct H} (h : R.Serves)
include h

theorem print_meets (s : Session H) (outcome : Outcome) : Meets R (s.print outcome) :=
  h.bind_meets (fun w => h.printed w s.id outcome) fun _ => h.put_meets _

variable {s : Session H} (hb : R.Bears s.config.commands)
include hb

/-- Every command and every evaluation is allowed. -/
theorem acts : R.Acts s (fun _ => True) fun _ _ => True where
  toRuns := h.toRuns
  bears := hb
  raise w i _ := h.raise w i
  courses _ _ _ _ := Course.raises_of_forall (fun _ _ => trivial) _
  put writing _ := h.put_meets writing
  print outcome := h.print_meets s outcome
  consulting := h.consulting

variable {run : Session.Runner H} (hn : ∀ t, Meets R (s.nestVia run t))
include hn

theorem evaluateIn_meets (rounds : Nat) (c : H.Context) (source : String) :
    Meets R (s.evaluateIn run rounds c source) :=
  (h.acts hb).evaluateIn_meets hn rounds c source

theorem dispatch_meets (hcall : ∀ w usage, R w none (w.record (.dispatched usage)))
    (rounds : Nat) (ctx : H.Context) (line pending : String) (w : World H) :
    R w (ending (s.dispatch run rounds ctx line pending w).1.1)
      (s.dispatch run rounds ctx line pending w).2 :=
  (h.acts hb).dispatch_allowed hn hcall rounds ctx line pending w fun _ _ _ =>
    Command.Plan.keeps_of_forall (fun _ => trivial) (fun _ _ _ => trivial) _

/-- Reading a unit is allowed if the inputs may change, what is read may be recorded, and commands
may be called. -/
theorem listens (hinputs : ∀ w inputs, R w none { w with inputs := inputs })
    (hreading : ∀ w e, e.isReading = true → R w none (w.record e))
    (hnote : ∀ w e, e.isNote = true → R w none (w.record e))
    (hcall : ∀ w usage, R w none (w.record (.dispatched usage))) (rounds : Nat) :
    R.Listens run rounds s :=
  h.toWrites.listens h.spent (fun w => h.raise w _) hinputs hreading hnote
    (h.dispatch_meets hb hn hcall rounds)

end Conduct.Serves

/-! ## Conducts that allow all that is of no account -/

/-- Whether an event is neither about the stack nor about a source that is evaluated. -/
def Event.isQuiet {H : Host} : Event H → Bool
  | .started .. | .pushed .. | .popped .. | .evaluating .. | .consulting .. | .valued ..
  | .faulted .. => false
  | _ => true

/-- A conduct that allows deeds in order and all that comes of reading and writing: events that are
neither about the stack nor about a source, and changes of the inputs and of the sink. It does not
depend on how anything ends. -/
structure Conduct.Quiet {H : Host} (R : Conduct H) : Prop extends R.Orders where
  /-- How something ends is of no account. -/
  anyhow : ∀ {w e w'} e', R w e w' → R w e' w'
  /-- Something happens that is of no account. -/
  record : ∀ w e, e.isQuiet = true → R w none (w.record e)
  /-- Something is taken by the sink. -/
  sink : ∀ w sink, R w none { w with sink := sink }
  /-- The inputs change. -/
  inputs : ∀ w inputs, R w none { w with inputs := inputs }

namespace Conduct.Quiet

open Exec

variable {H : Host} {R : Conduct H} (h : R.Quiet)
include h

theorem catches : R.Catches := fun _ _ _ => h.anyhow none

theorem spent (w : World H) : R w (some .spent) w := h.anyhow _ (h.refl w)

theorem writes : R.Writes where
  toOrders := h.toOrders
  io w _ := h.anyhow _ (h.record w _ rfl)
  wrote w _ sink _ := h.trans (h.sink w sink) (h.record _ _ rfl)

theorem stopped (w : World H) (stop : Stop) : R w (some stop) (w.stopped stop) := by
  cases stop with
  | interrupt i => exact h.anyhow _ (h.record w _ rfl)
  | spent => exact h.spent w

theorem print_meets (s : Session H) (outcome : Outcome) : Meets R (s.print outcome) :=
  h.bind_meets (fun w => h.record w _ rfl) fun _ => h.writes.put_meets _

/-- It is still of that kind if it is asked for only where `P` holds, which it does not make fail.
-/
theorem given {P : World H → Prop} (hP : ∀ {w w'}, R w none w' → P w → P w') :
    (R.given P).Quiet where
  toOrders := h.toOrders.given hP
  anyhow e' hr hw := h.anyhow e' (hr hw)
  record w e he _ := h.record w e he
  sink w sink _ := h.sink w sink
  inputs w inputs _ := h.inputs w inputs

variable {run : Session.Runner H} {rounds : Nat} {s : Session H} {ctx : H.Context}
  {P : Command.Deed H → Prop}
  (hconsult : ∀ c source, P (.evaluate c source) → Meets R (s.consult run rounds c source))
  (hn : ∀ t, P (.nest t) → Meets R (s.nestVia run t))
include hconsult hn

/-- Every command is allowed if the sources are that it evaluates and the sessions that it opens. -/
theorem obeys : R.Obeys run rounds s P fun _ _ => True where
  toOrders := h.toOrders
  raise w _ _ := h.anyhow _ (h.record w _ rfl)
  put writing _ := h.writes.put_meets writing
  consult := hconsult
  print outcome := h.print_meets s outcome
  nest := hn

/-- What comes of a line is allowed if the sources are that commands evaluate and the sessions that
they open. -/
theorem respondsIn (hasks : ∀ command ∈ s.config.commands, ∀ call : Command.Call H,
      call.context = ctx → (command.handler call).Keeps P fun _ => True) :
    R.RespondsIn run rounds s ctx where
  toOrders := h.toOrders
  spent := h.spent
  note w e he := h.record w e (by cases e <;> first | rfl | simp [Event.isNote] at he)
  endOfInput w := h.anyhow _ (h.record w _ rfl)
  heard w _ := h.heard_allowed (fun w => h.record w _ rfl) h.inputs w
  dispatch line pending w :=
    (h.obeys hconsult hn).dispatch_allowed (fun w _ => h.record w _ rfl) (.inl h.catches) ctx line
      pending w fun command _ hfind =>
        (hasks command (Command.Table.mem_of_find? hfind) _ rfl).mono (fun _ hd => hd)
          fun _ _ _ _ => trivial

/-- Reading a unit is allowed if the sources are that commands evaluate and the sessions that they
open. -/
theorem readUnit_meets (hasks : ∀ command ∈ s.config.commands, ∀ call : Command.Call H,
      call.context = ctx → (command.handler call).Keeps P fun _ => True) :
    Meets R (s.readUnit run rounds ctx) :=
  (h.respondsIn hconsult hn hasks).readUnitFrom_meets
    (fun _ => h.writes.readLine_meets (fun w => h.record w _ rfl) h.inputs) rounds ""

end Conduct.Quiet

/-! ## Conducts that allow all steps -/

/-- A conduct that allows all that a session does once it is on the stack. -/
structure Conduct.Works {H : Host} (R : Conduct H) : Prop extends R.Serves where
  /-- The last result changes. -/
  last : ∀ w v, R w none { w with last := v }
  /-- The inputs change. -/
  inputs : ∀ w inputs, R w none { w with inputs := inputs }
  /-- A line is asked for or read. -/
  reading : ∀ w e, e.isReading = true → R w none (w.record e)
  /-- Something of the work of a session happens. -/
  work : ∀ w e, e.isWork = true → R w none (w.record e)

namespace Conduct.Works

open Exec

variable {H : Host} {R : Conduct H} (h : R.Works)
include h

variable {run : Session.Runner H} {s : Session H} (hb : R.Bears s.config.commands)
  (hn : ∀ t, Meets R (s.nestVia run t))
include hb hn

/-- Every step is allowed. -/
theorem steps (rounds : Nat) : R.Steps run rounds s :=
  have hlistens := h.listens hb hn h.inputs h.reading
    (fun w e he => h.work w e (Event.isWork_of_isNote he)) (fun w _ => h.work w _ rfl) rounds
  { h.toRuns, hlistens with
    last := h.last
    work := h.work
    evaluateIn := h.evaluateIn_meets hb hn rounds
    print := h.print_meets s }

theorem step_meets (rounds : Nat) (ctx : H.Context) : Meets R (s.step run rounds ctx) :=
  (h.steps hb hn rounds).step_meets ctx

end Conduct.Works

/-! ## Sessions -/

namespace Session

variable {H : Host}

/-- What a session does while it is on the stack: it binds its names and steps until unwinding
begins. -/
def body (run : Runner H) (rounds : Nat) (s : Session H) (ctx : H.Context) : Exec H Nat := do
  s.bindConveniences ctx
  s.reps run rounds ctx rounds

/-- How the steps of a session ended: a level to unwind to is an interrupt that was caught. -/
def bodyEnding : Except Stop Nat → Option Stop
  | .ok level => some (.interrupt (.breakout level))
  | .error stop => some stop

/-- The world as a session finds it that begins on a receiver. -/
def begun (s : Session H) (receiver : Value) (w : World H) : World H :=
  (w.record (.started s.id w.depth receiver)).enter s.id receiver

/-- What running a session can come to, where `body` is what it does while it is on the stack: the
world before, the result, and the world after. -/
inductive Ran (s : Session H) (receiver : Value) (body : Exec H Nat) :
    World H → Except Stop Value → World H → Prop where
  /-- The hook for the begin fails, and the session never gets on the stack. -/
  | refused {w w₁ : World H} {stop : Stop} :
      s.fire beforeSession [receiver] w = (.error stop, w₁) →
      Ran s receiver body w (.error stop) w₁
  /-- An interrupt ends the session. -/
  | aborted {w w₁ w₂ : World H} {i : Interrupt} :
      s.fire beforeSession [receiver] w = (.ok (), w₁) →
      body (s.begun receiver w₁) = (.error (.interrupt i), w₂) →
      Ran s receiver body w (.error (.interrupt i))
        ((w₂.leave w₁.active w₁.depth).record (.aborted s.id i))
  /-- The allowed rounds come to their end. -/
  | spent {w w₁ w₂ : World H} :
      s.fire beforeSession [receiver] w = (.ok (), w₁) →
      body (s.begun receiver w₁) = (.error .spent, w₂) →
      Ran s receiver body w (.error .spent) (w₂.leave w₁.active w₁.depth)
  /-- Unwinding ends the session, and then the hook for the end fails. -/
  | failed {w w₁ w₂ w₃ : World H} {level : Nat} {stop : Stop} :
      s.fire beforeSession [receiver] w = (.ok (), w₁) →
      body (s.begun receiver w₁) = (.ok level, w₂) →
      s.fire afterSession [receiver] (w₂.leave w₁.active w₁.depth) = (.error stop, w₃) →
      Ran s receiver body w (.error stop) w₃
  /-- Unwinding ends the session and itself. -/
  | ended {w w₁ w₂ w₃ : World H} {level : Nat} :
      s.fire beforeSession [receiver] w = (.ok (), w₁) →
      body (s.begun receiver w₁) = (.ok level, w₂) →
      s.fire afterSession [receiver] (w₂.leave w₁.active w₁.depth) = (.ok (), w₃) →
      level = w₁.depth →
      Ran s receiver body w (.ok receiver) (w₃.record (.ended s.id level))
  /-- Unwinding ends the session and goes on. -/
  | propagated {w w₁ w₂ w₃ : World H} {level : Nat} :
      s.fire beforeSession [receiver] w = (.ok (), w₁) →
      body (s.begun receiver w₁) = (.ok level, w₂) →
      s.fire afterSession [receiver] (w₂.leave w₁.active w₁.depth) = (.ok (), w₃) →
      level ≠ w₁.depth →
      Ran s receiver body w (.error (.interrupt (.breakout level)))
        (w₃.record (.propagated s.id level w₁.depth))

/-- Running a session in a context comes to one of these. -/
theorem runIn_ran (run : Runner H) (rounds : Nat) (s : Session H) (ctx : H.Context) (w : World H) :
    Ran s (H.receiver ctx) (s.body run rounds ctx) w (s.runIn run rounds ctx w).1
      (s.runIn run rounds ctx w).2 := by
  unfold runIn
  simp only [Exec.bind_apply]
  generalize hb : s.fire beforeSession [H.receiver ctx] w = before
  obtain ⟨_ | _, w₁⟩ := before
  · exact .refused hb
  -- Recording the begin changes neither the stack nor the active session, so that the frame is
  -- taken off as it was put on.
  simp only [Exec.read, Exec.record, Exec.change, Exec.attempt, Exec.withFrame]
  generalize hbody : s.body run rounds ctx (s.begun (H.receiver ctx) w₁) = inside
  have hin := hbody
  unfold body begun at hin
  rw [hin]
  obtain ⟨(i | _) | level, w₂⟩ := inside
  · exact (Ran.aborted hb hbody :)
  · exact (Ran.spent hb hbody :)
  simp only [Exec.bind_apply, World.record_active, World.record_depth]
  generalize ha : s.fire afterSession [H.receiver ctx] (w₂.leave w₁.active w₁.depth) = after
  obtain ⟨_ | _, w₃⟩ := after
  · exact .failed hb hbody ha
  dsimp only
  split
  · rename_i hl
    exact .ended hb hbody ha hl
  · rename_i hl
    exact .propagated hb hbody ha hl

/-- The rounds allowed to a session that runs are at least one, and one fewer are left for what it
does. -/
theorem run_succ (rounds : Nat) (s : Session H) (t : Target H.Context) (w : World H) :
    run (rounds + 1) s t w =
      s.runIn (run rounds) rounds (H.resolve t w.host).1
        { w with host := (H.resolve t w.host).2 } :=
  rfl

/-- A session that is opened inside of another one gets a number of its own. -/
theorem nestVia_apply (run : Runner H) (s : Session H) (t : Target H.Context) (w : World H) :
    nestVia run s t w = run ⟨w.nextId, s.config⟩ t { w with nextId := w.nextId + 1 } :=
  rfl

end Session

/-- The first step of a session, and the other ones unless it stops. A level to unwind to is a
result of the steps, and every other stop ends them. -/
theorem Session.reps_succ {H : Host} (run : Runner H) (rounds : Nat) (s : Session H)
    (ctx : H.Context) (n : Nat) (w : World H) :
    (bodyEnding (s.reps run rounds ctx (n + 1) w).1, (s.reps run rounds ctx (n + 1) w).2) =
      match s.step run rounds ctx w with
      | (.ok (), w₁) => (bodyEnding (s.reps run rounds ctx n w₁).1, (s.reps run rounds ctx n w₁).2)
      | (.error stop, w₁) => (some stop, w₁) := by
  simp only [reps, rep, Exec.bind_apply, Exec.attempt]
  generalize s.step run rounds ctx w = r
  obtain ⟨r, w₁⟩ := r
  cases r with
  | ok u => rfl
  | error stop =>
    cases stop with
    | spent => rfl
    | interrupt i => cases i <;> rfl

/-- All the steps of a session are allowed if each of them is. -/
theorem Conduct.Orders.reps_meets {H : Host} {R : Conduct H} (h : R.Orders)
    (hspent : ∀ w, R w (some .spent) w) {run : Session.Runner H} {rounds : Nat} {s : Session H}
    {ctx : H.Context} (hstep : Exec.Meets R (s.step run rounds ctx)) (n : Nat) (w : World H) :
    R w (Session.bodyEnding (s.reps run rounds ctx n w).1) (s.reps run rounds ctx n w).2 := by
  induction n generalizing w with
  | zero => exact hspent w
  | succ n ih =>
    have h₁ := hstep w
    obtain ⟨hending, hworld⟩ := Prod.mk.inj (Session.reps_succ run rounds s ctx n w)
    rw [hending, hworld]
    generalize s.step run rounds ctx w = r at h₁ ⊢
    obtain ⟨_ | _, w₁⟩ := r
    · exact h₁
    · exact h.trans h₁ (ih w₁)

/-- All that a session does while it is on the stack is allowed if its steps are, and if it may bind
its names at first. -/
theorem Conduct.Orders.body_meets {H : Host} {R : Conduct H} (h : R.Orders)
    (hspent : ∀ w, R w (some .spent) w) {run : Session.Runner H} {rounds : Nat} {s : Session H}
    {ctx : H.Context} (hbind : Exec.Meets R (s.bindConveniences ctx))
    (hstep : Exec.Meets R (s.step run rounds ctx)) (w : World H) :
    R w (Session.bodyEnding (s.body run rounds ctx w).1) (s.body run rounds ctx w).2 := by
  have h₁ := hbind w
  simp only [Session.body, Exec.bind_apply]
  generalize s.bindConveniences ctx w = r at h₁ ⊢
  obtain ⟨_ | u, w₁⟩ := r
  · exact h₁
  · exact h.trans h₁ (h.reps_meets hspent hstep rounds w₁)

/-- All that a session does while it is on the stack is allowed if its steps are. -/
theorem Conduct.Runs.body_meets {H : Host} {R : Conduct H} (h : R.Runs)
    {run : Session.Runner H} {rounds : Nat} {s : Session H} {ctx : H.Context}
    (hstep : Exec.Meets R (s.step run rounds ctx)) (w : World H) :
    R w (Session.bodyEnding (s.body run rounds ctx w).1) (s.body run rounds ctx w).2 :=
  h.toOrders.body_meets h.spent (h.bindConveniences_meets s ctx) hstep w

end CalcShell
