import CalcShell.Proofs.Session.Sequel

/-!
# What is read and written

From the log alone it can be told what became of the output and the inputs (`Devices.through`), and
so what an input gives when it is asked for a line.

No failure to read or write is passed over in silence. What a hook writes when it is called, what an
outcome is printed as, and what an input shows stands in the log piece by piece, up to the end or to
the interrupt for the failure (`Sink.delivery`).
-/

namespace CalcShell

variable {H : Host}

/-! ## The output and the inputs -/

/-- What is written on an occasion, and the interrupt that arises behind that, if one does. -/
structure Utterance where
  pieces : List Piece
  interrupt : Option Interrupt := none

/-- Something is written, up to its failure if it has one. -/
def Writing.utterance (w : Writing) : Utterance := ⟨w.pieces, w.failure.map .io⟩

/-- What arises behind something that is read, if anything does: its failure, or that there is no
more input. -/
def Line.interrupt? : Line.ReadResult → Option Interrupt
  | .error err => some (.io err)
  | .ok .eof => some .endOfInput
  | .ok _ => none

/-- The output and the inputs of a world. -/
structure Devices where
  sink : Sink
  inputs : List Line.Source

/-- Where text is written to and read from. -/
def World.devices (w : World H) : Devices := ⟨w.sink, w.inputs⟩

namespace Devices

/-- Output and inputs after an event, where sessions are made of `c`. An input whose prompt cannot
be written does not read. -/
def after (c : Config H) (d : Devices) : Event H → Devices
  | .wrote piece => { d with sink := { d.sink with written := piece :: d.sink.written } }
  | .prompted i prompt =>
    match d.inputs[i]? with
    | none => d
    | some source =>
      if (d.sink.takeAll (source.announce prompt)).1 = none then
        { d with inputs := d.inputs.set i (source.readLine prompt).2.2 }
      else d
  | .lineRead line =>
    if !Text.isBlankText line then
      { d with inputs := d.inputs.modify c.input (·.remember line) }
    else d
  | _ => d

/-- Output and inputs after some moments. -/
def through (c : Config H) (d : Devices) (ms : List (Moment H)) : Devices :=
  ms.foldl (fun d m => d.after c m.event) d

/-- What is to be written on the occasion of an event: by a hook that is called, for an outcome that
is printed, in both cases flushed, or by an input that is asked for a line, which writes its prompt
and what it shows. Behind that comes the failure to write or to read, or that there is no more
input. -/
def utterance? (c : Config H) (d : Devices) : Event H → Option Utterance
  | .fired name args => some (c.hooks.writing name args).utterance
  | .printed _ outcome => some (c.print outcome).flushed.utterance
  | .prompted i prompt =>
    match d.inputs[i]? with
    | none => some ⟨[], some .endOfInput⟩
    | some source =>
      some ⟨source.announce prompt ++ [.text (source.readLine prompt).2.1],
        Line.interrupt? (source.readLine prompt).1⟩
  | _ => none

variable {c : Config H}

theorem through_append (d : Devices) (ms ns : List (Moment H)) :
    d.through c (ms ++ ns) = (d.through c ms).through c ns :=
  List.foldl_append

/-- Events that are nothing to output and inputs leave them as they are. -/
theorem through_eq_self (d : Devices) {ms : List (Moment H)}
    (hms : ∀ m ∈ ms, ∀ d : Devices, d.after c m.event = d) : d.through c ms = d := by
  induction ms with
  | nil => rfl
  | cons m ms ih =>
    rw [through, List.foldl_cons, hms m List.mem_cons_self]
    exact ih fun x hx => hms x (List.mem_cons_of_mem m hx)

end Devices

/-- The log goes on, and tells what became of the output and the inputs. -/
structure Tells (c : Config H) (w w' : World H) : Prop where
  follows : w'.Follows w
  devices : w'.devices = w.devices.through c (w'.since w)

namespace Tells

variable {c : Config H} {w w₁ w₂ w' : World H}

theorem trans (h₁ : Tells c w w₁) (h₂ : Tells c w₁ w₂) : Tells c w w₂ where
  follows := h₂.follows.trans h₁.follows
  devices := by
    rw [World.since_trans h₂.follows h₁.follows, Devices.through_append, ← h₁.devices, h₂.devices]

/-- The log goes on with moments that are nothing to output and inputs. -/
theorem of_log {ms : List (Moment H)} (hlog : w'.log.toList = w.log.toList ++ ms)
    (hms : ∀ m ∈ ms, ∀ d : Devices, d.after c m.event = d) (hdevices : w'.devices = w.devices) :
    Tells c w w' where
  follows := ⟨ms, hlog.symm⟩
  devices := by rw [World.since_eq hlog, Devices.through_eq_self _ hms, hdevices]

/-- The log goes on with one moment. -/
theorem of_event {e : Event H} (hlog : w'.log.toList = w.log.toList ++ [⟨e, w.view, w.host⟩])
    (hdevices : w'.devices = w.devices.after c e) : Tells c w w' where
  follows := ⟨_, hlog.symm⟩
  devices := by
    rw [World.since_eq hlog]
    exact hdevices

end Tells

/-- Nothing is written but single pieces. -/
structure Silent (c : Config H) (w w' : World H) : Prop extends Tells c w w' where
  unmarked : ∀ m ∈ w'.since w, ∀ d : Devices, d.utterance? c m.event = none

/-- What happens when pieces are written, and then possibly an interrupt arises, by a sink that took
the pieces `written` so far: each piece that is not empty is written, up to one that is refused. -/
def Sink.delivery (refuses : List Piece → Piece → Option IoError) :
    List Piece → List Piece → Option Interrupt → List (Event H)
  | _, [], none => []
  | _, [], some i => [.raised i]
  | written, p :: ps, interrupt =>
    if p = .text "" then delivery refuses written ps interrupt
    else
      match refuses written p with
      | some err => [.raised (.io err)]
      | none => .wrote p :: delivery refuses (p :: written) ps interrupt

/-- What happens when something is written to the sink. -/
def Sink.deliver (sink : Sink) (u : Utterance) : List (Event H) :=
  delivery sink.refuses sink.written u.pieces u.interrupt

/-- All that is to be written on the occasion of some event is in the log, in full or up to a
failure. -/
structure Delivers (c : Config H) (w w' : World H) : Prop extends Tells c w w' where
  delivered : ∀ {pre m post writing}, w'.since w = pre ++ m :: post →
    (w.devices.through c pre).utterance? c m.event = some writing →
    (w.devices.through c pre).sink.deliver writing <+: post.map Moment.event

namespace Silent

variable {c : Config H} {w w₁ w₂ w' : World H}

theorem trans (h₁ : Silent c w w₁) (h₂ : Silent c w₁ w₂) : Silent c w w₂ where
  toTells := h₁.toTells.trans h₂.toTells
  unmarked m hm := by
    rw [World.since_trans h₂.follows h₁.follows] at hm
    rcases List.mem_append.1 hm with hm | hm
    · exact h₁.unmarked m hm
    · exact h₂.unmarked m hm

/-- The log goes on with moments that are nothing to output and inputs. -/
theorem of_log {ms : List (Moment H)} (hlog : w'.log.toList = w.log.toList ++ ms)
    (hms : ∀ m ∈ ms, ∀ d : Devices, d.after c m.event = d ∧ d.utterance? c m.event = none)
    (hdevices : w'.devices = w.devices) : Silent c w w' where
  toTells := .of_log hlog (fun m hm d => (hms m hm d).1) hdevices
  unmarked := by
    rw [World.since_eq hlog]
    exact fun m hm d => (hms m hm d).2

theorem of_log_eq (hlog : w'.log = w.log) (hdevices : w'.devices = w.devices) : Silent c w w' := by
  have hlog' : w'.log.toList = w.log.toList ++ [] := by rw [hlog, List.append_nil]
  exact of_log hlog' (fun _ hm => absurd hm List.not_mem_nil) hdevices

/-- The log goes on with one moment. -/
theorem of_event {e : Event H} (hlog : w'.log.toList = w.log.toList ++ [⟨e, w.view, w.host⟩])
    (hdevices : w'.devices = w.devices.after c e)
    (hwriting : ∀ d : Devices, d.utterance? c e = none) : Silent c w w' where
  toTells := .of_event hlog hdevices
  unmarked := by
    rw [World.since_eq hlog]
    intro m hm
    rw [List.mem_singleton.1 hm]
    exact hwriting

theorem record {e : Event H} (he : ∀ d : Devices, d.after c e = d ∧ d.utterance? c e = none) :
    Silent c w (w.record e) :=
  of_event (w.log_record e) (he w.devices).1.symm fun d => (he d).2

/-- Pieces are written one by one. -/
theorem writes : Conduct.Writes fun (w : World H) _ w' => Silent c w w' where
  refl w := of_log_eq rfl rfl
  trans h₁ h₂ := h₁.trans h₂
  io w err := record fun _ => ⟨rfl, rfl⟩
  wrote w piece sink hsink := by
    refine of_event (e := .wrote piece) (World.log_record _ _) ?_ fun _ => rfl
    rw [Sink.eq_of_take hsink]
    rfl

/-- Nothing of the work of a session is written. -/
theorem work (w : World H) (e : Event H) (he : e.isWork = true) : Silent c w (w.record e) := by
  cases e <;> first | exact record fun _ => ⟨rfl, rfl⟩ | simp [Event.isWork] at he

end Silent

/-- Writes what is to be written, and interrupts if that comes behind it. -/
def Exec.say (u : Utterance) : Exec H Unit := do
  writePieces u.pieces
  match u.interrupt with
  | none => pure ()
  | some i => interrupt i

theorem Exec.put_eq_say (writing : Writing) :
    Exec.put (H := H) writing = Exec.say writing.utterance := by
  obtain ⟨pieces, failure⟩ := writing
  cases failure <;> rfl

theorem Exec.say_cons (p : Piece) (ps : List Piece) (i : Option Interrupt) (w : World H) :
    say ⟨p :: ps, i⟩ w = (write p >>= fun _ => say ⟨ps, i⟩) w := by
  simp only [say, writePieces, bind_apply]
  generalize write p w = r
  obtain ⟨_ | _, w₁⟩ := r <;> rfl

/-- An interrupt that arises is nothing that is written. -/
theorem Silent.raise {c : Config H} (w : World H) (i : Interrupt) :
    Silent c w (w.record (.raised i)) :=
  .record fun _ => ⟨rfl, rfl⟩

theorem Silent.say_meets {c : Config H} (u : Utterance) :
    Exec.Meets (fun (w : World H) _ w' => Silent c w w') (Exec.say u) := by
  refine Silent.writes.bind_meets (Silent.writes.writePieces_meets _) fun _ => ?_
  split
  · exact Silent.writes.pure_meets ()
  · exact fun w => .raise w _

/-- Writing is what the sink makes of it. -/
theorem say_events (u : Utterance) (w : World H) :
    ((Exec.say u w).2.since w).map Moment.event = w.sink.deliver u := by
  have hraised : ∀ i, ((w.record (.raised i)).since w).map Moment.event = [.raised i] := by
    intro i
    rw [World.since_eq (w.log_record _)]
    rfl
  obtain ⟨ps, interrupt⟩ := u
  induction ps generalizing w with
  | nil =>
    cases interrupt with
    | none =>
      change (w.since w).map Moment.event = _
      rw [World.since_self]
      rfl
    | some i => exact hraised i
  | cons p ps ih =>
    rw [Exec.say_cons, Exec.bind_apply, Sink.deliver, Sink.delivery, Exec.write]
    by_cases hp : p = .text ""
    · rw [if_pos hp, if_pos hp]
      exact ih w hraised
    rw [if_neg hp, if_neg hp, Sink.take]
    cases w.sink.refuses w.sink.written p with
    | some err => exact hraised _
    | none =>
      dsimp only
      generalize hw₁ : World.record _ (.wrote p) = w₁
      have hlog : w₁.log.toList = w.log.toList ++ [⟨.wrote p, w.view, w.host⟩] := by
        rw [← hw₁]
        exact World.log_record _ _
      have hsink : w₁.sink = ⟨w.sink.refuses, p :: w.sink.written⟩ := by
        rw [← hw₁]
        rfl
      have hfollows := (Silent.say_meets (c := .standard 0) ⟨ps, interrupt⟩ w₁).follows
      have hrest := ih w₁ fun i => by
        rw [World.since_eq (w₁.log_record _)]
        rfl
      rw [World.since_trans hfollows ⟨_, hlog.symm⟩, List.map_append, hrest, World.since_eq hlog,
        Sink.deliver, hsink]
      rfl

theorem put_events (writing : Writing) (w : World H) :
    ((Exec.put writing w).2.since w).map Moment.event = w.sink.deliver writing.utterance := by
  rw [Exec.put_eq_say]
  exact say_events _ w

/-! ## What inputs write -/

namespace Exec

variable {w : World H}

/-- Writing has nothing to do with the inputs. -/
theorem write_inputs (piece : Piece) (w : World H) (inputs : List Line.Source) :
    write piece { w with inputs := inputs } =
      ((write piece w).1, { (write piece w).2 with inputs := inputs }) := by
  simp only [write]
  split
  · rfl
  · cases w.sink.take piece <;> rfl

theorem writePieces_inputs (pieces : List Piece) (w : World H) (inputs : List Line.Source) :
    writePieces pieces { w with inputs := inputs } =
      ((writePieces pieces w).1, { (writePieces pieces w).2 with inputs := inputs }) := by
  induction pieces generalizing w with
  | nil => rfl
  | cons p ps ih =>
    simp only [writePieces, bind_apply, write_inputs]
    generalize write p w = r
    obtain ⟨_ | _, w₁⟩ := r
    · rfl
    · exact ih w₁

/-- Writing keeps the inputs. -/
theorem inputs_of_writePieces {pieces : List Piece} {x : Except Stop Unit} {w' : World H}
    (h : writePieces pieces w = (x, w')) : w'.inputs = w.inputs := by
  have hset := congrArg (fun r => r.2.inputs) (writePieces_inputs pieces w w.inputs)
  rwa [h] at hset

/-- Pieces are written in full, or up to the first one that the sink refuses. -/
theorem writePieces_fst (pieces : List Piece) (w : World H) :
    (writePieces pieces w).1 =
      match (w.sink.takeAll pieces).1 with
      | none => .ok ()
      | some err => .error (.interrupt (.io err)) := by
  induction pieces generalizing w with
  | nil => rfl
  | cons p ps ih =>
    simp only [writePieces, bind_apply, write, Sink.takeAll]
    by_cases hp : p = .text ""
    · rw [if_pos hp, if_pos hp]
      exact ih w
    · rw [if_neg hp, if_neg hp]
      cases w.sink.take p with
      | error err => rfl
      | ok sink => exact ih _

/-- Writing some pieces and then others is writing all of them. -/
theorem say_append (ps qs : List Piece) (i : Option Interrupt) (w : World H) :
    say ⟨ps ++ qs, i⟩ w = (writePieces ps >>= fun _ => say ⟨qs, i⟩) w := by
  induction ps generalizing w with
  | nil => rfl
  | cons p ps ih =>
    rw [List.cons_append, say_cons]
    simp only [writePieces, bind_apply]
    generalize write p w = r
    obtain ⟨_ | _, w₁⟩ := r
    · rfl
    · exact ih w₁

end Exec

/-- The world as an input, which was found as `source`, is asked for a line: the input is behind
what it reads, if its prompt can be written. -/
def World.turnedTo (w : World H) (input : Nat) (prompt : String) (source : Line.Source) : World H :=
  let w := w.record (.prompted input prompt)
  if (w.sink.takeAll (source.announce prompt)).1 = none then w.asked input prompt source else w

/-- Reading a line, and going on with what was read, comes to writing the prompt and what the input
shows, and going on. -/
theorem Exec.readLine_says {α : Type} {w : World H} {input : Nat} {source : Line.Source}
    (h : w.inputs[input]? = some source) (prompt : String) {f : Line.Read → Exec H α}
    (hf : f .eof = interrupt .endOfInput) :
    (readLine input prompt >>= f) w =
      (say ⟨source.announce prompt ++ [.text (source.readLine prompt).2.1],
          Line.interrupt? (source.readLine prompt).1⟩ >>= fun _ =>
        f (Line.read (source.readLine prompt).1)) (w.turnedTo input prompt source) := by
  have hfst := writePieces_fst (source.announce prompt) (w.record (.prompted input prompt))
  rw [bind_apply, readLine_of_some h, World.turnedTo, bind_apply (say _), say_append]
  cases htake : ((w.record (.prompted input prompt)).sink.takeAll (source.announce prompt)).1 with
  | some err =>
    rw [htake] at hfst
    rw [if_neg (by simp), bind_apply, bind_apply]
    generalize writePieces (source.announce prompt) (w.record (.prompted input prompt)) = r
      at hfst ⊢
    obtain ⟨_ | _, w₁⟩ := r
    · rfl
    · cases hfst
  | none =>
    rw [htake] at hfst
    cases hr : writePieces (source.announce prompt) (w.record (.prompted input prompt)) with
    | mk x w₁ =>
    rw [hr] at hfst
    obtain rfl : x = .ok () := hfst
    -- It makes no difference whether the input has read before the prompt is written or behind.
    have hafter : writePieces (source.announce prompt)
        ((w.record (.prompted input prompt)).asked input prompt source) =
          (.ok (), w₁.asked input prompt source) := by
      rw [World.asked, writePieces_inputs, hr, World.asked, inputs_of_writePieces hr]
    rw [if_pos rfl, bind_of_ok hr, bind_of_ok hafter]
    simp only [change, put, say, writePieces, bind_apply]
    generalize write (.text (source.readLine prompt).2.1) (w₁.asked input prompt source) = r
    obtain ⟨_ | _, w₂⟩ := r
    · rfl
    dsimp only
    -- What comes behind the end of the input is the interrupt for it.
    cases (source.readLine prompt).1 with
    | error err => rfl
    | ok r =>
      cases r with
      | eof => exact congrFun hf w₂
      | _ => rfl

namespace Delivers

variable {c : Config H} {w w₁ w₂ w' : World H}

theorem trans (h₁ : Delivers c w w₁) (h₂ : Delivers c w₁ w₂) : Delivers c w w₂ where
  toTells := h₁.toTells.trans h₂.toTells
  delivered := by
    intro pre m post writing hms hm
    rw [World.since_trans h₂.follows h₁.follows] at hms
    rcases split_append hms with ⟨mid, hmid, rfl⟩ | ⟨mid, rfl, hmid⟩
    · rw [List.map_append]
      exact (h₁.delivered hmid hm).trans (List.prefix_append _ _)
    · rw [Devices.through_append, ← h₁.devices] at hm ⊢
      exact h₂.delivered hmid hm

theorem of_silent (h : Silent c w w') : Delivers c w w' where
  toTells := h.toTells
  delivered := by
    intro pre m post writing hms hm
    have hmem : m ∈ w'.since w := by
      rw [hms]
      exact List.mem_append_right _ List.mem_cons_self
    rw [h.unmarked m hmem] at hm
    cases hm

/-- Something is to be written, and then it is. -/
theorem say {e : Event H} {u : Utterance}
    (hlog : w₁.log.toList = w.log.toList ++ [⟨e, w.view, w.host⟩])
    (hdevices : w₁.devices = w.devices.after c e) (hsink : w₁.sink = w.sink)
    (he : w.devices.utterance? c e = some u) : Delivers c w (Exec.say u w₁).2 := by
  have hsay : Silent c w₁ (Exec.say u w₁).2 := Silent.say_meets u w₁
  have hevent : Tells c w w₁ := .of_event hlog hdevices
  refine ⟨hevent.trans hsay.toTells, ?_⟩
  intro pre m post u' hms hm
  rw [World.since_trans hsay.follows hevent.follows, World.since_eq hlog] at hms
  rcases split_append hms with ⟨mid, hmid, rfl⟩ | ⟨mid, rfl, hmid⟩
  · -- The moment is the one at which it is to be written.
    obtain ⟨rfl, hmid⟩ | ⟨_, -, hmid⟩ := List.cons_eq_append_iff.1 hmid
    · obtain ⟨rfl, rfl⟩ := List.cons.inj hmid
      obtain rfl : u' = u := Option.some.inj (hm.symm.trans he)
      rw [List.nil_append, say_events, hsink]
      exact List.prefix_rfl
    · exact absurd hmid (by simp)
  · have hmem : m ∈ (Exec.say u w₁).2.since w₁ := by
      rw [hmid]
      exact List.mem_append_right _ List.mem_cons_self
    rw [hsay.unmarked m hmem] at hm
    cases hm

/-- Something happens by which nothing is to be written. -/
theorem of_event {e : Event H} (hlog : w'.log.toList = w.log.toList ++ [⟨e, w.view, w.host⟩])
    (hdevices : w'.devices = w.devices.after c e) (he : w.devices.utterance? c e = none) :
    Delivers c w w' where
  toTells := .of_event hlog hdevices
  delivered := by
    intro pre m post writing hms hm
    rw [World.since_eq hlog] at hms
    obtain ⟨rfl, hms⟩ | ⟨_, -, hms⟩ := List.cons_eq_append_iff.1 hms
    · obtain ⟨rfl, rfl⟩ := List.cons.inj hms
      exact absurd (he.symm.trans hm) (by simp)
    · exact absurd hms (by simp)

/-- A hook that is called writes what it should. -/
theorem fire (s : Session H) (name : String) (args : List Value) (w : World H) :
    Delivers s.config w (s.fire name args w).2 := by
  have hput : (s.fire name args w).2 = (Exec.say (s.config.hooks.writing name args).utterance
      (w.record (.fired name args))).2 := by
    rw [← Exec.put_eq_say]
    rfl
  rw [hput]
  exact say (w.log_record _) rfl rfl rfl

theorem print (s : Session H) (outcome : Outcome) (w : World H) :
    Delivers s.config w (s.print outcome w).2 := by
  have hput : (s.print outcome w).2 = (Exec.say (s.config.print outcome).flushed.utterance
      (w.record (.printed s.id outcome))).2 := by
    rw [← Exec.put_eq_say]
    rfl
  rw [hput]
  exact say (w.log_record _) rfl rfl rfl

/-- Commands and evaluations write what they should. -/
theorem acts (s : Session H) :
    Conduct.Acts (fun (w : World H) _ w' => Delivers s.config w w') s (fun _ => True)
      fun _ _ => True where
  refl _ := of_silent (.of_log_eq rfl rfl)
  trans h₁ h₂ := h₁.trans h₂
  spent _ := of_silent (.of_log_eq rfl rfl)
  host _ _ := of_silent (.of_log_eq rfl rfl)
  bears := .inl fun _ _ _ h => h
  raise w i _ := of_silent (.raise w i)
  courses _ _ _ _ := Course.raises_of_forall (fun _ _ => trivial) _
  put writing _ w := of_silent (Silent.writes.put_meets writing w)
  print := print s
  consulting _ _ _ _ := of_silent (.record fun _ => ⟨rfl, rfl⟩)

/-- An input that is asked for a line writes its prompt and what it shows, and if it gives none,
that arises, as long as that is what its session does then. -/
theorem readLine {α : Type} {f : Line.Read → Exec H α} (hf : f .eof = Exec.interrupt .endOfInput)
    (hrest : ∀ r, Exec.Meets (fun w _ w' => Delivers c w w') (f r)) (input : Nat)
    (prompt : String) :
    Exec.Meets (fun w _ w' => Delivers c w w') (Exec.readLine input prompt >>= f) := by
  intro w
  have hplace : w.devices.inputs[input]? = w.inputs[input]? := rfl
  cases hinput : w.inputs[input]? with
  | none =>
    -- There is no such input, and nothing to show.
    rw [Exec.bind_of_ok (Exec.readLine_of_none hinput prompt), hf]
    refine say (e := .prompted input prompt) (u := ⟨[], some .endOfInput⟩) (w.log_record _) ?_ rfl
      ?_
    · rw [Devices.after, hplace, hinput]
      rfl
    · rw [Devices.utterance?, hplace, hinput]
  | some source =>
    have hsay : Delivers c w (Exec.say ⟨source.announce prompt ++
        [.text (source.readLine prompt).2.1], Line.interrupt? (source.readLine prompt).1⟩
          (w.turnedTo input prompt source)).2 := by
      refine say (e := .prompted input prompt) ?_ ?_ ?_ ?_
      · rw [World.turnedTo]
        split <;> exact w.log_record _
      · rw [World.turnedTo, Devices.after, hplace, hinput]
        change World.devices (if (w.sink.takeAll (source.announce prompt)).1 = none then _ else _) =
          if (w.sink.takeAll (source.announce prompt)).1 = none then _ else _
        split <;> rfl
      · rw [World.turnedTo]
        split <;> rfl
      · rw [Devices.utterance?, hplace, hinput]
    rw [Exec.readLine_says hinput prompt hf, Exec.bind_apply]
    generalize Exec.say _ (w.turnedTo input prompt source) = r at hsay ⊢
    obtain ⟨_ | _, w₁⟩ := r
    · exact hsay
    · exact hsay.trans (hrest _ w₁)

section Steps

variable {run : Session.Runner H} {s : Session H}
  (hn : ∀ t, Exec.Meets (fun w _ w' => Delivers s.config w w') (s.nestVia run t))
include hn

/-- What a session does with a line that it has read is written as it should be. -/
theorem responds (rounds : Nat) :
    Conduct.Responds (fun (w : World H) _ w' => Delivers s.config w w') run rounds s where
  toOrders := (acts s).toOrders
  spent := (acts s).spent
  note w e he := of_silent (.work w e (Event.isWork_of_isNote he))
  endOfInput w := of_silent (.raise w _)
  heard w line := by
    refine of_event (e := .lineRead line) ?_ ?_ rfl
    · unfold World.heard
      dsimp only
      split
      · exact w.log_record _
      · exact w.log_record _
    · unfold World.heard Devices.after
      dsimp only
      split
      · rfl
      · rfl
  dispatch ctx line pending w :=
    (acts s).dispatch_allowed hn (fun w _ => of_silent (.work w _ rfl)) rounds ctx line pending w
      fun _ _ _ => Command.Plan.keeps_of_forall (fun _ => trivial) (fun _ _ _ => trivial) _

theorem readUnitFrom (rounds : Nat) (ctx : H.Context) (n : Nat) (pending : String) :
    Exec.Meets (fun w _ w' => Delivers s.config w w')
      (s.readUnitFrom run rounds ctx n pending) := by
  -- By induction on the rounds left: the lines behind the first one are read in fewer of them.
  induction n generalizing pending with
  | zero => exact (acts s).spent
  | succ n ih =>
    rw [Session.readUnitFrom_succ]
    refine (acts s).bind_meets ((acts s).read_meets _) fun level => ?_
    exact readLine rfl ((responds hn rounds).respond_meets ctx ih pending) _ _

/-- A step of a session writes what it should. -/
theorem step (rounds : Nat) (ctx : H.Context) :
    Exec.Meets (fun w _ w' => Delivers s.config w w') (s.step run rounds ctx) := by
  refine (acts s).bind_meets (readUnitFrom hn rounds ctx rounds "") fun source => ?_
  refine (acts s).bind_meets ?_ (print s)
  exact (acts s).toOrders.evaluate_meets (acts s).host (fun _ _ => of_silent (.of_log_eq rfl rfl))
    (fun w e he => of_silent (.work w e he)) ((acts s).evaluateIn_meets hn rounds ctx source)

end Steps

/-- A session writes what it should, if it does so while it is on the stack. -/
theorem ran {s : Session H} {receiver : Value} {body : Exec H Nat} {r : Except Stop Value}
    (hran : s.Ran receiver body w r w') (hbody : ∀ w, Delivers s.config w (body w).2) :
    Delivers s.config w w' := by
  have hfire : ∀ {name : String} {v v' : World H} {x : Except Stop Unit},
      s.fire name [receiver] v = (x, v') → Delivers s.config v v' := by
    intro name v v' x hx
    have h := fire s name [receiver] v
    rwa [hx] at h
  have hbegun : ∀ v : World H, Delivers s.config v (s.begun receiver v) := fun v =>
    of_silent (.of_log (s.begun_log receiver v) (by simp [Devices.after, Devices.utterance?]) rfl)
  have hleave : ∀ (v : World H) active depth, Delivers s.config v (v.leave active depth) :=
    fun v active depth =>
      of_silent
        (.of_log (v.leave_log active depth) (by simp [Devices.after, Devices.utterance?]) rfl)
  -- From before the hook for the begin until the session is off the stack.
  have hinside : ∀ {w₁ w₂ : World H} {x : Except Stop Nat},
      s.fire beforeSession [receiver] w = (.ok (), w₁) → body (s.begun receiver w₁) = (x, w₂) →
      Delivers s.config w (w₂.leave w₁.active w₁.depth) := by
    intro w₁ w₂ x hb hx
    have h := hbody (s.begun receiver w₁)
    rw [hx] at h
    exact (((hfire hb).trans (hbegun w₁)).trans h).trans (hleave _ _ _)
  cases hran with
  | refused hb => exact hfire hb
  | aborted hb hx => exact (hinside hb hx).trans (of_silent (.record fun _ => ⟨rfl, rfl⟩))
  | spent hb hx => exact hinside hb hx
  | failed hb hx ha => exact (hinside hb hx).trans (hfire ha)
  | ended hb hx ha =>
    exact ((hinside hb hx).trans (hfire ha)).trans (of_silent (.record fun _ => ⟨rfl, rfl⟩))
  | propagated hb hx ha =>
    exact ((hinside hb hx).trans (hfire ha)).trans (of_silent (.record fun _ => ⟨rfl, rfl⟩))

/-- Every run writes what it should. -/
theorem run (rounds : Nat) (s : Session H) (t : Target H.Context) (w : World H) :
    Delivers s.config w (Session.run rounds s t w).2 := by
  induction rounds generalizing s t w with
  | zero => exact (acts s).spent w
  | succ rounds ih =>
    rw [Session.run_succ]
    have hn : ∀ t, Exec.Meets (fun w _ w' => Delivers s.config w w')
        (s.nestVia (Session.run (H := H) rounds) t) := by
      intro t w
      have hid : Delivers s.config w { w with nextId := w.nextId + 1 } :=
        of_silent (.of_log_eq rfl rfl)
      exact hid.trans (ih ⟨w.nextId, s.config⟩ t { w with nextId := w.nextId + 1 })
    have hhost : Delivers s.config w { w with host := (H.resolve t w.host).2 } :=
      of_silent (.of_log_eq rfl rfl)
    have hbody := (acts s).toRuns.body_meets (step hn rounds (H.resolve t w.host).1)
    exact hhost.trans (ran (Session.runIn_ran _ rounds s _ _) hbody)

end Delivers

end CalcShell
