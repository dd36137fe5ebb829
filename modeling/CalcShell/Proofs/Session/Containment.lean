import CalcShell.Proofs.Calc.Stopping
import CalcShell.Proofs.Command.Plans
import CalcShell.Proofs.Session.Unwinding

/-!
# No unwinding beyond the top

The levels that the standard commands unwind to are those of open sessions: the innermost one, the
outermost one, or one in between. Evaluations raise no interrupt but requests to end the program.
So unwinding that arises in a session either ends in it or goes to a level below the depth at which
it was entered. A session that is entered where none is open never ends by unwinding.

All this holds as long as nothing fails to be read or written, which a failing hook could turn into
an interrupt of another kind. A world where nothing fails is `Healthy`, and stays so.
-/

namespace CalcShell

/-- An interrupt that may reach the sessions around one entered at a depth, where nothing fails to
be read or written: unwinding goes below the depth, and a status has 32 bits. -/
def Interrupt.Within (depth : Nat) : Interrupt → Prop
  | .breakout level => level < depth
  | .exit status => -2 ^ 31 ≤ status ∧ status < 2 ^ 31
  | .endOfInput => True
  | .io _ => False

/-- A stop by the end of the allowed rounds or by such an interrupt. -/
def Stop.Within (depth : Nat) : Stop → Prop
  | .interrupt i => i.Within depth
  | .spent => True

theorem Interrupt.Within.mono {i : Interrupt} {depth depth' : Nat} (h : i.Within depth)
    (hle : depth ≤ depth') : i.Within depth' := by
  cases i with
  | breakout level => exact Nat.lt_of_lt_of_le h hle
  | exit status => exact h
  | endOfInput => trivial
  | io err => exact h

/-! ## What evaluations raise -/

theorem Course.Raises.mono {C σ α : Type} {P Q : Interrupt → Prop} (hPQ : ∀ i, P i → Q i)
    {course : Course C σ α} (h : course.Raises P) : course.Raises Q := by
  induction course with
  | done a s => trivial
  | interrupt i s => exact hPQ i h
  | spent s => trivial
  | nest t s k ih => exact fun u s => ih u s (h u s)
  | attempt t s k ih => exact fun r s => ih r s (h r s)

/-- The evaluations of the host raise no interrupt that only open sessions could take up. -/
def Host.Mild (H : Host) : Prop :=
  ∀ rounds c source state, (H.evaluate rounds c source state).Raises (Interrupt.Within 0)

/-- Evaluations of the language raise nothing but requests to end the program. -/
theorem Calc.host_mild : Calc.host.Mild := by
  intro rounds c source f
  have hstops : (Calc.evaluate rounds c source f).Stops (Stop.Within 0) :=
    Calc.evaluate_stops (fun _ hstatus => hstatus) (fun _ _ _ => trivial) rounds c f
  exact hstops.raises

/-! ## Inputs that never fail -/

namespace Line

/-- What becomes of an input when lines are read from it and it is asked to remember lines. -/
inductive Source.Leads (source : Source) : Source → Prop where
  | refl : source.Leads source
  | read {source' : Source} (prompt : String) :
      source.Leads source' → source.Leads (source'.readLine prompt).2.2
  | remember {source' : Source} (entry : String) :
      source.Leads source' → source.Leads (source'.remember entry)

theorem Source.Leads.trans {source source' source'' : Source} (h : source.Leads source')
    (h' : source'.Leads source'') : source.Leads source'' := by
  induction h' with
  | refl => exact h
  | read prompt _ ih => exact ih.read prompt
  | remember entry _ ih => exact ih.remember entry

/-- Reading from an input never fails, whatever was read and remembered before. -/
def Source.NeverFails (source : Source) : Prop :=
  ∀ source', source.Leads source' → ∀ prompt, ∃ r, (source'.readLine prompt).1 = .ok r

theorem Source.NeverFails.of_leads {source source' : Source} (h : source.NeverFails)
    (hleads : source.Leads source') : source'.NeverFails := fun _ hleads' =>
  h _ (hleads.trans hleads')

/-- A scripted input never fails that was prepared with no failure. -/
theorem Scripted.neverFails {script : Scripted} (h : ∀ r ∈ script.queue, ∃ x, r = .ok x) :
    (Source.scripted script).NeverFails := by
  intro source' hleads
  -- It stays a scripted input, with no more results than before.
  have hscript : ∃ script' : Scripted, source' = .scripted script' ∧
      ∀ r ∈ script'.queue, ∃ x, r = .ok x := by
    induction hleads with
    | refl => exact ⟨script, rfl, h⟩
    | read prompt _ ih =>
      obtain ⟨script', rfl, hqueue⟩ := ih
      refine ⟨(script'.readLine prompt).2, rfl, ?_⟩
      unfold readLine
      split
      · exact hqueue
      · rename_i hcons
        rw [hcons] at hqueue
        exact fun r hr => hqueue r (List.mem_cons_of_mem _ hr)
    | remember entry _ ih =>
      obtain ⟨script', rfl, hqueue⟩ := ih
      exact ⟨_, rfl, hqueue⟩
  obtain ⟨script', rfl, hqueue⟩ := hscript
  intro prompt
  unfold Source.readLine readLine
  dsimp only
  split
  · exact ⟨_, rfl⟩
  · rename_i hcons
    rw [hcons] at hqueue
    exact hqueue _ List.mem_cons_self

end Line

/-! ## Worlds where nothing fails -/

variable {H : Host}

/-- Nothing fails to be read or written, and the open sessions stand at their places. -/
structure World.Healthy (w : World H) : Prop where
  accepts : w.Accepts
  reads : ∀ source ∈ w.inputs, source.NeverFails
  depths : w.stack.map Frame.depth = List.range w.depth

/-- Where the world fits its open sessions, they stand at their places. -/
theorem World.Fits.healthy {w : World H} {opened : List Activation} (h : w.Fits opened)
    (haccepts : w.Accepts) (hreads : ∀ source ∈ w.inputs, source.NeverFails) : w.Healthy where
  accepts := haccepts
  reads := hreads
  depths := by
    have hstack : w.stack = opened.map Activation.frame := h.view.stack
    rw [World.depth, hstack, List.length_map, ← h.view.depths, List.map_map]
    rfl

namespace World.Healthy

variable {w w' : World H}

/-- A world is healthy that has the same stack, inputs and output as one that is. -/
theorem congr (h : w.Healthy) (hstack : w'.stack = w.stack) (hinputs : w'.inputs = w.inputs)
    (hrefuses : w'.sink.refuses = w.sink.refuses) : w'.Healthy where
  accepts := by
    rw [World.Accepts, hrefuses]
    exact h.accepts
  reads := by
    rw [hinputs]
    exact h.reads
  depths := by
    rw [World.depth, hstack]
    exact h.depths

/-- The level of the innermost session is one below the number of open sessions. -/
theorem levelOf_lt (h : w.Healthy) (hstack : w.stack ≠ []) : levelOf w.stack < w.depth := by
  have hlast : w.stack.getLast?.map Frame.depth = some (w.depth - 1) := by
    have hpos : w.depth ≠ 0 := fun hzero => hstack (List.length_eq_zero_iff.1 hzero)
    rw [← List.getLast?_map, h.depths, List.getLast?_range, if_neg hpos]
  have hpos : 0 < w.depth := List.length_pos_iff.2 hstack
  rw [levelOf, hlast]
  exact Nat.sub_lt hpos Nat.one_pos

/-- Something goes well, the world stays healthy, and the stack is kept. -/
def Does {α : Type} (w : World H) (m : Exec H α) : Prop :=
  ∃ a w', m w = (.ok a, w') ∧ w'.Healthy ∧ w'.stack = w.stack

theorem write (h : w.Healthy) (piece : Piece) : Does w (Exec.write piece) := by
  unfold Does Exec.write
  by_cases hp : piece = .text ""
  · rw [if_pos hp]
    exact ⟨(), w, rfl, h, rfl⟩
  · rw [if_neg hp, Sink.take, h.accepts]
    exact ⟨(), _, rfl, h.congr rfl rfl rfl, rfl⟩

/-- Writing goes well that does not fail by itself. -/
theorem put (h : w.Healthy) {writing : Writing} (hfail : writing.failure = none) :
    Does w (Exec.put writing) := by
  obtain ⟨w', hput, hcalm⟩ := Calm.put writing w hfail fun _ _ written => h.accepts written _
  have hnests : Nests (fun _ => False) w none w' := by
    have hmeets := (Nests.works (F := fun _ => False)).put_meets writing w
    rwa [hput] at hmeets
  exact ⟨(), w', hput, h.congr hnests.stack hcalm.inputs hcalm.refuses, hnests.stack⟩

/-- Calling a hook goes well that does not fail by itself. -/
theorem fire (h : w.Healthy) {s : Session H} {name : String} {args : List Value}
    (hfail : (s.config.hooks.writing name args).failure = none) : Does w (s.fire name args) :=
  put (w := w.record (.fired name args)) (h.congr rfl rfl rfl) hfail

/-- Reading a line goes well. -/
theorem readLine (h : w.Healthy) (input : Nat) (prompt : String) :
    Does w (Exec.readLine input prompt) := by
  cases hinput : w.inputs[input]? with
  | none => exact ⟨.eof, _, Exec.readLine_of_none hinput prompt, h.congr rfl rfl rfl, rfl⟩
  | some source =>
    have hsource := h.reads source (List.mem_of_getElem? hinput)
    obtain ⟨r, hr⟩ := hsource source .refl prompt
    have hprompted : (w.record (.prompted input prompt)).Healthy := h.congr rfl rfl rfl
    obtain ⟨_, w₁, hannounce, hw₁, hstack₁⟩ :
        Does (w.record (.prompted input prompt)) (Exec.put ⟨source.announce prompt, none⟩) :=
      hprompted.put rfl
    -- What is left of the input is put in its place.
    have hasked : (w₁.asked input prompt source).Healthy := by
      refine ⟨hw₁.accepts, fun other hother => ?_, hw₁.depths⟩
      rcases List.mem_or_eq_of_mem_set hother with hmem | rfl
      · exact hw₁.reads other hmem
      · exact hsource.of_leads (.read prompt .refl)
    obtain ⟨_, w₂, hshown, hw₂, hstack₂⟩ : Does (w₁.asked input prompt source)
        (Exec.put ⟨[.text (source.readLine prompt).2.1], none⟩) :=
      hasked.put rfl
    refine ⟨r, w₂, ?_, hw₂, hstack₂.trans hstack₁⟩
    rw [Exec.readLine_of_some hinput, Exec.bind_of_ok (Exec.writePieces_of_put hannounce), hr]
    exact (Exec.bind_of_ok rfl _).trans (Exec.bind_of_ok hshown _)

/-- A line is remembered. -/
theorem heard (h : w.Healthy) (input : Nat) (line : String) : (w.heard input line).Healthy := by
  unfold World.heard
  dsimp only
  split
  · refine ⟨h.accepts, fun source hsource => ?_, h.depths⟩
    obtain ⟨i, hi⟩ := List.getElem?_of_mem hsource
    rw [List.getElem?_modify] at hi
    obtain ⟨other, hother, rfl⟩ := Option.map_eq_some_iff.1 hi
    have hfails := h.reads other (List.mem_of_getElem? hother)
    split
    · exact hfails.of_leads (.remember line .refl)
    · exact hfails
  · exact h.congr rfl rfl rfl

/-- A session is put on the stack. -/
theorem begun (h : w.Healthy) (s : Session H) (receiver : Value) :
    (s.begun receiver w).Healthy where
  accepts := h.accepts
  reads := h.reads
  depths := by
    rw [s.begun_depth, s.begun_stack, List.map_append, h.depths, List.range_succ]
    rfl

/-- A session is taken off the stack, which is then as in a healthy world before. -/
theorem leave (h : w'.Healthy) (hw : w.Healthy) {active : Option SessionId} {depth : Nat}
    (hstack : (w'.leave active depth).stack = w.stack) : (w'.leave active depth).Healthy where
  accepts := h.accepts
  reads := h.reads
  depths := by
    rw [World.depth, hstack]
    exact hw.depths

end World.Healthy

/-! ## What stays within -/

/-- What a handler writes does not fail by itself. -/
def Command.Deed.Writes : Command.Deed H → Prop
  | .write w => w.failure = none
  | _ => True

/-- An interrupt to which a handler comes by itself that sees an innermost session at `level`: it
stays within every open session, or it unwinds to a level up to this one. -/
def Interrupt.UpTo (level : Nat) (i : Interrupt) : Prop :=
  i.Within 1 ∨ ∃ l ≤ level, i = .breakout l

/-- Where an interrupt goes up to the innermost session at most, it stays within the open ones. -/
theorem Interrupt.UpTo.within {w : World H} {i : Interrupt} (h : i.UpTo (levelOf w.stack))
    (hw : w.Healthy) (hstack : w.stack ≠ []) : i.Within w.depth := by
  rcases h with h | ⟨level, hlevel, rfl⟩
  · exact h.mono (List.length_pos_iff.2 hstack)
  · exact Nat.lt_of_le_of_lt hlevel (hw.levelOf_lt hstack)

/-- What a session is made of does not fail by itself, nor do its commands unwind but to open
sessions. -/
structure Config.Reliable (c : Config H) : Prop where
  commands : ∀ command ∈ c.commands, ∀ call,
    (command.handler call).Keeps Command.Deed.Writes (Interrupt.UpTo call.level)
  hooks : ∀ name args, (c.hooks.writing name args).failure = none
  print : ∀ outcome, (c.print outcome).failure = none

/-- No standard command unwinds but to an open session. -/
theorem Command.standard_reliable : ∀ command ∈ standard (H := H), ∀ call,
    (command.handler call).Keeps Deed.Writes (Interrupt.UpTo call.level) := by
  intro command hcommand call
  refine (standard_keeps hcommand call).mono (fun d hd => ?_) fun i hi => ?_
  · cases hd <;> first | rfl | trivial
  · rcases hi with rfl | hlevel
    · exact .inl ⟨by decide, by decide⟩
    · exact .inr hlevel

/-- The stack is kept, a healthy world stays healthy, and what stops while sessions are open stays
within them. -/
structure Contains (w : World H) (e : Option Stop) (w' : World H) : Prop where
  stack : w'.stack = w.stack
  healthy : w.Healthy → w'.Healthy
  within : w.Healthy → w.stack ≠ [] → ∀ stop, e = some stop → stop.Within w.depth

namespace Contains

variable {w w₁ w₂ w' : World H} {e : Option Stop}

theorem trans (h₁ : Contains w none w₁) (h₂ : Contains w₁ e w₂) : Contains w e w₂ where
  stack := h₂.stack.trans h₁.stack
  healthy hw := h₂.healthy (h₁.healthy hw)
  within hw hstack := by
    have hdepth : w₁.depth = w.depth := congrArg List.length h₁.stack
    rw [← h₁.stack] at hstack
    rw [← hdepth]
    exact h₂.within (h₁.healthy hw) hstack

/-- Nothing changes of what counts. -/
theorem of_eq (hstack : w'.stack = w.stack) (hinputs : w'.inputs = w.inputs)
    (hrefuses : w'.sink.refuses = w.sink.refuses)
    (he : w.Healthy → w.stack ≠ [] → ∀ stop, e = some stop → stop.Within w.depth) :
    Contains w e w' :=
  ⟨hstack, fun hw => hw.congr hstack hinputs hrefuses, he⟩

/-- Something happens that goes well in a healthy world. -/
theorem of_does {α : Type} {m : Exec H α} (hm : Exec.Meets (Nests fun _ => False) m)
    (hdoes : w.Healthy → World.Healthy.Does w m) : Contains w (ending (m w).1) (m w).2 where
  stack := (hm w).stack
  healthy hw := by
    obtain ⟨a, w', hmw, hw', -⟩ := hdoes hw
    rw [hmw]
    exact hw'
  within hw _ stop hstop := by
    obtain ⟨a, w', hmw, -⟩ := hdoes hw
    rw [hmw] at hstop
    cases hstop

/-- That an interrupt is caught leaves the stack and the health of the world as they are. -/
theorem catches : Conduct.Catches (Contains (H := H)) := fun _ _ _ h =>
  ⟨h.stack, h.healthy, by simp⟩

/-- What commands and evaluations do stays within the open sessions. -/
theorem acts (hH : H.Mild) {s : Session H} (hs : s.config.Reliable) :
    Conduct.Acts (Contains (H := H)) s Command.Deed.Writes
      fun w i => w.Healthy → w.stack ≠ [] → i.Within w.depth where
  refl w := of_eq rfl rfl rfl (by simp)
  trans h₁ h₂ := h₁.trans h₂
  spent w := of_eq rfl rfl rfl (by simp [Stop.Within])
  host w state := of_eq rfl rfl rfl (by simp)
  bears := .inl catches
  raise w i hmay := by
    refine of_eq rfl rfl rfl fun hw hstack stop hstop => ?_
    cases hstop
    exact hmay hw hstack
  courses rounds c source state :=
    (hH rounds c source state).mono fun _ hi _ _ _ => hi.mono (Nat.zero_le _)
  put writing hfail w := of_does (Nests.works.put_meets writing) fun hw => hw.put hfail
  print outcome w := by
    refine of_does (Nests.works.print_meets s outcome) fun hw => ?_
    have hprinted : (w.record (.printed s.id outcome)).Healthy := hw.congr rfl rfl rfl
    exact hprinted.put ((Writing.flushed_failure _).trans (hs.print outcome))
  consulting w id ctx source := of_eq rfl rfl rfl (by simp)

/-- What the steps of a session do stays within the open sessions, if the sessions opened on the way
do. -/
theorem steps (hH : H.Mild) {s : Session H} (hs : s.config.Reliable) {run : Session.Runner H}
    (hn : ∀ t, Exec.Meets Contains (s.nestVia run t)) (rounds : Nat) :
    Conduct.Steps Contains run rounds s where
  toRuns := (acts hH hs).toRuns
  last w v := of_eq rfl rfl rfl (by simp)
  work w ev _ := of_eq rfl rfl rfl (by simp)
  endOfInput w := of_eq rfl rfl rfl (by simp [Stop.Within, Interrupt.Within])
  readLine prompt w :=
    of_does (Nests.works.readLine_meets (fun _ => Nests.record fun _ => rfl) Nests.works.inputs)
      fun hw => hw.readLine _ prompt
  heard w line := by
    refine ⟨?_, fun hw => hw.heard _ line, by simp⟩
    unfold World.heard
    dsimp only
    split
    · rfl
    · rfl
  evaluateIn := (acts hH hs).evaluateIn_meets hn rounds
  dispatch ctx line pending w := by
    refine (acts hH hs).dispatch_allowed hn (fun w _ => of_eq rfl rfl rfl (by simp)) rounds ctx line
      pending w fun command captures hfind => ?_
    have hplan := hs.commands command (Command.Table.mem_of_find? hfind)
      ⟨line, captures, w.stack, ctx, s.config.commands.listings⟩
    refine hplan.mono (fun _ hd => hd) fun i hi w₁ hw₁ => ?_
    -- What came before kept the stack, so that the level that the command sees is still that of
    -- the innermost session.
    have hlevel : levelOf w.stack = levelOf w₁.stack := congrArg levelOf hw₁.stack.symm
    change i.UpTo (levelOf w.stack) at hi
    rw [hlevel] at hi
    exact hi.within
  print := (acts hH hs).print

end Contains

/-! ## What leaves a session -/

/-- How a session may end that was entered at a depth: with its receiver, or by a stop that stays
within the sessions around it. -/
def Session.EndsWithin (receiver : Value) (depth : Nat) : Except Stop Value → Prop
  | .ok v => v = receiver
  | .error stop => stop.Within depth

namespace Session

variable {s : Session H} {w w' : World H}

/-- Where no session is around it, a session does not end by unwinding. -/
theorem EndsWithin.at_top {receiver : Value} {r : Except Stop Value} (h : EndsWithin receiver 0 r) :
    r = .error .spent ∨ r = .ok receiver ∨ r = .error (.interrupt .endOfInput) ∨
      ∃ status : Int, -2 ^ 31 ≤ status ∧ status < 2 ^ 31 ∧
        r = .error (.interrupt (.exit status)) := by
  cases r with
  | ok v => exact .inr (.inl (congrArg _ h))
  | error stop =>
    cases stop with
    | spent => exact .inl rfl
    | interrupt i =>
      cases i with
      | breakout level => exact absurd h (Nat.not_lt_zero level)
      | exit status => exact .inr (.inr (.inr ⟨status, h.1, h.2, rfl⟩))
      | endOfInput => exact .inr (.inr (.inl rfl))
      | io err => exact h.elim

/-- A hook that does not fail by itself goes well in a healthy world. -/
theorem fire_healthy (hs : s.config.Reliable) {name : String} {args : List Value}
    {x : Except Stop Unit} (hw : w.Healthy) (hx : s.fire name args w = (x, w')) :
    x = .ok () ∧ w'.Healthy ∧ w'.stack = w.stack := by
  obtain ⟨_, v, hv, hhealthy, hstack⟩ := hw.fire (hs.hooks name args)
  obtain ⟨rfl, rfl⟩ := Prod.mk.inj (hx.symm.trans hv)
  exact ⟨rfl, hhealthy, hstack⟩

/-- What stops a session, other than unwinding to its own depth, stays within those around it. -/
theorem Ran.endsWithin (hs : s.config.Reliable) {receiver : Value} {body : Exec H Nat}
    {r : Except Stop Value} (hran : s.Ran receiver body w r w')
    (hbody : ∀ w, Contains w (bodyEnding (body w).1) (body w).2)
    (hcaught : ∀ w level, (body w).1 ≠ .error (.interrupt (.breakout level))) (hw : w.Healthy) :
    w'.Healthy ∧ EndsWithin receiver w.depth r := by
  -- While the session is on the stack, one more is open.
  have hinside : ∀ {w₁ w₂ : World H} {x : Except Stop Nat},
      s.fire beforeSession [receiver] w = (.ok (), w₁) → body (s.begun receiver w₁) = (x, w₂) →
      w₁.depth = w.depth ∧ (w₂.leave w₁.active w₁.depth).Healthy ∧
        ∀ stop, bodyEnding x = some stop → stop.Within (w.depth + 1) := by
    intro w₁ w₂ x hb hx
    obtain ⟨-, hw₁, hstack₁⟩ := fire_healthy hs hw hb
    have hdepth : w₁.depth = w.depth := congrArg List.length hstack₁
    have hin := hbody (s.begun receiver w₁)
    rw [hx] at hin
    have hbegun := hw₁.begun s receiver
    have hleave : (w₂.leave w₁.active w₁.depth).stack = w₁.stack := by
      change w₂.stack.dropLast = w₁.stack
      rw [hin.stack, s.begun_stack, List.dropLast_concat]
    refine ⟨hdepth, (hin.healthy hbegun).leave hw₁ hleave, ?_⟩
    have hopen : (s.begun receiver w₁).stack ≠ [] := by
      rw [s.begun_stack]
      simp
    rw [← hdepth, ← s.begun_depth receiver w₁]
    exact hin.within hbegun hopen
  cases hran with
  | refused hb => exact absurd (fire_healthy hs hw hb).1 (by simp)
  | @aborted w₁ w₂ i hb hx =>
    obtain ⟨-, hleave, hwithin⟩ := hinside hb hx
    refine ⟨hleave.congr rfl rfl rfl, ?_⟩
    have hi : i.Within (w.depth + 1) := hwithin _ rfl
    cases i with
    | breakout level => exact absurd (congrArg Prod.fst hx) (hcaught _ level)
    | exit status => exact hi
    | endOfInput => trivial
    | io err => exact hi
  | spent hb hx => exact ⟨(hinside hb hx).2.1, trivial⟩
  | failed hb hx ha => exact absurd (fire_healthy hs (hinside hb hx).2.1 ha).1 (by simp)
  | ended hb hx ha =>
    exact ⟨(fire_healthy hs (hinside hb hx).2.1 ha).2.1.congr rfl rfl rfl, rfl⟩
  | propagated hb hx ha hlevel =>
    obtain ⟨hdepth, hleave, hwithin⟩ := hinside hb hx
    refine ⟨(fire_healthy hs hleave ha).2.1.congr rfl rfl rfl, ?_⟩
    have hlt : _ < w.depth + 1 := hwithin _ rfl
    rw [hdepth] at hlevel
    exact Nat.lt_of_le_of_ne (Nat.lt_succ_iff.1 hlt) hlevel

/-- Running a session in a healthy world. -/
theorem run_endsWithin (hH : H.Mild) (rounds : Nat) (hs : s.config.Reliable) (t : Target H.Context)
    (hw : w.Healthy) :
    (run rounds s t w).2.Healthy ∧
      EndsWithin (H.receiver (H.resolve t w.host).1) w.depth (run rounds s t w).1 := by
  induction rounds generalizing s t w with
  | zero => exact ⟨hw, trivial⟩
  | succ rounds ih =>
    have hn : ∀ t, Exec.Meets (Contains (H := H)) (s.nestVia (run rounds) t) := by
      intro t v
      -- A session that is opened inside has the same parts, so that it ends within as well.
      have hinner := fun hv : v.Healthy =>
        ih (s := ⟨v.nextId, s.config⟩) (w := { v with nextId := v.nextId + 1 }) hs t
          (hv.congr rfl rfl rfl)
      refine ⟨(Nests.nest (F := fun _ => False) rounds s t v).stack, fun hv => (hinner hv).1, ?_⟩
      intro hv _ stop hstop
      have hends := (hinner hv).2
      rw [nestVia_apply] at hstop
      rwa [ending_eq_some hstop] at hends
    have hsteps := Contains.steps hH hs hn rounds
    rw [run_succ]
    have hran := runIn_ran (run rounds) rounds s (H.resolve t w.host).1
      { w with host := (H.resolve t w.host).2 }
    exact hran.endsWithin hs (hsteps.body_meets (hsteps.step_meets _)) (body_caught _ rounds s _)
      (hw.congr rfl rfl rfl)

theorem nest_endsWithin (hH : H.Mild) (rounds : Nat) (hs : s.config.Reliable) (t : Target H.Context)
    (hw : w.Healthy) :
    (nest rounds s t w).2.Healthy ∧
      EndsWithin (H.receiver (H.resolve t w.host).1) w.depth (nest rounds s t w).1 :=
  run_endsWithin (s := ⟨w.nextId, s.config⟩) (w := { w with nextId := w.nextId + 1 }) hH rounds hs t
    (hw.congr rfl rfl rfl)

/-- Let a session with the standard commands be run on a target, and let nothing fail to be read or
written. If no session is open, it gives the receiver of the target, or it ends by the end of the
input or by a request to end the program with a status of 32 bits, if it ends within the allowed
rounds. (In these only so much is read, so that it does not matter whether there is an end to the
input.) It never ends by unwinding. If sessions are open, a session that is run, and likewise one
that is opened inside of another one, ends by unwinding only to a level below their number. Neither
ever ends by a failure, and afterwards there is still nothing that fails. -/
theorem unwinding_contained (rounds : Nat) (s : Session Calc.host) (t : Target Calc.host.Context)
    (w : World Calc.host)
    (hcommands : s.config.commands = Command.standard)
    (hhooks : ∀ name args, (s.config.hooks.writing name args).failure = none)
    (hprint : ∀ outcome, (s.config.print outcome).failure = none) (hw : w.Healthy) :
    (w.depth = 0 →
      (run rounds s t w).1 = .error .spent ∨
      (run rounds s t w).1 = .ok (Calc.host.receiver (Calc.host.resolve t w.host).1) ∨
      (run rounds s t w).1 = .error (.interrupt .endOfInput) ∨
      ∃ status : Int, -2 ^ 31 ≤ status ∧ status < 2 ^ 31 ∧
        (run rounds s t w).1 = .error (.interrupt (.exit status))) ∧
    (∀ level, (run rounds s t w).1 = .error (.interrupt (.breakout level)) → level < w.depth) ∧
    (∀ level, (nest rounds s t w).1 = .error (.interrupt (.breakout level)) → level < w.depth) ∧
    (∀ err, (run rounds s t w).1 ≠ .error (.interrupt (.io err)) ∧
      (nest rounds s t w).1 ≠ .error (.interrupt (.io err))) ∧
    (run rounds s t w).2.Healthy ∧ (nest rounds s t w).2.Healthy := by
  have hs : s.config.Reliable := by
    refine ⟨?_, hhooks, hprint⟩
    rw [hcommands]
    exact Command.standard_reliable
  obtain ⟨hrunHealthy, hrun⟩ := run_endsWithin Calc.host_mild rounds hs t hw
  obtain ⟨hnestHealthy, hnest⟩ := nest_endsWithin Calc.host_mild rounds hs t hw
  refine ⟨?_, ?_, ?_, ?_, hrunHealthy, hnestHealthy⟩
  · intro hdepth
    rw [hdepth] at hrun
    exact hrun.at_top
  · intro level hr
    rwa [hr] at hrun
  · intro level hr
    rwa [hr] at hnest
  · intro err
    constructor
    · intro hr
      rwa [hr] at hrun
    · intro hr
      rwa [hr] at hnest

/-- A session inside of another one, which the user leaves with all others: it ends by unwinding to
the level of the outermost one, which is open. -/
theorem unwinding_contained_inside :
    let w : World Calc.host :=
      { host := .single, stack := [⟨0, .main⟩], active := some 1, nextId := 2,
        inputs := [.scripted { queue := [.ok (.line "exit_all")] }] }
    let s : Session Calc.host := ⟨1, .standard 0⟩
    w.Healthy ∧ (nest 9 s .topLevel w).1 = .error (.interrupt (.breakout 0)) ∧ 0 < w.depth := by
  intro w s
  have hfits : w.Fits [⟨1, 0, .main⟩] := ⟨⟨rfl, rfl, rfl, by simp⟩, by simp [w]⟩
  have hw : w.Healthy := by
    refine hfits.healthy (fun _ _ => rfl) ?_
    intro source hsource
    rw [List.mem_singleton.1 hsource]
    exact Line.Scripted.neverFails (by simp)
  have hprint : ∀ outcome, (s.config.print outcome).failure = none := by
    intro outcome
    cases outcome <;> rfl
  have hhooks : ∀ name args, (s.config.hooks.writing name args).failure = none := by
    intro name args
    change (Hooks.standard.writing name args).failure = none
    simp only [Hooks.writing, Hooks.standard, List.lookup]
    cases name == beforeSession <;> cases name == afterSession <;> rfl
  have hends : ending (nest 9 s .topLevel w).1 = some (.interrupt (.breakout 0)) := by
    decide +kernel
  have hr := ending_eq_some hends
  obtain ⟨-, -, hnest, -⟩ := unwinding_contained 9 s .topLevel w rfl hhooks hprint hw
  exact ⟨hw, hr, hnest 0 hr⟩

end Session

end CalcShell
