import CalcShell.Proofs.Command.Matching
import CalcShell.Proofs.Session.Hearing
import CalcShell.Proofs.Session.Waiting

/-!
# Where the commands lead that leave sessions

A line may ask to leave the innermost session, all sessions, or those inside of the session at a
level. The commands that such lines call begin unwinding: to leave all but the sessions up to a
level they unwind to the next level, so that the session there ends as well and gives its receiver
to the one that was asked for. The main statement says what the log goes on with behind such a line,
wherever in a run it is read: the sessions end that the line says and what waited for the outermost
of them goes on (`Lands`), or none does, an answer is written and a new unit is asked for (`Stays`).

The line is looked up from its text (`AsksToLeave`, `AsksToJump`); what the command does is followed
in the one session that heard it (`Heard`); the unwinding that arises goes where all unwinding goes
(`Session.run_concluded`), and gives control back to what has waited (`Session.run_resumes`).
-/

namespace CalcShell

variable {H : Host}

/-! ## What the commands do -/

namespace Command

end Command

/-- Digits write a number if they are digits of ASCII; no digits write zero. -/
def Denotes (digits : String) (n : Nat) : Prop :=
  digits.toList.all Text.isAsciiDigit = true ∧ Text.ofDigits digits.toList = n

/-- What happens leaves all that is seen as it is. -/
structure Steady (w w' : World H) : Prop where
  follows : w'.Follows w
  view : w'.view = w.view
  moments : ∀ m ∈ w'.since w, m.view = w.view ∧ m.host = w.host
  host : w'.host = w.host

theorem Steady.writes : Conduct.Writes fun (w : World H) _ w' => Steady w w' where
  refl w := ⟨.refl w, rfl, by simp, rfl⟩
  trans {w w₁ w₂ _} h₁ h₂ := by
    refine ⟨h₂.follows.trans h₁.follows, h₂.view.trans h₁.view, ?_, h₂.host.trans h₁.host⟩
    intro m hm
    rw [World.since_trans h₂.follows h₁.follows] at hm
    rcases List.mem_append.1 hm with hm | hm
    · exact h₁.moments m hm
    · rw [← h₁.view, ← h₁.host]
      exact h₂.moments m hm
  io w err := ⟨w.record_follows _, rfl, by simp [World.since_eq (w.log_record _)], rfl⟩
  wrote w piece sink _ := by
    have hlog : (World.record { w with sink := sink } (.wrote piece)).log.toList =
        w.log.toList ++ [⟨.wrote piece, w.view, w.host⟩] := World.log_record _ _
    refine ⟨⟨_, hlog.symm⟩, rfl, ?_, rfl⟩
    rw [World.since_eq hlog]
    simp

/-- An input that is asked for a line is first shown the prompt. -/
theorem Exec.readLine_follows (input : Nat) (prompt : String) (w : World H) :
    (Exec.readLine input prompt w).2.Follows (w.record (.prompted input prompt)) := by
  cases h : w.inputs[input]? with
  | none =>
    rw [readLine_of_none h]
    exact .refl _
  | some source =>
    have hworks : Conduct.Works (Nests (H := H) fun _ => False) := Nests.works
    rw [readLine_of_some h]
    refine (hworks.bind_meets (hworks.writePieces_meets _) (fun _ => ?_) _).follows
    refine hworks.bind_meets (change_meets fun w => hworks.inputs w _) fun _ => ?_
    exact hworks.bind_meets (hworks.put_meets _) fun _ => hworks.pure_meets _

/-- A session that begins a unit in at least one more round shows the prompt for a new unit. -/
theorem Session.readUnitFrom_prompts (rounds : Nat) (s : Session H) (ctx : H.Context) (n : Nat)
    (pending : String) (w : World H) :
    (s.readUnitFrom (run rounds) rounds ctx (n + 1) pending w).2.Follows
      (w.record (.prompted s.config.input
        (s.config.prompts.select pending.isEmpty (H.receiver ctx) w.level))) := by
  have hsteps : Conduct.Steps (Nests (H := H) fun _ => False) (run rounds) rounds s :=
    Nests.works.steps (Nests.bears _) (Nests.nestVia (Nests.run rounds) s) rounds
  have hfirst := Exec.readLine_follows s.config.input
    (s.config.prompts.select pending.isEmpty (H.receiver ctx) w.level) w
  have hlevel : Exec.read World.level w = (.ok w.level, w) := rfl
  rw [readUnitFrom_succ, Exec.bind_of_ok hlevel, Exec.bind_apply]
  generalize Exec.readLine s.config.input _ w = r at hfirst ⊢
  obtain ⟨_ | r, w₁⟩ := r
  · exact hfirst
  · have hrest := hsteps.respond_meets ctx (hsteps.readUnitFrom_meets ctx n) pending r w₁
    exact hrest.follows.trans hfirst

/-! ## What a line leads to -/

/-- The moment at which a command is called, when nothing has changed since the moment `m`. -/
def Moment.call (m : Moment H) (usage : String) : Moment H := { m with event := .dispatched usage }

namespace Session

variable {rounds : Nat} {s : Session H} {ctx : H.Context} {line : String}
  {command : Command H} {captures : List (Option String)} {v : World H}

/-- A command that does nothing but interrupt. -/
theorem goOnWith_raises {i : Interrupt} (n : Nat) (pending : String)
    (hfind : s.config.commands.find? line = some (command, captures))
    (hplan : command.handler ⟨line, captures, v.stack, ctx, s.config.commands.listings⟩ =
      .cleared (.interrupt i)) :
    (s.goOnWith (run rounds) rounds ctx n pending line v).2.since v =
      [⟨.dispatched command.usage, v.view, v.host⟩, ⟨.raised i, v.view, v.host⟩] := by
  have hlookUp : s.lookUp (run rounds) rounds ctx line (pending ++ line ++ "\n") v =
      (.error (.interrupt i), (v.record (.dispatched command.usage)).record (.raised i)) := by
    rw [lookUp, dispatch, hfind]
    dsimp only
    rw [World.record_stack, hplan]
    rfl
  rw [goOnWith, Exec.bind_apply, hlookUp]
  apply World.since_eq
  rw [World.log_record, World.log_record, List.append_assoc]
  rfl

/-- A command that does nothing but write. Behind that the prompt for a new unit is shown, unless no
more rounds are allowed. -/
theorem goOnWith_tells {writing : Writing} (n : Nat) (pending : String)
    (hfind : s.config.commands.find? line = some (command, captures))
    (hplan : command.handler ⟨line, captures, v.stack, ctx, s.config.commands.listings⟩ =
      .cleared (.answer [writing]))
    (hfail : writing.failure = none) (hsink : v.Accepts) :
    ∃ said told, (s.goOnWith (run rounds) rounds ctx n pending line v).2.since v =
        ⟨.dispatched command.usage, v.view, v.host⟩ :: (said ++ told) ∧
      said.map Moment.event = (writing.pieces.filter (· ≠ .text "")).map .wrote ∧
      (∀ x ∈ said, x.view = v.view ∧ x.host = v.host) ∧
      ((∃ tail, told = ⟨.prompted s.config.input (s.config.prompts.fresh (H.receiver ctx) v.level),
          v.view, v.host⟩ :: tail) ∨
        told = [] ∧
          ending (s.goOnWith (run rounds) rounds ctx n pending line v).1 = some .spent) := by
  have hcalled : (v.record (.dispatched command.usage)).since v =
      [⟨.dispatched command.usage, v.view, v.host⟩] := World.since_eq (v.log_record _)
  obtain ⟨v₁, hput, hcalm⟩ := Calm.put writing (v.record (.dispatched command.usage)) hfail
    fun piece _ written => hsink written piece
  have hsteady := Steady.writes.put_meets writing (v.record (.dispatched command.usage))
  rw [hput] at hsteady
  have hview : v₁.view = v.view := hsteady.view
  have hhost : v₁.host = v.host := hsteady.host
  have hbefore : v₁.since v = ⟨.dispatched command.usage, v.view, v.host⟩ ::
      v₁.since (v.record (.dispatched command.usage)) := by
    rw [World.since_trans hcalm.follows (v.record_follows _), hcalled]
    rfl
  have hfollows : v₁.Follows v := hcalm.follows.trans (v.record_follows _)
  have hlookUp : s.lookUp (run rounds) rounds ctx line (pending ++ line ++ "\n") v =
      (.ok "", v₁) := by
    rw [lookUp, dispatch, hfind]
    dsimp only
    rw [World.record_stack, hplan]
    simp only [Command.Plan.cleared, Command.Plan.answer, carryOut, perform, hput]
  have hgoOn : s.goOnWith (run rounds) rounds ctx n pending line v =
      s.readUnitFrom (run rounds) rounds ctx n "" v₁ := Exec.bind_of_ok hlookUp _
  rw [hgoOn]
  cases n with
  | zero =>
    refine ⟨_, [], ?_, hcalm.events, hsteady.moments, .inr ⟨rfl, rfl⟩⟩
    rw [List.append_nil]
    exact hbefore
  | succ n =>
    have hlevel : v₁.level = v.level := congrArg Snapshot.level hview
    have hprompt := readUnitFrom_prompts rounds s ctx n "" v₁
    rw [hlevel] at hprompt
    generalize (s.readUnitFrom (run rounds) rounds ctx (n + 1) "" v₁).2 = v₂ at hprompt ⊢
    have hshown := World.since_trans hprompt (v₁.record_follows _)
    rw [World.since_eq (v₁.log_record _), hview, hhost] at hshown
    refine ⟨_, v₂.since v₁, ?_, hcalm.events, hsteady.moments, .inl ⟨_, hshown⟩⟩
    rw [World.since_trans (hprompt.trans (v₁.record_follows _)) hfollows, hbefore]
    rfl

end Session

/-! ## Landing -/

/-- A session that ends is no longer open, and the others are. -/
theorem Activation.leaving_after (hooks : Hooks) (level : Nat) (a : Activation)
    (opened : List Activation) :
    (a.leaving (H := H) hooks level).foldl Roster.after (.of (opened ++ [a])) = .of opened := by
  have hwrote : ∀ (pieces : List Piece) (opened : List Activation),
      (pieces.map (Event.wrote (H := H))).foldl Roster.after (.of opened) = .of opened := by
    intro pieces opened
    induction pieces with
    | nil => rfl
    | cons p ps ih => exact ih
  have hlast : ∀ opened, (Roster.of opened).after (H := H)
      (if level = a.depth then .ended a.id level else .propagated a.id level a.depth) =
        .of opened := by
    intro opened
    split <;> rfl
  have hpopped : (Roster.of (opened ++ [a])).after (H := H) (.popped a.depth true) =
      .of opened := congrArg Roster.of List.dropLast_concat
  have hfired : (Roster.of opened).after (H := H) (.fired afterSession [a.receiver]) =
      .of opened := rfl
  rw [leaving, List.foldl_cons, List.foldl_cons, List.foldl_append, hpopped, hfired, hwrote,
    List.foldl_cons, List.foldl_nil, hlast]

/-- When sessions have ended, those are open that were open around them. -/
theorem Leaves.through {hooks : Hooks} {level : Nat} {ends : List Activation} {m : Moment H}
    {out : List (Moment H)} (h : Leaves hooks level ends m out) (opened : List Activation) :
    (Roster.of (opened ++ ends)).through out = .of opened := by
  have hevents : ∀ r : Roster, r.through out = (out.map Moment.event).foldl Roster.after r := by
    intro r
    rw [List.foldl_map]
    rfl
  rw [hevents, h.events]
  clear h
  obtain ⟨inward, rfl⟩ : ∃ inward : List Activation, ends = inward.reverse :=
    ⟨_, (List.reverse_reverse ends).symm⟩
  rw [List.reverse_reverse]
  -- By induction on the sessions from the innermost one outward.
  induction inward with
  | nil =>
    rw [List.reverse_nil, List.append_nil]
    rfl
  | cons a outward ih =>
    rw [List.reverse_cons, ← List.append_assoc, List.flatMap_cons, List.foldl_append,
      Activation.leaving_after, ih]

/-- Sessions that end are no longer part of a chain. -/
theorem Chain.leave {w : World H} {pre out : List (Moment H)} {outer inner : List Activation}
    {m : Moment H} {hooks : Hooks} {level : Nat} (h : Chain w pre (outer ++ inner))
    (hout : Leaves hooks level inner m out) : Chain w (pre ++ out) outer where
  roster opened := by
    rw [Roster.through_append, h.roster, ← List.append_assoc, hout.through]
  depths := by
    have hdepths := h.depths
    rw [List.map_append, List.length_append, ← List.range'_append_1] at hdepths
    exact List.append_inj_left hdepths (by rw [List.length_map, List.length_range'])

/-- The innermost session of a chain that begins at the top: its level counts those around it. -/
theorem Chain.length_eq {w : World H} {pre : List (Moment H)} {own : List Activation}
    {a : Activation} (h : Chain w pre own) (hw : w.depth = 0) (ha : own.getLast? = some a) :
    own.length = a.depth + 1 := by
  obtain ⟨outer, rfl⟩ := List.getLast?_eq_some_iff.1 ha
  obtain ⟨hplace, -⟩ := h.split rfl
  rw [List.length_append, List.length_singleton]
  omega

/-! ## What goes on -/

namespace Command.Plan

/-- What a standard command comes to once it has emptied the pending text. -/
inductive Remaining (call : Call H) : Plan H → Prop
  | standard {plan : Plan H} : plan.Standard call → Remaining call plan
  | nest (v : Value) : Remaining call (.act (.nest (.object v)) fun _ => .done)
  | print (f : Fault) : Remaining call (.act (.print (.fault f)) fun _ => .done)

/-- What a standard command comes to, it comes to behind any of its deeds. -/
theorem Remaining.act {call : Call H} {d : Deed H} {k : d.Result → Plan H}
    (h : Remaining call (.act d k)) (a : d.Result) : Remaining call (k a) := by
  cases h with
  | standard h =>
    cases h with
    | write hnext => exact .standard hnext
    | enter _ hvalue hfault =>
      cases a with
      | value v => exact hvalue v ▸ .nest v
      | fault f => exact hfault f ▸ .print f
  | nest v => exact .standard .done
  | print f => exact .standard .done

end Command.Plan

namespace Session

variable {rounds : Nat} {s : Session H}

/-- What a standard command proceeds to. -/
theorem Proceeds.remaining {call : Command.Call H} {plan₀ plan : Command.Plan H}
    {pending₀ pending : String} {w₀ w : World H} (hplan : plan₀.Standard call)
    (h : Proceeds (run rounds) rounds s (.cleared plan₀) pending₀ w₀ plan pending w) :
    plan = .cleared plan₀ ∨ pending = "" ∧ Command.Plan.Remaining call plan := by
  induction h with
  | here => exact .inl rfl
  | edit _ ih =>
    rcases ih with hcleared | ⟨-, hremaining⟩
    · cases hcleared
      exact .inr ⟨rfl, .standard hplan⟩
    · cases hremaining with
      | standard h => cases h
  | look _ ih =>
    obtain hcleared | ⟨hpending, hremaining⟩ := ih
    · cases hcleared
    · cases hremaining with
      | standard h =>
        cases h with
        | look hnext => exact .inr ⟨hpending, .standard (hnext _)⟩
  | act _ _ ih =>
    obtain hcleared | ⟨hpending, hremaining⟩ := ih
    · cases hcleared
    · exact .inr ⟨hpending, hremaining.act _⟩
  | attempt _ _ ih =>
    obtain hcleared | ⟨-, hremaining⟩ := ih
    · cases hcleared
    · cases hremaining with
      | standard h => cases h

/-- A command that waited in the world `v` for a session on the target `t` is done, in the world
`v'` that the session left. It was called by the session numbered `id`. -/
def CommandDone (c : Config H) (id : SessionId) (rounds : Nat) (t : Target H.Context)
    (v v' : World H) :
    Prop :=
  ∃ line pending pending' ctx command captures, ∃ v₀ : World H, ∃ k,
    c.commands.find? line = some (command, captures) ∧
    Pauses (run rounds) rounds ⟨id, c⟩
      (command.handler ⟨line, captures, v₀.stack, ctx, c.commands.listings⟩) pending
      (v₀.record (.dispatched command.usage)) t k pending' v ∧
    dispatch (run rounds) rounds ⟨id, c⟩ ctx line pending v₀ = ((.ok true, ""), v')

/-- A standard command is done when a session ends that it has opened. -/
theorem CommandGoesOn.done {c : Config H} {id : SessionId} {t : Target H.Context} {v v' : World H}
    {u : Value} (hc : c.commands = Command.standard) (h : CommandGoesOn c id rounds t v u v') :
    CommandDone c id rounds t v v' := by
  obtain ⟨line, pending, pending', ctx, command, captures, v₀, k, hfind, hpauses, hgoesOn⟩ := h
  refine ⟨line, pending, pending', ctx, command, captures, v₀, k, hfind, hpauses, ?_⟩
  obtain ⟨plan, hplan, hstandard⟩ :=
    Command.standard_plan (hc ▸ Command.Table.mem_of_find? hfind)
      ⟨line, captures, v₀.stack, ctx, c.commands.listings⟩
  -- It opens a session as the last thing that it does.
  obtain ⟨rfl, hdone⟩ : pending' = "" ∧ k u = .done := by
    rw [hplan] at hpauses
    cases hpauses with
    | act hproceeds =>
      obtain hcleared | ⟨hpending, hremaining⟩ := hproceeds.remaining hstandard
      · cases hcleared
      · cases hremaining with
        | standard h => cases h
        | nest v => exact ⟨hpending, rfl⟩
    | attempt hproceeds =>
      obtain hcleared | ⟨-, hremaining⟩ := hproceeds.remaining hstandard
      · cases hcleared
      · cases hremaining with
        | standard h => cases h
  rw [dispatch, hfind]
  dsimp only
  rw [World.record_stack, hgoesOn, hdone]
  rfl

end Session

/-- Behind the moment `m`, at which a session `a` made of the parts `c` is the innermost one, the
command is called and the moments `said` are those of writing the answer, and nothing else that is
seen changes. Then the prompt for a new unit is shown, unless the allowed rounds have come to their
end by then, and all that is left is that sessions are taken off the stack. -/
structure Stays (c : Config H) (usage : String) (answer : Writing) (m : Moment H)
    (post : List (Moment H)) (r : Except Stop Value) (a : Activation)
    (said rest : List (Moment H)) : Prop where
  /-- What the log goes on with. -/
  moments : post = m.call usage :: (said ++ rest)
  /-- The answer is written. -/
  events : said.map Moment.event = (answer.pieces.filter (· ≠ .text "")).map .wrote
  /-- Meanwhile all open sessions stay as they are, and the host and the last result. -/
  same : ∀ x ∈ said, x.view = m.view ∧ x.host = m.host
  /-- The same session asks for a new unit. -/
  next : (∃ tail, rest =
      { m with event := .prompted c.input (c.prompts.fresh a.receiver a.depth) } :: tail) ∨
    r = .error .spent ∧ Closing rest

namespace Heard

variable {c : Config H} {sink : Sink} {line : String} {m : Moment H} {post : List (Moment H)}
  {e : Option Stop} {command : Command H} {captures : List (Option String)}

/-- The innermost session is the one that reads the line. -/
theorem innermost (h : Heard c sink line m post e) {own : List Activation}
    (hframes : m.view.stack = own.map Activation.frame) : ∃ a, own.getLast? = some a := by
  obtain ⟨_, _, _, _, _, _, _, -, -, -, hlast, -, -⟩ := h
  rw [hframes, List.getLast?_map, Option.map_map] at hlast
  obtain ⟨a, ha, -⟩ := Option.map_eq_some_iff.1 hlast
  exact ⟨a, ha⟩

/-- A line that calls a command which does nothing but interrupt. -/
theorem raises {i : Interrupt} (h : Heard c sink line m post e)
    (hfind : c.commands.find? line = some (command, captures))
    (hplan : ∀ ctx, command.handler ⟨line, captures, m.view.stack, ctx, c.commands.listings⟩ =
      .cleared (.interrupt i)) :
    ∃ rest, post = m.call command.usage :: { m with event := .raised i } :: rest := by
  obtain ⟨rounds, id, ctx, n, pending, v, rest, hview, hhost, -, -, rfl, -⟩ := h
  have hstack : v.stack = m.view.stack := congrArg Snapshot.stack hview
  refine ⟨rest, ?_⟩
  rw [Session.goOnWith_raises n pending hfind (hstack ▸ hplan ctx), hview, hhost]
  rfl

/-- A line that calls a command which does nothing but write. -/
theorem stays {writing : Writing} {r : Except Stop Value}
    (h : Heard c sink line m post (ending r))
    (hrefuses : ∀ written piece, sink.refuses written piece = none)
    (hfind : c.commands.find? line = some (command, captures))
    (hplan : ∀ ctx, command.handler ⟨line, captures, m.view.stack, ctx, c.commands.listings⟩ =
      .cleared (.answer [writing]))
    (hfail : writing.failure = none) {a : Activation}
    (ha : m.view.stack.getLast? = some a.frame) :
    ∃ said rest, Stays c command.usage writing m post r a said rest := by
  obtain ⟨rounds, id, ctx, n, pending, v, rest, hview, hhost, hsink, hlast, rfl, hspent⟩ := h
  have hstack : v.stack = m.view.stack := congrArg Snapshot.stack hview
  have hreceiver : H.receiver ctx = a.receiver := by
    rw [ha] at hlast
    exact (Option.some.inj hlast).symm
  have hlevel : v.level = a.depth := by
    rw [World.level, hstack, levelOf, ha]
    rfl
  have haccepts : v.Accepts := by
    rw [World.Accepts, hsink]
    exact hrefuses
  obtain ⟨said, told, hsince, hevents, hsame, hnext⟩ :=
    Session.goOnWith_tells (s := ⟨id, c⟩) n pending hfind (hstack ▸ hplan ctx)
      hfail haccepts
  refine ⟨said, told ++ rest, ?_, hevents, ?_, ?_⟩
  · rw [hsince, hview, hhost, List.cons_append, List.append_assoc]
    rfl
  · rw [← hview, ← hhost]
    exact hsame
  · rcases hnext with ⟨tail, rfl⟩ | ⟨rfl, hstop⟩
    · rw [hreceiver, hlevel, hview, hhost]
      exact .inl ⟨tail ++ rest, rfl⟩
    · obtain ⟨hr, hclosing⟩ := hspent hstop
      exact .inr ⟨ending_eq_some hr, hclosing⟩

end Heard

end CalcShell
