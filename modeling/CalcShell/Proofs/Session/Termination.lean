import CalcShell.Proofs.Calc.Evaluations
import CalcShell.Proofs.Calc.Stopping
import CalcShell.Proofs.Command.Matching
import CalcShell.Proofs.Command.Plans
import CalcShell.Proofs.Session.Reading

/-!
# Sessions on a script end

A scripted input has finitely many results to give. Every prompt takes one of them, except at the
end of the script, where the prompt is the last one: it ends all sessions. A session that goes on
with a further step, and one that opens another, has taken a result before. So the results that are
left bound the steps of all sessions, the lines of all units and the depth to which sessions are
opened. Whatever the units are, the rounds suffice that are two more than the results
(`Session.script_ends`), as long as no line asks for a loop.

`Finishes` is the conduct that carries this. It counts the prompts and the results behind them.
-/

namespace CalcShell

/-! ## Texts without loops -/

/-- A text in which the keyword of a loop does not occur. -/
def Loopless (text : String) : Prop := ¬"while".toList <:+: text.toList

/-- A part of such a text is such a text. -/
theorem Loopless.of_infix {text part : String} (h : Loopless text)
    (hpart : part.toList <:+: text.toList) : Loopless part := fun hwhile => h (hwhile.trans hpart)

/-- What starts a text with a line end, and has none itself, starts what stands before it. -/
theorem prefix_of_prefix_line {p cs ds : List Char} (hp : '\n' ∉ p)
    (h : p <+: cs ++ '\n' :: ds) : p <+: cs := by
  have hcs : cs <+: cs ++ '\n' :: ds := List.prefix_append cs _
  have hline : cs ++ ['\n'] <+: cs ++ '\n' :: ds := ⟨ds, by simp⟩
  by_cases hlength : p.length ≤ cs.length
  · exact List.prefix_of_prefix_length_le h hcs hlength
  · have hlong : (cs ++ ['\n']).length ≤ p.length := by
      rw [List.length_append, List.length_singleton]
      omega
    have hmem := (List.prefix_of_prefix_length_le hline h hlong).subset
    exact absurd (hmem (List.mem_append_right cs List.mem_cons_self)) hp

/-- What occurs in a text with a line end, and has none itself, occurs before or behind it. -/
theorem infix_of_infix_line {p cs ds : List Char} (hp : '\n' ∉ p) (h : p <:+: cs ++ '\n' :: ds) :
    p <:+: cs ∨ p <:+: ds := by
  induction cs with
  | nil =>
    rcases List.infix_cons_iff.1 h with h | h
    · exact .inl (@prefix_of_prefix_line p [] ds hp h).isInfix
    · exact .inr h
  | cons c cs ih =>
    rcases List.infix_cons_iff.1 h with h | h
    · exact .inl (@prefix_of_prefix_line p (c :: cs) ds hp h).isInfix
    · exact (ih h).imp_left fun h => h.trans (List.suffix_cons c cs).isInfix

/-- The text of lines without loops is one. -/
theorem loopless_unitText {lines : List String} (h : ∀ line ∈ lines, Loopless line) :
    Loopless (unitText lines) := by
  induction lines with
  | nil => exact show ¬"while".toList <:+: ("" : String).toList by decide
  | cons line lines ih =>
    intro hwhile
    have hsplit : unitText (line :: lines) = unitText [line] ++ unitText lines :=
      unitText_append [line] lines
    have hline : unitText [line] = line ++ "\n" := unitText_concat [] line
    rw [hsplit, hline, String.toList_append, String.toList_append, List.append_assoc] at hwhile
    rcases infix_of_infix_line (by decide) hwhile with hwhile | hwhile
    · exact h line List.mem_cons_self hwhile
    · exact ih (fun l hl => h l (List.mem_cons_of_mem line hl)) hwhile

/-- Sources without loops are evaluated in any number of rounds, and evaluations pass interrupts on.
-/
structure Host.Settles (H : Host) : Prop where
  stops : ∀ rounds c source state, Loopless source →
    (H.evaluate rounds c source state).Stops (· ≠ .spent)
  passesOn : H.PassesOn

theorem Calc.host_settles : Calc.host.Settles where
  stops rounds c _ f h := Calc.evaluate_ne_spent h rounds c f
  passesOn := Calc.host_passesOn

/-! ## Prompts and results -/

variable {H : Host}

/-- Whether a prompt is shown by an event. -/
def Event.isPrompt : Event H → Bool
  | .prompted .. => true
  | _ => false

/-- The number of prompts that are shown in some moments. -/
def promptsShown (ms : List (Moment H)) : Nat := ms.countP fun m => m.event.isPrompt

/-- The prompts over two stretches of time. -/
theorem promptsShown_trans {w w₁ w' : World H} (h₂ : w'.Follows w₁) (h₁ : w₁.Follows w) :
    promptsShown (w'.since w) = promptsShown (w₁.since w) + promptsShown (w'.since w₁) := by
  rw [World.since_trans h₂ h₁, promptsShown, List.countP_append, promptsShown, promptsShown]

/-- The results of a script hold no line with a loop. -/
def Plain (queue : List Line.ReadResult) : Prop := ∀ line, .ok (.line line) ∈ queue → Loopless line

theorem Plain.of_suffix {queue rest : List Line.ReadResult} (h : Plain queue)
    (hrest : rest <:+ queue) : Plain rest := fun line hline => h line (hrest.subset hline)

/-- Nothing is asked of the input between the two worlds. -/
structure Unasked (input : Nat) (w w' : World H) : Prop where
  follows : w'.Follows w
  prompts : promptsShown (w'.since w) = 0
  queue : w'.queue? input = w.queue? input

namespace Unasked

variable {input : Nat} {w w₁ w' : World H}

theorem of_log_eq (hlog : w'.log = w.log) (hqueue : w'.queue? input = w.queue? input) :
    Unasked input w w' where
  follows := .of_log_eq hlog
  prompts := by rw [World.since_of_log_eq hlog]; rfl
  queue := hqueue

theorem record {ev : Event H} (hev : ev.isPrompt = false) : Unasked input w (w.record ev) where
  follows := w.record_follows ev
  prompts := by
    rw [World.since_eq (w.log_record ev), promptsShown, List.countP_singleton, hev]
    rfl
  queue := rfl

theorem trans (h₁ : Unasked input w w₁) (h₂ : Unasked input w₁ w') : Unasked input w w' where
  follows := h₂.follows.trans h₁.follows
  prompts := by rw [promptsShown_trans h₂.follows h₁.follows, h₁.prompts, h₂.prompts]
  queue := h₂.queue.trans h₁.queue

/-- Something else than the input and the log changes, and something is recorded. -/
theorem record_of_eq {ev : Event H} (hlog : w'.log = w.log) (hinputs : w'.inputs = w.inputs)
    (hev : ev.isPrompt = false) : Unasked input w (w'.record ev) := by
  have hqueue : w'.queue? input = w.queue? input := by rw [World.queue?, World.queue?, hinputs]
  exact (of_log_eq hlog hqueue).trans (.record hev)

theorem begun (s : Session H) (receiver : Value) (w : World H) :
    Unasked input w (s.begun receiver w) := by
  have hstarted : Unasked input w (w.record (.started s.id w.depth receiver)) := .record rfl
  exact hstarted.trans (record_of_eq rfl rfl rfl)

theorem leave (w : World H) (active : Option SessionId) (depth : Nat) :
    Unasked input w (w.leave active depth) := record_of_eq rfl rfl rfl

end Unasked

/-- What becomes of the results of an input that has `queue` to give in the world `w` and `rest` in
the world `w'`. -/
structure Draws (allowed taken : Nat) (queue rest : List Line.ReadResult) (w : World H)
    (e : Option Stop) (w' : World H) : Prop where
  follows : w'.Follows w
  suffix : rest <:+ queue
  /-- Every prompt took a result, except for one that found the end. -/
  prompts : promptsShown (w'.since w) + rest.length ≤
    queue.length + if e = some (.interrupt .endOfInput) then 1 else 0
  /-- Where fewer results are left than the rounds allowed, the rounds do not come to their end. -/
  lasts : queue.length < allowed → e ≠ some .spent
  /-- What goes well has taken results. -/
  takes : e = none → rest.length + taken ≤ queue.length

namespace Draws

variable {allowed taken taken' : Nat} {queue rest rest' : List Line.ReadResult}
  {w w₁ w' : World H} {e : Option Stop}

/-- What takes results leaves fewer for what comes next, which therefore needs fewer rounds. -/
theorem trans (h₁ : Draws allowed taken queue rest w none w₁)
    (h₂ : Draws (allowed - taken) 0 rest rest' w₁ e w') :
    Draws allowed taken queue rest' w e w' where
  follows := h₂.follows.trans h₁.follows
  suffix := h₂.suffix.trans h₁.suffix
  prompts := by
    have hfirst := h₁.prompts
    have hsecond := h₂.prompts
    rw [if_neg (by simp)] at hfirst
    rw [promptsShown_trans h₂.follows h₁.follows]
    omega
  lasts hallowed := by
    have htaken := h₁.takes rfl
    exact h₂.lasts (by omega)
  takes he := by
    have hfirst := h₁.takes rfl
    have hsecond := h₂.takes he
    omega

theorem mono {allowed' : Nat} (h : Draws allowed taken queue rest w e w')
    (hallowed : allowed' ≤ allowed) (htaken : taken' ≤ taken) :
    Draws allowed' taken' queue rest w e w' where
  follows := h.follows
  suffix := h.suffix
  prompts := h.prompts
  lasts hlt := h.lasts (by omega)
  takes he := by
    have := h.takes he
    omega

end Draws

/-- Where an input is scripted without loops, the results it has to give are drawn like this. -/
def Finishes (input allowed taken : Nat) (w : World H) (e : Option Stop) (w' : World H) : Prop :=
  ∀ queue, w.queue? input = some queue → Plain queue →
    ∃ rest, w'.queue? input = some rest ∧ Draws allowed taken queue rest w e w'

namespace Finishes

variable {input allowed taken taken' : Nat} {w w₁ w' : World H} {e : Option Stop}

theorem trans (h₁ : Finishes input allowed taken w none w₁)
    (h₂ : Finishes input (allowed - taken) 0 w₁ e w') : Finishes input allowed taken w e w' := by
  intro queue hqueue hplain
  obtain ⟨rest, hrest, hdraws⟩ := h₁ queue hqueue hplain
  obtain ⟨rest', hrest', hdraws'⟩ := h₂ rest hrest (hplain.of_suffix hdraws.suffix)
  exact ⟨rest', hrest', hdraws.trans hdraws'⟩

theorem mono {allowed' : Nat} (h : Finishes input allowed taken w e w')
    (hallowed : allowed' ≤ allowed) (htaken : taken' ≤ taken) :
    Finishes input allowed' taken' w e w' := by
  intro queue hqueue hplain
  obtain ⟨rest, hrest, hdraws⟩ := h queue hqueue hplain
  exact ⟨rest, hrest, hdraws.mono hallowed htaken⟩

/-- Nothing is asked of the input, and the rounds do not come to their end. -/
theorem of_unasked (h : Unasked input w w') (he : e ≠ some .spent) :
    Finishes input allowed 0 w e w' := by
  intro queue hqueue _
  refine ⟨queue, h.queue.trans hqueue, h.follows, List.suffix_rfl, ?_, fun _ => he, ?_⟩
  · have := h.prompts
    omega
  · exact fun _ => Nat.le_refl _

/-- Nothing is asked of the input afterwards. -/
theorem then_unasked (h : Finishes input allowed taken w e w₁) (hrest : Unasked input w₁ w') :
    Finishes input allowed taken w e w' := by
  intro queue hqueue hplain
  obtain ⟨rest, hq, hdraws⟩ := h queue hqueue hplain
  refine ⟨rest, hrest.queue.trans hq, hrest.follows.trans hdraws.follows, hdraws.suffix, ?_,
    hdraws.lasts, hdraws.takes⟩
  rw [promptsShown_trans hrest.follows hdraws.follows, hrest.prompts]
  exact hdraws.prompts

/-- Unwinding that is caught has taken nothing of the input back. -/
theorem caught {level : Nat}
    (h : Finishes input allowed taken w (some (.interrupt (.breakout level))) w') :
    Finishes input allowed 0 w none w' := by
  intro queue hqueue hplain
  obtain ⟨rest, hrest, hdraws⟩ := h queue hqueue hplain
  exact ⟨rest, hrest, hdraws.follows, hdraws.suffix, hdraws.prompts, nofun,
    fun _ => hdraws.suffix.length_le⟩

theorem orders : Conduct.Orders (Finishes (H := H) input allowed 0) where
  refl w := of_unasked (.of_log_eq rfl rfl) (by simp)
  trans h₁ h₂ := h₁.trans h₂

/-- Nothing that is written is asked of the input. -/
theorem writes : Conduct.Writes (Finishes (H := H) input allowed 0) where
  toOrders := orders
  io w err := of_unasked (.record rfl) (by simp)
  wrote w piece sink _ := by
    exact of_unasked (.record_of_eq rfl rfl rfl) (by simp)

end Finishes

/-! ## Reading a unit -/

/-- A scripted input that is asked for a line gives its next result, or finds its end. -/
theorem readLine_of_queue {input : Nat} {w : World H} {queue : List Line.ReadResult}
    (h : w.queue? input = some queue) (prompt : String) :
    ∃ v : World H, v.Follows w ∧ promptsShown (v.since w) = 1 ∧ v.queue? input = some queue.tail ∧
      Exec.readLine input prompt w =
        match queue.headD (.ok .eof) with
        | .ok r => (.ok r, v)
        | .error err => Exec.interrupt (.io err) v := by
  unfold World.queue? at h
  split at h
  · rename_i script hscript
    cases h
    have hlt : input < w.inputs.length := (List.getElem?_eq_some_iff.1 hscript).1
    let v : World H := (w.record (.prompted input prompt)).asked input prompt (.scripted script)
    have hsince : v.since w = [⟨.prompted input prompt, w.view, w.host⟩] :=
      World.since_eq (w.log_record _)
    refine ⟨v, w.record_follows _, ?_, ?_, ?_⟩
    · rw [hsince]
      rfl
    · simp only [v, World.queue?, World.asked, World.record_inputs, List.getElem?_set_self hlt,
        Line.Source.readLine, Line.Scripted.readLine]
      cases script.queue <;> rfl
    · rw [Exec.readLine_of_scripted hscript, Line.Scripted.readLine]
      cases script.queue with
      | nil => rfl
      | cons r queue => cases r <;> rfl
  · cases h

namespace Exec

variable {α β : Type} {input allowed taken taken' : Nat} {P : α → Prop} {Q : β → Prop}

/-- Where an input is scripted without loops, `m` draws on it like this and gives only results that
satisfy `P`. -/
def Yields (input allowed taken : Nat) (P : α → Prop) (m : Exec H α) : Prop :=
  ∀ w queue, w.queue? input = some queue → Plain queue →
    ∃ rest, (m w).2.queue? input = some rest ∧
      Draws allowed taken queue rest w (ending (m w).1) (m w).2 ∧ ∀ a, (m w).1 = .ok a → P a

theorem Yields.meets {m : Exec H α} (h : Yields input allowed taken P m) :
    Meets (Finishes input allowed taken) m := by
  intro w queue hqueue hplain
  obtain ⟨rest, hrest, hdraws, -⟩ := h w queue hqueue hplain
  exact ⟨rest, hrest, hdraws⟩

theorem Yields.of_meets {m : Exec H α} (h : Meets (Finishes input allowed taken) m)
    (hP : ∀ w a, (m w).1 = .ok a → P a) : Yields input allowed taken P m := by
  intro w queue hqueue hplain
  obtain ⟨rest, hrest, hdraws⟩ := h w queue hqueue hplain
  exact ⟨rest, hrest, hdraws, hP w⟩

theorem Yields.mono {allowed' : Nat} {m : Exec H α} (h : Yields input allowed taken P m)
    (hallowed : allowed' ≤ allowed) (htaken : taken' ≤ taken) :
    Yields input allowed' taken' P m := by
  intro w queue hqueue hplain
  obtain ⟨rest, hrest, hdraws, hP⟩ := h w queue hqueue hplain
  exact ⟨rest, hrest, hdraws.mono hallowed htaken, hP⟩

/-- One after the other: what comes second finds fewer results. -/
theorem Yields.bind {m : Exec H α} {f : α → Exec H β} (hm : Yields input allowed taken P m)
    (hf : ∀ a, P a → Yields input (allowed - taken) 0 Q (f a)) :
    Yields input allowed taken Q (m >>= f) := by
  intro w queue hqueue hplain
  obtain ⟨rest, hrest, hdraws, hP⟩ := hm w queue hqueue hplain
  rw [bind_apply]
  generalize m w = r at hrest hdraws hP ⊢
  obtain ⟨stop | a, w₁⟩ := r
  · refine ⟨rest, hrest, ?_, nofun⟩
    exact { hdraws with takes := nofun }
  · obtain ⟨rest', hrest', hdraws', hQ⟩ :=
      hf a (hP a rfl) w₁ rest hrest (hplain.of_suffix hdraws.suffix)
    exact ⟨rest', hrest', hdraws.trans hdraws', hQ⟩

theorem Yields.read_bind {g : World H → α} {f : α → Exec H β}
    (h : ∀ a, Yields input allowed taken Q (f a)) :
    Yields input allowed taken Q (Exec.read g >>= f) := fun w => h (g w) w

/-- The rounds come to their end where none are allowed. -/
theorem Yields.spent : Yields input 0 taken P (Exec.stop .spent : Exec H α) := by
  intro w queue hqueue _
  refine ⟨queue, hqueue, ⟨.refl w, List.suffix_rfl, ?_, fun hlt => ?_, nofun⟩, nofun⟩
  · rw [show ((Exec.stop .spent : Exec H α) w).2 = w from rfl, World.since_self]
    exact Nat.le_of_eq (Nat.zero_add _)
  · exact absurd hlt (Nat.not_lt_zero _)

/-- What goes well and asks nothing of the input. -/
theorem Yields.of_unasked {m : Exec H α}
    (h : ∀ w, ∃ a w', m w = (.ok a, w') ∧ Unasked input w w' ∧ P a) :
    Yields input allowed 0 P m := by
  refine .of_meets (fun w => ?_) fun w a ha => ?_
  · obtain ⟨a, w', hm, hunasked, -⟩ := h w
    rw [hm]
    exact .of_unasked hunasked nofun
  · obtain ⟨a', w', hm, -, hP⟩ := h w
    rw [hm] at ha
    cases ha
    exact hP

/-- What is interrupted asks nothing of the input. -/
theorem Yields.interrupt (i : Interrupt) :
    Yields input allowed taken P (Exec.interrupt i : Exec H α) := by
  have hraised : Meets (Finishes input allowed taken) (Exec.interrupt i : Exec H α) := by
    intro w queue hqueue hplain
    have hunasked : Unasked input w (w.record (.raised i)) := .record rfl
    obtain ⟨rest, hrest, hdraws⟩ :=
      Finishes.of_unasked (e := some (.interrupt i)) hunasked (by simp) queue hqueue hplain
    exact ⟨rest, hrest, { hdraws with takes := nofun }⟩
  exact .of_meets hraised nofun

/-- Reading a line takes a result, unless the script has come to its end. -/
theorem Yields.readLine {f : Line.Read → Exec H α} (prompt : String)
    (heof : f .eof = Exec.interrupt .endOfInput)
    (hcancelled : Yields input (allowed - 1) 0 P (f .interrupted))
    (hline : ∀ line, Loopless line → Yields input (allowed - 1) 0 P (f (.line line))) :
    Yields input allowed 1 P (Exec.readLine input prompt >>= f) := by
  intro w queue hqueue hplain
  obtain ⟨v, hfollows, hprompts, hv, hread⟩ := readLine_of_queue hqueue prompt
  rw [bind_apply, hread]
  cases queue with
  | nil =>
    -- Here the prompt takes nothing, but it is the last one.
    simp only [List.headD_nil, heof]
    have hraised : Unasked input v (v.record (.raised .endOfInput)) := .record rfl
    refine ⟨[], hv, ⟨hraised.follows.trans hfollows, List.suffix_rfl, ?_, nofun, nofun⟩, nofun⟩
    have hshown := promptsShown_trans hraised.follows hfollows
    rw [hprompts, hraised.prompts] at hshown
    exact Nat.le_of_eq hshown
  | cons r queue =>
    have hdrawn : Draws allowed 1 (r :: queue) queue w none v := by
      refine ⟨hfollows, List.suffix_cons r queue, ?_, nofun, fun _ => Nat.le_refl _⟩
      rw [hprompts, List.length_cons]
      omega
    have hgo : ∀ m : Exec H α, Yields input (allowed - 1) 0 P m →
        ∃ rest, (m v).2.queue? input = some rest ∧
          Draws allowed 1 (r :: queue) rest w (ending (m v).1) (m v).2 ∧
          ∀ a, (m v).1 = .ok a → P a := by
      intro m hm
      obtain ⟨rest, hrest, hdraws, hP⟩ := hm v queue hv (hplain.of_suffix hdrawn.suffix)
      exact ⟨rest, hrest, hdrawn.trans hdraws, hP⟩
    cases r with
    | error err => exact hgo _ (.interrupt (.io err))
    | ok r =>
      cases r with
      | eof => exact hgo _ (heof ▸ .interrupt .endOfInput)
      | interrupted => exact hgo _ hcancelled
      | line line => exact hgo _ (hline line (hplain line List.mem_cons_self))

end Exec

/-- A source that a handler evaluates has no loop. -/
def Command.Deed.Loopless : Command.Deed H → Prop
  | .evaluate _ source => CalcShell.Loopless source
  | _ => True

namespace Session

variable {run : Runner H} {allowed : Nat} {s : Session H}

/-- A source without loops draws on the input as the sessions do that it opens. -/
theorem finishes_evaluateIn (hH : H.Settles) (rounds : Nat)
    (hn : ∀ t, Exec.Meets (Finishes s.config.input allowed 0) (s.nestVia run t)) (c : H.Context)
    {source : String} (hsource : Loopless source) :
    Exec.Meets (Finishes s.config.input allowed 0) (s.evaluateIn run rounds c source) := by
  intro w
  refine Finishes.orders.follow_meets (fun w state => .of_unasked (.of_log_eq rfl rfl) (by simp))
    hn (.inr (hH.passesOn rounds c source w.host)) ?_ w
  refine (hH.stops rounds c source w.host hsource).mono fun stop hstop w => ?_
  cases stop with
  | interrupt i => exact .of_unasked (.record rfl) (by simp)
  | spent => exact absurd rfl hstop

/-- Commands without loops draw on the input as the sessions do that they open. -/
theorem finishes_obeys (hH : H.Settles) (rounds : Nat)
    (hn : ∀ t, Exec.Meets (Finishes s.config.input allowed 0) (s.nestVia run t)) :
    Conduct.Obeys (Finishes s.config.input allowed 0) run rounds s Command.Deed.Loopless
      fun _ _ => True where
  toOrders := Finishes.orders
  raise w i _ := .of_unasked (.record rfl) (by simp)
  put writing _ := Finishes.writes.put_meets writing
  print outcome :=
    Finishes.orders.bind_meets (fun _ => .of_unasked (.record rfl) nofun) fun _ =>
      Finishes.writes.put_meets _
  consult c source hsource := Finishes.orders.consult_meets
    (fun w => .of_unasked (.record rfl) (by simp)) (finishes_evaluateIn hH rounds hn c hsource)
  nest t _ := hn t

variable (hH : H.Settles) (hs : s.config.commands = Command.standard)
  (hn : ∀ t, Exec.Meets (Finishes s.config.input allowed 0) (s.nestVia run t))

omit hH hs hn in
/-- What the standard commands evaluate stands in the line that calls them. -/
theorem standard_loopless {call : Command.Call H} {d : Command.Deed H} (hd : d.Standard call)
    (hline : Loopless call.line) {command : Command H}
    (h : Command.standard.find? call.line = some (command, call.captures)) : d.Loopless := by
  cases hd with
  | @evaluate source hsource =>
    have hmem : some source ∈ call.captures := by
      rw [Command.Call.argument?] at hsource
      cases hcaptures : call.captures with
      | nil =>
        rw [hcaptures] at hsource
        cases hsource
      | cons part captures =>
        rw [hcaptures] at hsource
        obtain rfl : part = some source := hsource
        exact List.mem_cons_self
    exact hline.of_infix (Command.Table.captures_infix h hmem)
  | _ => trivial

include hH hs hn

/-- A line without loops leads to nothing but what the sessions do that it opens. -/
theorem takeLine_finishes (rounds : Nat) (ctx : H.Context) (pending : String) {line : String}
    (hline : Loopless line) :
    Exec.Meets (Finishes s.config.input allowed 0) (s.takeLine run rounds ctx pending line) := by
  intro w
  have hheard : Unasked s.config.input w (w.heard s.config.input line) := by
    have hread : Unasked s.config.input w (w.record (.lineRead line)) := .record rfl
    unfold World.heard
    dsimp only
    split
    · exact hread.trans (.of_log_eq rfl (World.queue?_remember _ _ _ _))
    · exact hread
  have hobeys := finishes_obeys hH rounds hn
  have hpasses : s.config.commands.PassesOn := hs ▸ Command.standard_passesOn
  have hdispatch := hobeys.dispatch_allowed (fun w _ => .of_unasked (.record rfl) (by simp))
    (.inr hpasses) ctx line (pending ++ line ++ "\n") (w.heard s.config.input line)
    fun command captures hfind => by
      rw [hs] at hfind
      refine (Command.standard_keeps (Command.Table.mem_of_find? hfind) _).mono (fun d hd => ?_)
        fun _ _ _ _ => trivial
      exact standard_loopless hd hline hfind
  rw [takeLine_apply, lookUp]
  generalize s.dispatch run rounds ctx line _ _ = r at hdispatch ⊢
  have hbefore : Finishes s.config.input allowed 0 w none (w.heard s.config.input line) :=
    .of_unasked hheard (by simp)
  have hall := hbefore.trans hdispatch
  obtain ⟨⟨_ | _, rest⟩, w₁⟩ := r
  · exact hall
  · exact hall

omit hH hs hn in
/-- Asking the host asks nothing of the input. -/
theorem judged_unasked {input : Nat} (text : String) (w : World H) :
    Unasked input w (judged text w) := by
  unfold judged
  split
  · exact .record rfl
  · exact .record rfl
  · exact .of_log_eq rfl rfl

omit hH hn in
/-- What is pending behind a line: nothing if it calls a command, else the line as well. -/
theorem takeLine_pending (rounds : Nat) (ctx : H.Context) {pending line rest : String} {w : World H}
    (h : (s.takeLine run rounds ctx pending line w).1 = .ok rest) :
    rest = "" ∨ rest = pending ++ line ++ "\n" := by
  rw [takeLine_apply, lookUp] at h
  cases hfind : s.config.commands.find? line with
  | none =>
    rw [dispatch_none run rounds s ctx _ hfind] at h
    cases h
    exact .inr rfl
  | some found =>
    obtain ⟨command, captures⟩ := found
    have hempty := dispatch_clears run rounds s ctx (pending ++ line ++ "\n")
      (hs ▸ Command.standard_clears) hfind (w.heard s.config.input line)
    generalize s.dispatch run rounds ctx line _ _ = r at h hempty
    obtain ⟨⟨_ | _, rest'⟩, w₁⟩ := r
    · cases h
    · cases h
      exact .inl hempty

/-- Reading a unit takes a result and gives a text without loops. -/
theorem readUnitFrom_yields (rounds : Nat) (ctx : H.Context) (n : Nat) (lines : List String)
    (hlines : ∀ line ∈ lines, Loopless line) :
    Exec.Yields s.config.input (min n (allowed + 1)) 1 Loopless
      (s.readUnitFrom run rounds ctx n (unitText lines)) := by
  induction n generalizing lines with
  | zero =>
    rw [Nat.zero_min]
    exact .spent
  | succ n ih =>
    have hallowed : min (n + 1) (allowed + 1) - 1 ≤ min n (allowed + 1) := by omega
    unfold readUnitFrom
    refine .read_bind fun level => .readLine _ rfl ?_ fun line hline => ?_
    · -- The line is given up, and the unit begins anew.
      have hgo := (ih [] (by simp)).mono hallowed (Nat.zero_le 1)
      exact Exec.Yields.bind (P := fun _ => True)
        (.of_unasked fun w => ⟨_, _, rfl, .record rfl, trivial⟩) fun _ _ => hgo
    · have htake : Exec.Yields s.config.input (min (n + 1) (allowed + 1) - 1) 0
          (fun rest => ∃ ls, rest = unitText ls ∧ ∀ l ∈ ls, Loopless l)
          (s.takeLine run rounds ctx (unitText lines) line) := by
        have hmeets : Exec.Meets _ _ := fun w =>
          (takeLine_finishes hH hs hn rounds ctx (unitText lines) hline w).mono
            (by omega : min (n + 1) (allowed + 1) - 1 ≤ allowed) (Nat.le_refl 0)
        refine .of_meets hmeets fun w rest hrest => ?_
        rcases takeLine_pending hs rounds ctx hrest with rfl | rfl
        · exact ⟨[], rfl, by simp⟩
        · refine ⟨lines ++ [line], (unitText_concat lines line).symm, fun l hl => ?_⟩
          rcases List.mem_append.1 hl with hl | hl
          · exact hlines l hl
          · exact List.mem_singleton.1 hl ▸ hline
      refine htake.bind fun rest hrest => ?_
      obtain ⟨ls, rfl, hls⟩ := hrest
      have hgo := (ih ls hls).mono hallowed (Nat.zero_le 1)
      split
      · exact hgo
      · have hcomplete : Exec.Yields s.config.input (min (n + 1) (allowed + 1) - 1) 0
            (fun _ => True) (isComplete (H := H) (unitText ls)) :=
          .of_unasked fun w => ⟨_, _, isComplete_apply _ w, judged_unasked _ w, trivial⟩
        refine hcomplete.bind fun complete _ => ?_
        split
        · exact .of_unasked fun w => ⟨_, _, rfl, .of_log_eq rfl rfl, loopless_unitText hls⟩
        · exact hgo

end Session

/-! ## Sessions -/

namespace Session

variable {run : Runner H} {rounds : Nat} {s : Session H} (hH : H.Settles)
  (hs : s.config.commands = Command.standard)
  (hn : ∀ t, Exec.Meets (Finishes s.config.input (rounds - 1) 0) (s.nestVia run t))
include hH hs hn

/-- A step takes a result. -/
theorem step_finishes (ctx : H.Context) :
    Exec.Meets (Finishes s.config.input rounds 1) (s.step run rounds ctx) := by
  have hobeys := finishes_obeys hH rounds hn
  have hread := readUnitFrom_yields hH hs hn rounds ctx rounds [] (by simp)
  have hrest : ∀ source, Loopless source → Exec.Yields s.config.input (rounds - 1) 0
      (fun _ => True) (s.evaluate run rounds ctx source >>= s.print) := by
    intro source hsource
    have heval := Finishes.orders.evaluate_meets
      (fun _ _ => .of_unasked (.of_log_eq rfl rfl) nofun)
      (fun _ _ => .of_unasked (.of_log_eq rfl rfl) nofun)
      (fun w ev hev => .of_unasked (.record (by cases ev <;> first | rfl | cases hev)) nofun)
      (finishes_evaluateIn hH rounds hn ctx hsource)
    exact .of_meets (hobeys.bind_meets heval hobeys.print) fun _ _ _ => trivial
  exact ((hread.mono (by omega) (Nat.le_refl 1)).bind hrest).meets

/-- The steps of a session need no more rounds than there are results. -/
theorem reps_finishes (ctx : H.Context) (n : Nat) :
    Exec.Meets (Finishes s.config.input (min n rounds) 0) (s.reps run rounds ctx n) := by
  induction n with
  | zero =>
    rw [Nat.zero_min]
    exact (Exec.Yields.spent (P := fun _ => True)).meets
  | succ n ih =>
    intro w
    have hstep := step_finishes hH hs hn ctx w
    simp only [reps, rep, Exec.bind_apply, Exec.attempt]
    generalize s.step run rounds ctx w = r at hstep ⊢
    obtain ⟨r, w₁⟩ := r
    cases r with
    | ok u =>
      have hgo := (ih w₁).mono (by omega : min (n + 1) rounds - 1 ≤ min n rounds) (Nat.le_refl 0)
      exact ((hstep.mono (Nat.min_le_right _ _) (Nat.le_refl 1)).trans hgo).mono (Nat.le_refl _)
        (Nat.zero_le 1)
    | error stop =>
      have hstop := hstep.mono (Nat.min_le_right (n + 1) rounds) (Nat.zero_le 1)
      cases stop with
      | spent => exact hstop
      | interrupt i =>
        cases i with
        | breakout level => exact hstop.caught
        | exit status => exact hstop
        | endOfInput => exact hstop
        | io err => exact hstop

/-- What a session does while it is on the stack needs no more rounds than there are results. -/
theorem body_finishes (ctx : H.Context) :
    Exec.Meets (Finishes s.config.input rounds 0) (s.body run rounds ctx) := by
  refine Finishes.orders.bind_meets ?_ fun _ => ?_
  · exact fun _ => .of_unasked (.of_log_eq rfl rfl) nofun
  · have hreps := reps_finishes hH hs hn ctx rounds
    rwa [Nat.min_self] at hreps

omit hH hs hn in
/-- A session draws on the input as it does while it is on the stack. -/
theorem Ran.finishes {input : Nat} {receiver : Value} {body : Exec H Nat}
    (hbody : Exec.Meets (Finishes input rounds 0) body) {w w' : World H} {r : Except Stop Value}
    (h : Ran s receiver body w r w') : Finishes input rounds 0 w (ending r) w' := by
  have hfire : ∀ {name : String} {w w₁ : World H} {x : Except Stop Unit},
      s.fire name [receiver] w = (x, w₁) → Finishes input rounds 0 w (ending x) w₁ := by
    intro name w w₁ x hx
    have hmeets := Finishes.writes.fire_meets (R := Finishes (H := H) input rounds 0) s name
      [receiver] (fun _ => .of_unasked (.record rfl) nofun) w
    rwa [hx] at hmeets
  -- A session that got on the stack is taken off it, however it ended.
  have hframe : ∀ {w₁ w₂ x}, s.fire beforeSession [receiver] w = (.ok (), w₁) →
      body (s.begun receiver w₁) = (x, w₂) →
      Finishes input rounds 0 w (ending x) (w₂.leave w₁.active w₁.depth) := by
    intro w₁ w₂ x hb hx
    have hbegun : Finishes input rounds 0 w none (s.begun receiver w₁) :=
      (hfire hb).then_unasked (.begun s receiver w₁)
    have hinside := hbody (s.begun receiver w₁)
    rw [hx] at hinside
    exact (hbegun.trans hinside).then_unasked (.leave w₂ _ _)
  cases h with
  | refused hb => exact hfire hb
  | aborted hb hx => exact (hframe hb hx).then_unasked (.record rfl)
  | spent hb hx => exact hframe hb hx
  | failed hb hx ha => exact (hframe hb hx).trans (hfire ha)
  | ended hb hx ha _ => exact ((hframe hb hx).trans (hfire ha)).then_unasked (.record rfl)
  | propagated hb hx ha _ =>
    exact ((hframe hb hx).trans (hfire ha)).trans (.of_unasked (.record rfl) nofun)

end Session

/-- Every run draws on the input like this: it needs two more rounds than there are results. -/
theorem Session.run_finishes (hH : H.Settles) (rounds : Nat) (s : Session H)
    (hs : s.config.commands = Command.standard) (t : Target H.Context) :
    Exec.Meets (Finishes (H := H) s.config.input (rounds - 1) 0) (run rounds s t) := by
  induction rounds generalizing s t with
  | zero => exact (Exec.Yields.spent (P := fun _ => True)).meets
  | succ rounds ih =>
    -- A session that is opened inside of this one has the same input.
    have hn : ∀ t, Exec.Meets (Finishes (H := H) s.config.input (rounds - 1) 0)
        (s.nestVia (Session.run rounds) t) := by
      intro t w
      have hid : Unasked s.config.input w { w with nextId := w.nextId + 1 } := .of_log_eq rfl rfl
      exact (Finishes.of_unasked (e := none) hid nofun).trans (ih ⟨w.nextId, s.config⟩ hs t _)
    intro w
    have hresolve : Unasked s.config.input w { w with host := (H.resolve t w.host).2 } :=
      .of_log_eq rfl rfl
    have hran := runIn_ran (Session.run rounds) rounds s (H.resolve t w.host).1
      { w with host := (H.resolve t w.host).2 }
    rw [run_succ]
    exact (Finishes.of_unasked (e := none) hresolve nofun).trans
      (hran.finishes (body_finishes hH hs hn _))

/-- A session with the standard commands on a script without loops ends, whatever it is held on,
whatever its prompts, hooks and print function are and whatever the sink refuses: two more rounds
suffice than the script has results. In no number of rounds do it and all the sessions inside of it
show more prompts than the script has results and one. -/
theorem Session.script_ends (rounds : Nat) (s : Session Calc.host) (t : Target Calc.host.Context)
    (w : World Calc.host)
    {queue : List Line.ReadResult} (hs : s.config.commands = Command.standard)
    (hqueue : w.queue? s.config.input = some queue)
    (hwhile : ∀ line, .ok (.line line) ∈ queue → ¬"while".toList <:+: line.toList) :
    (queue.length + 2 ≤ rounds → (s.run rounds t w).1 ≠ .error .spent) ∧
      (s.run rounds t w).2.Follows w ∧
      promptsShown ((s.run rounds t w).2.since w) ≤ queue.length + 1 := by
  obtain ⟨rest, -, hdraws⟩ :=
    run_finishes Calc.host_settles rounds s hs t w queue hqueue hwhile
  refine ⟨fun hrounds hspent => ?_, hdraws.follows, ?_⟩
  · have hlasts := hdraws.lasts (by omega)
    rw [hspent] at hlasts
    exact hlasts rfl
  · have hprompts := hdraws.prompts
    split at hprompts
    · omega
    · omega

/-- A script whose first unit opens a session inside of one that it opens itself: the innermost is
left, a command opens a third on the value of another one, and there the script ends in the middle
of a unit. -/
theorem Session.script_ends_nested :
    let queue : List Line.ReadResult :=
      [.ok (.line "nest(nest(2))"), .ok (.line "back"), .ok (.line "cd nest(3)"),
        .ok (.line "exit"), .ok .interrupted, .ok (.line "1 +")]
    let w : World Calc.host :=
      { host := .single, nextId := 2, inputs := [.scripted { queue := queue }] }
    let s : Session Calc.host := ⟨1, .standard 0⟩
    s.config.commands = Command.standard ∧ w.queue? s.config.input = some queue ∧
      (∀ line, .ok (.line line) ∈ queue → ¬"while".toList <:+: line.toList) ∧
      (s.run (queue.length + 2) .topLevel w).1 ≠ .error .spent ∧
      promptsShown ((s.run (queue.length + 2) .topLevel w).2.since w) ≤ queue.length + 1 := by
  intro queue w s
  have hwhile : ∀ line, .ok (.line line) ∈ queue → ¬"while".toList <:+: line.toList := by
    intro line hline
    simp only [queue, List.mem_cons, List.not_mem_nil, or_false, Except.ok.injEq,
      Line.Read.line.injEq, reduceCtorEq, false_or] at hline
    rcases hline with rfl | rfl | rfl | rfl | rfl
    all_goals decide +kernel
  obtain ⟨hends, -, hprompts⟩ :=
    script_ends (queue.length + 2) s .topLevel w rfl rfl hwhile
  exact ⟨rfl, rfl, hwhile, hends (Nat.le_refl _), hprompts⟩

end CalcShell
