import CalcShell.Proofs.Session.Delivery
import CalcShell.Proofs.Session.Desks
import CalcShell.Proofs.Session.Hearing
import CalcShell.Proofs.Session.Termination

/-!
# Prompts and history

All sessions of a run read from one script. The main statement says what the script is shown and
what it keeps, whatever sessions are opened and left on the way. The prompt of each read is the one
for a new unit if no lines lie on the desk of the session that reads, and else the one for going on,
made for the innermost open session and its level (`prompting`). Each prompt takes one result of the
script, but for the last one where the script has run out (`Spends`). What the script remembers are
the lines that it gave, without the blank ones.
-/

namespace CalcShell

variable {H : Host}

/-! ## Which prompt is shown -/

/-- A prompt on an input suits the desks of the open sessions and what is seen: it is chosen by the
desk of the innermost session, and made for the innermost frame. -/
def Config.Suits (c : Config H) (ds : List Desk) (view : Snapshot) (input : Nat)
    (prompt : String) : Prop :=
  input = c.input ∧ ∃ d rest frame, ds = d :: rest ∧ view.stack.getLast? = some frame ∧
    prompt = c.prompts.select d.lines.isEmpty frame.receiver frame.depth

/-- Every prompt suits the desks, where the sessions open at first have the given ones. -/
def PromptsSuit (c : Config H) (ds : List Desk) (ms : List (Moment H)) : Prop :=
  ∀ pre m post input prompt, ms = pre ++ m :: post → m.event = .prompted input prompt →
    c.Suits (Desks.through ds pre) m.view input prompt

/-- A single moment passes if it is no prompt, or one that suits. -/
theorem promptsSuit_singleton {c : Config H} {ds : List Desk} {m : Moment H}
    (h : ∀ input prompt, m.event = .prompted input prompt → c.Suits ds m.view input prompt) :
    PromptsSuit c ds [m] := by
  intro pre m' post input prompt hms hm
  obtain ⟨rfl, hms⟩ | ⟨_, -, hms⟩ := List.cons_eq_append_iff.1 hms
  · obtain ⟨rfl, -⟩ := List.cons.inj hms
    exact h input prompt hm
  · exact absurd hms (by simp)

/-- The audit of prompts. -/
def prompting (c : Config H) : Audit H where
  Ok := PromptsSuit c
  nil _ _ _ _ _ _ hms _ := absurd hms (by simp)
  append {ds ms ns} h₁ h₂ pre m post input prompt hms hm := by
    rcases split_append hms with ⟨mid, hmid, -⟩ | ⟨mid, rfl, hmid⟩
    · exact h₁ pre m mid input prompt hmid hm
    · rw [Desks.through_append]
      exact h₂ mid m post input prompt hmid hm
  quiet ds m hm := promptsSuit_singleton fun input prompt hprompt => by
    rw [hprompt] at hm
    cases hm

/-- A single moment at which no prompt is shown passes. -/
theorem prompting_of_not {c : Config H} {ds : List Desk} {m : Moment H}
    (hm : m.event.isPrompt = false) : (prompting c).Ok ds [m] :=
  promptsSuit_singleton fun input prompt hprompt => by
    rw [hprompt] at hm
    cases hm

namespace Session

variable {s : Session H} {ctx : H.Context} {w : World H}

/-- The level and the receiver of a session that is the innermost one are those of its frame. -/
theorem Holds.last (h : s.Holds ctx w) :
    w.stack.getLast? = some ⟨w.level, H.receiver ctx⟩ := by
  obtain ⟨depth, hframe⟩ := h.frame
  have hlevel : w.level = depth := by
    rw [World.level, levelOf, hframe]
    rfl
  rw [hframe, hlevel]

/-- A session that asks for a line shows the prompt that suits its desk. -/
theorem readLine_prompting (h : s.Holds ctx w) (d : Desk) (ds : List Desk) :
    (prompting s.config).Carries (d :: ds) w
      (Exec.readLine s.config.input
        (s.config.prompts.select d.lines.isEmpty (H.receiver ctx) w.level) w).2 (d :: ds) := by
  have hwrites : Conduct.Writes ((Audit.Keeps (prompting (H := H) s.config) (· = d :: ds)).given
      fun v => v.stack = w.stack) :=
    Audit.Keeps.writes.given fun hv hstack => hv.1.stack.trans hstack
  refine (hwrites.readLine_meets (fun v hv => ?_) (fun v inputs _ => ?_) w rfl).2 _ rfl
  · refine Audit.Keeps.record (fun _ => rfl) (fun _ => rfl) fun ds' hds' => ?_
    refine promptsSuit_singleton fun input prompt hprompt => ?_
    cases hprompt
    refine ⟨rfl, d, ds, ⟨w.level, H.receiver ctx⟩, hds', ?_, rfl⟩
    change v.stack.getLast? = _
    rw [hv]
    exact h.last
  · exact Audit.Keeps.of_log_eq (Nests.works.inputs v inputs) rfl

/-- Asking the host whether a text is complete has nothing to do with desks. -/
theorem judged_prompting {c : Config H} (text : String) (ds : List Desk) (w : World H) :
    (prompting c).Carries ds w (judged text w) ds := by
  unfold judged
  split
  · exact .record (fun _ => rfl) rfl (prompting_of_not rfl)
  · exact .record (fun _ => rfl) rfl (prompting_of_not rfl)
  · exact .of_log_eq (Nests.works.refl w) rfl _

variable {run : Runner H} (hc : s.config.commands.Clears)
  (hn : ∀ t, Exec.Meets ((prompting s.config).Keeps fun _ => True) (s.nestVia run t))
include hc hn

/-- A line that was read is laid on the desk, unless it calls a command, which clears the desk. What
is then pending is the text of the lines on the desk. -/
theorem takeLine_prompting (rounds : Nat) (ctx : H.Context) (line : String) (d : Desk)
    (ds : List Desk) (w : World H) :
    ∃ d', (prompting s.config).Carries (d :: ds) w
        (s.takeLine run rounds ctx (unitText d.lines) line w).2 (d' :: ds) ∧
      ∀ rest, (s.takeLine run rounds ctx (unitText d.lines) line w).1 = .ok rest →
        rest = unitText d'.lines := by
  have hheard : (prompting s.config).Carries (d :: ds) w (w.heard s.config.input line)
      ({ d with lines := d.lines ++ [line] } :: ds) :=
    .of_event (w.heard_nests _ line) (w.heard_eq _ line).1 rfl rfl (prompting_of_not rfl)
  rw [takeLine_apply, lookUp]
  cases hfind : s.config.commands.find? line with
  | none =>
    rw [dispatch_none run rounds s ctx _ hfind]
    refine ⟨_, hheard, fun rest hrest => ?_⟩
    rw [← Except.ok.inj hrest, unitText_concat]
  | some found =>
    obtain ⟨command, captures⟩ := found
    have hcarries := Audit.dispatch_carries hn (fun _ _ _ _ _ _ => prompting_of_not rfl) rounds ctx
      (unitText d.lines ++ line ++ "\n") hfind { d with lines := d.lines ++ [line] } ds
      (w.heard s.config.input line)
    have hempty := dispatch_clears run rounds s ctx (unitText d.lines ++ line ++ "\n") hc hfind
      (w.heard s.config.input line)
    generalize s.dispatch run rounds ctx line _ _ = r at hcarries hempty ⊢
    obtain ⟨⟨_ | _, rest⟩, w₁⟩ := r
    · refine ⟨{}, hheard.trans hcarries, fun rest' hrest => ?_⟩
      cases hrest
    · refine ⟨{}, hheard.trans hcarries, fun rest' hrest => ?_⟩
      rw [← Except.ok.inj hrest]
      exact hempty

/-- While a session reads a unit, the text that is pending is that of the lines on its desk. -/
theorem readUnitFrom_prompting (rounds : Nat) (n : Nat) (d : Desk) (ds : List Desk)
    (h : s.Holds ctx w) :
    ∃ d', (prompting s.config).Carries (d :: ds) w
      (s.readUnitFrom run rounds ctx n (unitText d.lines) w).2 (d' :: ds) := by
  -- By induction on the rounds; the lines on the desk are other ones in each of them.
  induction n generalizing d w with
  | zero => exact ⟨d, .of_log_eq (Nests.works.refl w) rfl _⟩
  | succ n ih =>
    have hread := readLine_prompting h d ds
    have hlevel : Exec.read World.level w = (.ok w.level, w) := rfl
    rw [readUnitFrom_succ, Exec.bind_of_ok hlevel, Exec.bind_apply, unitText_isEmpty]
    generalize Exec.readLine s.config.input _ w = r at hread ⊢
    obtain ⟨_ | r, w₁⟩ := r
    · exact ⟨d, hread⟩
    have hw₁ := h.of_nests hread.nests
    cases r with
    | eof =>
      exact ⟨d, hread.trans (.record (fun _ => rfl) rfl (prompting_of_not rfl))⟩
    | interrupted =>
      have hcancelled : (prompting s.config).Carries (d :: ds) w₁ (w₁.record .cancelled)
          ({ d with lines := [] } :: ds) :=
        .record (fun _ => rfl) rfl (prompting_of_not rfl)
      obtain ⟨d', hd'⟩ := ih { d with lines := [] } (hw₁.of_nests hcancelled.nests)
      exact ⟨d', (hread.trans hcancelled).trans hd'⟩
    | line line =>
      obtain ⟨d₁, htake, hpending⟩ := takeLine_prompting hc hn rounds ctx line d ds w₁
      simp only [respond, Exec.bind_apply]
      generalize s.takeLine run rounds ctx (unitText d.lines) line w₁ = r at htake hpending ⊢
      obtain ⟨_ | rest, w₂⟩ := r
      · exact ⟨d₁, hread.trans htake⟩
      have hw₂ := hw₁.of_nests htake.nests
      obtain rfl := hpending rest rfl
      dsimp only
      split
      · obtain ⟨d', hd'⟩ := ih d₁ hw₂
        exact ⟨d', (hread.trans htake).trans hd'⟩
      · have hjudged := judged_prompting (c := s.config) (unitText d₁.lines) (d₁ :: ds) w₂
        rw [Exec.bind_apply, isComplete_apply]
        dsimp only
        split
        · exact ⟨d₁, (hread.trans htake).trans hjudged⟩
        · obtain ⟨d', hd'⟩ := ih d₁ (hw₂.of_nests hjudged.nests)
          exact ⟨d', ((hread.trans htake).trans hjudged).trans hd'⟩

end Session

/-- Every prompt of a run suits the desks, if the commands clear what is pending. -/
theorem prompting_run (rounds : Nat) (s : Session H) (hc : s.config.commands.Clears)
    (t : Target H.Context) :
    Exec.Meets ((prompting (H := H) s.config).Keeps fun _ => True) (s.run rounds t) := by
  refine Audit.run_keeps (fun rounds s' ctx hs hn w hholds => ?_) (fun s' ctx outcome hs => ?_)
    rounds s rfl t
  · rw [← hs] at hn hc ⊢
    obtain ⟨_, hcarries⟩ := Session.readUnitFrom_prompting hc hn rounds rounds {} [] hholds
    refine ⟨hcarries.nests, fun d ds hd => ?_⟩
    obtain ⟨d', hd'⟩ := Session.readUnitFrom_prompting hc hn rounds rounds d ds hholds
    rw [show d.lines = [] from hd] at hd'
    exact ⟨d', hd', fun _ => trivial⟩
  · have hserves : Conduct.Serves ((prompting (H := H) s.config).Keeps (Desks.AtUnit true)) :=
      Audit.Keeps.serves fun _ _ _ _ _ _ => prompting_of_not rfl
    refine hserves.bind_meets ?_ fun _ => hserves.print_meets s' outcome
    cases outcome with
    | value v =>
      refine hserves.bind_meets (fun w => Audit.Keeps.of_log_eq (Nests.works.last w v) rfl)
        fun _ => ?_
      refine hserves.bind_meets (fun w => ?_) fun _ => hserves.bindConveniences_meets s' ctx
      exact Audit.Keeps.record (fun _ => rfl) (fun _ => rfl) fun _ _ => prompting_of_not rfl
    | fault f =>
      exact fun w => Audit.Keeps.record (fun _ => rfl) (fun _ => rfl) fun _ _ =>
        prompting_of_not rfl

/-! ## What is taken from the script -/

/-- Every prompt takes a result of the script, but for one that finds it empty and with which things
end. -/
def Spends (input : Nat) : Conduct H := fun w e w' =>
  ∀ queue, w.queue? input = some queue → ∃ rest, w'.queue? input = some rest ∧ w'.Follows w ∧
    promptsShown (w'.since w) + rest.length ≤
      queue.length + if e = some (.interrupt .endOfInput) then 1 else 0

namespace Spends

variable {input : Nat} {w w₁ w' : World H} {e e' : Option Stop}

/-- Nothing is asked of the script. -/
theorem of_unasked (h : Unasked input w w') : Spends input w e w' := by
  refine fun queue hqueue => ⟨queue, h.queue.trans hqueue, h.follows, ?_⟩
  rw [h.prompts]
  omega

theorem trans (h₁ : Spends input w none w₁) (h₂ : Spends input w₁ e w') :
    Spends input w e w' := by
  intro queue hqueue
  obtain ⟨rest₁, hrest₁, hfollows₁, hfirst⟩ := h₁ queue hqueue
  obtain ⟨rest, hrest, hfollows, hsecond⟩ := h₂ rest₁ hrest₁
  refine ⟨rest, hrest, hfollows.trans hfollows₁, ?_⟩
  rw [promptsShown_trans hfollows hfollows₁]
  rw [if_neg (by simp)] at hfirst
  omega

/-- Nothing is asked of the script afterwards, and what ended by its end still does. -/
theorem then_unasked (h : Spends input w e w₁) (hrest : Unasked input w₁ w')
    (he : e = some (.interrupt .endOfInput) → e' = some (.interrupt .endOfInput)) :
    Spends input w e' w' := by
  intro queue hqueue
  obtain ⟨rest, hq, hfollows, hspent⟩ := h queue hqueue
  refine ⟨rest, hrest.queue.trans hq, hrest.follows.trans hfollows, ?_⟩
  rw [promptsShown_trans hrest.follows hfollows, hrest.prompts]
  split at hspent
  · rename_i hend
    rw [if_pos (he hend)]
    exact hspent
  · exact hspent.trans (Nat.le_add_right _ _)

/-- Commands and evaluations by themselves ask nothing of the script. -/
theorem serves : Conduct.Serves (Spends (H := H) input) where
  refl _ := of_unasked (.of_log_eq rfl rfl)
  trans h₁ h₂ := h₁.trans h₂
  spent _ := of_unasked (.of_log_eq rfl rfl)
  raise _ _ := of_unasked (.record rfl)
  wrote _ _ _ _ := of_unasked (.record_of_eq rfl rfl rfl)
  host _ _ := of_unasked (.of_log_eq rfl rfl)
  printed _ _ _ := of_unasked (.record rfl)
  consulting _ _ _ _ := of_unasked (.record rfl)

/-- Opening and closing sessions asks nothing of the script. -/
theorem opens (c : Config H) :
    Conduct.Opens (Spends (H := H) input) c (fun _ _ => True) fun _ _ => Spends input where
  toOrders := serves.toOrders
  spent := serves.spent
  newId _ := of_unasked (.of_log_eq rfl rfl)
  resolve _ w _ := serves.host w _
  fire s name receiver _ := serves.fire_meets s name [receiver] fun _ => of_unasked (.record rfl)
  frame {s t w₀ w w₂ e e'} _ _ _ _ hin hleft := by
    have hbegun : ∀ receiver, Spends input w none (s.begun receiver w) := fun receiver =>
      of_unasked (.begun s receiver w)
    refine ((hbegun _).trans hin).then_unasked (.leave w₂ _ _) fun hend => ?_
    obtain rfl | ⟨level, rfl, -⟩ := hleft
    · exact hend
    · cases hend
  aborted _ h := h.then_unasked (.record rfl) id
  ended _ _ _ := of_unasked (.record rfl)
  propagated _ _ _ _ := of_unasked (.record rfl)

variable {run : Session.Runner H} {s : Session H}
  (hb : Conduct.Bears (Spends s.config.input) s.config.commands)
  (hn : ∀ t, Exec.Meets (Spends s.config.input) (s.nestVia run t))
include hb hn

/-- What a session does with what it has read asks nothing more of the script than the sessions do
that it opens. -/
theorem responds (rounds : Nat) : Conduct.Responds (Spends s.config.input) run rounds s where
  toOrders := serves.toOrders
  spent := serves.spent
  note _ ev hev := of_unasked (.record (by cases ev <;> first | rfl | cases hev))
  endOfInput _ := of_unasked (.record rfl)
  heard w line := by
    have hread : Unasked s.config.input w (w.record (.lineRead line)) := .record rfl
    unfold World.heard
    dsimp only
    split
    · exact of_unasked (hread.trans (.of_log_eq rfl (World.queue?_remember _ _ _ _)))
    · exact of_unasked hread
  dispatch := serves.dispatch_meets hb hn (fun _ _ => of_unasked (.record rfl)) rounds

/-- While a session reads a unit, every prompt takes a result. -/
theorem readUnitFrom (rounds : Nat) (ctx : H.Context) (n : Nat) (pending : String) :
    Exec.Meets (Spends s.config.input) (s.readUnitFrom run rounds ctx n pending) := by
  have hresponds := responds hb hn rounds
  induction n generalizing pending with
  | zero => exact fun w => serves.spent w
  | succ n ih =>
    intro w
    have hlevel : Exec.read World.level w = (.ok w.level, w) := rfl
    rw [Session.readUnitFrom_succ, Exec.bind_of_ok hlevel]
    generalize s.config.prompts.select pending.isEmpty (H.receiver ctx) w.level = prompt
    intro queue hqueue
    obtain ⟨v, hfollows, hprompts, hv, hread⟩ := readLine_of_queue hqueue prompt
    rw [Exec.bind_apply, hread]
    cases queue with
    | nil =>
      -- The prompt takes nothing, but it is the last one.
      have hend : Unasked s.config.input v (v.record (.raised .endOfInput)) := .record rfl
      refine ⟨[], hv, hend.follows.trans hfollows, ?_⟩
      change promptsShown ((v.record (.raised .endOfInput)).since w) + 0 ≤ 0 + 1
      rw [promptsShown_trans hend.follows hfollows, hprompts, hend.prompts]
    | cons r queue =>
      have htaken : Spends s.config.input w none v := by
        intro queue' hqueue'
        obtain rfl := Option.some.inj (hqueue.symm.trans hqueue')
        refine ⟨queue, hv, hfollows, ?_⟩
        rw [hprompts, List.length_cons]
        omega
      cases r with
      | error err => exact htaken.trans (serves.raise v (.io err)) _ hqueue
      | ok r => exact htaken.trans (hresponds.respond_meets ctx ih pending r v) _ hqueue

end Spends

/-- In every run, every prompt takes a result of the script, but for one that finds it empty, as
long as interrupts are passed on. -/
theorem Spends.run (rounds : Nat) (s : Session H) (hH : H.PassesOn)
    (htable : s.config.commands.PassesOn) (t : Target H.Context) :
    Exec.Meets (Spends (H := H) s.config.input) (s.run rounds t) := by
  refine (opens s.config).run_all_meets (fun rounds s' ctx hs hn => ?_) rounds s rfl t
  have hserves : Conduct.Serves (Spends (H := H) s.config.input) := serves
  rw [← hs] at hn hserves htable ⊢
  have hb : Conduct.Bears (Spends s'.config.input) s'.config.commands := .inr ⟨hH, htable⟩
  refine hserves.body_meets (hserves.bind_meets (readUnitFrom hb hn rounds ctx rounds "") ?_)
  refine fun source => hserves.bind_meets ?_ (hserves.print_meets s')
  refine hserves.toOrders.evaluate_meets hserves.host (fun _ _ => of_unasked (.of_log_eq rfl rfl))
    (fun _ ev hev => of_unasked (.record ?_)) (hserves.evaluateIn_meets hb hn rounds ctx source)
  cases ev <;> first | rfl | cases hev

/-- A prompt is shown when the script, which had the given results at first, has none left. -/
def RanOut (queue : List Line.ReadResult) (ms : List (Moment H)) : Prop :=
  ∃ pre m post, ms = pre ++ m :: post ∧ m.event.isPrompt = true ∧ queue.length ≤ promptsShown pre

/-- The script has run out if there were more prompts than results. -/
theorem ranOut_iff {queue : List Line.ReadResult} {ms : List (Moment H)} :
    RanOut queue ms ↔ queue.length < promptsShown ms := by
  constructor
  · rintro ⟨pre, m, post, rfl, hm, hle⟩
    have hcount : promptsShown (pre ++ m :: post) = promptsShown pre + (promptsShown post + 1) := by
      rw [promptsShown, List.countP_append, List.countP_cons, hm]
      rfl
    omega
  · intro hlt
    -- The last prompt is one that finds nothing.
    induction ms using List.reverseRecOn with
    | nil => exact absurd hlt (Nat.not_lt_zero _)
    | append_singleton ms m ih =>
      rw [promptsShown, List.countP_append, List.countP_singleton] at hlt
      cases hm : m.event.isPrompt with
      | true =>
        rw [hm, if_pos rfl] at hlt
        exact ⟨ms, m, [], rfl, hm, Nat.le_of_lt_succ hlt⟩
      | false =>
        rw [hm] at hlt
        obtain ⟨pre, x, post, rfl, hx, hle⟩ := ih hlt
        exact ⟨pre, x, post ++ [m], by simp, hx, hle⟩

/-! ## What the script keeps -/

/-- The prompt that is shown by an event. -/
def Event.prompt? : Event H → Option String
  | .prompted _ prompt => some prompt
  | _ => none

/-- The prompts that are shown in some moments. -/
def promptTexts (ms : List (Moment H)) : List String := ms.filterMap fun m => m.event.prompt?

/-- The script after it was shown the prompts and was asked to remember the lines of some moments.
-/
def Line.Scripted.through (script : Line.Scripted) (ms : List (Moment H)) : Line.Scripted where
  queue := script.queue.drop (promptsShown ms)
  prompts := script.prompts ++ promptTexts ms
  history := script.history ++ (linesRead ms).filter fun line => !Text.isBlankText line

theorem Line.Scripted.through_append (script : Line.Scripted) (ms ns : List (Moment H)) :
    script.through (ms ++ ns) = (script.through ms).through ns := by
  simp [through, promptsShown, promptTexts, linesRead, List.drop_drop]

/-- A script that is asked for a line is shown the prompt, and has one result fewer. -/
theorem Line.Source.scripted_readLine (script : Line.Scripted) (prompt : String) :
    ((Line.Source.scripted script).readLine prompt).2.2 =
      .scripted ⟨script.queue.tail, script.prompts ++ [prompt], script.history⟩ := by
  simp only [readLine, Scripted.readLine]
  cases script.queue <;> simp

/-- What becomes of a script by a single moment. -/
theorem Devices.after_script {c : Config H} {d : Devices} {script : Line.Scripted}
    (h : d.inputs[c.input]? = some (.scripted script)) {m : Moment H}
    (hm : ∀ input prompt, m.event = .prompted input prompt → input = c.input) :
    (d.after c m.event).inputs[c.input]? = some (.scripted (script.through [m])) := by
  obtain ⟨ev, view, host⟩ := m
  have hlt : c.input < d.inputs.length := (List.getElem?_eq_some_iff.1 h).1
  cases ev with
  | prompted input prompt =>
    obtain rfl := hm input prompt rfl
    have hannounce : (d.sink.takeAll ((Line.Source.scripted script).announce prompt)).1 = none :=
      rfl
    simp only [after, h, if_pos hannounce, List.getElem?_set_self hlt,
      Line.Source.scripted_readLine]
    simp [Line.Scripted.through, promptsShown, promptTexts, linesRead, Event.isPrompt,
      Event.prompt?, Event.lineRead?]
  | lineRead line =>
    cases hblank : Text.isBlankText line <;>
      simp [after, hblank, h, Line.Source.remember, Line.Scripted.remember, Line.Scripted.through,
        promptsShown, promptTexts, linesRead, Event.isPrompt, Event.prompt?, Event.lineRead?]
  | _ =>
    simp [after, h, Line.Scripted.through, promptsShown, promptTexts, linesRead, Event.isPrompt,
      Event.prompt?, Event.lineRead?]

/-- What becomes of a script that all prompts are shown to. -/
theorem Devices.through_script {c : Config H} {d : Devices} {script : Line.Scripted}
    (h : d.inputs[c.input]? = some (.scripted script)) {ms : List (Moment H)}
    (hms : ∀ m ∈ ms, ∀ input prompt, m.event = .prompted input prompt → input = c.input) :
    (d.through c ms).inputs[c.input]? = some (.scripted (script.through ms)) := by
  induction ms generalizing d script with
  | nil => simpa [through, Line.Scripted.through, promptsShown, promptTexts, linesRead] using h
  | cons m ms ih =>
    have hfirst := after_script h (hms m List.mem_cons_self)
    rw [← List.singleton_append, Line.Scripted.through_append]
    exact ih hfirst fun x hx => hms x (List.mem_cons_of_mem m hx)

/-- Nothing is left of a text without the blanks at its ends if it holds nothing but blanks. -/
theorem Text.trim_eq_empty {s : String} : trim s = "" ↔ isBlankText s = true := by
  have hall : ∀ cs : List Char, cs.dropWhile isBlank = [] ↔ cs.all isBlank = true := by
    simp [List.dropWhile_eq_nil_iff]
  have hchars : trimChars s.toList = [] ↔ s.toList.dropWhile isBlank = [] := by
    rw [trimChars, List.reverse_eq_nil_iff, hall, List.all_reverse]
    cases hrest : s.toList.dropWhile isBlank with
    | nil => simp
    | cons c cs =>
      -- What the blanks stop at is no blank.
      have hc : isBlank c = false := by
        have hhead := List.head?_dropWhile_not isBlank s.toList
        rw [hrest] at hhead
        simpa using hhead
      simp [hc]
  rw [isBlankText, ← hall, ← hchars, trim]
  exact String.ofList_eq_empty_iff

/-! ## The trace of a script -/

/-- The innermost of the open sessions that what is seen fits: its frame is the last one, and its
level is the number of the sessions around it. -/
theorem Snapshot.Fits.innermost {v : Snapshot} {opened : List Activation} (h : v.Fits opened)
    {frame : Frame} (hframe : v.stack.getLast? = some frame) :
    ∃ outer a, opened = outer ++ [a] ∧ frame.receiver = a.receiver ∧
      frame.depth = outer.length := by
  rw [h.stack, List.getLast?_map] at hframe
  obtain ⟨a, ha, rfl⟩ := Option.map_eq_some_iff.1 hframe
  obtain ⟨outer, rfl⟩ := List.getLast?_eq_some_iff.1 ha
  refine ⟨outer, a, rfl, rfl, ?_⟩
  have hdepths := h.depths
  rw [List.map_append, List.length_append, List.length_singleton, List.range_succ] at hdepths
  exact List.singleton_inj.1 (List.append_inj_right' hdepths rfl)

/-- In every run over a script with the standard commands, whatever its host evaluates and takes for
complete, and whatever sessions are opened and left: each prompt is shown to the script. It is the
one for a new unit if the session that reads has read no line since its last unit, its last command,
the last line that was given up or its begin, and else the one for going on, made for the receiver
of the innermost open session and for its level, which is the number of sessions around it.

What the script gave up are the first of its results, one for each prompt, but for one prompt more
if the script has run out, and then the run ends with that, where evaluations pass interrupts on.
The script has kept all prompts in order, and remembers in order the lines that it gave and that are
not blank. -/
theorem Session.prompts_and_history {H : Host} (rounds : Nat) (s : Session H) (t : Target H.Context)
    (w : World H) (hs : s.config.commands = Command.standard) {script : Line.Scripted}
    (hscript : w.inputs[s.config.input]? = some (.scripted script)) {opened : List Activation}
    (hw : w.Fits opened) (hfresh : s.Fresh w opened) :
    let w' := (s.run rounds t w).2
    let ms := w'.since w
    (∀ pre m post input prompt, ms = pre ++ m :: post → m.event = .prompted input prompt →
      input = s.config.input ∧ ∃ outer a d rest,
        ((Roster.of opened).through pre).now = outer ++ [a] ∧ Desks.through [] pre = d :: rest ∧
        prompt =
          if d.lines = [] then s.config.prompts.fresh a.receiver outer.length
          else s.config.prompts.continuation a.receiver outer.length) ∧
    ∃ used rest, script.queue = used ++ rest ∧
      w'.inputs[s.config.input]? = some (.scripted
        { queue := rest
          prompts := script.prompts ++ promptTexts ms
          history := script.history ++
            (used.filterMap lineOf?).filter fun line => Text.trim line ≠ "" }) ∧
      linesRead ms = used.filterMap lineOf? ∧
      (¬RanOut script.queue ms → promptsShown ms = used.length) ∧
      (H.PassesOn → RanOut script.queue ms → promptsShown ms = used.length + 1 ∧ rest = [] ∧
        (s.run rounds t w).1 = .error (.interrupt .endOfInput)) := by
  have hc : s.config.commands.Clears := by
    rw [hs]
    exact Command.standard_clears
  have hsuits : PromptsSuit s.config [] _ := ((prompting_run rounds s hc t w).2 [] trivial).ok
  have hfits := (Nests.run rounds s t w).tracked opened hfresh hw
  have hdevices := (Delivers.run rounds s t w).devices
  have hqueue : w.queue? s.config.input = some script.queue := by rw [World.queue?, hscript]
  obtain ⟨_, htakes, -⟩ := Reads.run rounds s t w hc {} rfl fun _ h => absurd h List.not_mem_nil
  have hconsumed := htakes.consumed _ hqueue
  have htable : s.config.commands.PassesOn := by
    rw [hs]
    exact Command.standard_passesOn
  intro w' ms
  -- The script at the end is told by the log.
  have hlast : w'.inputs[s.config.input]? = some (.scripted (script.through ms)) := by
    have hinput : ∀ m ∈ ms, ∀ input prompt, m.event = .prompted input prompt →
        input = s.config.input := by
      intro m hm input prompt hprompt
      obtain ⟨pre, post, hms⟩ := List.append_of_mem hm
      exact (hsuits pre m post input prompt hms hprompt).1
    have hthrough := Devices.through_script (d := w.devices) hscript hinput
    rw [← hdevices] at hthrough
    exact hthrough
  have hrest : w'.queue? s.config.input = some (script.queue.drop (promptsShown ms)) := by
    rw [World.queue?, hlast]
    rfl
  have hlines : linesRead ms = (script.queue.take (promptsShown ms)).filterMap lineOf? := by
    obtain ⟨used, rest, hsplit, hrest', hused⟩ := hconsumed
    obtain rfl := Option.some.inj (hrest.symm.trans hrest')
    rw [← hused]
    congr 1
    exact List.append_cancel_right (hsplit.symm.trans (List.take_append_drop _ _).symm)
  refine ⟨?_, script.queue.take (promptsShown ms), script.queue.drop (promptsShown ms),
    (List.take_append_drop _ _).symm, ?_, hlines, ?_⟩
  · intro pre m post input prompt hms hm
    obtain ⟨rfl, d, rest, frame, hdesks, hframe, rfl⟩ := hsuits pre m post input prompt hms hm
    have hview := hfits.fits hms
    rw [Roster.through_append, Roster.through_cons, hm, Roster.through_nil] at hview
    obtain ⟨outer, a, hopened, hreceiver, hlevel⟩ := hview.innermost hframe
    refine ⟨rfl, outer, a, d, rest, hopened, hdesks, ?_⟩
    rw [hreceiver, hlevel, Prompts.select]
    cases d.lines <;> rfl
  · rw [hlast, Line.Scripted.through, hlines]
    have hblank : (fun line => !Text.isBlankText line) =
        fun line => decide (Text.trim line ≠ "") := by
      funext line
      cases hline : Text.isBlankText line <;> simp [Text.trim_eq_empty, hline]
    rw [hblank]
  · rw [ranOut_iff, List.length_take]
    refine ⟨fun hle => by omega, fun hH hlt => ?_⟩
    obtain ⟨rest, hrest', -, hcount⟩ := Spends.run rounds s hH htable t w _ hqueue
    obtain rfl := Option.some.inj (hrest.symm.trans hrest')
    change promptsShown ms + _ ≤ _ at hcount
    rw [List.length_drop] at hcount
    split at hcount
    · rename_i hend
      exact ⟨by omega, List.drop_eq_nil_of_le (by omega), ending_eq_some hend⟩
    · omega

/-- A session on five, opened by a command, has a line given up before a unit of two lines, which
opens and leaves a session on seven. The prompt for the second line of the unit is one for going on
at level one. In the end the script has run out, and remembers all lines but the blank one. -/
theorem Session.prompts_and_history_nested :
    let queue : List Line.ReadResult :=
      [.ok (.line "cd 5"), .ok (.line "1 +"), .ok (.line " "), .ok .interrupted,
        .ok (.line "2 *"), .ok (.line "nest(7)"), .ok (.line "exit")]
    let w : World Calc.host :=
      { host := .single, nextId := 2, inputs := [.scripted { queue := queue }] }
    let s : Session Calc.host := ⟨1, .standard 0⟩
    let w' := (s.run 12 .topLevel w).2
    s.config.commands = Command.standard ∧
      w.inputs[s.config.input]? = some (.scripted { queue := queue }) ∧ w.Fits [] ∧
      s.Fresh w [] ∧
      (∃ pre m post outer a d rest, w'.since w = pre ++ m :: post ∧
        m.event.prompt? = some "nest(5)[1]* " ∧
        ((Roster.of []).through pre).now = outer ++ [a] ∧ Desks.through [] pre = d :: rest ∧
        "nest(5)[1]* " =
          if d.lines = [] then s.config.prompts.fresh a.receiver outer.length
          else s.config.prompts.continuation a.receiver outer.length) ∧
      w'.inputs[s.config.input]? = some (.scripted
        { queue := []
          prompts := ["nest(main)[0]> ", "nest(5)[1]> ", "nest(5)[1]* ", "nest(5)[1]* ",
            "nest(5)[1]> ", "nest(5)[1]* ", "nest(7)[2]> ", "nest(5)[1]> "]
          history := ["cd 5", "1 +", "2 *", "nest(7)", "exit"] }) ∧
      (s.run 12 .topLevel w).1 = .error (.interrupt .endOfInput) := by
  intro queue w s w'
  have hw : w.Fits [] := ⟨⟨rfl, rfl, rfl, List.nodup_nil⟩, by simp⟩
  have hfresh : s.Fresh w [] := ⟨by decide, List.not_mem_nil⟩
  have hplace : ((w'.since w)[29]?.map fun m => m.event.prompt?) =
      some (some "nest(5)[1]* ") := by decide +kernel
  have htexts : promptTexts (w'.since w) = ["nest(main)[0]> ", "nest(5)[1]> ", "nest(5)[1]* ",
      "nest(5)[1]* ", "nest(5)[1]> ", "nest(5)[1]* ", "nest(7)[2]> ", "nest(5)[1]> "] := by
    decide +kernel
  have hout : RanOut queue (w'.since w) := by
    rw [ranOut_iff]
    decide +kernel
  obtain ⟨hprompts, used, rest, hused, hscript, -, -, hran⟩ :=
    prompts_and_history 12 s .topLevel w rfl rfl hw hfresh
  obtain ⟨-, rfl, hend⟩ := hran Calc.host_passesOn hout
  rw [List.append_nil] at hused
  refine ⟨rfl, rfl, hw, hfresh, ?_, ?_, hend⟩
  · obtain ⟨pre, m, post, hms, hm⟩ := exists_split hplace
    have hev : ∃ input, m.event = .prompted input "nest(5)[1]* " := by
      generalize m.event = ev at hm
      cases ev with
      | prompted input prompt =>
        cases hm
        exact ⟨input, rfl⟩
      | _ => cases hm
    obtain ⟨input, hinput⟩ := hev
    obtain ⟨-, outer, a, d, rest, hfacts⟩ := hprompts pre m post _ _ hms hinput
    exact ⟨pre, m, post, outer, a, d, rest, hms, hm, hfacts⟩
  · rw [hscript, ← hused]
    change some (Line.Source.scripted ⟨[], [] ++ promptTexts (w'.since w), _⟩) = _
    rw [htexts]
    rfl

end CalcShell
