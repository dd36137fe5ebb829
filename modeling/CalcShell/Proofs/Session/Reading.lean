import CalcShell.Calc.Host
import CalcShell.Proofs.Command.Plans
import CalcShell.Proofs.Session.Conduct

/-!
# From lines to units

The lines that sessions read are cut into stretches: a stretch ends where a unit is evaluated, a
command is called, the user gives the line up, a session is put on the stack, or one is aborted. The
log tells the stretches (`Intake.through`), whatever sessions the lines were read by. The main
statement says what they are: the source of a unit consists of exactly the lines of its stretch,
none of which calls a command, and it is complete only with the last of them. So no line is lost,
none gets into two units, and none that stands before a command or was given up gets into any. -/

namespace CalcShell

/-- The text of some lines, each with a line end. -/
def unitText (lines : List String) : String := String.join (lines.map (· ++ "\n"))

theorem unitText_nil : unitText [] = "" := rfl

theorem unitText_append (ls ms : List String) :
    unitText (ls ++ ms) = unitText ls ++ unitText ms := by
  rw [unitText, List.map_append, String.join_append, unitText, unitText]

/-- A further line is added with its line end. -/
theorem unitText_concat (lines : List String) (line : String) :
    unitText (lines ++ [line]) = unitText lines ++ line ++ "\n" := by
  simp [unitText, String.join, List.foldl_append, String.append_assoc]

theorem unitText_ne_empty {lines : List String} (h : lines ≠ []) : unitText lines ≠ "" := by
  obtain ⟨line, ls, rfl⟩ := List.exists_cons_of_ne_nil h
  rw [unitText, List.map_cons, String.join_cons]
  simp

theorem unitText_isEmpty (lines : List String) : (unitText lines).isEmpty = lines.isEmpty := by
  cases lines with
  | nil => rfl
  | cons line ls => exact String.isEmpty_eq_false_iff.2 (unitText_ne_empty (by simp))

/-- Lines make a unit: none of them calls a command, and together they are complete, but no fewer of
them from the first one on. -/
structure IsUnit (H : Host) (commands : Command.Table H) (lines : List String) (text : String) :
    Prop where
  text_eq : text = unitText lines
  nonempty : lines ≠ []
  unmatched : ∀ line ∈ lines, commands.find? line = none
  least : ∀ part, part <+: lines → part ≠ [] → part ≠ lines → H.judge (unitText part) ≠ .complete
  complete : H.judge (unitText lines) = .complete

/-- Lines may become a unit: none of them calls a command, and they are not complete yet. -/
structure IsPartial (H : Host) (commands : Command.Table H) (lines : List String) (text : String) :
    Prop where
  text_eq : text = unitText lines
  unmatched : ∀ line ∈ lines, commands.find? line = none
  incomplete : ∀ part, part <+: lines → part ≠ [] → H.judge (unitText part) ≠ .complete

theorem IsPartial.nil (H : Host) (commands : Command.Table H) : IsPartial H commands [] "" where
  text_eq := rfl
  unmatched _ h := absurd h List.not_mem_nil
  incomplete _ h hne := absurd (List.prefix_nil.1 h) hne

section IsPartial

variable {H : Host} {commands : Command.Table H} {lines : List String} {line text : String}

/-- One more line that calls no command. -/
theorem IsPartial.unmatched_concat (h : IsPartial H commands lines text)
    (hline : commands.find? line = none) : ∀ l ∈ lines ++ [line], commands.find? l = none := by
  intro l hl
  rcases List.mem_append.1 hl with hl | hl
  · exact h.unmatched l hl
  · rw [List.mem_singleton.1 hl]
    exact hline

/-- With one more line the lines are not complete yet. -/
theorem IsPartial.concat (h : IsPartial H commands lines text)
    (hline : commands.find? line = none) (hj : H.judge (text ++ line ++ "\n") ≠ .complete) :
    IsPartial H commands (lines ++ [line]) (text ++ line ++ "\n") where
  text_eq := by rw [unitText_concat, h.text_eq]
  unmatched := h.unmatched_concat hline
  incomplete part hpart hne := by
    rcases List.prefix_concat_iff.1 hpart with rfl | hpart
    · rw [unitText_concat, ← h.text_eq]
      exact hj
    · exact h.incomplete part hpart hne

/-- With one more line the lines are complete. -/
theorem IsPartial.unit (h : IsPartial H commands lines text)
    (hline : commands.find? line = none) (hj : H.judge (text ++ line ++ "\n") = .complete) :
    IsUnit H commands (lines ++ [line]) (text ++ line ++ "\n") where
  text_eq := by rw [unitText_concat, h.text_eq]
  nonempty := by simp
  unmatched := h.unmatched_concat hline
  least part hpart hne hproper := by
    rcases List.prefix_concat_iff.1 hpart with rfl | hpart
    · exact absurd rfl hproper
    · exact h.incomplete part hpart hne
  complete := by rw [unitText_concat, ← h.text_eq, hj]

end IsPartial

/-! ## Stretches of lines -/

/-- Lines that were read one after the other, and what ended that. -/
inductive Stretch where
  /-- A unit is evaluated. -/
  | evaluated (lines : List String) (source : String)
  /-- A command is called. -/
  | called (lines : List String) (usage : String)
  /-- The user gives the line up. -/
  | cancelled (lines : List String)
  /-- A session is put on the stack. -/
  | entered (lines : List String)
  /-- An interrupt ends a session. -/
  | aborted (lines : List String)

namespace Stretch

/-- The lines of a stretch. -/
def lines : Stretch → List String
  | evaluated ls _ | called ls _ | cancelled ls | entered ls | aborted ls => ls

/-- The source that is evaluated at the end of a stretch. -/
def source? : Stretch → Option String
  | evaluated _ source => some source
  | _ => none

/-- A stretch is as it should be: the lines before a unit make this unit, only the last of the lines
before a command calls it, no line that was given up calls a command, nor does one that was pending
when a session was aborted, and none is pending when a session is put on the stack. -/
def Sound (H : Host) (commands : Command.Table H) : Stretch → Prop
  | evaluated ls source => IsUnit H commands ls source
  | called ls usage => ∃ rest line command captures, ls = rest ++ [line] ∧
      (∀ l ∈ rest, commands.find? l = none) ∧ commands.find? line = some (command, captures) ∧
      command.usage = usage
  | cancelled ls | aborted ls => ∀ l ∈ ls, commands.find? l = none
  | entered ls => ls = []

end Stretch

/-- The line that is read by an event. -/
def Event.lineRead? {H : Host} : Event H → Option String
  | .lineRead line => some line
  | _ => none

/-- The source of the unit that is evaluated by an event. -/
def Event.source? {H : Host} : Event H → Option String
  | .evaluating _ _ source => some source
  | _ => none

/-- The lines that are read in some moments. -/
def linesRead {H : Host} (ms : List (Moment H)) : List String :=
  ms.filterMap fun m => m.event.lineRead?

/-- The sources of the units that are evaluated in some moments. -/
def unitsEvaluated {H : Host} (ms : List (Moment H)) : List String :=
  ms.filterMap fun m => m.event.source?

/-- What the log tells of lines: the stretches, and the lines read since the last one. -/
structure Intake where
  stretches : List Stretch := []
  pending : List String := []

namespace Intake

variable {H : Host}

/-- A stretch ends. -/
def close (k : Intake) (stretch : List String → Stretch) : Intake :=
  ⟨k.stretches ++ [stretch k.pending], []⟩

/-- The intake after an event. -/
def after (k : Intake) : Event H → Intake
  | .lineRead line => { k with pending := k.pending ++ [line] }
  | .evaluating _ _ source => k.close (.evaluated · source)
  | .dispatched usage => k.close (.called · usage)
  | .cancelled => k.close .cancelled
  | .pushed _ _ => k.close .entered
  | .aborted _ _ => k.close .aborted
  | _ => k

/-- The intake after some moments. -/
def through (k : Intake) (ms : List (Moment H)) : Intake := ms.foldl (fun k m => k.after m.event) k

@[simp]
theorem through_nil (k : Intake) : k.through ([] : List (Moment H)) = k := rfl

theorem through_append (k : Intake) (ms ns : List (Moment H)) :
    k.through (ms ++ ns) = (k.through ms).through ns := by
  simp [through]

/-- All lines of an intake in order. -/
def lines (k : Intake) : List String := k.stretches.flatMap Stretch.lines ++ k.pending

/-- The sources of the units of an intake in order. -/
def sources (k : Intake) : List String := k.stretches.filterMap Stretch.source?

/-- Each line that is read is added to those of the intake, and none is taken away. -/
theorem after_lines (k : Intake) (e : Event H) :
    (k.after e).lines = k.lines ++ e.lineRead?.toList := by
  cases e <;> simp [after, close, lines, Stretch.lines, Event.lineRead?]

/-- Each unit that is evaluated is added to those of the intake. -/
theorem after_sources (k : Intake) (e : Event H) :
    (k.after e).sources = k.sources ++ e.source?.toList := by
  cases e <;> simp [after, close, sources, Stretch.source?, Event.source?]

/-- The lines of the intake are those that were read, in order. -/
theorem through_lines (k : Intake) (ms : List (Moment H)) :
    (k.through ms).lines = k.lines ++ linesRead ms := by
  induction ms generalizing k with
  | nil => simp [linesRead]
  | cons m ms ih =>
    have hm : linesRead (m :: ms) = m.event.lineRead?.toList ++ linesRead ms := by
      cases h : m.event.lineRead? <;> simp [linesRead, h]
    rw [hm, ← List.append_assoc, ← after_lines]
    exact ih (k.after m.event)

/-- The units of the intake are those that were evaluated, in order. -/
theorem through_sources (k : Intake) (ms : List (Moment H)) :
    (k.through ms).sources = k.sources ++ unitsEvaluated ms := by
  induction ms generalizing k with
  | nil => simp [unitsEvaluated]
  | cons m ms ih =>
    have hm : unitsEvaluated (m :: ms) = m.event.source?.toList ++ unitsEvaluated ms := by
      cases h : m.event.source? <;> simp [unitsEvaluated, h]
    rw [hm, ← List.append_assoc, ← after_sources]
    exact ih (k.after m.event)

/-- All stretches are as they should be. -/
def Sound (H : Host) (commands : Command.Table H) (k : Intake) : Prop :=
  ∀ stretch ∈ k.stretches, stretch.Sound H commands

/-- A stretch ends as it should. -/
theorem Sound.close {commands : Command.Table H} {k : Intake} {stretch : List String → Stretch}
    (h : k.Sound H commands) (hs : (stretch k.pending).Sound H commands) :
    (k.close stretch).Sound H commands := by
  intro st hst
  rcases List.mem_append.1 hst with hst | hst
  · exact h st hst
  · rw [List.mem_singleton.1 hst]
    exact hs

end Intake

/-! ## What is read from an input -/

/-- The results that a scripted input still has to give. -/
def World.queue? {H : Host} (w : World H) (input : Nat) : Option (List Line.ReadResult) :=
  match w.inputs[input]? with
  | some (.scripted script) => some script.queue
  | _ => none

/-- The line that a result gives. -/
def lineOf? : Line.ReadResult → Option String
  | .ok (.line line) => some line
  | _ => none

/-- Between the two worlds, exactly the given lines were read from the input, if it is scripted. -/
def Consumed {H : Host} (input : Nat) (w : World H) (lines : List String) (w' : World H) : Prop :=
  ∀ queue, w.queue? input = some queue → ∃ used rest, queue = used ++ rest ∧
    w'.queue? input = some rest ∧ used.filterMap lineOf? = lines

section Consumed

variable {H : Host} {input : Nat} {w w₁ w' : World H} {ls ms : List String}

theorem Consumed.trans (h₁ : Consumed input w ls w₁) (h₂ : Consumed input w₁ ms w') :
    Consumed input w (ls ++ ms) w' := by
  intro queue hqueue
  obtain ⟨used₁, rest₁, rfl, hrest₁, hused₁⟩ := h₁ queue hqueue
  obtain ⟨used₂, rest₂, rfl, hrest₂, hused₂⟩ := h₂ rest₁ hrest₁
  refine ⟨used₁ ++ used₂, rest₂, (List.append_assoc ..).symm, hrest₂, ?_⟩
  rw [List.filterMap_append, hused₁, hused₂]

theorem Consumed.of_queue_eq (h : w'.queue? input = w.queue? input) : Consumed input w [] w' := by
  intro queue hqueue
  exact ⟨[], queue, rfl, h.trans hqueue, rfl⟩

end Consumed

/-- Asking an input to remember a line leaves what is still to be read. -/
theorem World.queue?_remember {H : Host} (w : World H) (input i : Nat) (entry : String) :
    World.queue? { w with inputs := w.inputs.modify i (·.remember entry) } input =
      w.queue? input := by
  simp only [queue?, List.getElem?_modify]
  cases w.inputs[input]? with
  | none => rfl
  | some source =>
    by_cases hi : i = input
    · cases source <;> simp [hi, Line.Source.remember, Line.Scripted.remember]
    · simp [hi]

/-- Between the two worlds the intake changes from `k` to `k'`, and what was read from the input are
the lines in the log. -/
structure Takes {H : Host} (input : Nat) (k : Intake) (w w' : World H) (k' : Intake) : Prop where
  follows : w'.Follows w
  consumed : Consumed input w (linesRead (w'.since w)) w'
  intake : k.through (w'.since w) = k'

namespace Takes

variable {H : Host} {input : Nat} {w w₁ w' : World H} {k k₁ k' : Intake}

theorem trans (h₁ : Takes input k w w₁ k₁) (h₂ : Takes input k₁ w₁ w' k') :
    Takes input k w w' k' where
  follows := h₂.follows.trans h₁.follows
  consumed := by
    rw [World.since_trans h₂.follows h₁.follows, linesRead, List.filterMap_append]
    exact h₁.consumed.trans h₂.consumed
  intake := by
    rw [World.since_trans h₂.follows h₁.follows, Intake.through_append, h₁.intake, h₂.intake]

/-- Nothing is read and nothing recorded. -/
theorem of_log_eq (k : Intake) (hlog : w'.log = w.log)
    (hqueue : w'.queue? input = w.queue? input) : Takes input k w w' k := by
  have hsince := World.since_of_log_eq hlog
  refine ⟨.of_log_eq hlog, ?_, ?_⟩
  · rw [hsince]
    exact .of_queue_eq hqueue
  · rw [hsince, Intake.through_nil]

/-- Something is recorded, but no line. -/
theorem record {e : Event H} (he : e.lineRead? = none) (hk : k.after e = k') :
    Takes input k w (w.record e) k' := by
  have hsince : (w.record e).since w = [⟨e, w.view, w.host⟩] := World.since_eq (w.log_record e)
  refine ⟨w.record_follows e, ?_, ?_⟩
  · have hlines : linesRead [(⟨e, w.view, w.host⟩ : Moment H)] = [] := by
      simp [linesRead, he]
    rw [hsince, hlines]
    exact .of_queue_eq rfl
  · rw [hsince]
    exact hk

end Takes

/-- Whether something ends like this: with a result or by unwinding. -/
def Settled : Option Stop → Prop
  | none | some (.interrupt (.breakout _)) => True
  | _ => False

/-- What is pending where a session, a command or an evaluation ends: nothing, however it ends. -/
def Idle (e : Option Stop) (ls : List String) : Prop := e ≠ some .spent → ls = []

/-- What is pending where the steps of a session end: nothing if things settle, and otherwise lines
that call no command. -/
structure Paused {H : Host} (commands : Command.Table H) (e : Option Stop) (ls : List String) :
    Prop where
  settled : Settled e → ls = []
  unmatched : e ≠ some .spent → ∀ l ∈ ls, commands.find? l = none

section Paused

variable {H : Host} {commands : Command.Table H} {e : Option Stop} {ls : List String}

theorem Paused.of_nil (h : ls = []) : Paused commands e ls where
  settled _ := h
  unmatched _ l hl := by
    rw [h] at hl
    cases hl

theorem Idle.paused (h : Idle e ls) : Paused commands e ls where
  settled hs := h fun he => by
    rw [he] at hs
    exact hs
  unmatched he l hl := by
    rw [h he] at hl
    cases hl

end Paused

/-- Where no line is pending at first, all stretches that end are as they should be, and what is
pending in the end satisfies `rest`. -/
def Reads {H : Host} (rest : Option Stop → List String → Prop) (commands : Command.Table H)
    (input : Nat) (w : World H) (e : Option Stop) (w' : World H) : Prop :=
  ∀ k : Intake, k.pending = [] → k.Sound H commands →
    ∃ k', Takes input k w w' k' ∧ k'.Sound H commands ∧ rest e k'.pending

namespace Reads

variable {H : Host} {rest : Option Stop → List String → Prop} {commands : Command.Table H}
  {input : Nat} {w w₁ w' : World H} {e : Option Stop}

theorem trans (hrest : ∀ {ls}, rest none ls → ls = []) (h₁ : Reads rest commands input w none w₁)
    (h₂ : Reads rest commands input w₁ e w') : Reads rest commands input w e w' := by
  intro k hk hsound
  obtain ⟨k₁, ht₁, hsound₁, hk₁⟩ := h₁ k hk hsound
  obtain ⟨k', ht₂, hsound', hk'⟩ := h₂ k₁ (hrest hk₁) hsound₁
  exact ⟨k', ht₁.trans ht₂, hsound', hk'⟩

section Still

variable (hrest : ∀ e, rest e [])
include hrest

/-- Nothing is read and nothing recorded. -/
theorem of_log_eq (hlog : w'.log = w.log) (hqueue : w'.queue? input = w.queue? input) :
    Reads rest commands input w e w' :=
  fun k hk hsound => ⟨k, .of_log_eq k hlog hqueue, hsound, hk ▸ hrest e⟩

/-- Something is recorded that has nothing to do with lines. -/
theorem record {ev : Event H} (hev : ∀ k : Intake, k.after ev = k) (hl : ev.lineRead? = none) :
    Reads rest commands input w e (w.record ev) :=
  fun k hk hsound => ⟨k, .record hl (hev k), hsound, hk ▸ hrest e⟩

/-- Commands and evaluations by themselves read nothing. -/
theorem serves (hnone : ∀ {ls}, rest none ls → ls = []) :
    Conduct.Serves (Reads rest commands input) where
  refl w := of_log_eq hrest rfl rfl
  trans h₁ h₂ := h₁.trans hnone h₂
  spent w := of_log_eq hrest rfl rfl
  raise w i := record hrest (fun _ => rfl) rfl
  wrote w piece sink _ := by
    have hsink : Reads rest commands input w none { w with sink := sink } :=
      of_log_eq hrest rfl rfl
    exact hsink.trans hnone (record hrest (fun _ => rfl) rfl)
  host w state := of_log_eq hrest rfl rfl
  printed w id outcome := record hrest (fun _ => rfl) rfl
  consulting w id ctx source := record hrest (fun _ => rfl) rfl

end Still

/-- Commands and evaluations leave nothing pending. -/
theorem serves_idle : Conduct.Serves (Reads Idle commands input) :=
  serves (fun _ _ => rfl) fun h => h nofun

/-- What steps do by themselves leaves nothing pending. -/
theorem serves_paused : Conduct.Serves (Reads (Paused commands) commands input) :=
  serves (fun _ => .of_nil rfl) fun h => h.settled trivial

/-- An interrupt that ends a session may be caught: nothing is pending then. -/
theorem catches : Conduct.Catches (Reads Idle commands input) := by
  intro w i w' h k hk hsound
  obtain ⟨k', htakes, hsound', hpending⟩ := h k hk hsound
  exact ⟨k', htakes, hsound', fun _ => hpending nofun⟩

/-- Something that begins once nothing is pending goes on from what was taken before. -/
theorem after_takes {α : Type} {m : Exec H α} {k k₁ : Intake}
    (hm : Exec.Meets (Reads rest commands input) m) (htakes : Takes input k w w₁ k₁)
    (hk₁ : k₁.pending = []) (hsound : k₁.Sound H commands) :
    ∃ k', Takes input k w (m w₁).2 k' ∧ k'.Sound H commands ∧
      rest (ending (m w₁).1) k'.pending := by
  obtain ⟨k', htakes', hrest⟩ := hm w₁ k₁ hk₁ hsound
  exact ⟨k', htakes.trans htakes', hrest⟩

end Reads

/-! ## Reading a unit -/

/-- Nothing happens that has to do with lines, the inputs stay as they are, and if it stops, then
neither by unwinding. -/
structure Aside {H : Host} (w : World H) (e : Option Stop) (w' : World H) : Prop where
  follows : w'.Follows w
  intake : ∀ k : Intake, k.through (w'.since w) = k
  inputs : w'.inputs = w.inputs
  stop : Settled e → e = none

namespace Aside

variable {H : Host} {w w₁ w' : World H} {e : Option Stop}

theorem trans (h₁ : Aside w none w₁) (h₂ : Aside w₁ e w') : Aside w e w' where
  follows := h₂.follows.trans h₁.follows
  intake k := by
    rw [World.since_trans h₂.follows h₁.follows, Intake.through_append, h₁.intake, h₂.intake]
  inputs := h₂.inputs.trans h₁.inputs
  stop := h₂.stop

theorem record {ev : Event H} (hev : ∀ k : Intake, k.after ev = k) (hstop : Settled e → e = none) :
    Aside w e (w.record ev) where
  follows := w.record_follows ev
  intake k := by
    rw [World.since_eq (w.log_record ev)]
    exact hev k
  inputs := rfl
  stop := hstop

/-- Writing has nothing to do with lines. -/
theorem writes : Conduct.Writes (Aside (H := H)) where
  refl w := ⟨.refl w, fun k => by rw [World.since_self, Intake.through_nil], rfl, fun _ => rfl⟩
  trans h₁ h₂ := h₁.trans h₂
  io w err := record (fun _ => rfl) False.elim
  wrote w piece sink _ := by
    have h : Aside { w with sink := sink } none
        (World.record { w with sink := sink } (.wrote piece)) :=
      record (fun _ => rfl) fun _ => rfl
    exact ⟨h.follows, h.intake, h.inputs, h.stop⟩

/-- Nothing is read from the input. -/
theorem takes (h : Aside w e w') (input : Nat) (k : Intake) : Takes input k w w' k where
  follows := h.follows
  consumed := by
    have hlines := ({} : Intake).through_lines (w'.since w)
    rw [h.intake, List.self_eq_append_right] at hlines
    rw [hlines]
    apply Consumed.of_queue_eq
    rw [World.queue?, World.queue?, h.inputs]
  intake := h.intake k

end Aside

/-- The line that reading gave. -/
def lineGiven : Except Stop Line.Read → List String
  | .ok (.line line) => [line]
  | _ => []

/-- A scripted input gives the next one of its results, and writes nothing. -/
theorem scripted_readLine (script : Line.Scripted) (prompt : String) :
    ∃ result script', (Line.Source.scripted script).readLine prompt =
        (result, "", .scripted script') ∧
      ∃ used, script.queue = used ++ script'.queue ∧
        used.filterMap lineOf? = (lineOf? result).toList := by
  simp only [Line.Source.readLine, Line.Scripted.readLine]
  cases hq : script.queue with
  | nil => exact ⟨_, _, rfl, [], rfl, rfl⟩
  | cons r queue =>
    refine ⟨_, _, rfl, [r], rfl, ?_⟩
    cases h : lineOf? r <;> simp [h]

/-- Reading under a prompt gave a result: what it took from the input is the line that it gave, of
which the log does not tell yet. -/
structure Offers {H : Host} (input : Nat) (w : World H) (r : Except Stop Line.Read) (w' : World H) :
    Prop where
  follows : w'.Follows w
  intake : ∀ k : Intake, k.through (w'.since w) = k
  consumed : Consumed input w (lineGiven r) w'
  stop : Settled (ending r) → ending r = none

/-- What an input gives, once it is put in the place of the input before. -/
theorem Consumed.of_readLine {H : Host} {input : Nat} {prompt shown : String} {w w' : World H}
    {source source' : Line.Source} {result : Line.ReadResult}
    (hs : w.inputs[input]? = some source)
    (hread : source.readLine prompt = (result, shown, source'))
    (hw' : w'.inputs = w.inputs.set input source') :
    Consumed input w (lineOf? result).toList w' := by
  intro queue hqueue
  rw [World.queue?, hs] at hqueue
  cases source with
  | scripted script =>
    obtain ⟨result', script', hread', used, hused, hlines⟩ := scripted_readLine script prompt
    -- What was read is what the script gave.
    rw [hread'] at hread
    obtain ⟨rfl, -, rfl⟩ := hread
    obtain rfl := Option.some.inj hqueue
    have hlt : input < w.inputs.length := (List.getElem?_eq_some_iff.1 hs).1
    refine ⟨used, script'.queue, hused, ?_, hlines⟩
    rw [World.queue?, hw', List.getElem?_set_self hlt]
  | plain _ => cases hqueue
  | editor _ => cases hqueue

/-- An input that writes something as it reads is not scripted. -/
theorem shown_eq_empty {H : Host} {input : Nat} {prompt shown : String} {w : World H}
    {source source' : Line.Source} {result : Line.ReadResult} {queue : List Line.ReadResult}
    (hs : w.inputs[input]? = some source)
    (hread : source.readLine prompt = (result, shown, source'))
    (hqueue : w.queue? input = some queue) : shown = "" := by
  rw [World.queue?, hs] at hqueue
  cases source with
  | scripted script =>
    obtain ⟨_, _, hread', -⟩ := scripted_readLine script prompt
    rw [hread'] at hread
    exact (congrArg (·.2.1) hread).symm
  | plain _ => cases hqueue
  | editor _ => cases hqueue

/-- Every read is like this. -/
theorem readLine_offers {H : Host} (input : Nat) (prompt : String) (w : World H) :
    Offers input w (Exec.readLine input prompt w).1 (Exec.readLine input prompt w).2 := by
  have hprompted : Aside w none (w.record (.prompted input prompt)) :=
    .record (fun _ => rfl) fun _ => rfl
  cases hs : w.inputs[input]? with
  | none =>
    rw [Exec.readLine_of_none hs]
    exact ⟨hprompted.follows, hprompted.intake, .of_queue_eq rfl, fun _ => rfl⟩
  | some source =>
    have hannounced := hprompted.trans
      (Aside.writes.writePieces_meets (source.announce prompt) (w.record (.prompted input prompt)))
    rw [Exec.readLine_of_some hs, Exec.bind_apply]
    generalize Exec.writePieces _ _ = x at hannounced ⊢
    obtain ⟨stop | _, w₁⟩ := x
    · -- Nothing is read under a prompt that cannot be written.
      refine ⟨hannounced.follows, hannounced.intake, .of_queue_eq ?_, hannounced.stop⟩
      rw [World.queue?, World.queue?, hannounced.inputs]
    dsimp only [ending_ok] at hannounced ⊢
    -- The input behind the read is put in its place before anything more is written.
    rw [Exec.bind_apply, Exec.change]
    dsimp only
    generalize hv : w₁.asked input prompt source = v
    have hlog : v.log = w₁.log := by rw [← hv]; rfl
    have hset : v.inputs = w.inputs.set input (source.readLine prompt).2.2 := by
      rw [← hv, ← hannounced.inputs]
      rfl
    generalize hread : source.readLine prompt = x at hset ⊢
    obtain ⟨result, shown, source'⟩ := x
    have hfollows : v.Follows w := by
      rw [World.Follows, hlog]
      exact hannounced.follows
    -- What is written afterwards neither reads nor records a line.
    have hput := Aside.writes.put_meets ⟨[.text shown], Line.failure? result⟩ v
    have hrest : ∀ {e : Option Stop} {v' : World H}, Aside v e v' →
        v'.Follows w ∧ (∀ k : Intake, k.through (v'.since w) = k) ∧
          Consumed input w (lineOf? result).toList v' := by
      intro e v' h
      refine ⟨h.follows.trans hfollows, ?_, .of_readLine hs hread (h.inputs.trans hset)⟩
      intro k
      have hvw : v.since w = w₁.since w := by rw [World.since, World.since, hlog]
      rw [World.since_trans h.follows hfollows, Intake.through_append, h.intake, hvw,
        hannounced.intake]
    obtain ⟨h₁, h₂, h₃⟩ := hrest hput
    rw [Exec.bind_apply]
    generalize hx : Exec.put _ v = x at hput h₁ h₂ h₃ ⊢
    obtain ⟨stop | _, v₁⟩ := x
    · refine ⟨h₁, h₂, ?_, hput.stop⟩
      cases result with
      | error err => exact h₃
      | ok r =>
        -- A scripted input shows nothing, so that nothing can fail.
        intro queue hqueue
        rw [shown_eq_empty hs hread hqueue] at hx
        cases hx
    · refine ⟨h₁, h₂, ?_, fun _ => rfl⟩
      cases result with
      | error err => exact h₃
      | ok r => cases r <;> exact h₃

section Offers

variable {H : Host} {input : Nat} {w w' : World H} {r : Except Stop Line.Read}

/-- No line was given. -/
theorem Offers.takes (h : Offers input w r w') (hr : lineGiven r = []) (k : Intake) :
    Takes input k w w' k where
  follows := h.follows
  consumed := by
    have hlines := ({} : Intake).through_lines (w'.since w)
    rw [h.intake, List.self_eq_append_right] at hlines
    rw [hlines, ← hr]
    exact h.consumed
  intake := h.intake k

/-- A line was given and is recorded. -/
theorem Offers.takes_line {line : String} (h : Offers input w (.ok (.line line)) w') (k : Intake) :
    Takes input k w (w'.record (.lineRead line)) { k with pending := k.pending ++ [line] } := by
  have hthrough : ∀ k : Intake, k.through ((w'.record (.lineRead line)).since w) =
      { k with pending := k.pending ++ [line] } := by
    intro k
    rw [World.since_record h.follows, Intake.through_append, h.intake]
    rfl
  refine ⟨(w'.record_follows _).trans h.follows, ?_, hthrough k⟩
  have hlines := ({} : Intake).through_lines ((w'.record (.lineRead line)).since w)
  rw [hthrough] at hlines
  have hline : linesRead ((w'.record (.lineRead line)).since w) = [line] := hlines.symm
  rw [hline]
  exact h.consumed

end Offers

/-! ## Commands -/

namespace Session

variable {H : Host}

/-- Carrying out a plan that spares the pending text. -/
theorem carryOut_pending (run : Runner H) (rounds : Nat) (s : Session H) {plan : Command.Plan H}
    (h : plan.Spares) (pending : String) (w : World H) :
    (s.carryOut run rounds plan pending w).1.2 = pending := by
  induction plan generalizing w with
  | done => rfl
  | interrupt i => rfl
  | edit f p ih => exact h.elim
  | look k ih => exact ih _ (h _) w
  | act d k ih =>
    unfold carryOut
    generalize s.perform run rounds d w = r
    obtain ⟨_ | a, w₁⟩ := r
    · rfl
    · exact ih a (h a) w₁
  | attempt d k ih =>
    unfold carryOut
    generalize Exec.caught (s.perform run rounds d) w = r
    obtain ⟨_ | a, w₁⟩ := r
    · rfl
    · exact ih a (h a) w₁

/-- A line that calls no command leads to nothing. -/
theorem dispatch_none (run : Runner H) (rounds : Nat) (s : Session H) (ctx : H.Context)
    {line : String} (pending : String) (h : s.config.commands.find? line = none) (w : World H) :
    s.dispatch run rounds ctx line pending w = ((.ok false, pending), w) := by
  rw [dispatch, h]

/-- A line that calls a command leaves nothing pending, if the commands clear. -/
theorem dispatch_clears (run : Runner H) (rounds : Nat) (s : Session H) (ctx : H.Context)
    {line : String} (pending : String) (hc : s.config.commands.Clears) {command : Command H}
    {captures : List (Option String)} (h : s.config.commands.find? line = some (command, captures))
    (w : World H) : (s.dispatch run rounds ctx line pending w).1.2 = "" := by
  obtain ⟨rest, hplan, hrest⟩ := hc command (Command.Table.mem_of_find? h)
    ⟨line, captures, w.stack, ctx, s.config.commands.listings⟩
  have hempty := carryOut_pending run rounds s hrest "" (w.record (.dispatched command.usage))
  unfold dispatch
  rw [h]
  dsimp only
  rw [World.record_stack, hplan, Command.Plan.cleared, carryOut]
  generalize s.carryOut run rounds rest "" _ = x at hempty ⊢
  obtain ⟨⟨_ | _, left⟩, w₂⟩ := x
  · exact hempty
  · exact hempty

/-- The world once the host was asked whether a text is complete: why it is not, or why the host
cannot tell, is recorded. -/
def judged (text : String) (w : World H) : World H :=
  match H.judge text with
  | .incomplete (some reason) => w.record (.incomplete reason)
  | .fault f => w.record (.undecided f)
  | _ => w

/-- A text counts as complete if the host says so, and not if it cannot tell. -/
theorem isComplete_apply (text : String) (w : World H) :
    isComplete text w = (.ok (decide (H.judge text = .complete)), judged text w) := by
  unfold isComplete judge judged
  simp only [Exec.bind_apply]
  cases H.judge text with
  | complete => rfl
  | incomplete reason => cases reason <;> rfl
  | fault f => rfl

/-- Asking the host has nothing to do with lines. -/
theorem judged_aside (text : String) (w : World H) : Aside w none (judged text w) := by
  unfold judged
  split
  · exact .record (fun _ => rfl) fun _ => rfl
  · exact .record (fun _ => rfl) fun _ => rfl
  · exact Aside.writes.refl w

variable {run : Runner H} {s : Session H} (hc : s.config.commands.Clears)
  (hn : ∀ t, Exec.Meets (Reads Idle s.config.commands s.config.input) (s.nestVia run t))
include hc hn

/-- A line that calls a command ends a stretch, and leaves nothing pending. -/
theorem dispatch_reads (rounds : Nat) (ctx : H.Context) (pending : String) {line : String}
    {command : Command H} {captures : List (Option String)}
    (h : s.config.commands.find? line = some (command, captures)) (k : Intake)
    {ls : List String} (hk : k.pending = ls ++ [line])
    (hls : ∀ l ∈ ls, s.config.commands.find? l = none) (hsound : k.Sound H s.config.commands)
    (w : World H) :
    (s.dispatch run rounds ctx line pending w).1.2 = "" ∧
      ∃ k', Takes s.config.input k w (s.dispatch run rounds ctx line pending w).2 k' ∧
        k'.Sound H s.config.commands ∧
        Idle (ending (s.dispatch run rounds ctx line pending w).1.1) k'.pending := by
  have hcalled : Takes s.config.input k w (w.record (.dispatched command.usage))
      (k.close (.called · command.usage)) := .record rfl rfl
  have hclosed : (k.close (.called · command.usage)).Sound H s.config.commands :=
    hsound.close ⟨ls, line, command, captures, hk, hls, h, rfl⟩
  have hobeys := (Reads.serves_idle.acts (.inl Reads.catches)).obeys hn rounds
  have hacts := hobeys.carryOut_allowed (.inl Reads.catches)
    (Command.Plan.keeps_of_forall (fun _ => trivial) (fun _ _ _ => trivial)
      (command.handler ⟨line, captures, w.stack, ctx, s.config.commands.listings⟩))
    pending (hobeys.refl (w.record (.dispatched command.usage))) _ rfl hclosed
  refine ⟨dispatch_clears run rounds s ctx pending hc h w, ?_⟩
  unfold dispatch
  rw [h]
  dsimp only
  rw [World.record_stack]
  generalize s.carryOut run rounds _ pending (w.record (.dispatched command.usage)) = x at hacts ⊢
  obtain ⟨k', htakes, hsound', hpending⟩ := hacts
  obtain ⟨⟨_ | _, rest⟩, w₂⟩ := x
  · exact ⟨k', hcalled.trans htakes, hsound', hpending⟩
  · exact ⟨k', hcalled.trans htakes, hsound', hpending⟩

/-- What a line leads to: either it is added to what is pending, or it calls a command and nothing
is pending. -/
theorem takeLine_reads (rounds : Nat) (ctx : H.Context) {pending line : String} {k : Intake}
    (hk : IsPartial H s.config.commands k.pending pending) (hsound : k.Sound H s.config.commands)
    {w w₁ : World H} (hoffers : Offers s.config.input w (.ok (.line line)) w₁) :
    ∃ k', Takes s.config.input k w (s.takeLine run rounds ctx pending line w₁).2 k' ∧
      k'.Sound H s.config.commands ∧
      ((∃ stop, (s.takeLine run rounds ctx pending line w₁).1 = .error stop ∧
          Idle (some stop) k'.pending) ∨
        ((s.takeLine run rounds ctx pending line w₁).1 = .ok "" ∧ k'.pending = []) ∨
        ((s.takeLine run rounds ctx pending line w₁).1 = .ok (pending ++ line ++ "\n") ∧
          s.config.commands.find? line = none ∧ k'.pending = k.pending ++ [line])) := by
  have hline := hoffers.takes_line k
  -- Before the line is looked up it is recorded and remembered.
  obtain ⟨w₂, htakeLine, hw₂⟩ : ∃ w₂, s.takeLine run rounds ctx pending line w₁ =
      s.lookUp run rounds ctx line (pending ++ line ++ "\n") w₂ ∧
      Takes s.config.input k w w₂ { k with pending := k.pending ++ [line] } := by
    unfold takeLine
    simp only [Exec.bind_apply, Exec.record, Exec.change]
    cases Text.isBlankText line with
    | false => exact ⟨_, rfl, hline.trans (.of_log_eq _ rfl (World.queue?_remember _ _ _ _))⟩
    | true => exact ⟨_, rfl, hline⟩
  rw [htakeLine, lookUp]
  cases hfind : s.config.commands.find? line with
  | none =>
    -- The line stays pending.
    rw [dispatch_none run rounds s ctx _ hfind]
    exact ⟨_, hw₂, hsound, .inr (.inr ⟨rfl, rfl, rfl⟩)⟩
  | some found =>
    -- The line calls a command, which empties the pending text before anything else.
    obtain ⟨command, captures⟩ := found
    have hd := dispatch_reads hc hn rounds ctx (pending ++ line ++ "\n") hfind
      { k with pending := k.pending ++ [line] } rfl hk.unmatched hsound w₂
    generalize s.dispatch run rounds ctx line (pending ++ line ++ "\n") w₂ = x at hd ⊢
    obtain ⟨hempty, k', htakes, hsound', hpending⟩ := hd
    refine ⟨k', ?_, hsound', ?_⟩
    · obtain ⟨⟨_ | _, rest⟩, w₃⟩ := x
      · exact hw₂.trans htakes
      · exact hw₂.trans htakes
    · obtain ⟨⟨stop | _, rest⟩, w₃⟩ := x
      · exact .inl ⟨stop, rfl, hpending⟩
      · exact .inr (.inl ⟨congrArg Except.ok hempty, hpending (by simp [ending])⟩)

/-- What is read as a unit are the lines read since the last stretch. -/
theorem readUnitFrom_reads (rounds : Nat) (ctx : H.Context) (n : Nat) {pending : String}
    {k : Intake} (hk : IsPartial H s.config.commands k.pending pending)
    (hsound : k.Sound H s.config.commands) (w : World H) :
    ∃ k', Takes s.config.input k w (s.readUnitFrom run rounds ctx n pending w).2 k' ∧
      k'.Sound H s.config.commands ∧
      ((∃ stop, (s.readUnitFrom run rounds ctx n pending w).1 = .error stop ∧
          Paused s.config.commands (some stop) k'.pending) ∨
        ∃ text, (s.readUnitFrom run rounds ctx n pending w).1 = .ok text ∧
          IsUnit H s.config.commands k'.pending text) := by
  -- By induction on the rounds; what is pending is a part of a unit in each of them.
  induction n generalizing pending k w with
  | zero => exact ⟨k, .of_log_eq k rfl rfl, hsound, .inl ⟨.spent, rfl, nofun, nofun⟩⟩
  | succ n ih =>
    have hoffers := readLine_offers s.config.input
      (s.config.prompts.select pending.isEmpty (H.receiver ctx) w.level) w
    simp only [readUnitFrom, Exec.bind_apply, Exec.read]
    generalize Exec.readLine s.config.input
      (s.config.prompts.select pending.isEmpty (H.receiver ctx) w.level) w = x at hoffers ⊢
    obtain ⟨stop | r, w₁⟩ := x
    · exact ⟨k, hoffers.takes rfl k, hsound,
        .inl ⟨stop, rfl, fun hs => absurd (hoffers.stop hs) (by simp), fun _ => hk.unmatched⟩⟩
    cases r with
    | eof =>
      have hraised : Takes s.config.input k w₁ (w₁.record (.raised .endOfInput)) k :=
        .record rfl rfl
      exact ⟨k, (hoffers.takes rfl k).trans hraised, hsound,
        .inl ⟨_, rfl, nofun, fun _ => hk.unmatched⟩⟩
    | interrupted =>
      have hcancelled : Takes s.config.input k w₁ (w₁.record .cancelled) (k.close .cancelled) :=
        .record rfl rfl
      have hclosed : (k.close .cancelled).Sound H s.config.commands := hsound.close hk.unmatched
      obtain ⟨k', htakes, hrest⟩ := ih (IsPartial.nil H s.config.commands) hclosed
        (w₁.record .cancelled)
      exact ⟨k', ((hoffers.takes rfl k).trans hcancelled).trans htakes, hrest⟩
    | line line =>
      have hline := takeLine_reads hc hn rounds ctx hk hsound hoffers
      simp only [Exec.bind_apply]
      generalize s.takeLine run rounds ctx pending line w₁ = x at hline ⊢
      obtain ⟨k₂, htakes₂, hsound₂, hresult⟩ := hline
      obtain ⟨y, w₂⟩ := x
      rcases hresult with ⟨stop, rfl, hstop⟩ | ⟨rfl, hempty⟩ | ⟨rfl, hfind, hpending⟩
      · exact ⟨k₂, htakes₂, hsound₂, .inl ⟨stop, rfl, hstop.paused⟩⟩
      · -- A command was called.
        have hk₂ : IsPartial H s.config.commands k₂.pending "" := by
          rw [hempty]
          exact IsPartial.nil H s.config.commands
        obtain ⟨k', htakes, hrest⟩ := ih hk₂ hsound₂ w₂
        exact ⟨k', htakes₂.trans htakes, hrest⟩
      · -- The line is added to those that are pending.
        have hnonempty : (pending ++ line ++ "\n").isEmpty = false := by
          simp [String.isEmpty_eq_false_iff]
        have haside := judged_aside (pending ++ line ++ "\n") w₂
        have htakes₃ := htakes₂.trans (haside.takes s.config.input k₂)
        simp only [hnonempty, Exec.if_apply, Exec.bind_apply, isComplete_apply]
        by_cases hj : H.judge (pending ++ line ++ "\n") = .complete
        · -- With this line the unit is complete for the first time.
          have hunit := hk.unit hfind hj
          rw [← hpending] at hunit
          simp only [hj, decide_true, if_true]
          exact ⟨k₂, htakes₃, hsound₂, .inr ⟨_, rfl, hunit⟩⟩
        · have hpart := hk.concat hfind hj
          rw [← hpending] at hpart
          simp only [hj, decide_false]
          obtain ⟨k', htakes, hrest⟩ := ih hpart hsound₂ (judged (pending ++ line ++ "\n") w₂)
          exact ⟨k', htakes₃.trans htakes, hrest⟩

omit hc in
/-- Evaluating a unit ends the stretch of its lines. -/
theorem evaluate_reads (rounds : Nat) (ctx : H.Context) {source : String} {k : Intake}
    (hunit : IsUnit H s.config.commands k.pending source) (hsound : k.Sound H s.config.commands)
    (w : World H) :
    ∃ k', Takes s.config.input k w (s.evaluate run rounds ctx source w).2 k' ∧
      k'.Sound H s.config.commands ∧
      Idle (ending (s.evaluate run rounds ctx source w).1) k'.pending := by
  have hr : Conduct.Serves (Reads Idle s.config.commands s.config.input) := Reads.serves_idle
  have hclosed : (k.close (.evaluated · source)).Sound H s.config.commands := hsound.close hunit
  obtain ⟨w₁, hbind, htakes₁⟩ : ∃ w₁, s.bindConveniences ctx w = (.ok (), w₁) ∧
      Takes s.config.input k w w₁ k := ⟨_, rfl, .of_log_eq k rfl rfl⟩
  have hrecord : Exec.record (.evaluating s.id ctx source) w₁ =
      (.ok (), w₁.record (.evaluating s.id ctx source)) := rfl
  have htakes₂ : Takes s.config.input k w₁ (w₁.record (.evaluating s.id ctx source))
      (k.close (.evaluated · source)) := .record rfl rfl
  -- Once the unit is recorded, nothing is pending, and the rest is an evaluation like any other.
  unfold evaluate
  rw [Exec.bind_of_ok hbind, Exec.bind_of_ok hrecord]
  apply Reads.after_takes ?_ (htakes₁.trans htakes₂) rfl hclosed
  apply hr.bind_meets (hr.evaluateIn_meets (.inl Reads.catches) hn rounds ctx source)
  intro outcome
  have hempty : ∀ e, Idle e [] := fun _ _ => rfl
  cases outcome with
  | value v =>
    refine hr.bind_meets (fun w => Reads.of_log_eq hempty rfl rfl) fun _ => ?_
    refine hr.bind_meets (fun w => Reads.record hempty (fun _ => rfl) rfl) fun _ => ?_
    exact hr.bind_meets (hr.bindConveniences_meets s ctx) fun _ => hr.pure_meets _
  | fault f =>
    refine hr.bind_meets (fun w => Reads.record hempty (fun _ => rfl) rfl) fun _ => ?_
    exact hr.pure_meets _

/-- A step reads a unit and evaluates it. -/
theorem step_reads (rounds : Nat) (ctx : H.Context) :
    Exec.Meets (Reads (Paused s.config.commands) s.config.commands s.config.input)
      (s.step run rounds ctx) := by
  intro w k hk hsound
  have hpart : IsPartial H s.config.commands k.pending "" := by
    rw [hk]
    exact IsPartial.nil H s.config.commands
  have hread := readUnitFrom_reads hc hn rounds ctx rounds hpart hsound w
  simp only [step, readUnit, Exec.bind_apply]
  generalize s.readUnitFrom run rounds ctx rounds "" w = x at hread ⊢
  obtain ⟨k₁, htakes₁, hsound₁, hresult⟩ := hread
  obtain ⟨y, w₁⟩ := x
  rcases hresult with ⟨stop, rfl, hstop⟩ | ⟨source, rfl, hunit⟩
  · exact ⟨k₁, htakes₁, hsound₁, hstop⟩
  have heval := evaluate_reads hn rounds ctx hunit hsound₁ w₁
  dsimp only
  generalize s.evaluate run rounds ctx source w₁ = x at heval ⊢
  obtain ⟨k₂, htakes₂, hsound₂, hpending₂⟩ := heval
  obtain ⟨stop | outcome, w₂⟩ := x
  · exact ⟨k₂, htakes₁.trans htakes₂, hsound₂, hpending₂.paused⟩
  obtain ⟨k₃, htakes₃, hsound₃, hpending₃⟩ :=
    Reads.serves_paused.print_meets s outcome w₂ k₂ (hpending₂ nofun) hsound₂
  exact ⟨k₃, (htakes₁.trans htakes₂).trans htakes₃, hsound₃, hpending₃⟩

end Session

/-! ## Reading in a session -/

namespace Aside

variable {H : Host}

/-- Calling a hook has nothing to do with lines. -/
theorem fire {s : Session H} {name : String} {args : List Value} {w w' : World H}
    {x : Except Stop Unit} (hx : s.fire name args w = (x, w')) : Aside w (ending x) w' := by
  have hfired : ∀ v : World H, Aside v none (v.record (.fired name args)) := fun _ =>
    record (fun _ => rfl) fun _ => rfl
  have h := writes.fire_meets s name args hfired w
  rw [hx] at h
  exact h

/-- Taking a session off the stack has nothing to do with lines. -/
theorem leave (w : World H) (active : Option SessionId) (depth : Nat) :
    Aside w none (w.leave active depth) := by
  have h : Aside { w with stack := w.stack.dropLast, active := active } none
      (w.leave active depth) := record (fun _ => rfl) fun _ => rfl
  exact ⟨h.follows, h.intake, h.inputs, h.stop⟩

end Aside

namespace Reads

variable {H : Host} {commands : Command.Table H} {input : Nat} {w w₁ w' : World H}

/-- What has nothing to do with lines may happen before. -/
theorem of_aside {rest : Option Stop → List String → Prop} (hrest : ∀ e, rest e [])
    {e : Option Stop} (h : Aside w e w') : Reads rest commands input w e w' :=
  fun k hk hsound => ⟨k, h.takes input k, hsound, hk ▸ hrest e⟩

/-- What has nothing to do with lines may happen behind steps that settle, or that have no round
left. -/
theorem then_aside {e e' e₁ : Option Stop} (h : Reads (Paused commands) commands input w e w₁)
    (ha : Aside w₁ e₁ w') (he : e' ≠ some .spent → Settled e) :
    Reads Idle commands input w e' w' := by
  intro k hk hsound
  obtain ⟨k', htakes, hsound', hpending⟩ := h k hk hsound
  exact ⟨k', htakes.trans (ha.takes input k'), hsound', fun hs => hpending.settled (he hs)⟩

/-- The lines that are pending when a session is aborted get into no unit. -/
theorem aborted {e : Option Stop} {i : Interrupt} {id : SessionId}
    (h : Reads (Paused commands) commands input w (some (.interrupt i)) w₁)
    (ha : Aside w₁ none w') : Reads Idle commands input w e (w'.record (.aborted id i)) := by
  intro k hk hsound
  obtain ⟨k', htakes, hsound', hpending⟩ := h k hk hsound
  have hclosed : (k'.close .aborted).Sound H commands := hsound'.close (hpending.unmatched nofun)
  have haborted : Takes input k' w' (w'.record (.aborted id i)) (k'.close .aborted) :=
    .record rfl rfl
  exact ⟨_, (htakes.trans (ha.takes input k')).trans haborted, hclosed, fun _ => rfl⟩

/-- Nothing is pending when a session is put on the stack. -/
theorem begun {rest : Option Stop → List String → Prop} (hrest : ∀ e, rest e []) (s : Session H)
    (receiver : Value) (w : World H) :
    Reads rest commands input w none (s.begun receiver w) := by
  intro k hk hsound
  have hstarted : Takes input k w (w.record (.started s.id w.depth receiver)) k :=
    .record rfl rfl
  have hstack : Takes input k (w.record (.started s.id w.depth receiver))
      { w.record (.started s.id w.depth receiver) with
        stack := w.stack ++ [⟨w.depth, receiver⟩], active := some s.id } k :=
    .of_log_eq k rfl rfl
  have hentered : Takes input k w (s.begun receiver w) (k.close .entered) :=
    (hstarted.trans hstack).trans (.record rfl rfl)
  exact ⟨_, hentered, hsound.close hk, hrest none⟩

/-- Running a session reads as its steps do. -/
theorem ran {s : Session H} {receiver : Value} {body : Exec H Nat} {r : Except Stop Value}
    (hran : s.Ran receiver body w r w')
    (hbody : ∀ w, Reads (Paused commands) commands input w (Session.bodyEnding (body w).1)
      (body w).2) :
    Reads Idle commands input w (ending r) w' := by
  -- From the begin up to where the session is about to be taken off the stack.
  have hinside : ∀ {w₁ w₂ : World H} {x : Except Stop Nat},
      s.fire beforeSession [receiver] w = (.ok (), w₁) → body (s.begun receiver w₁) = (x, w₂) →
      Reads (Paused commands) commands input w (Session.bodyEnding x) w₂ := by
    intro w₁ w₂ x hb hx
    have hempty : ∀ e, Paused commands e [] := fun _ => .of_nil rfl
    have hbefore : Reads (Paused commands) commands input w none w₁ :=
      of_aside hempty (Aside.fire hb)
    have hin := hbody (s.begun receiver w₁)
    rw [hx] at hin
    exact serves_paused.trans (serves_paused.trans hbefore (begun hempty s receiver w₁)) hin
  cases hran with
  | refused hb => exact of_aside (fun _ _ => rfl) (Aside.fire hb)
  | @aborted w₁ w₂ i hb hx =>
    exact (hinside hb hx).aborted (Aside.leave w₂ _ _)
  | @spent w₁ w₂ hb hx =>
    exact (hinside hb hx).then_aside (Aside.leave w₂ _ _) fun hs => absurd rfl hs
  | @failed w₁ w₂ _ _ _ hb hx ha =>
    exact (hinside hb hx).then_aside ((Aside.leave w₂ _ _).trans (Aside.fire ha)) fun _ => trivial
  | @ended w₁ w₂ w₃ level hb hx ha _ =>
    have hafter : Aside w₂ none (w₃.record (.ended s.id level)) :=
      ((Aside.leave w₂ _ _).trans (Aside.fire ha)).trans (.record (fun _ => rfl) fun _ => rfl)
    exact (hinside hb hx).then_aside hafter fun _ => trivial
  | @propagated w₁ w₂ w₃ level hb hx ha _ =>
    have hafter : Aside w₂ none (w₃.record (.propagated s.id level w₁.depth)) :=
      ((Aside.leave w₂ _ _).trans (Aside.fire ha)).trans (.record (fun _ => rfl) fun _ => rfl)
    exact (hinside hb hx).then_aside hafter fun _ => trivial

/-- Opening a session inside of another one, which has the same commands and the same input. -/
theorem nestVia {run : Session.Runner H}
    (hrun : ∀ (s : Session H) (t : Target H.Context) (w : World H), s.config.commands.Clears →
      Reads Idle s.config.commands s.config.input w (ending (run s t w).1) (run s t w).2)
    {s : Session H} (hc : s.config.commands.Clears) (t : Target H.Context) :
    Exec.Meets (Reads Idle s.config.commands s.config.input) (s.nestVia run t) := by
  intro w
  rw [Session.nestVia_apply]
  have hid : Reads Idle s.config.commands s.config.input w none { w with nextId := w.nextId + 1 } :=
    of_log_eq (fun _ _ => rfl) rfl rfl
  exact serves_idle.trans hid (hrun ⟨w.nextId, s.config⟩ t { w with nextId := w.nextId + 1 } hc)

/-- Every run reads like this. -/
theorem run (rounds : Nat) (s : Session H) (t : Target H.Context) (w : World H)
    (hc : s.config.commands.Clears) :
    Reads Idle s.config.commands s.config.input w (ending (Session.run rounds s t w).1)
      (Session.run rounds s t w).2 := by
  -- By induction on the rounds: the sessions opened inside have the same commands and fewer rounds.
  induction rounds generalizing s t w with
  | zero => exact serves_idle.spent w
  | succ rounds ih =>
    rw [Session.run_succ]
    have hhost : Reads Idle s.config.commands s.config.input w none
        { w with host := (H.resolve t w.host).2 } := serves_idle.host w _
    have hran := Session.runIn_ran (Session.run rounds) rounds s (H.resolve t w.host).1
      { w with host := (H.resolve t w.host).2 }
    have hstep := Session.step_reads hc (nestVia ih hc) rounds (H.resolve t w.host).1
    exact serves_idle.trans hhost (ran hran (serves_paused.body_meets hstep))

end Reads

/-! ## Lines and units of a run -/

/-- In every run of a session with the standard commands, whatever its host evaluates and takes for
complete, and whatever it is given to read, the lines that are read by it and by the sessions inside
of it fall into stretches without a rest but the lines pending in the end, and every unit that is
evaluated consists of the lines of its stretch: none of them calls a command, and they are complete
together but no fewer of them are. Before a command only the last line calls one, no line is pending
when a session is put on the stack, and the lines that are pending when one is aborted are of no
unit, even if what opened it goes on. What a scripted input gave up are these lines in the
same order. A unit that is read at first consists of all lines read since the last stretch. -/
theorem Session.units_of_run {H : Host} (rounds : Nat) (s : Session H) (t : Target H.Context)
    (w : World H) (hs : s.config.commands = Command.standard) :
    (let ms := (run rounds s t w).2.since w
      let k := ({} : Intake).through ms
      k.Sound H Command.standard ∧
        linesRead ms = k.stretches.flatMap Stretch.lines ++ k.pending ∧
        unitsEvaluated ms = k.stretches.filterMap Stretch.source? ∧
        Consumed s.config.input w (linesRead ms) (run rounds s t w).2) ∧
    ∀ ctx text w', readUnit (run rounds) rounds s ctx w = (.ok text, w') →
      let k := ({} : Intake).through (w'.since w)
      k.Sound H Command.standard ∧ IsUnit H Command.standard k.pending text ∧
        linesRead (w'.since w) = k.stretches.flatMap Stretch.lines ++ k.pending ∧
        Consumed s.config.input w (linesRead (w'.since w)) w' := by
  have hc : s.config.commands.Clears := by
    rw [hs]
    exact Command.standard_clears
  have hempty : ({} : Intake).Sound H s.config.commands := fun _ h => absurd h List.not_mem_nil
  have hlines : ∀ ms : List (Moment H),
      linesRead ms = (({} : Intake).through ms).stretches.flatMap Stretch.lines ++
        (({} : Intake).through ms).pending :=
    fun ms => (({} : Intake).through_lines ms).symm
  rw [← hs]
  -- At first nothing is pending, for a run as for a single unit.
  refine ⟨?_, ?_⟩
  · obtain ⟨k, htakes, hsound, -⟩ := Reads.run rounds s t w hc {} rfl hempty
    dsimp only
    rw [htakes.intake]
    refine ⟨hsound, ?_, ?_, htakes.consumed⟩
    · rw [hlines, htakes.intake]
    · rw [← htakes.intake]
      exact (({} : Intake).through_sources _).symm
  · intro ctx text w' hread
    have hn : ∀ t, Exec.Meets (Reads Idle s.config.commands s.config.input)
        (s.nestVia (run (H := H) rounds) t) := Reads.nestVia (Reads.run rounds) hc
    obtain ⟨k, htakes, hsound, hresult⟩ := readUnitFrom_reads hc hn rounds ctx rounds
      (IsPartial.nil H s.config.commands) hempty w
    rw [readUnit] at hread
    rw [hread] at htakes hresult
    dsimp only
    rw [hlines, htakes.intake]
    rcases hresult with ⟨stop, hstop, -⟩ | ⟨text', htext, hunit⟩
    · cases hstop
    · cases htext
      refine ⟨hsound, hunit, rfl, ?_⟩
      have hconsumed := htakes.consumed
      rw [hlines, htakes.intake] at hconsumed
      exact hconsumed

/-- The stretches where the user gives up a line, calls a command in the middle of a unit, and then
has a unit of two lines evaluated in a second session, which is left. -/
theorem Session.units_of_run_mixed :
    let w : World Calc.host :=
      { host := .single, nextId := 2,
        inputs := [.scripted { queue :=
          [.ok (.line "("), .ok .interrupted, .ok (.line "1 +"), .ok (.line "!"),
            .ok (.line "cd 5"), .ok (.line "2 +"), .ok (.line "3"), .ok (.line "exit_all")] }] }
    let s : Session Calc.host := ⟨1, .standard 0⟩
    let k := ({} : Intake).through ((run 12 s .topLevel w).2.since w)
    s.config.commands = Command.standard ∧ k.Sound Calc.host Command.standard ∧
      k.stretches.filterMap Stretch.source? = ["2 +\n3\n"] := by
  intro w s k
  have hunits : unitsEvaluated ((run 12 s .topLevel w).2.since w) = ["2 +\n3\n"] := by
    decide +kernel
  obtain ⟨hsound, -, hsources, -⟩ := (units_of_run 12 s .topLevel w rfl).1
  exact ⟨rfl, hsound, hsources.symm.trans hunits⟩

end CalcShell
