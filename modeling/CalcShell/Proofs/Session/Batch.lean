import CalcShell.Proofs.Calc.Agreement
import CalcShell.Proofs.Calc.Programs
import CalcShell.Proofs.Session.Reading

/-!
# A program line by line

A program may be given to a session line by line, or be parsed and evaluated as a whole. The main
statement says that this comes to the same. The session cuts the lines into units that say together
what the whole program says; and if the whole has a value, then the session evaluates the units one
after the other and leaves the same bindings, apart from those that it makes itself.

The lines fall into units since a program that is cut behind a line end is either cut between two
statements, or its first part stops too early (`Calc.parseWithin_append`). That the session does
read, evaluate and print all units is shown step by step: an input of the world gives the lines
(`World.Supplied`), and each step takes those of one unit and evaluates it as the evaluation of the
whole goes on (`InStep`).
-/

namespace CalcShell

/-! ## The lines of a program -/

/-- The text of all lines is made of the texts of the units. -/
theorem unitText_flatten (units : List (List String)) :
    unitText units.flatten = String.join (units.map unitText) := by
  induction units with
  | nil => rfl
  | cons u units ih =>
    rw [List.flatten_cons, unitText_append, ih, List.map_cons, String.join_cons]

/-- The text of lines ends with a line end. -/
theorem unitText_ends (lines : List String) :
    unitText lines = "" ∨ Calc.EndsNewline (unitText lines).toList := by
  rcases List.eq_nil_or_concat lines with rfl | ⟨ls, line, rfl⟩
  · exact .inl rfl
  · right
    rw [List.concat_eq_append, unitText_concat, String.toList_append, Calc.EndsNewline]
    exact List.getLast?_concat

/-- Lines that are complete together begin with a unit. -/
theorem IsPartial.exists_unit {H : Host} {commands : Command.Table H} {part more : List String}
    {text : String} (hpart : IsPartial H commands part text) (hne : more ≠ [])
    (hmore : ∀ line ∈ more, commands.find? line = none)
    (hc : H.judge (unitText (part ++ more)) = .complete) :
    ∃ u rest, part ++ more = u ++ rest ∧ IsUnit H commands u (unitText u) := by
  induction more generalizing part text with
  | nil => exact absurd rfl hne
  | cons line more ih =>
    have hline : commands.find? line = none := hmore line List.mem_cons_self
    have hassoc : part ++ line :: more = part ++ [line] ++ more := by
      rw [List.append_assoc, List.singleton_append]
    by_cases hj : H.judge (text ++ line ++ "\n") = .complete
    · have hunit := hpart.unit hline hj
      rw [hunit.text_eq] at hunit
      exact ⟨part ++ [line], more, hassoc, hunit⟩
    · have hnext := hpart.concat hline hj
      rw [hassoc] at hc ⊢
      have hmore' : more ≠ [] := by
        rintro rfl
        rw [List.append_nil, ← hnext.text_eq] at hc
        exact hj hc
      exact ih hnext hmore' (fun l hl => hmore l (List.mem_cons_of_mem line hl)) hc

namespace Calc

/-- A program is complete. -/
theorem judge_of_ok {text : String} {p : Program} (h : parseProgram text = .ok p) :
    judge text = .complete := by
  rw [judge, h]

/-- A text that stops too early is not complete. -/
theorem judge_of_incomplete {text : String} {err : SourceError}
    (h : parseProgram text = .error err) (herr : err.isIncomplete = true) :
    judge text ≠ .complete := by
  rw [judge, h]
  simp [herr]

/-- A program may be allowed to nest one deeper. -/
theorem parseWithin_succ {depth : Nat} {src : String} {p : Program}
    (hsrc : src = "" ∨ EndsNewline src.toList) (h : parseWithin depth src = .ok p) :
    ∃ p', parseWithin (depth + 1) src = .ok p' ∧ Program.Alike p p' := by
  rcases hsrc with rfl | hsrc
  · rw [parseWithin_empty] at h
    cases h
    exact ⟨[], parseWithin_empty _, rfl⟩
  · have happend : src ++ "" = src := String.append_empty
    rw [← happend] at h
    rcases parseWithin_append hsrc (.inl rfl) h with ⟨p₁, p₂, h₁, h₂, halike⟩ | ⟨hne, -⟩
    · rw [parseWithin_empty] at h₂
      cases h₂
      rw [List.append_nil] at halike
      exact ⟨p₁, h₁, halike⟩
    · exact absurd rfl hne

/-- Lines that make a program and call no command fall into units, which are programs that say
together what the whole says. -/
theorem exists_units {depth : Nat} (hdepth : depth + 1 = maxNesting)
    {commands : Command.Table host}
    {lines : List String} (hlines : ∀ line ∈ lines, commands.find? line = none) {p : Program}
    (hp : parseWithin depth (unitText lines) = .ok p) :
    ∃ (units : List (List String)) (programs : List Program), units.flatten = lines ∧
      (∀ u ∈ units, IsUnit host commands u (unitText u)) ∧
      units.map (fun u => parseProgram (unitText u)) = programs.map .ok ∧
      Program.Alike p programs.flatten := by
  -- By induction on the number of lines: the first unit is cut off, and the rest is a program.
  induction hk : lines.length using Nat.strongRecOn generalizing lines p with
  | _ k ih =>
    by_cases hne : lines = []
    · subst hne
      rw [unitText_nil, parseWithin_empty] at hp
      cases hp
      exact ⟨[], [], rfl, fun _ h => absurd h List.not_mem_nil, rfl, rfl⟩
    obtain ⟨whole, hwhole, -⟩ := parseWithin_succ (unitText_ends lines) hp
    rw [hdepth] at hwhole
    obtain ⟨u, rest, hcut, hunit⟩ := (IsPartial.nil host commands).exists_unit hne hlines
      (judge_of_ok hwhole)
    rw [List.nil_append] at hcut
    subst hcut
    have hends : EndsNewline (unitText u).toList :=
      (unitText_ends u).resolve_left (unitText_ne_empty hunit.nonempty)
    rw [unitText_append] at hp
    rcases parseWithin_append hends (unitText_ends rest) hp with
      ⟨p₁, p₂, h₁, h₂, halike⟩ | ⟨-, err, herr, hincomplete⟩
    · have hshort : rest.length < k := by
        have := List.length_pos_iff.2 hunit.nonempty
        rw [← hk, List.length_append]
        omega
      have hrest : ∀ line ∈ rest, commands.find? line = none := fun line hl =>
        hlines line (List.mem_append_right u hl)
      obtain ⟨units, programs, hflatten, hunits, hparse, halike'⟩ := ih _ hshort hrest h₂ rfl
      refine ⟨u :: units, p₁ :: programs, ?_, ?_, ?_, ?_⟩
      · rw [List.flatten_cons, hflatten]
      · exact List.forall_mem_cons.2 ⟨hunit, hunits⟩
      · rw [hdepth] at h₁
        rw [List.map_cons, List.map_cons, hparse, parseProgram_eq, h₁]
      · rw [Program.Alike, halike, List.flatten_cons, Stmt.eraseAll_append, Stmt.eraseAll_append,
          halike']
    · -- A unit is complete, and so does not stop too early.
      rw [hdepth] at herr
      exact absurd hunit.complete (judge_of_incomplete herr hincomplete)

end Calc

/-! ## Inputs that give lines -/

/-- A sink that refuses pieces as given takes all that the input writes when it is asked for a line
under the prompt. -/
def Line.Source.Shows (refuses : List Piece → Piece → Option IoError) (source : Line.Source)
    (prompt : String) : Prop :=
  (∀ piece ∈ source.announce prompt, ∀ written, refuses written piece = none) ∧
    let shown : Piece := .text (source.readLine prompt).2.1
    shown ≠ .text "" → ∀ written, refuses written shown = none

/-- An input gives the lines one after the other and then nothing more, whatever prompts it is shown
and whether or not it is asked to remember a line that it gave. A sink that refuses pieces as given
takes all that the input writes meanwhile. -/
def Line.Source.Gives (refuses : List Piece → Piece → Option IoError) :
    Line.Source → List String → Prop
  | source, [] => ∀ prompt, source.Shows refuses prompt ∧ (source.readLine prompt).1 = .ok .eof
  | source, line :: lines => ∀ prompt, source.Shows refuses prompt ∧
      (source.readLine prompt).1 = .ok (.line line) ∧
      (source.readLine prompt).2.2.Gives refuses lines ∧
      ((source.readLine prompt).2.2.remember line).Gives refuses lines

/-- A scripted input writes nothing. -/
theorem Line.Scripted.shows (refuses : List Piece → Piece → Option IoError)
    (script : Line.Scripted) (prompt : String) :
    (Line.Source.scripted script).Shows refuses prompt :=
  ⟨fun _ h => absurd h List.not_mem_nil, fun hne => absurd rfl hne⟩

/-- A scripted input gives the lines that it was prepared with. -/
theorem Line.Scripted.gives (refuses : List Piece → Piece → Option IoError)
    (script : Line.Scripted) {lines : List String}
    (h : script.queue = lines.map fun line => .ok (.line line)) :
    (Line.Source.scripted script).Gives refuses lines := by
  induction lines generalizing script with
  | nil =>
    intro prompt
    refine ⟨script.shows refuses prompt, ?_⟩
    simp [Source.readLine, readLine, h]
  | cons line lines ih =>
    intro prompt
    refine ⟨script.shows refuses prompt, ?_⟩
    simp only [Source.readLine, readLine, h, List.map_cons]
    exact ⟨trivial, ih _ rfl, ih _ rfl⟩

/-- The lines are what an input of the world gives. -/
def World.Supplied {H : Host} (w : World H) (input : Nat) (lines : List String) : Prop :=
  ∃ source, w.inputs[input]? = some source ∧ source.Gives w.sink.refuses lines

/-- The fault that a unit has by an event. -/
def Event.fault? {H : Host} : Event H → Option Fault
  | .faulted _ f => some f
  | _ => none

theorem unitsEvaluated_append {H : Host} (ms ns : List (Moment H)) :
    unitsEvaluated (ms ++ ns) = unitsEvaluated ms ++ unitsEvaluated ns := List.filterMap_append

/-- Between the two worlds the given units were evaluated, in this order, and none had a fault. -/
structure Succeeds {H : Host} (units : List String) (w w' : World H) : Prop where
  follows : w'.Follows w
  units_eq : unitsEvaluated (w'.since w) = units
  faultless : ∀ m ∈ w'.since w, m.event.fault? = none

namespace Succeeds

variable {H : Host} {w w₁ w' : World H} {us vs : List String}

theorem trans (h₁ : Succeeds us w w₁) (h₂ : Succeeds vs w₁ w') : Succeeds (us ++ vs) w w' where
  follows := h₂.follows.trans h₁.follows
  units_eq := by
    rw [World.since_trans h₂.follows h₁.follows, unitsEvaluated_append, h₁.units_eq, h₂.units_eq]
  faultless m hm := by
    rw [World.since_trans h₂.follows h₁.follows] at hm
    rcases List.mem_append.1 hm with hm | hm
    · exact h₁.faultless m hm
    · exact h₂.faultless m hm

/-- The log goes on with some moments. -/
theorem of_log {ms : List (Moment H)} (hlog : w'.log.toList = w.log.toList ++ ms)
    (hunits : unitsEvaluated ms = us) (hfaults : ∀ m ∈ ms, m.event.fault? = none) :
    Succeeds us w w' where
  follows := ⟨ms, hlog.symm⟩
  units_eq := by rw [World.since_eq hlog, hunits]
  faultless := by rwa [World.since_eq hlog]

/-- Nothing is recorded. -/
theorem of_log_eq (hlog : w'.log = w.log) : Succeeds [] w w' where
  follows := .of_log_eq hlog
  units_eq := by
    rw [World.since_of_log_eq hlog]
    rfl
  faultless := by
    rw [World.since_of_log_eq hlog]
    exact fun _ hm => absurd hm List.not_mem_nil

/-- Something is recorded that is no fault. -/
theorem record (w : World H) {e : Event H} (hs : e.source?.toList = us) (hf : e.fault? = none) :
    Succeeds us w (w.record e) := by
  apply of_log (w.log_record e)
  · rw [← hs]
    cases h : e.source? <;> simp [unitsEvaluated, h]
  · intro m hm
    rw [List.mem_singleton.1 hm]
    exact hf

/-- No unit is evaluated by what leaves the host alone, if its events are not about units. -/
theorem of_calm {es : List (Event H)} (h : Calm w es w')
    (hes : ∀ e ∈ es, e.source? = none ∧ e.fault? = none) : Succeeds [] w w' where
  follows := h.follows
  units_eq := by
    rw [unitsEvaluated, List.filterMap_eq_nil_iff]
    intro m hm
    exact (hes m.event (h.events ▸ List.mem_map_of_mem hm)).1
  faultless m hm := (hes m.event (h.events ▸ List.mem_map_of_mem hm)).2

end Succeeds

/-- Between the two worlds no unit was evaluated and the host stayed as it was, and the lines are
still to be read. -/
structure Idles {H : Host} (input : Nat) (lines : List String) (w w' : World H) : Prop where
  succeeds : Succeeds [] w w'
  host : w'.host = w.host
  refuses : w'.sink.refuses = w.sink.refuses
  supplied : w'.Supplied input lines

namespace Idles

variable {H : Host} {input : Nat} {lines ls : List String} {w w₁ w' : World H}

theorem trans (h₁ : Idles input ls w w₁) (h₂ : Idles input lines w₁ w') :
    Idles input lines w w' where
  succeeds := h₁.succeeds.trans h₂.succeeds
  host := h₂.host.trans h₁.host
  refuses := h₂.refuses.trans h₁.refuses
  supplied := h₂.supplied

/-- A sink that refuses nothing refuses nothing afterwards. -/
theorem accepts (h : Idles input lines w w') (hw : w.Accepts) : w'.Accepts := by
  rw [World.Accepts, h.refuses]
  exact hw

/-- Something is recorded that is not about units. -/
theorem record (h : w.Supplied input lines) {e : Event H} (hs : e.source? = none)
    (hf : e.fault? = none) : Idles input lines w (w.record e) where
  succeeds := .record w (by rw [hs]; rfl) hf
  host := rfl
  refuses := rfl
  supplied := h

/-- What leaves host and inputs alone, with events that are not about units. -/
theorem of_calm (hw : w.Supplied input lines) {es : List (Event H)} (h : Calm w es w')
    (hes : ∀ e ∈ es, e.source? = none ∧ e.fault? = none) : Idles input lines w w' where
  succeeds := .of_calm h hes
  host := h.host
  refuses := h.refuses
  supplied := by
    rw [World.Supplied, h.inputs, h.refuses]
    exact hw

/-- Writing something that does not fail by itself to a sink that refuses nothing. -/
theorem put (hw : w.Supplied input lines) (haccepts : w.Accepts) {writing : Writing}
    (hfail : writing.failure = none) :
    ∃ w', Exec.put writing w = (.ok (), w') ∧ Idles input lines w w' := by
  obtain ⟨w', hput, hcalm⟩ := Calm.put writing w hfail fun p _ written => haccepts written p
  refine ⟨w', hput, of_calm hw hcalm ?_⟩
  intro e he
  obtain ⟨p, -, rfl⟩ := List.mem_map.1 he
  exact ⟨rfl, rfl⟩

end Idles

/-! ## Reading the units -/

section Reading

variable {H : Host} {input : Nat} {line : String} {lines : List String} {w : World H}

/-- What an input gives is read, whatever it writes. -/
theorem readLine_of_source {source : Line.Source} {prompt : String} {r : Line.Read}
    (hs : w.inputs[input]? = some source) (hshows : source.Shows w.sink.refuses prompt)
    (hread : (source.readLine prompt).1 = .ok r) :
    ∃ w', Exec.readLine input prompt w = (.ok r, w') ∧ Succeeds [] w w' ∧ w'.host = w.host ∧
      w'.inputs = w.inputs.set input (source.readLine prompt).2.2 ∧
      w'.sink.refuses = w.sink.refuses := by
  have hwritten : ∀ {v v' : World H} {pieces : List Piece}, Calm v (pieces.map .wrote) v' →
      Succeeds [] v v' := by
    intro v v' pieces hcalm
    apply Succeeds.of_calm hcalm
    intro e he
    obtain ⟨p, -, rfl⟩ := List.mem_map.1 he
    exact ⟨rfl, rfl⟩
  have hprompted : Succeeds [] w (w.record (.prompted input prompt)) := .record w rfl rfl
  -- The prompt is written, the input behind the read is put in place, and at last comes what the
  -- input shows.
  obtain ⟨v, hannounce, hcalm⟩ :=
    Calm.writePieces (source.announce prompt) (w.record (.prompted input prompt)) hshows.1
  have hset : Succeeds [] v (v.asked input prompt source) := .of_log_eq rfl
  have hshown : (.text (source.readLine prompt).2.1 : Piece) ≠ .text "" → ∀ written,
      (v.asked input prompt source).sink.refuses written (.text (source.readLine prompt).2.1) =
        none := by
    rw [show (v.asked input prompt source).sink.refuses = w.sink.refuses from hcalm.refuses]
    exact hshows.2
  obtain ⟨w', hwrite, hcalm'⟩ := Calm.write _ (v.asked input prompt source) hshown
  refine ⟨w', ?_, ((hprompted.trans (hwritten hcalm)).trans hset).trans (hwritten hcalm'), ?_, ?_,
    ?_⟩
  · rw [Exec.readLine_of_some hs, Exec.bind_of_ok hannounce]
    simp only [Exec.bind_apply, Exec.change, Exec.put, Exec.writePieces, hwrite, hread]
    rfl
  · exact hcalm'.host.trans hcalm.host
  · rw [hcalm'.inputs, World.asked, hcalm.inputs]
    rfl
  · exact hcalm'.refuses.trans hcalm.refuses

/-- The next line is read; it may be remembered or not. -/
theorem readLine_line (h : w.Supplied input (line :: lines)) (prompt : String) :
    ∃ w', Exec.readLine input prompt w = (.ok (.line line), w') ∧ Idles input lines w w' ∧
      Idles input lines w
        { w' with inputs := w'.inputs.modify input (·.remember line) } := by
  obtain ⟨source, hs, hgives⟩ := h
  obtain ⟨hshows, hread, hplain, hremembered⟩ := hgives prompt
  obtain ⟨w', hw', hsucceeds, hhost, hinputs, hrefuses⟩ := readLine_of_source hs hshows hread
  have hlt : input < w.inputs.length := (List.getElem?_eq_some_iff.1 hs).1
  have hplace : w'.inputs[input]? = some (source.readLine prompt).2.2 := by
    rw [hinputs, List.getElem?_set_self hlt]
  rw [← hrefuses] at hplain hremembered
  refine ⟨w', hw', ⟨hsucceeds, hhost, hrefuses, _, hplace, hplain⟩, ?_⟩
  refine ⟨⟨hsucceeds.follows, hsucceeds.units_eq, hsucceeds.faultless⟩, hhost, hrefuses, ?_⟩
  refine ⟨(source.readLine prompt).2.2.remember line, ?_, hremembered⟩
  rw [List.getElem?_modify, hplace]
  simp

/-- Behind the last line the input ends. -/
theorem readLine_eof (h : w.Supplied input []) (prompt : String) :
    ∃ w', Exec.readLine input prompt w = (.ok .eof, w') ∧ Succeeds [] w w' ∧
      w'.host = w.host := by
  obtain ⟨source, hs, hgives⟩ := h
  obtain ⟨hshows, hread⟩ := hgives prompt
  obtain ⟨w', hw', hsucceeds, hhost, -⟩ := readLine_of_source hs hshows hread
  exact ⟨w', hw', hsucceeds, hhost⟩

end Reading

namespace Session

variable {H : Host}

/-- Reads the given number of units, one after the other. -/
def readUnits (run : Runner H) (rounds : Nat) (s : Session H) (ctx : H.Context) :
    Nat → Exec H (List String)
  | 0 => pure []
  | count + 1 => do
    let unit ← s.readUnit run rounds ctx
    let units ← s.readUnits run rounds ctx count
    return unit :: units

variable {s : Session H} {line : String} {lines : List String} {w w₁ : World H}

/-- A line that calls no command is added to those that are pending. -/
theorem takeLine_idles (run : Runner H) (rounds : Nat) (ctx : H.Context) (pending : String)
    (hline : s.config.commands.find? line = none) (hplain : Idles s.config.input lines w w₁)
    (hremembered : Idles s.config.input lines w
      { w₁ with inputs := w₁.inputs.modify s.config.input (·.remember line) }) :
    ∃ w', s.takeLine run rounds ctx pending line w₁ = (.ok (pending ++ line ++ "\n"), w') ∧
      Idles s.config.input lines w w' := by
  have hlookUp : ∀ v : World H, s.lookUp run rounds ctx line (pending ++ line ++ "\n") v =
      (.ok (pending ++ line ++ "\n"), v) := by
    intro v
    rw [lookUp, dispatch_none run rounds s ctx _ hline]
  unfold takeLine
  simp only [Exec.bind_apply, Exec.record, Exec.change]
  cases Text.isBlankText line with
  | false =>
    exact ⟨_, hlookUp _,
      hremembered.trans (.record hremembered.supplied (e := .lineRead line) rfl rfl)⟩
  | true =>
    exact ⟨_, hlookUp _, hplain.trans (.record hplain.supplied (e := .lineRead line) rfl rfl)⟩

/-- Asking the host whether a text is complete. -/
theorem judged_idles {input : Nat} (h : w.Supplied input lines) (text : String) :
    Idles input lines w (judged text w) := by
  unfold judged
  split
  · exact .record h rfl rfl
  · exact .record h rfl rfl
  · exact ⟨.of_log_eq rfl, rfl, rfl, h⟩

/-- The lines of a unit are read as this unit, and those behind it are left. -/
theorem readUnitFrom_unit (run : Runner H) (rounds : Nat) (ctx : H.Context)
    {part more rest : List String} {pending : String} (hpart : pending = unitText part)
    (hunit : IsUnit H s.config.commands (part ++ more) (unitText (part ++ more)))
    (hne : more ≠ []) {n : Nat} (hn : more.length ≤ n)
    (hw : w.Supplied s.config.input (more ++ rest)) :
    ∃ w', s.readUnitFrom run rounds ctx n pending w = (.ok (unitText (part ++ more)), w') ∧
      Idles s.config.input rest w w' := by
  -- By induction on the lines of the unit that are still to be read.
  induction more generalizing part pending n w with
  | nil => exact absurd rfl hne
  | cons line more ih =>
    rw [List.length_cons] at hn
    obtain ⟨n, rfl⟩ : ∃ m, n = m + 1 := ⟨n - 1, by omega⟩
    have hmore : more.length ≤ n := by omega
    have hline : s.config.commands.find? line = none :=
      hunit.unmatched line (List.mem_append_right part List.mem_cons_self)
    have hassoc : part ++ line :: more = part ++ [line] ++ more := by
      rw [List.append_assoc, List.singleton_append]
    have htext : pending ++ line ++ "\n" = unitText (part ++ [line]) := by
      rw [unitText_concat, hpart]
    obtain ⟨w₁, hread, hplain, hremembered⟩ := readLine_line hw
      (s.config.prompts.select pending.isEmpty (H.receiver ctx) w.level)
    obtain ⟨w₂, htake, hidles⟩ := takeLine_idles run rounds ctx pending hline hplain hremembered
    have hnonempty : (unitText (part ++ [line])).isEmpty = false := by
      rw [← htext]
      simp [String.isEmpty_eq_false_iff]
    rw [htext] at htake
    have hidles₂ := hidles.trans (judged_idles hidles.supplied (unitText (part ++ [line])))
    simp only [readUnitFrom, Exec.bind_apply, Exec.read, hread, htake, hnonempty, Exec.if_apply,
      isComplete_apply]
    rw [hassoc] at hunit ⊢
    by_cases hlast : more = []
    · -- This was the last line, with which the unit is complete.
      subst hlast
      rw [List.append_nil] at hunit ⊢
      simp only [hunit.complete, decide_true, if_true]
      exact ⟨_, rfl, hidles₂⟩
    · -- With fewer lines the unit is not complete.
      have hproper : part ++ [line] ≠ part ++ [line] ++ more := by
        simpa using hlast
      have hj : H.judge (unitText (part ++ [line])) ≠ .complete :=
        hunit.least _ (List.prefix_append _ _) (by simp) hproper
      simp only [hj, decide_false]
      obtain ⟨w', hw', hrest⟩ := ih rfl hunit hlast hmore hidles₂.supplied
      exact ⟨w', hw', hidles₂.trans hrest⟩

/-- Behind the last line the input ends. -/
theorem readUnitFrom_end (run : Runner H) (rounds : Nat) (ctx : H.Context) (n : Nat)
    (pending : String) (hw : w.Supplied s.config.input []) :
    ∃ w', s.readUnitFrom run rounds ctx (n + 1) pending w =
        (.error (.interrupt .endOfInput), w') ∧
      Succeeds [] w w' ∧ w'.host = w.host := by
  obtain ⟨w₁, hread, hsucceeds, hhost⟩ := readLine_eof hw
    (s.config.prompts.select pending.isEmpty (H.receiver ctx) w.level)
  have hraised : Succeeds [] w₁ (w₁.record (.raised .endOfInput)) := .record w₁ rfl rfl
  refine ⟨_, ?_, hsucceeds.trans hraised, hhost⟩
  simp only [readUnitFrom, Exec.bind_apply, Exec.read, hread]
  rfl

/-- There are no more units than lines. -/
theorem length_le_flatten {commands : Command.Table H} {units : List (List String)}
    (hunits : ∀ u ∈ units, IsUnit H commands u (unitText u)) :
    units.length ≤ units.flatten.length := by
  induction units with
  | nil => exact Nat.le_refl _
  | cons u units ih =>
    obtain ⟨hunit, hunits⟩ := List.forall_mem_cons.1 hunits
    have hpos := List.length_pos_iff.2 hunit.nonempty
    have hle := ih hunits
    rw [List.length_cons, List.flatten_cons, List.length_append]
    omega

/-- A unit is read from the lines that begin with it. -/
theorem readUnit_unit (run : Runner H) {rounds : Nat} (ctx : H.Context) {u rest : List String}
    (hunit : IsUnit H s.config.commands u (unitText u)) (hu : u.length ≤ rounds)
    (hw : w.Supplied s.config.input (u ++ rest)) :
    ∃ w', s.readUnit run rounds ctx w = (.ok (unitText u), w') ∧ Idles s.config.input rest w w' :=
  readUnitFrom_unit run rounds ctx unitText_nil.symm hunit hunit.nonempty hu hw

/-- All units are read one after the other. -/
theorem readUnits_units (run : Runner H) {rounds : Nat} (ctx : H.Context)
    {units : List (List String)}
    (hunits : ∀ u ∈ units, IsUnit H s.config.commands u (unitText u))
    (hrounds : units.flatten.length ≤ rounds) (hw : w.Supplied s.config.input units.flatten) :
    ∃ w', s.readUnits run rounds ctx units.length w = (.ok (units.map unitText), w') ∧
      Idles s.config.input [] w w' := by
  induction units generalizing w with
  | nil => exact ⟨w, rfl, .of_log_eq rfl, rfl, rfl, hw⟩
  | cons u units ih =>
    obtain ⟨hunit, hunits⟩ := List.forall_mem_cons.1 hunits
    rw [List.flatten_cons, List.length_append] at hrounds
    rw [List.flatten_cons] at hw
    have hfirst : u.length ≤ rounds := by omega
    have hothers : units.flatten.length ≤ rounds := by omega
    obtain ⟨w₁, hread, hidles⟩ := readUnit_unit run ctx hunit hfirst hw
    obtain ⟨w', hrest, hidles'⟩ := ih hunits hothers hidles.supplied
    refine ⟨w', ?_, hidles.trans hidles'⟩
    simp only [List.length_cons, readUnits, Exec.bind_apply, hread, hrest]
    rfl

end Session

/-! ## Evaluating the units -/

/-- A source that is a program with a value has this value. -/
theorem Calc.evaluate_of_done {rounds : Nat} {c : Context} {text : String} {p : Program}
    {f g : Forest} {v : Value} (hp : parseProgram text = .ok p)
    (hv : evaluateProgram rounds c p f = .done (.ok v) g) :
    evaluate rounds c text f = .done (.value v) g := by
  unfold evaluate
  rw [hp]
  dsimp only
  rw [hv]
  rfl

namespace Session

variable {H : Host}

/-- The world once a unit has a value. -/
def valued (s : Session H) (ctx : H.Context) (source : String) (v : Value) (state : H.State)
    (w : World H) : World H :=
  World.record { w.record (.evaluating s.id ctx source) with host := state, last := v }
    (.valued s.id v)

/-- A unit that has a value in the host: the session binds its names before and afterwards. -/
theorem evaluate_of_done (run : Runner H) (rounds : Nat) (s : Session H) {ctx : H.Context}
    {source : String} {w w₁ w' : World H} {v : Value} {state : H.State}
    (hbefore : s.bindConveniences ctx w = (.ok (), w₁))
    (hdone : H.evaluate rounds ctx source w₁.host = .done (.value v) state)
    (hafter : s.bindConveniences ctx (s.valued ctx source v state w₁) = (.ok (), w')) :
    s.evaluate run rounds ctx source w = (.ok (.value v), w') := by
  have hin : s.evaluateIn run rounds ctx source (w₁.record (.evaluating s.id ctx source)) =
      (.ok (.value v), { w₁.record (.evaluating s.id ctx source) with host := state }) := by
    have hhost : (w₁.record (.evaluating s.id ctx source)).host = w₁.host := rfl
    rw [evaluateIn, hhost, hdone, Exec.follow]
  unfold valued at hafter
  unfold evaluate
  simp only [Exec.bind_apply, hbefore, Exec.record, Exec.change, hin, hafter]
  rfl

/-- A step that goes well is followed by further ones. -/
theorem reps_of_step {run : Runner H} {rounds : Nat} {s : Session H} {ctx : H.Context}
    {w w₁ : World H} (h : s.step run rounds ctx w = (.ok (), w₁)) (n : Nat) :
    s.reps run rounds ctx (n + 1) w = s.reps run rounds ctx n w₁ := by
  rw [reps, rep]
  simp only [Exec.bind_apply, Exec.attempt, h]
  rfl

/-- The end of the input ends the steps. -/
theorem reps_of_end {run : Runner H} {rounds : Nat} {s : Session H} {ctx : H.Context}
    {w w₁ : World H} (h : s.step run rounds ctx w = (.error (.interrupt .endOfInput), w₁))
    (n : Nat) :
    s.reps run rounds ctx (n + 1) w = (.error (.interrupt .endOfInput), w₁) := by
  rw [reps, rep]
  simp only [Exec.bind_apply, Exec.attempt, h]
  rfl

/-- One unit is evaluated, without a fault. -/
theorem valued_succeeds (s : Session H) (ctx : H.Context) (source : String) (v : Value)
    (state : H.State) (w : World H) : Succeeds [source] w (s.valued ctx source v state w) := by
  have hsource : Succeeds [source] w (w.record (.evaluating s.id ctx source)) :=
    .record w rfl rfl
  have hstate : Succeeds [] (w.record (.evaluating s.id ctx source))
      { w.record (.evaluating s.id ctx source) with host := state, last := v } := .of_log_eq rfl
  have hvalue : Succeeds []
      { w.record (.evaluating s.id ctx source) with host := state, last := v }
      (s.valued ctx source v state w) := .record _ rfl rfl
  exact (hsource.trans hstate).trans hvalue

end Session

/-- The names that a session binds by itself. -/
def conveniences : List String := ["_session_", "_"]

/-- A session has come as far as an evaluation of the whole that left the given forest: the state of
its host agrees with the forest, and the lines are still to be read. All that is written is taken.
-/
structure InStep (f : Calc.Forest) (input : Nat) (lines : List String) (w : World Calc.host) :
    Prop where
  agrees : f.AgreeOff conveniences w.host
  supplied : w.Supplied input lines
  accepts : w.Accepts

namespace InStep

variable {f : Calc.Forest} {input : Nat} {lines ls : List String} {w w' : World Calc.host}

theorem idles (h : InStep f input lines w) (hidles : Idles input ls w w') :
    InStep f input ls w' where
  agrees := by
    rw [hidles.host]
    exact h.agrees
  supplied := hidles.supplied
  accepts := hidles.accepts h.accepts

/-- A session binds its names in the top level. -/
theorem bindConveniences (h : InStep f input lines w) (s : Session Calc.host) :
    ∃ w', s.bindConveniences Calc.topContext w = (.ok (), w') ∧ Succeeds [] w w' ∧
      InStep f input lines w' := by
  have hsession : "_session_" ∈ conveniences := List.mem_cons_self
  have hlast : "_" ∈ conveniences := List.mem_cons_of_mem _ List.mem_cons_self
  have hagrees := (h.agrees.define_hidden Calc.topContext.scope hsession
    (.session (w.active.getD s.id))).define_hidden Calc.topContext.scope hlast w.last
  exact ⟨_, rfl, .of_log_eq rfl, hagrees, h.supplied, h.accepts⟩

end InStep

namespace Session

open Calc (Program Forest Stmt topContext)

variable {f f' : Forest} {lines : List String} {w : World Calc.host} {s : Session Calc.host}

/-- A unit is evaluated as the first statements of the whole are. -/
theorem evaluate_tracks (run : Runner Calc.host) {n rounds : Nat} (hn : n ≤ rounds) {text : String}
    {p : Program} (hp : Calc.parseProgram text = .ok p)
    (hnames : ∀ name ∈ Stmt.variablesAll p, name ∉ conveniences) {ts : List Stmt} {last v : Value}
    (heval : Calc.Eval.stmts n topContext last (p ++ ts) f = .done (.ok v) f')
    (hw : InStep f s.config.input lines w) :
    ∃ u w' last' f₁, s.evaluate run rounds topContext text w = (.ok (.value u), w') ∧
      Succeeds [text] w w' ∧ InStep f₁ s.config.input lines w' ∧
      Calc.Eval.stmts n topContext last' ts f₁ = .done (.ok v) f' := by
  obtain ⟨w₁, hbefore, hbound, hw₁⟩ := hw.bindConveniences s
  obtain ⟨u, g, last', f₁, hu, hagrees, hrest⟩ :=
    Calc.Eval.evaluateProgram_tracks hn hnames hw₁.agrees heval
  have hw₂ : InStep f₁ s.config.input lines (s.valued topContext text u g w₁) :=
    ⟨hagrees, hw₁.supplied, hw₁.accepts⟩
  obtain ⟨w', hafter, hbound', hw'⟩ := hw₂.bindConveniences s
  have hvalued := s.valued_succeeds topContext text u g w₁
  refine ⟨u, w', last', f₁, ?_, (hbound.trans hvalued).trans hbound', hw', hrest⟩
  exact evaluate_of_done run rounds s hbefore (Calc.evaluate_of_done hp hu) hafter

/-- A step reads a unit, evaluates it as the whole does, and prints its value. -/
theorem step_tracks (run : Runner Calc.host) {n rounds : Nat} (hn : n ≤ rounds)
    (hprint : ∀ outcome, (s.config.print outcome).failure = none) {u rest : List String}
    (hunit : IsUnit Calc.host s.config.commands u (unitText u)) (hu : u.length ≤ rounds)
    {p : Program} (hp : Calc.parseProgram (unitText u) = .ok p)
    (hnames : ∀ name ∈ Stmt.variablesAll p, name ∉ conveniences) {ts : List Stmt} {last v : Value}
    (heval : Calc.Eval.stmts n topContext last (p ++ ts) f = .done (.ok v) f')
    (hw : InStep f s.config.input (u ++ rest) w) :
    ∃ w' last' f₁, s.step run rounds topContext w = (.ok (), w') ∧
      Succeeds [unitText u] w w' ∧ InStep f₁ s.config.input rest w' ∧
      Calc.Eval.stmts n topContext last' ts f₁ = .done (.ok v) f' := by
  obtain ⟨w₁, hread, hidles⟩ := readUnit_unit run (H := Calc.host) topContext hunit hu hw.supplied
  obtain ⟨value, w₂, last', f₁, hevaluate, hsucceeds, hw₂, hrest⟩ :=
    evaluate_tracks run hn hp hnames heval (hw.idles hidles)
  have hprinted : Idles s.config.input rest w₂ (w₂.record (.printed s.id (.value value))) :=
    .record hw₂.supplied rfl rfl
  have hflushed : (s.config.print (.value value)).flushed.failure = none := by
    rw [Writing.flushed_failure, hprint]
  obtain ⟨w', hput, hidles'⟩ := Idles.put hprinted.supplied
    (hprinted.accepts hw₂.accepts) hflushed
  have hafter := hprinted.trans hidles'
  refine ⟨w', last', f₁, ?_, ?_, hw₂.idles hafter, hrest⟩
  · simp only [step, Exec.bind_apply, hread, hevaluate]
    exact hput
  · exact (hidles.succeeds.trans hsucceeds).trans hafter.succeeds

/-- Steps until the input ends evaluate all units. -/
theorem reps_tracks (run : Runner Calc.host) {n rounds : Nat} (hn : n ≤ rounds)
    (hprint : ∀ outcome, (s.config.print outcome).failure = none)
    {units : List (List String)} {programs : List Program}
    (hunits : ∀ u ∈ units, IsUnit Calc.host s.config.commands u (unitText u))
    (hparse : units.map (fun u => Calc.parseProgram (unitText u)) = programs.map .ok)
    (hnames : ∀ name ∈ Stmt.variablesAll programs.flatten, name ∉ conveniences)
    {last v : Value}
    (heval : Calc.Eval.stmts n topContext last programs.flatten f = .done (.ok v) f')
    (hrounds : units.flatten.length < rounds) {k : Nat} (hk : units.length < k)
    (hw : InStep f s.config.input units.flatten w) :
    ∃ w', s.reps run rounds topContext k w = (.error (.interrupt .endOfInput), w') ∧
      Succeeds (units.map unitText) w w' ∧ f'.AgreeOff conveniences w'.host := by
  obtain ⟨k, rfl⟩ : ∃ m, k = m + 1 := ⟨k - 1, by omega⟩
  -- By induction on the units; the forest of the whole goes along with the host of the session.
  induction units generalizing programs last f w k with
  | nil =>
    obtain rfl : programs = [] := by simpa using hparse.symm
    cases heval
    obtain ⟨m, rfl⟩ : ∃ m, rounds = m + 1 := ⟨rounds - 1, by omega⟩
    obtain ⟨w', hread, hsucceeds, hhost⟩ :=
      readUnitFrom_end run (m + 1) (H := Calc.host) topContext m "" hw.supplied
    refine ⟨w', ?_, hsucceeds, ?_⟩
    · apply reps_of_end
      simp only [step, readUnit, Exec.bind_apply, hread]
    · rw [hhost]
      exact hw.agrees
  | cons u units ih =>
    obtain ⟨p, programs, rfl⟩ : ∃ p ps, programs = p :: ps := by
      cases programs with
      | nil => cases hparse
      | cons p ps => exact ⟨p, ps, rfl⟩
    obtain ⟨hp, hparse⟩ := List.cons.inj hparse
    obtain ⟨hunit, hunits⟩ := List.forall_mem_cons.1 hunits
    rw [List.flatten_cons, Stmt.variablesAll_append] at hnames
    obtain ⟨hpnames, hnames⟩ := List.forall_mem_append.1 hnames
    rw [List.flatten_cons, List.length_append] at hrounds
    have hu : u.length ≤ rounds := by omega
    obtain ⟨w₁, last', f₁, hstep, hsucceeds, hw₁, hrest⟩ :=
      step_tracks run hn hprint hunit hu hp hpnames heval hw
    rw [List.length_cons] at hk
    obtain ⟨k, rfl⟩ : ∃ m, k = m + 1 := ⟨k - 1, by omega⟩
    obtain ⟨w', hreps, hsucceeds', hagrees⟩ :=
      ih hunits hparse hnames hrest (by omega) hw₁ k (by omega)
    refine ⟨w', ?_, hsucceeds.trans hsucceeds', hagrees⟩
    exact (reps_of_step hstep (k + 1)).trans hreps

/-- A session binds its names before its steps. -/
theorem body_of_bind {H : Host} {run : Runner H} {rounds : Nat} {s : Session H} {ctx : H.Context}
    {w w₁ : World H} (h : s.bindConveniences ctx w = (.ok (), w₁)) :
    s.body run rounds ctx w = s.reps run rounds ctx rounds w₁ := by
  rw [body, Exec.bind_apply, h]

/-- A session that ends by an interrupt. -/
theorem runIn_of_interrupt {H : Host} {run : Runner H} {rounds : Nat} {s : Session H}
    {ctx : H.Context} {w w₁ w₂ : World H} {i : Interrupt}
    (hbefore : s.fire beforeSession [H.receiver ctx] w = (.ok (), w₁))
    (hbody : s.body run rounds ctx (s.begun (H.receiver ctx) w₁) = (.error (.interrupt i), w₂)) :
    s.runIn run rounds ctx w =
      (.error (.interrupt i), (w₂.leave w₁.active w₁.depth).record (.aborted s.id i)) := by
  have hran := s.runIn_ran run rounds ctx w
  generalize s.runIn run rounds ctx w = x at hran
  obtain ⟨r, w'⟩ := x
  dsimp only at hran
  -- How the session began and how its steps ended leaves only one possibility.
  cases hran with
  | refused hb => cases hbefore.symm.trans hb
  | aborted hb hx =>
    cases hbefore.symm.trans hb
    cases hbody.symm.trans hx
    rfl
  | spent hb hx =>
    cases hbefore.symm.trans hb
    cases hbody.symm.trans hx
  | failed hb hx _ =>
    cases hbefore.symm.trans hb
    cases hbody.symm.trans hx
  | ended hb hx _ _ =>
    cases hbefore.symm.trans hb
    cases hbody.symm.trans hx
  | propagated hb hx _ _ =>
    cases hbefore.symm.trans hb
    cases hbody.symm.trans hx

/-- No unit is evaluated where a session begins. -/
theorem begun_idles {H : Host} {input : Nat} {lines : List String} {w : World H} (s : Session H)
    (receiver : Value) (hw : w.Supplied input lines) :
    Idles input lines w (s.begun receiver w) := by
  have hstarted : Idles input lines w (w.record (.started s.id w.depth receiver)) :=
    .record hw rfl rfl
  have hstack : Idles input lines (w.record (.started s.id w.depth receiver))
      { w.record (.started s.id w.depth receiver) with
        stack := w.stack ++ [⟨w.depth, receiver⟩], active := some s.id } :=
    ⟨.of_log_eq rfl, rfl, rfl, hw⟩
  exact (hstarted.trans hstack).trans (.record hstack.supplied rfl rfl)

/-- No unit is evaluated where a session ends. -/
theorem aborted_succeeds {H : Host} (s : Session H) (i : Interrupt) (active : Option SessionId)
    (depth : Nat) (w : World H) :
    Succeeds [] w ((w.leave active depth).record (.aborted s.id i)) := by
  have hstack : Succeeds [] w { w with stack := w.stack.dropLast, active := active } :=
    .of_log_eq rfl
  have hpopped : Succeeds [] { w with stack := w.stack.dropLast, active := active }
      (w.leave active depth) := .record _ rfl rfl
  exact (hstack.trans hpopped).trans (.record _ rfl rfl)

/-- A session at the top level that is given the lines of some units evaluates them all. -/
theorem run_tracks {n rounds : Nat} (hn : n ≤ rounds)
    (hprint : ∀ outcome, (s.config.print outcome).failure = none)
    (hhook : (s.config.hooks.writing beforeSession [.main]).failure = none)
    {units : List (List String)} {programs : List Program}
    (hunits : ∀ u ∈ units, IsUnit Calc.host s.config.commands u (unitText u))
    (hparse : units.map (fun u => Calc.parseProgram (unitText u)) = programs.map .ok)
    (hnames : ∀ name ∈ Stmt.variablesAll programs.flatten, name ∉ conveniences) {v : Value}
    (heval : Calc.evaluateProgram n topContext programs.flatten f = .done (.ok v) f')
    (hrounds : units.flatten.length < rounds) (hw : InStep f s.config.input units.flatten w) :
    ∃ w', run (rounds + 1) s .topLevel w = (.error (.interrupt .endOfInput), w') ∧
      Succeeds (units.map unitText) w w' ∧ f'.AgreeOff conveniences w'.host := by
  have hfired : Idles s.config.input units.flatten w
      (w.record (.fired beforeSession [.main])) := .record hw.supplied rfl rfl
  obtain ⟨w₁, hput, hidles⟩ := Idles.put hfired.supplied (hfired.accepts hw.accepts) hhook
  have hbefore : s.fire beforeSession [.main] w = (.ok (), w₁) := hput
  have hbegun := s.begun_idles .main hidles.supplied
  have hstart := (hfired.trans hidles).trans hbegun
  obtain ⟨w₂, hbind, hbound, hw₂⟩ := (hw.idles hstart).bindConveniences s
  -- There are no more units than lines.
  have hlength : units.length < rounds := by
    have hle := length_le_flatten hunits
    omega
  obtain ⟨w₃, hreps, hsucceeds, hagrees⟩ :=
    reps_tracks (run rounds) hn hprint hunits hparse hnames heval hrounds hlength hw₂
  have hbody : s.body (run rounds) rounds (H := Calc.host) topContext (s.begun .main w₁) =
      (.error (.interrupt .endOfInput), w₃) := (body_of_bind hbind).trans hreps
  have hrun : run (rounds + 1) s .topLevel w =
      (.error (.interrupt .endOfInput),
        (w₃.leave w₁.active w₁.depth).record (.aborted s.id .endOfInput)) :=
    runIn_of_interrupt hbefore hbody
  have hend := s.aborted_succeeds .endOfInput w₁.active w₁.depth w₃
  have hall := ((hstart.succeeds.trans hbound).trans hsucceeds).trans hend
  rw [List.append_nil] at hall
  exact ⟨_, hrun, hall, hagrees⟩

/-- Lines that call no standard command and are together a program, which nests less deep than is
allowed, are read by a session as units and nothing more. The units are programs that say together
what the whole says, up to the offsets of variables. If moreover the whole mentions neither of the
names that sessions bind, and has a value in a forest with one scope and no bindings, then a session
at the top level evaluates the units in their order, none of them with a fault, until the input
ends, and leaves the same values of all other names. For this the hook for the begin and what prints
outcomes must not fail by themselves, and the sink must refuse nothing. -/
theorem program_line_by_line {lines : List String} {p : Program}
    (hlines : ∀ line ∈ lines, (Command.standard : Command.Table Calc.host).find? line = none)
    (hparse : Calc.parseProgram (unitText lines) = .ok p)
    (hdepth : Calc.NestsBelow Calc.maxNesting (unitText lines)) :
    ∃ (units : List (List String)) (programs : List Program),
      units.flatten = lines ∧ String.join (units.map unitText) = unitText lines ∧
      units.map (fun u => Calc.parseProgram (unitText u)) = programs.map .ok ∧
      Program.Alike p programs.flatten ∧
      (∀ (run : Runner Calc.host) (rounds : Nat) (s : Session Calc.host) (ctx : Calc.host.Context)
          (w : World Calc.host), s.config.commands = Command.standard →
        w.Supplied s.config.input lines → lines.length < rounds →
        ∃ w' w'', s.readUnits run rounds ctx units.length w = (.ok (units.map unitText), w') ∧
          s.readUnit run rounds ctx w' = (.error (.interrupt .endOfInput), w'')) ∧
      ∀ (n : Nat) (v : Value) (f : Forest),
        "_" ∉ Stmt.variablesAll p → "_session_" ∉ Stmt.variablesAll p →
        Calc.evaluateProgram n topContext p .single = .done (.ok v) f →
        ∀ (rounds : Nat) (s : Session Calc.host) (w : World Calc.host),
          s.config.commands = Command.standard →
          (∀ outcome, (s.config.print outcome).failure = none) →
          (s.config.hooks.writing beforeSession [.main]).failure = none → w.Accepts →
          w.Supplied s.config.input lines → w.host = Forest.single →
          n ≤ rounds → lines.length < rounds →
          ∃ w', run (rounds + 1) s .topLevel w = (.error (.interrupt .endOfInput), w') ∧
            unitsEvaluated (w'.since w) = units.map unitText ∧
            (∀ m ∈ w'.since w, m.event.fault? = none) ∧
            ∀ name, name ≠ "_" → name ≠ "_session_" →
              Forest.get? w'.host topContext.scope name = f.get? topContext.scope name := by
  obtain ⟨p', hp'⟩ := hdepth
  obtain ⟨units, programs, hflatten, hunits, hprograms, halike⟩ :=
    Calc.exists_units rfl hlines hp'
  -- What is read with the full depth says the same.
  have hwhole : Program.Alike p programs.flatten := by
    obtain ⟨p₁, hp₁, halike₁⟩ := Calc.parseWithin_succ (unitText_ends lines) hp'
    obtain rfl : p₁ = p := Except.ok.inj (hp₁.symm.trans hparse)
    exact halike₁.symm.trans halike
  refine ⟨units, programs, hflatten, ?_, hprograms, hwhole, ?_, ?_⟩
  · rw [← unitText_flatten, hflatten]
  · intro run rounds s ctx w hcommands hw hrounds
    rw [← hflatten] at hw hrounds
    rw [← hcommands] at hunits
    obtain ⟨w', hread, hidles⟩ := readUnits_units run ctx hunits (Nat.le_of_lt hrounds) hw
    obtain ⟨m, rfl⟩ : ∃ m, rounds = m + 1 := ⟨rounds - 1, by omega⟩
    obtain ⟨w'', hend, -⟩ := readUnitFrom_end run (m + 1) ctx m "" hidles.supplied
    exact ⟨w', w'', hread, hend⟩
  · intro n v f hlast hsession heval rounds s w hcommands hprint hhook haccepts hw hhost hn hrounds
    rw [← hflatten] at hw hrounds
    rw [← hcommands] at hunits
    -- The units mention the same names as the whole and have the same value.
    have hvariables : Stmt.variablesAll programs.flatten = Stmt.variablesAll p := by
      rw [← Stmt.variablesAll_erase, ← hwhole, Stmt.variablesAll_erase]
    have hnames : ∀ name ∈ Stmt.variablesAll programs.flatten, name ∉ conveniences := by
      intro name hname hmem
      rw [hvariables] at hname
      rcases List.mem_cons.1 hmem with rfl | hmem
      · exact hsession hname
      · obtain rfl := List.mem_singleton.1 hmem
        exact hlast hname
    have hevaluate : Calc.evaluateProgram n topContext programs.flatten .single =
        .done (.ok v) f := by
      rw [Calc.evaluateProgram, ← Calc.Eval.stmts_erase, ← hwhole, Calc.Eval.stmts_erase]
      exact heval
    have hstep : InStep .single s.config.input units.flatten w := by
      refine ⟨?_, hw, haccepts⟩
      rw [hhost]
      exact .refl conveniences .single
    obtain ⟨w', hrun, hsucceeds, hagrees⟩ :=
      run_tracks hn hprint hhook hunits hprograms hnames hevaluate hrounds hstep
    refine ⟨w', hrun, hsucceeds.units_eq, hsucceeds.faultless, ?_⟩
    intro name hne hne'
    have hvisible : name ∉ conveniences := by
      simp [conveniences, hne, hne']
    exact (hagrees.values topContext.scope name hvisible).symm

/-- A statement over three lines with a comment, a string over two lines, an empty line, and a loop
over four lines. -/
theorem program_line_by_line_mixed :
    let lines := ["let a = (1 +", "  2 # two", ")", "s = \"x", "y\"", "", "while a < 40 do",
      "  a = a * 3", "  b = a + len(s)", "end"]
    let w : World Calc.host :=
      { host := .single, nextId := 2,
        inputs := [.scripted { queue := lines.map fun line => .ok (.line line) }] }
    let s : Session Calc.host := ⟨1, .standard 0⟩
    (∀ line ∈ lines, (Command.standard : Command.Table Calc.host).find? line = none) ∧
      (∃ p, Calc.parseProgram (unitText lines) = .ok p) ∧
      Calc.NestsBelow Calc.maxNesting (unitText lines) ∧
      ∃ w', run 20 s .topLevel w = (.error (.interrupt .endOfInput), w') ∧
        (∀ m ∈ w'.since w, m.event.fault? = none) ∧
        (Forest.get? w'.host topContext.scope "b").map Value.display = some "84" := by
  intro lines w s
  have hlines : ∀ line ∈ lines,
      (Command.standard : Command.Table Calc.host).find? line = none := by
    decide +kernel
  -- The whole program, which has a value in a forest with one scope.
  have hnames : (Calc.parseProgram (unitText lines)).toOption.map Stmt.variablesAll =
      some ["a", "s", "a", "a", "a", "b", "a", "s"] := by
    decide +kernel
  have hvalue : (((Calc.parseProgram (unitText lines)).toOption.bind fun p =>
      Calc.Eval.result? (Calc.evaluateProgram 5 topContext p) .single).bind fun x =>
        x.2.get? topContext.scope "b").map Value.display = some "84" := by
    decide +kernel
  have hdepth : (Calc.parseWithin (Calc.maxNesting - 1) (unitText lines)).isOk = true := by
    decide +kernel
  cases hp : Calc.parseProgram (unitText lines) with
  | error err =>
    rw [hp] at hnames
    cases hnames
  | ok p =>
    rw [hp] at hnames hvalue
    have hvariables := Option.some.inj hnames
    obtain ⟨v, hv, hdisplay⟩ := Option.map_eq_some_iff.1 hvalue
    obtain ⟨⟨last, f⟩, heval, hf⟩ := Option.bind_eq_some_iff.1 hv
    have hnests : Calc.NestsBelow Calc.maxNesting (unitText lines) := by
      cases hd : Calc.parseWithin (Calc.maxNesting - 1) (unitText lines) with
      | error err =>
        rw [hd] at hdepth
        cases hdepth
      | ok p' => exact ⟨p', hd⟩
    refine ⟨hlines, ⟨p, rfl⟩, hnests, ?_⟩
    obtain ⟨units, programs, -, -, -, -, -, hrun⟩ := program_line_by_line hlines hp hnests
    have hw : w.Supplied 0 lines := ⟨_, rfl, Line.Scripted.gives _ _ rfl⟩
    have haccepts : w.Accepts := fun _ _ => rfl
    have hprint : ∀ outcome, (s.config.print outcome).failure = none := by
      intro outcome
      cases outcome <;> rfl
    have hlast : "_" ∉ Stmt.variablesAll p := by
      rw [hvariables]
      decide
    have hsession : "_session_" ∉ Stmt.variablesAll p := by
      rw [hvariables]
      decide
    obtain ⟨w', hw', -, hfaultless, hvalues⟩ := hrun 5 last f hlast hsession
      (Calc.Eval.eq_done_of_result? heval) 19 s w rfl hprint rfl haccepts hw rfl (by decide)
      (by decide)
    refine ⟨w', hw', hfaultless, ?_⟩
    rw [hvalues "b" (by decide) (by decide), hf, Option.map_some, hdisplay]

end Session

end CalcShell
