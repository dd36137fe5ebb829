import CalcShell.Command.Standard
import CalcShell.Proofs.Session.Courses

/-!
# The plans of the standard commands

Each standard command empties the pending text and then goes on in one of few ways
(`Plan.Standard`): it answers with some lines, it interrupts, or it opens a session on a value. What
is to be known of the plans of all of them is read off that.
-/

namespace CalcShell.Command

variable {H : Host}

/-! ## What the standard commands do -/

/-- How a standard command goes on once it has emptied the pending text. -/
inductive Plan.Standard (call : Call H) : Plan H → Prop
  /-- It is done. -/
  | done : Standard call .done
  /-- It writes a line. -/
  | write {texts : List String} {plan : Plan H} (hnext : Standard call plan) :
      Standard call (.act (.write (.line texts)) fun _ => plan)
  /-- It looks around. -/
  | look {k : Sight H → Plan H} (hnext : ∀ sight, Standard call (k sight)) :
      Standard call (.look k)
  /-- It ends the program. -/
  | exit : Standard call (.interrupt (.exit 0))
  /-- It unwinds to a level that is not above the innermost one. -/
  | leave {level : Nat} (hlevel : level ≤ call.level) :
      Standard call (.interrupt (.breakout level))
  /-- It opens a session on the value of the source that it captures, or prints its fault. -/
  | enter {source : String} {k : Outcome → Plan H} (hsource : call.argument? = some source)
      (hvalue : ∀ v, k (.value v) = .act (.nest (.object v)) fun _ => .done)
      (hfault : ∀ f, k (.fault f) = .act (.print (.fault f)) fun _ => .done) :
      Standard call (.act (.evaluate call.context source) k)

theorem helpFor_lines (ls : List Listing) (name : Option String) :
    ∀ w ∈ helpFor ls name, ∃ texts, w = .line texts := by
  intro w hw
  unfold helpFor at hw
  split at hw
  · simp only [helpTable, List.mem_cons, List.mem_map] at hw
    rcases hw with rfl | rfl | ⟨l, -, rfl⟩
    all_goals exact ⟨_, rfl⟩
  · split at hw
    · simp only [helpCommand, List.mem_cons, List.not_mem_nil, or_false] at hw
      rcases hw with rfl | rfl
      all_goals exact ⟨_, rfl⟩
    · exact ⟨_, List.mem_singleton.1 hw⟩

theorem nestingLines_lines (stack : List Frame) :
    ∀ w ∈ nestingLines stack, ∃ texts, w = .line texts := by
  intro w hw
  simp only [nestingLines, List.mem_cons, List.mem_map] at hw
  rcases hw with rfl | rfl | ⟨f, -, rfl⟩
  · exact ⟨_, rfl⟩
  · exact ⟨_, rfl⟩
  · unfold frameLine
    split <;> exact ⟨_, rfl⟩

theorem statusLines_lines (receiver : Value) (level : Nat) (last : Value) :
    ∀ w ∈ statusLines receiver level last, ∃ texts, w = .line texts := by
  intro w hw
  simp only [statusLines, List.mem_cons, List.not_mem_nil, or_false] at hw
  rcases hw with rfl | rfl | rfl | rfl | rfl
  all_goals exact ⟨_, rfl⟩

namespace Plan.Standard

theorem answer (call : Call H) {ws : List Writing} (hlines : ∀ w ∈ ws, ∃ texts, w = .line texts) :
    Plan.Standard call (.answer ws) := by
  induction ws with
  | nil => exact .done
  | cons w ws ih =>
    obtain ⟨texts, rfl⟩ := hlines w List.mem_cons_self
    exact .write (ih fun v hv => hlines v (List.mem_cons_of_mem _ hv))

theorem line (call : Call H) (texts : List String) : Plan.Standard call (.answer [.line texts]) :=
  .write .done

theorem entering (call : Call H) : Plan.Standard call (.enter call) := by
  unfold Plan.enter
  split
  · exact .done
  · rename_i hsource
    exact .enter hsource (fun _ => rfl) fun _ => rfl

/-- A jump unwinds or answers. -/
theorem jump (call : Call H) : Plan.Standard call (.jump call) := by
  unfold Plan.jump
  split
  · split
    · exact line call _
    · split
      · rename_i hlevel
        exact .leave hlevel
      · exact line call _
  · exact line call _

end Plan.Standard

/-- Each standard command empties the pending text and goes on in one of these ways. -/
theorem standard_plan {command : Command H} (hcommand : command ∈ standard) (call : Call H) :
    ∃ plan, command.handler call = .cleared plan ∧ plan.Standard call := by
  simp only [standard, List.mem_cons, List.not_mem_nil, or_false] at hcommand
  rcases hcommand with rfl | rfl | rfl | rfl | rfl | rfl | rfl | rfl | rfl | rfl
  · exact ⟨_, rfl, .exit⟩
  · exact ⟨_, rfl, .line call _⟩
  · exact ⟨_, rfl, .answer call (helpFor_lines _ _)⟩
  · exact ⟨_, rfl, .answer call (nestingLines_lines _)⟩
  · exact ⟨_, rfl, .look fun _ => .answer call (statusLines_lines _ _ _)⟩
  · exact ⟨_, rfl, .look fun _ => .line call _⟩
  · exact ⟨_, rfl, .leave (Nat.zero_le _)⟩
  · exact ⟨_, rfl, .leave (Nat.le_refl _)⟩
  · exact ⟨_, rfl, .entering call⟩
  · exact ⟨_, rfl, .jump call⟩

/-! ## Commands that empty the pending text -/

/-- A plan never changes the pending text. -/
def Plan.Spares : Plan H → Prop
  | .done | .interrupt _ => True
  | .edit _ _ => False
  | .look k => ∀ sight, (k sight).Spares
  | .act _ k => ∀ a, (k a).Spares
  | .attempt _ k => ∀ r, (k r).Spares

/-- All commands of a table empty the pending text first and then leave it alone. -/
def Table.Clears (t : Table H) : Prop :=
  ∀ command ∈ t, ∀ call, ∃ rest, command.handler call = .cleared rest ∧ rest.Spares

theorem Plan.Standard.spares {call : Call H} {plan : Plan H} (h : plan.Standard call) :
    plan.Spares := by
  induction h with
  | done => trivial
  | write _ ih => exact fun _ => ih
  | look _ ih => exact ih
  | exit => trivial
  | leave _ => trivial
  | enter _ hvalue hfault =>
    intro outcome
    cases outcome with
    | value v => exact hvalue v ▸ fun _ => trivial
    | fault f => exact hfault f ▸ fun _ => trivial

theorem standard_clears : Table.Clears (standard (H := H)) := by
  intro command hcommand call
  obtain ⟨plan, hplan, hstandard⟩ := standard_plan hcommand call
  exact ⟨plan, hplan, hstandard.spares⟩

/-! ## Interrupts and deeds -/

theorem Plan.Standard.passesOn {call : Call H} {plan : Plan H} (h : plan.Standard call) :
    plan.PassesOn := by
  induction h with
  | done => trivial
  | write _ ih => exact fun _ => ih
  | look _ ih => exact ih
  | exit => trivial
  | leave _ => trivial
  | enter _ hvalue hfault =>
    intro outcome
    cases outcome with
    | value v => exact hvalue v ▸ fun _ => trivial
    | fault f => exact hfault f ▸ fun _ => trivial

/-- The standard commands pass interrupts on. -/
theorem standard_passesOn : Table.PassesOn (standard (H := H)) := by
  intro command hcommand call
  obtain ⟨plan, hplan, hstandard⟩ := standard_plan hcommand call
  rw [hplan]
  exact hstandard.passesOn

/-- The deeds that a standard command asks for. -/
inductive Deed.Standard (call : Call H) : Deed H → Prop
  | write (texts : List String) : Standard call (.write (.line texts))
  | evaluate {source : String} (hsource : call.argument? = some source) :
      Standard call (.evaluate call.context source)
  | print (f : Fault) : Standard call (.print (.fault f))
  | nest (v : Value) : Standard call (.nest (.object v))

theorem Deed.Standard.toLocal {call : Call H} {d : Deed H} (h : d.Standard call) :
    d.Local call.context := by
  cases h with
  | evaluate _ =>
    refine ⟨fun _ _ hd => ?_, nofun⟩
    cases hd
    rfl
  | _ => exact ⟨nofun, nofun⟩

/-- A standard command writes lines, evaluates the source that it captures in the context that it is
called in, prints faults and opens sessions on values. By itself it interrupts only to end the
program or to unwind to a level that is not above the innermost one. -/
theorem Plan.Standard.keeps {call : Call H} {plan : Plan H} (h : plan.Standard call) :
    plan.Keeps (Deed.Standard call)
      fun i => i = .exit 0 ∨ ∃ level ≤ call.level, i = .breakout level := by
  induction h with
  | done => trivial
  | write _ ih => exact ⟨.write _, fun _ => ih⟩
  | look _ ih => exact ih
  | exit => exact .inl rfl
  | leave hlevel => exact .inr ⟨_, hlevel, rfl⟩
  | enter hsource hvalue hfault =>
    refine ⟨.evaluate hsource, fun outcome => ?_⟩
    cases outcome with
    | value v => exact hvalue v ▸ ⟨.nest v, fun _ => trivial⟩
    | fault f => exact hfault f ▸ ⟨.print f, fun _ => trivial⟩

/-- The same of all standard commands. -/
theorem standard_keeps {command : Command H} (hcommand : command ∈ standard) (call : Call H) :
    (command.handler call).Keeps (Deed.Standard call)
      fun i => i = .exit 0 ∨ ∃ level ≤ call.level, i = .breakout level := by
  obtain ⟨plan, hplan, hstandard⟩ := standard_plan hcommand call
  rw [hplan]
  exact hstandard.keeps

/-- The standard commands evaluate sources in the context that they are called in, and open no
session in a context that there is already. -/
theorem standard_local : (standard (H := H)).Asks Deed.Local := fun _ hcommand call =>
  (standard_keeps hcommand call).mono (fun _ hd => hd.toLocal) fun _ _ => trivial

theorem standard_stays : (standard (H := H)).Asks Deed.Stays :=
  standard_local.mono fun _ _ hd => hd.stays

end CalcShell.Command
