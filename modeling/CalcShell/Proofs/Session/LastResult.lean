import CalcShell.Proofs.Session.Opening
import CalcShell.Proofs.Session.Unwinding

/-!
# The last result

All sessions share one last result. The log tells what it is: the value of the unit that had one
most recently, whichever session evaluated it (`lastValue`). `Recalls` says that this is so at every
moment, and `Recalls.run` that it is so in every run: a unit that has a fault or is interrupted, and
the source of a command, leave the last result alone.
-/

namespace CalcShell

variable {H : Host}

/-- The value of the unit that an event concludes. -/
def Event.value? : Event H → Option Value
  | .valued _ v => some v
  | _ => none

/-- The value of the last unit that had one in some moments, or `v` if there was none. -/
def lastValue (v : Value) (ms : List (Moment H)) : Value :=
  (ms.filterMap fun m => m.event.value?).getLast?.getD v

@[simp]
theorem lastValue_nil (v : Value) : lastValue v ([] : List (Moment H)) = v := rfl

/-- The last value over two stretches of time. -/
theorem lastValue_append (v : Value) (ms ns : List (Moment H)) :
    lastValue v (ms ++ ns) = lastValue (lastValue v ms) ns := by
  rw [lastValue, List.filterMap_append, List.getLast?_append, Option.getD_or, lastValue, lastValue]

/-- Moments at which no unit has a value leave the last one. -/
theorem lastValue_of_none (v : Value) {ms : List (Moment H)}
    (hms : ∀ m ∈ ms, m.event.value? = none) : lastValue v ms = v := by
  rw [lastValue, List.filterMap_eq_nil_iff.2 hms]
  rfl

theorem lastValue_concat (v : Value) (ms : List (Moment H)) {m : Moment H}
    (hm : m.event.value? = none) : lastValue v (ms ++ [m]) = lastValue v ms := by
  rw [lastValue_append, lastValue_of_none _ (by simpa using hm)]

/-- The last result is at every moment the value of the last unit that had one. -/
structure Recalls (w w' : World H) : Prop where
  follows : w'.Follows w
  last : w'.last = lastValue w.last (w'.since w)
  moments : ∀ {pre m post}, w'.since w = pre ++ m :: post →
    m.view.last = lastValue w.last (pre ++ [m])

namespace Recalls

variable {w w₁ w₂ w' : World H}

theorem trans (h₁ : Recalls w w₁) (h₂ : Recalls w₁ w₂) : Recalls w w₂ where
  follows := h₂.follows.trans h₁.follows
  last := by rw [World.since_trans h₂.follows h₁.follows, lastValue_append, ← h₁.last, h₂.last]
  moments hms := by
    rw [World.since_trans h₂.follows h₁.follows] at hms
    rcases split_append hms with ⟨mid, hmid, -⟩ | ⟨mid, rfl, hmid⟩
    · exact h₁.moments hmid
    · rw [h₂.moments hmid, List.append_assoc, lastValue_append w.last, ← h₁.last]

/-- The log goes on with moments at which no unit has a value, and the last result stays as it is.
-/
theorem of_log {ms : List (Moment H)} (hlog : w'.log.toList = w.log.toList ++ ms)
    (hms : ∀ m ∈ ms, m.event.value? = none ∧ m.view.last = w.last) (hlast : w'.last = w.last) :
    Recalls w w' := by
  have hnone : ∀ part ⊆ ms, lastValue w.last part = w.last := fun _ hpart =>
    lastValue_of_none _ fun m hm => (hms m (hpart hm)).1
  refine ⟨⟨ms, hlog.symm⟩, ?_, ?_⟩
  · rw [World.since_eq hlog, hnone ms (List.Subset.refl _), hlast]
  · intro pre m post hsince
    rw [World.since_eq hlog] at hsince
    have hmem : m ∈ ms := by
      rw [hsince]
      exact List.mem_append_right _ List.mem_cons_self
    rw [(hms m hmem).2, hnone]
    rw [hsince, List.append_cons pre m post]
    exact List.subset_append_left _ _

/-- Nothing is recorded. -/
theorem of_log_eq (hlog : w'.log = w.log) (hlast : w'.last = w.last) : Recalls w w' := by
  have hlog' : w'.log.toList = w.log.toList ++ [] := by rw [hlog, List.append_nil]
  exact of_log hlog' (fun _ hm => absurd hm List.not_mem_nil) hlast

/-- An event is recorded that concludes no unit with a value. -/
theorem record {ev : Event H} (hev : ev.value? = none) : Recalls w (w.record ev) := by
  refine of_log (w.log_record ev) (fun m hm => ?_) rfl
  rw [List.mem_singleton.1 hm]
  exact ⟨hev, rfl⟩

/-- A unit has a value, which becomes the last result. -/
theorem valued (id : SessionId) (v : Value) :
    Recalls w (World.record { w with last := v } (.valued id v)) := by
  have hsince : (World.record { w with last := v } (.valued id v)).since w =
      [⟨.valued id v, { w.view with last := v }, w.host⟩] :=
    World.since_eq (World.log_record { w with last := v } _)
  refine ⟨⟨_, (World.log_record { w with last := v } _).symm⟩, ?_, ?_⟩
  · rw [hsince]
    rfl
  · intro pre m post hms
    rw [hsince] at hms
    obtain ⟨rfl, hms⟩ | ⟨_, -, hms⟩ := List.cons_eq_append_iff.1 hms
    · obtain ⟨rfl, rfl⟩ := List.cons.inj hms
      rfl
    · exact absurd hms (by simp)

/-- Nothing that commands and evaluations do by themselves touches the last result. -/
theorem serves : Conduct.Serves fun (w : World H) _ w' => Recalls w w' where
  refl _ := of_log_eq rfl rfl
  trans h₁ h₂ := h₁.trans h₂
  spent _ := of_log_eq rfl rfl
  raise _ _ := record rfl
  wrote w piece sink _ := by
    have hsink : Recalls w { w with sink := sink } := of_log_eq rfl rfl
    exact hsink.trans (record rfl)
  host _ _ := of_log_eq rfl rfl
  printed _ _ _ := record rfl
  consulting _ _ _ _ := record rfl

/-- That something is caught does not touch the last result. -/
theorem bears (t : Command.Table H) :
    Conduct.Bears (fun (w : World H) _ w' => Recalls w w') t :=
  .inl fun _ _ _ h => h

/-- Reading a unit does not touch the last result. -/
theorem listens {run : Session.Runner H} {s : Session H}
    (hn : ∀ t, Exec.Meets (fun w _ w' => Recalls w w') (s.nestVia run t)) (rounds : Nat) :
    Conduct.Listens (fun (w : World H) _ w' => Recalls w w') run rounds s := by
  refine serves.listens (bears _) hn (fun _ _ => of_log_eq rfl rfl) (fun _ e he => record ?_)
    (fun _ e he => record ?_) (fun _ _ => record rfl) rounds
  · cases e <;> first | rfl | simp [Event.isReading] at he
  · cases e <;> first | rfl | simp [Event.isNote] at he

/-- The value of a unit becomes the last result. -/
theorem conclude (s : Session H) (c : H.Context) (outcome : Outcome) :
    Exec.Meets (fun w _ w' => Recalls w w') (s.conclude c outcome) := by
  cases outcome with
  | value v =>
    intro w
    exact (valued s.id v).trans
      (serves.bindConveniences_meets s c (World.record { w with last := v } (.valued s.id v)))
  | fault f => exact fun _ => record rfl

theorem evaluate {run : Session.Runner H} {s : Session H}
    (hn : ∀ t, Exec.Meets (fun w _ w' => Recalls w w') (s.nestVia run t)) (rounds : Nat)
    (c : H.Context) (source : String) :
    Exec.Meets (fun w _ w' => Recalls w w') (s.evaluate run rounds c source) := by
  refine serves.evaluate_allowed ?_ (serves.evaluateIn_meets (bears _) hn rounds c source)
    (Recalls.conclude s c)
  exact serves.bind_meets (serves.bindConveniences_meets s c) fun _ _ => record rfl

/-- Opening and closing sessions does not touch the last result. -/
theorem opens (c : Config H) :
    Conduct.Opens (fun (w : World H) _ w' => Recalls w w') c (fun _ _ => True)
      fun _ _ w _ w' => Recalls w w' where
  toOrders := serves.toOrders
  spent := serves.spent
  newId _ := of_log_eq rfl rfl
  resolve _ _ _ := of_log_eq rfl rfl
  fire s name receiver _ := serves.fire_meets s name [receiver] fun _ => record rfl
  frame {s _ _ w w₂ _ _} _ _ _ _ hin _ := by
    have hbegun : ∀ receiver, Recalls w (s.begun receiver w) := fun receiver =>
      of_log (s.begun_log receiver w) (by simp [Event.value?, World.view, Session.begun,
        World.enter, World.record]) rfl
    have hleave : Recalls w₂ (w₂.leave w.active w.depth) :=
      of_log (w₂.leave_log _ _) (by simp [Event.value?, World.view, World.leave, World.record]) rfl
    exact ((hbegun _).trans hin).trans hleave
  aborted _ h := h.trans (record rfl)
  ended _ _ _ := record rfl
  propagated _ _ _ _ := record rfl

/-- In every run the last result is the value of the last unit that had one. -/
theorem run (rounds : Nat) (s : Session H) (t : Target H.Context) :
    Exec.Meets (fun (w : World H) _ w' => Recalls w w') (s.run rounds t) := by
  refine (opens s.config).run_all_meets (fun rounds s ctx _ hn w => ?_) rounds s rfl t
  exact serves.body_meets
    ((listens hn rounds).step_allowed (evaluate hn rounds ctx) (serves.print_meets s)) w

/-- So it is in sessions that are opened inside of others. -/
theorem nest (rounds : Nat) (s : Session H) (t : Target H.Context) :
    Exec.Meets (fun (w : World H) _ w' => Recalls w w') (s.nestVia (Session.run rounds) t) := by
  intro w
  have hnew : Recalls w { w with nextId := w.nextId + 1 } := of_log_eq rfl rfl
  exact hnew.trans (run rounds ⟨w.nextId, s.config⟩ t { w with nextId := w.nextId + 1 })

end Recalls

end CalcShell
