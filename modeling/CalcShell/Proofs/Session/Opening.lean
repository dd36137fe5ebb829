import CalcShell.Proofs.Session.Nesting

/-!
# Sessions inside of sessions

What a session does depends on where it does it: while it runs it is the innermost one, and held in
its context (`Session.Holds`). A conduct that is asked for only there (`Conduct.given`) is what the
steps of a session meet. `Conduct.Opens` lists what a conduct must allow around these steps, from
the number that a session is given to the event of its end, and `Conduct.Opens.run_meets` is the
one induction on the rounds: if what a session does on the stack is as it should be as long as the
sessions that it opens meet the conduct, then every run meets it. Not every target may make sense in
every state of the host, so the conduct is asked for only where the targets do.
-/

namespace CalcShell

variable {H : Host}

/-! ## Where a session is the innermost one -/

/-- The session `s` is the innermost one, and it is held in the context `ctx`. -/
structure Session.Holds (s : Session H) (ctx : H.Context) (w : World H) : Prop where
  active : w.active = some s.id
  frame : ∃ depth, w.stack.getLast? = some ⟨depth, H.receiver ctx⟩

namespace Session.Holds

variable {s : Session H} {ctx : H.Context} {w w' : World H}

/-- A session that begins is the innermost one. -/
theorem begun (s : Session H) (ctx : H.Context) (w : World H) :
    s.Holds ctx (s.begun (H.receiver ctx) w) where
  active := rfl
  frame := ⟨w.depth, by rw [s.begun_stack, List.getLast?_concat]; rfl⟩

/-- It is the innermost one as long as the stack and the active session are the same. -/
theorem of_eq (h : s.Holds ctx w) (hstack : w'.stack = w.stack) (hactive : w'.active = w.active) :
    s.Holds ctx w' where
  active := hactive.trans h.active
  frame := by
    rw [hstack]
    exact h.frame

theorem of_nests {F : List Activation → Prop} {e : Option Stop} (h : s.Holds ctx w)
    (hn : Nests F w e w') : s.Holds ctx w' :=
  h.of_eq hn.stack hn.active

end Session.Holds

/-! ## Opening and closing sessions -/

/-- Calling a hook does not touch the state of the host. -/
theorem Session.fire_host {s : Session H} {name : String} {args : List Value} {w w' : World H}
    {x : Except Stop Unit} (hx : s.fire name args w = (x, w')) : w'.host = w.host := by
  have hwrites : Conduct.Writes fun (w : World H) _ w' => w'.host = w.host :=
    { refl := fun _ => rfl
      trans := fun h₁ h₂ => h₂.trans h₁
      io := fun _ _ => rfl
      wrote := fun _ _ _ _ => rfl }
  have h := hwrites.fire_meets s name args (fun _ => rfl) w
  rwa [hx] at h

/-- How things stand once a session is off the stack: as they stood before, or well if the session
has caught an unwinding. -/
def Left (e e' : Option Stop) : Prop :=
  e' = e ∨ ∃ level, e = some (.interrupt (.breakout level)) ∧ e' = none

/-- What took too many rounds still did. -/
theorem Left.spent {e e' : Option Stop} (h : Left e e') (he : e = some .spent) :
    e' = some .spent := by
  obtain rfl | ⟨level, rfl, -⟩ := h
  · exact he
  · cases he

/-- A conduct that allows all by which sessions made of `c` are opened and closed on targets that
satisfy `T` in the state of the host, where `B` is the conduct of a session in its context while it
is on the stack. -/
structure Conduct.Opens (R : Conduct H) (c : Config H) (T : Target H.Context → H.State → Prop)
    (B : Session H → H.Context → Conduct H) : Prop extends R.Orders where
  /-- The allowed rounds come to their end. -/
  spent : ∀ w, R w (some .spent) w
  /-- A number is given to a session. -/
  newId : ∀ w, R w none { w with nextId := w.nextId + 1 }
  /-- A context is made for a target. -/
  resolve : ∀ t w, T t w.host → R w none { w with host := (H.resolve t w.host).2 }
  /-- The hook for the begin or the end is called. -/
  fire : ∀ (s : Session H) name receiver, s.config = c → Exec.Meets R (s.fire name [receiver])
  /-- A session is on the stack for a while, after its context was made in the world `w₀`. What
  came in between has not touched the state of the host. -/
  frame : ∀ {s : Session H} {t} {w₀ w w₂ : World H} {e e'}, s.config = c → T t w₀.host →
    w.host = (H.resolve t w₀.host).2 → R { w₀ with host := (H.resolve t w₀.host).2 } none w →
    B s (H.resolve t w₀.host).1 (s.begun (H.receiver (H.resolve t w₀.host).1) w) e w₂ →
    Left e e' → R w e' (w₂.leave w.active w.depth)
  /-- A session ends by an interrupt. -/
  aborted : ∀ {w w' i} id, R w (some (.interrupt i)) w' →
    R w (some (.interrupt i)) (w'.record (.aborted id i))
  /-- A session ends where unwinding ends. -/
  ended : ∀ w id level, R w none (w.record (.ended id level))
  /-- A session ends and unwinding goes on. -/
  propagated : ∀ w id level depth,
    R w (some (.interrupt (.breakout level))) (w.record (.propagated id level depth))

namespace Conduct.Opens

variable {R : Conduct H} {c : Config H} {T : Target H.Context → H.State → Prop}
  {B : Session H → H.Context → Conduct H} (h : R.Opens c T B)
include h

/-- Running a session is allowed if what it does on the stack is. -/
theorem ran_allowed {s : Session H} {t : Target H.Context} {w₀ : World H} {body : Exec H Nat}
    (hs : s.config = c) (ht : T t w₀.host)
    (hbody : ∀ w, B s (H.resolve t w₀.host).1 w (Session.bodyEnding (body w).1) (body w).2)
    {r : Except Stop Value} {w' : World H}
    (hran : s.Ran (H.receiver (H.resolve t w₀.host).1) body
      { w₀ with host := (H.resolve t w₀.host).2 } r w') :
    R { w₀ with host := (H.resolve t w₀.host).2 } (ending r) w' := by
  generalize hstart : ({ w₀ with host := (H.resolve t w₀.host).2 } : World H) = start at hran ⊢
  have hfire : ∀ {name : String} {v v' : World H} {x : Except Stop Unit},
      s.fire name [H.receiver (H.resolve t w₀.host).1] v = (x, v') → R v (ending x) v' := by
    intro name v v' x hx
    have hv := h.fire s name (H.receiver (H.resolve t w₀.host).1) hs v
    rwa [hx] at hv
  -- From before the hook for the begin until the session is off the stack.
  have hinside : ∀ {w₁ w₂ : World H} {x : Except Stop Nat} {e : Option Stop},
      s.fire beforeSession [H.receiver (H.resolve t w₀.host).1] start = (.ok (), w₁) →
      body (s.begun (H.receiver (H.resolve t w₀.host).1) w₁) = (x, w₂) →
      Left (Session.bodyEnding x) e → R start e (w₂.leave w₁.active w₁.depth) := by
    intro w₁ w₂ x e hb hx he
    have hbefore := hfire hb
    have hin := hbody (s.begun (H.receiver (H.resolve t w₀.host).1) w₁)
    rw [hx] at hin
    have hhost : w₁.host = (H.resolve t w₀.host).2 := by
      rw [Session.fire_host hb, ← hstart]
    refine h.trans hbefore (h.frame hs ht hhost ?_ hin he)
    rw [hstart]
    exact hbefore
  cases hran with
  | refused hb => exact hfire hb
  | aborted hb hx => exact h.aborted s.id (hinside hb hx (.inl rfl))
  | spent hb hx => exact hinside hb hx (.inl rfl)
  | failed hb hx ha => exact h.trans (hinside hb hx (.inr ⟨_, rfl, rfl⟩)) (hfire ha)
  | ended hb hx ha =>
    exact h.trans (h.trans (hinside hb hx (.inr ⟨_, rfl, rfl⟩)) (hfire ha)) (h.ended _ _ _)
  | propagated hb hx ha =>
    exact h.trans (h.trans (hinside hb hx (.inr ⟨_, rfl, rfl⟩)) (hfire ha)) (h.propagated _ _ _ _)

/-- Every run is allowed if what a session does on the stack is as long as the sessions that it
opens are. -/
theorem run_meets
    (hbody : ∀ rounds (s : Session H) ctx, s.config = c →
      (∀ t, Exec.Meets (R.given fun w => T t w.host) (s.nestVia (Session.run rounds) t)) →
      ∀ w, B s ctx w (Session.bodyEnding (s.body (Session.run rounds) rounds ctx w).1)
        (s.body (Session.run rounds) rounds ctx w).2)
    (rounds : Nat) (s : Session H) (hs : s.config = c) (t : Target H.Context) :
    Exec.Meets (R.given fun w => T t w.host) (s.run rounds t) := by
  -- By induction on the rounds: the sessions opened inside have the same parts and fewer rounds.
  induction rounds generalizing s t with
  | zero => exact fun w _ => h.spent w
  | succ rounds ih =>
    have hn : ∀ t, Exec.Meets (R.given fun w => T t w.host) (s.nestVia (Session.run rounds) t) :=
      fun t w ht =>
        h.trans (h.newId w) (ih ⟨w.nextId, s.config⟩ hs t { w with nextId := w.nextId + 1 } ht)
    intro w ht
    rw [Session.run_succ]
    exact h.trans (h.resolve t w ht)
      (h.ran_allowed hs ht (hbody rounds s _ hs hn) (Session.runIn_ran _ rounds s _ _))

end Conduct.Opens

/-- The same where every target makes sense. -/
theorem Conduct.Opens.run_all_meets {R : Conduct H} {c : Config H}
    {B : Session H → H.Context → Conduct H} (h : R.Opens c (fun _ _ => True) B)
    (hbody : ∀ rounds (s : Session H) ctx, s.config = c →
      (∀ t, Exec.Meets R (s.nestVia (Session.run rounds) t)) →
      ∀ w, B s ctx w (Session.bodyEnding (s.body (Session.run rounds) rounds ctx w).1)
        (s.body (Session.run rounds) rounds ctx w).2)
    (rounds : Nat) (s : Session H) (hs : s.config = c) (t : Target H.Context) :
    Exec.Meets R (s.run rounds t) := fun w =>
  h.run_meets (fun rounds s ctx hs hn => hbody rounds s ctx hs fun t w => hn t w trivial) rounds s
    hs t w trivial

end CalcShell
