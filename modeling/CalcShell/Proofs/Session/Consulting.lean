import CalcShell.Proofs.Session.Attribution

/-!
# The names when a command evaluates its source

A unit finds the two names bound, since its session binds them right before. A command that
evaluates a source does not bind them first, and finds what they tell from some moment before:
`Session.names_at_commands` says from which. It is the last moment at which the session of the
command has bound them itself (`LastBinding`) or, if the session is on the top level, perhaps a
later one at which another session on the top level did. So the source of a command finds the last
result as long as no session has been opened and closed in between, and
`Session.last_result_unknown_to_command` is a run in which it does not.

The proof looks at the sessions that a session opens from outside (`Foreign`): what a scope tells is
accounted for, and they bind the names only further inside (`Deep`). So they never make a later
moment the last one at which the session itself has bound the names, and this is kept by all that
the session does (`Upholds`).
-/

namespace CalcShell

/-! ## How deep the names are bound -/

section Deep

variable {H : Host}

theorem Event.binds_of_isQuiet {e : Event H} (h : e.isQuiet = true) : e.binds = false := by
  cases e <;> first | rfl | cases h

/-- The names are bound only by sessions at least `k` levels below the innermost one, which is the
same afterwards. -/
structure Deep (k : Nat) (w w' : World H) : Prop where
  follows : w'.Follows w
  depth : w'.depth = w.depth
  moments : ∀ m ∈ w'.since w, m.event.binds = true → w.depth + k ≤ m.view.depth

namespace Deep

variable {k : Nat} {w w₁ w₂ w' : World H}

theorem trans (h₁ : Deep k w w₁) (h₂ : Deep k w₁ w₂) : Deep k w w₂ where
  follows := h₂.follows.trans h₁.follows
  depth := h₂.depth.trans h₁.depth
  moments m hm hbinds := by
    rw [World.since_trans h₂.follows h₁.follows] at hm
    rcases List.mem_append.1 hm with hm | hm
    · exact h₁.moments m hm hbinds
    · rw [← h₁.depth]
      exact h₂.moments m hm hbinds

theorem of_log_eq (hlog : w'.log = w.log) (hdepth : w'.depth = w.depth) : Deep k w w' := by
  refine ⟨.of_log_eq hlog, hdepth, fun m hm => ?_⟩
  rw [World.since_of_log_eq hlog] at hm
  exact absurd hm List.not_mem_nil

/-- An event is recorded at which the names are bound by the innermost session at most. -/
theorem record {e : Event H} (he : e.binds = true → k = 0) : Deep k w (w.record e) := by
  refine ⟨w.record_follows e, rfl, fun m hm hbinds => ?_⟩
  rw [World.since_eq (w.log_record e), List.mem_singleton] at hm
  subst hm
  rw [he hbinds]
  exact Nat.le_refl _

theorem mono (h : Deep (k + 1) w w') : Deep k w w' where
  follows := h.follows
  depth := h.depth
  moments m hm hbinds := Nat.le_of_succ_le (h.moments m hm hbinds)

theorem quiet : Conduct.Quiet fun (w : World H) _ w' => Deep k w w' where
  refl _ := of_log_eq rfl rfl
  trans h₁ h₂ := h₁.trans h₂
  anyhow _ h := h
  record _ _ he := record fun hbinds =>
    absurd ((Event.binds_of_isQuiet he).symm.trans hbinds) Bool.false_ne_true
  sink _ _ := of_log_eq rfl rfl
  inputs _ _ := of_log_eq rfl rfl

/-- What a session does on the stack binds the names at its own level or below. -/
theorem works : Conduct.Works fun (w : World H) _ w' => Deep 0 w w' where
  toWrites := quiet.writes
  spent := quiet.spent
  host _ _ := of_log_eq rfl rfl
  raise _ _ := record fun _ => rfl
  printed _ _ _ := record fun _ => rfl
  consulting _ _ _ _ := record fun _ => rfl
  last _ _ := of_log_eq rfl rfl
  inputs := quiet.inputs
  reading _ _ _ := record fun _ => rfl
  work _ _ _ := record fun _ => rfl

theorem opens (c : Config H) : Conduct.Opens (fun (w : World H) _ w' => Deep 1 w w') c
    (fun _ _ => True) fun _ _ w _ w' => Deep 0 w w' where
  toOrders := quiet.toOrders
  spent := quiet.spent
  newId _ := of_log_eq rfl rfl
  resolve _ _ _ := of_log_eq rfl rfl
  fire s name receiver _ := quiet.writes.fire_meets s name [receiver] fun _ => record nofun
  frame {s t w₀ w w₂ e e'} _ _ _ _ hin _ := by
    have hdepth : w₂.depth = w.depth + 1 := hin.depth.trans (s.begun_depth _ w)
    refine ⟨((w₂.leave_follows _ _).trans hin.follows).trans (s.begun_follows _ w), ?_, ?_⟩
    · change w₂.stack.dropLast.length = w.depth
      rw [List.length_dropLast]
      exact congrArg (· - 1) hdepth
    · intro m hm hbinds
      rw [Session.since_leave hin.follows (w₂.leave_follows _ _),
        World.since_eq (s.begun_log _ w), World.since_eq (w₂.leave_log _ _)] at hm
      simp only [List.cons_append, List.nil_append, List.mem_cons, List.mem_append,
        List.not_mem_nil, or_false] at hm
      rcases hm with rfl | rfl | hm | rfl
      · cases hbinds
      · exact Nat.le_of_eq (s.begun_depth _ w).symm
      · exact Nat.le_trans (Nat.le_of_eq (s.begun_depth _ w).symm) (hin.moments m hm hbinds)
      · cases hbinds
  aborted _ h := h.trans (record nofun)
  ended _ _ _ := record nofun
  propagated _ _ _ _ := record nofun

/-- Sessions that are opened inside of others bind the names at their own level or below. -/
theorem nest (rounds : Nat) (s : Session H) (t : Target H.Context) :
    Exec.Meets (fun (w : World H) _ w' => Deep 1 w w') (s.nestVia (Session.run rounds) t) := by
  intro w
  have hrun := (opens s.config).run_all_meets (fun rounds s ctx _ hn w => works.body_meets
    (works.step_meets (.inl fun _ _ _ h => h) (fun t w => (hn t w).mono) rounds ctx) w) rounds
    ⟨w.nextId, s.config⟩ rfl t { w with nextId := w.nextId + 1 }
  have hnew : Deep 1 w { w with nextId := w.nextId + 1 } := of_log_eq rfl rfl
  exact hnew.trans hrun

end Deep

end Deep

/-! ## What the names tell -/

section LastBinding

variable {H : Host} {id : SessionId} {d : Nat} {ls ms ns after : List (Moment H)} {b : Moment H}

/-- Of the moments `ms`, `b` is the last one at which the names are bound at depth `d`, by the
session with the number `id`; those in `after` come behind it. -/
structure LastBinding (id : SessionId) (d : Nat) (ms : List (Moment H)) (b : Moment H)
    (after : List (Moment H)) : Prop where
  split : ∃ before, ms = before ++ b :: after
  binds : b.event.binds = true
  active : b.view.active = some id
  depth : b.view.depth = d
  latest : ∀ n ∈ after, n.event.binds = true → n.view.depth ≠ d

namespace LastBinding

theorem here (ms : List (Moment H)) (hbinds : b.event.binds = true)
    (hactive : b.view.active = some id) (hdepth : b.view.depth = d) :
    LastBinding id d (ms ++ [b]) b [] :=
  ⟨⟨ms, rfl⟩, hbinds, hactive, hdepth, fun _ hn => absurd hn List.not_mem_nil⟩

/-- More has happened before. -/
theorem prepend (h : LastBinding id d ms b after) (ls : List (Moment H)) :
    LastBinding id d (ls ++ ms) b after := by
  obtain ⟨before, rfl⟩ := h.split
  exact { h with split := ⟨ls ++ before, (List.append_assoc ..).symm⟩ }

/-- More happens, by which the names are not bound at this depth. -/
theorem append (h : LastBinding id d ms b after)
    (hns : ∀ n ∈ ns, n.event.binds = true → n.view.depth ≠ d) :
    LastBinding id d (ms ++ ns) b (after ++ ns) := by
  obtain ⟨before, rfl⟩ := h.split
  exact { h with
    split := ⟨before, by rw [List.append_assoc, List.cons_append]⟩
    latest := List.forall_mem_append.2 ⟨h.latest, hns⟩ }

end LastBinding

end LastBinding

variable {id : SessionId} {d : Nat} {i : Calc.ScopeId} {ls ms ns : List (Moment Calc.host)}
  {w w₁ w₂ w' : World Calc.host}

/-- After the moments `ms` the names in scope `i` tell what the session with the number `id`, which
is the innermost of `d` open ones, has seen when it bound them last, or what a session on the top
level has seen since. -/
def Standing (id : SessionId) (d : Nat) (i : Calc.ScopeId) (ms : List (Moment Calc.host))
    (f : Calc.Forest) : Prop :=
  ∃ b after, LastBinding id d ms b after ∧
    ∃ v ∈ b.view :: topViews i after, f.Shows Convenience.all i v

namespace Standing

theorem prepend {f : Calc.Forest} (h : Standing id d i ms f) (ls : List (Moment Calc.host)) :
    Standing id d i (ls ++ ms) f := by
  obtain ⟨b, after, hlast, hv⟩ := h
  exact ⟨b, after, hlast.prepend ls, hv⟩

/-- A session binds the names. -/
theorem here {f : Calc.Forest} {b : Moment Calc.host} (ms : List (Moment Calc.host))
    (hbinds : b.event.binds = true) (hactive : b.view.active = some id) (hdepth : b.view.depth = d)
    (hshows : f.Shows Convenience.all i b.view) : Standing id d i (ms ++ [b]) f :=
  ⟨b, [], .here ms hbinds hactive hdepth, b.view, List.mem_cons_self, hshows⟩

/-- Only sessions further inside bind the names. -/
theorem append (h : Standing id w.depth i ms w.host) (haccounted : Accounted Convenience.all i w w')
    (hdeep : Deep 1 w w') (hspare : Sparing Convenience.all (w'.since w)) :
    Standing id w.depth i (ms ++ w'.since w) w'.host := by
  obtain ⟨b, after, hlast, v, hmem, hv⟩ := h
  obtain ⟨v', hmem', hv'⟩ := haccounted.shows hspare v hv
  refine ⟨b, after ++ w'.since w, hlast.append fun n hn hbinds => ?_, v',
    mem_cons_topViews_append hmem hmem', hv'⟩
  exact Nat.ne_of_gt (hdeep.moments n hn hbinds)

/-- The scope exists. -/
theorem lt_size {f : Calc.Forest} (h : Standing id d i ms f) : i < f.size := by
  obtain ⟨-, -, -, v, -, hv⟩ := h
  exact Calc.Forest.lt_size_of_get? (hv .session List.mem_cons_self)

end Standing

/-- The session, the context and the source of the command that begins to evaluate it by an event.
-/
def Event.consultation? {H : Host} : Event H → Option (SessionId × H.Context × String)
  | .consulting id c source => some (id, c, source)
  | _ => none

theorem Event.eq_of_consultation? {H : Host} {e : Event H} {id : SessionId} {c : H.Context}
    {source : String} (h : e.consultation? = some (id, c, source)) :
    e = .consulting id c source := by
  cases e with
  | consulting id' c' source' =>
    cases h
    rfl
  | _ => cases h

/-- Behind the moments `ms`, whenever a command evaluates its source in the moments `ns`, the names
tell what the session of the command has seen when it bound them last, or what a session on the top
level has seen since. -/
def Informed (ms ns : List (Moment Calc.host)) : Prop :=
  ∀ pre m post, ns = pre ++ m :: post → ∀ id c source,
    m.event.consultation? = some (id, c, source) →
      Standing id m.view.depth c.scope (ms ++ pre) m.host

namespace Informed

theorem append (h₁ : Informed ms ls) (h₂ : Informed (ms ++ ls) ns) : Informed ms (ls ++ ns) := by
  intro pre m post hms
  rcases split_append hms with ⟨mid, hmid, -⟩ | ⟨mid, rfl, hmid⟩
  · exact h₁ pre m mid hmid
  · rw [← List.append_assoc]
    exact h₂ mid m post hmid

theorem prepend (h : Informed ms ns) (ls : List (Moment Calc.host)) : Informed (ls ++ ms) ns := by
  intro pre m post hms id c source hm
  rw [List.append_assoc]
  exact (h pre m post hms id c source hm).prepend ls

/-- No command evaluates anything. -/
theorem of_none (hns : ∀ m ∈ ns, m.event.consultation? = none) : Informed ms ns := by
  rintro pre m post rfl id c source hm
  rw [hns m (List.mem_append_right _ List.mem_cons_self)] at hm
  cases hm

/-- A command begins to evaluate its source. -/
theorem consulting {v : Snapshot} {f : Calc.Forest} {c : Calc.Context} {source : String}
    (h : Standing id v.depth c.scope ms f) :
    Informed ms [⟨.consulting (H := Calc.host) id c source, v, f⟩] := by
  intro pre m post hms id' c' source' hm
  obtain ⟨rfl, hms⟩ | ⟨_, -, hms⟩ := List.cons_eq_append_iff.1 hms
  · obtain ⟨rfl, rfl⟩ := List.cons.inj hms
    cases hm
    rwa [List.append_nil]
  · exact absurd hms (by simp)

end Informed

/-! ## Sessions seen from outside -/

/-- As long as no program binds the names: whenever a command evaluates its source, they tell what
its session has seen when it bound them last, or what a session on the top level has seen since. -/
structure Informs (w w' : World Calc.host) : Prop where
  binds : Binds 0 w w'
  informed : 0 < Calc.Forest.size w.host → Sparing Convenience.all (w'.since w) →
    Informed [] (w'.since w)

namespace Informs

theorem trans (h₁ : Informs w w₁) (h₂ : Informs w₁ w₂) : Informs w w₂ where
  binds := h₁.binds.trans h₂.binds
  informed hpos hspare := by
    rw [World.since_trans h₂.binds.nests.follows h₁.binds.nests.follows] at hspare ⊢
    obtain ⟨hspare₁, hspare₂⟩ := sparing_append.1 hspare
    have hpos₁ := Nat.lt_of_lt_of_le hpos h₁.binds.grows
    refine (h₁.informed hpos hspare₁).append ?_
    rw [List.nil_append, ← List.append_nil (w₁.since w)]
    exact (h₂.informed hpos₁ hspare₂).prepend _

theorem of_none (h : Binds 0 w w') {ms : List (Moment Calc.host)}
    (hlog : w'.log.toList = w.log.toList ++ ms) (hms : ∀ m ∈ ms, m.event.consultation? = none) :
    Informs w w' := by
  refine ⟨h, fun _ _ => ?_⟩
  rw [World.since_eq hlog]
  exact .of_none hms

theorem of_log_eq (h : Binds 0 w w') (hlog : w'.log = w.log) : Informs w w' := by
  have hlog' : w'.log.toList = w.log.toList ++ [] := by rw [hlog, List.append_nil]
  exact of_none h hlog' fun _ hm => absurd hm List.not_mem_nil

theorem record {e : Event Calc.host} (h : Binds 0 w (w.record e)) (he : e.consultation? = none) :
    Informs w (w.record e) := by
  refine of_none h (w.log_record e) fun m hm => ?_
  rw [List.mem_singleton.1 hm]
  exact he

theorem quiet : Conduct.Quiet fun (w : World Calc.host) _ w' => Informs w w' where
  refl w := of_log_eq (Binds.quiet.refl w) rfl
  trans h₁ h₂ := h₁.trans h₂
  anyhow _ h := h
  record w e he := record (Binds.quiet.record w e he) (by cases e <;> first | rfl | cases he)
  sink w sink := of_log_eq (Binds.quiet.sink w sink) rfl
  inputs w inputs := of_log_eq (Binds.quiet.inputs w inputs) rfl

end Informs

/-- What a session that opens others sees of them: what the names of scope `i` tell is accounted
for, they bind the names only further inside, and what their commands find is as it should be. -/
structure Foreign (i : Calc.ScopeId) (w w' : World Calc.host) : Prop where
  accounted : Accounted Convenience.all i w w'
  deep : Deep 1 w w'
  informs : Informs w w'

namespace Foreign

theorem quiet : Conduct.Quiet fun (w : World Calc.host) _ w' => Foreign i w w' where
  refl w := ⟨Accounted.quiet.refl w, Deep.quiet.refl w, Informs.quiet.refl w⟩
  trans h₁ h₂ := ⟨h₁.accounted.trans h₂.accounted, h₁.deep.trans h₂.deep,
    h₁.informs.trans h₂.informs⟩
  anyhow _ h := h
  record w e he := ⟨Accounted.quiet.record w e he, Deep.quiet.record w e he,
    Informs.quiet.record w e he⟩
  sink w sink := ⟨Accounted.quiet.sink w sink, Deep.quiet.sink w sink, Informs.quiet.sink w sink⟩
  inputs w inputs := ⟨Accounted.quiet.inputs w inputs, Deep.quiet.inputs w inputs,
    Informs.quiet.inputs w inputs⟩

/-- Another name is bound. -/
theorem define {name : String} (hname : ∀ k ∈ Convenience.all, k.name ≠ name) (j : Calc.ScopeId)
    (x : Value) : Foreign i w { w with host := Calc.Forest.define w.host j name x } :=
  have haccounted := Accounted.define (.inr hname) x
  ⟨haccounted, .of_log_eq rfl rfl, .of_log_eq haccounted.binds rfl⟩

end Foreign

/-! ## What a session finds itself -/

/-- What the session `s` does in the context `ctx` while it is the innermost one: if the names tell
at first what it has seen when it bound them last, or what a session on the top level has seen
since, then they do so afterwards, and whenever a command evaluates its source. -/
structure Upholds (s : Session Calc.host) (ctx : Calc.host.Context) (w w' : World Calc.host) :
    Prop where
  binds : Binds 0 w w'
  upholds : Sparing Convenience.all (w'.since w) → ∀ ms, Standing s.id w.depth ctx.scope ms w.host →
    Standing s.id w.depth ctx.scope (ms ++ w'.since w) w'.host ∧ Informed ms (w'.since w)

namespace Upholds

variable {s : Session Calc.host} {ctx : Calc.host.Context}

theorem trans (h₁ : Upholds s ctx w w₁) (h₂ : Upholds s ctx w₁ w₂) : Upholds s ctx w w₂ where
  binds := h₁.binds.trans h₂.binds
  upholds hspare ms hms := by
    have hdepth : w₁.depth = w.depth := congrArg List.length h₁.binds.nests.stack
    rw [World.since_trans h₂.binds.nests.follows h₁.binds.nests.follows] at hspare ⊢
    obtain ⟨hspare₁, hspare₂⟩ := sparing_append.1 hspare
    obtain ⟨hms₁, hinformed₁⟩ := h₁.upholds hspare₁ ms hms
    rw [← hdepth] at hms₁
    obtain ⟨hms₂, hinformed₂⟩ := h₂.upholds hspare₂ _ hms₁
    rw [← List.append_assoc, ← hdepth]
    exact ⟨hms₂, hinformed₁.append hinformed₂⟩

/-- What other sessions do. -/
theorem of_foreign (h : Foreign ctx.scope w w') : Upholds s ctx w w' where
  binds := h.accounted.binds
  upholds hspare ms hms := by
    have hpos : 0 < Calc.Forest.size w.host := Nat.zero_lt_of_lt hms.lt_size
    have hinformed := (h.informs.informed hpos hspare).prepend ms
    rw [List.append_nil] at hinformed
    exact ⟨hms.append h.accounted h.deep hspare, hinformed⟩

/-- A program binds one of the names, so that nothing is said. -/
theorem of_not_sparing (h : Binds 0 w w') (hspare : ¬ Sparing Convenience.all (w'.since w)) :
    Upholds s ctx w w' :=
  ⟨h, fun hsparing => absurd hsparing hspare⟩

theorem quiet : Conduct.Quiet fun (w : World Calc.host) _ w' => Upholds s ctx w w' where
  refl w := of_foreign (Foreign.quiet.refl w)
  trans h₁ h₂ := h₁.trans h₂
  anyhow _ h := h
  record w e he := of_foreign (Foreign.quiet.record w e he)
  sink w sink := of_foreign (Foreign.quiet.sink w sink)
  inputs w inputs := of_foreign (Foreign.quiet.inputs w inputs)

/-- The session binds the names, to what is seen at the only moment that is recorded. -/
theorem of_shows {e : Event Calc.host} {v : Snapshot} {f : Calc.Forest} (h : Binds 0 w w')
    (hlog : w'.log.toList = w.log.toList ++ [⟨e, v, f⟩]) (hbinds : e.binds = true)
    (hactive : v.active = some s.id) (hdepth : v.depth = w.depth)
    (hshows : ctx.scope < Calc.Forest.size w.host →
      Calc.Forest.Shows Convenience.all ctx.scope v w'.host) : Upholds s ctx w w' where
  binds := h
  upholds _ ms hms := by
    rw [World.since_eq hlog]
    refine ⟨.here ms hbinds hactive hdepth (hshows hms.lt_size), .of_none fun m hm => ?_⟩
    rw [List.mem_singleton.1 hm]
    cases e <;> first | rfl | cases hbinds

/-- The names are bound right before a unit begins. -/
theorem announce (source : String) :
    Exec.Meets (Conduct.given (fun w _ w' => Upholds s ctx w w') (s.Houses 0 ctx))
      (s.announce ctx source) := fun w hw =>
  of_shows (Binds.announce ctx source w hw) ((s.bindConveniences ctx w).2.log_record _) rfl
    hw.holds.active rfl hw.shows

/-- The names are bound again when a unit had a value. -/
theorem conclude (outcome : Outcome) :
    Exec.Meets (Conduct.given (fun w _ w' => Upholds s ctx w w') (s.Houses 0 ctx))
      (s.conclude ctx outcome) := by
  intro w hw
  have hbinds := Binds.conclude (n := 0) (s := s) ctx outcome w
  cases outcome with
  | fault f =>
    exact of_foreign ⟨.of_host_eq hbinds rfl, .record nofun, .record hbinds rfl⟩
  | value x =>
    let w₁ : World Calc.host := World.record { w with last := x } (.valued s.id x)
    have hhouses : s.Houses 0 ctx w₁ := ⟨hw.holds.of_eq rfl rfl, hw.scope⟩
    exact of_shows hbinds (World.log_record { w with last := x } _) rfl hhouses.holds.active rfl
      hhouses.shows

theorem orders_given :
    Conduct.Orders (Conduct.given (fun w _ w' => Upholds s ctx w w') (s.Houses 0 ctx)) :=
  quiet.toOrders.given fun h hw => hw.of_binds h.binds

section Inside

variable {run : Session.Runner Calc.host}
  (hb : ∀ t, Exec.Meets (Conduct.given (fun w _ w' => Binds 0 w w') fun w => Calc.Sound 0 t w.host)
    (s.nestVia run t))
  (hn : ∀ t, (∀ c, t ≠ .context c) →
    Exec.Meets (fun w _ w' => Foreign ctx.scope w w') (s.nestVia run t))
include hn

theorem evaluateIn (rounds : Nat) {source : String}
    (hsource : ∀ k ∈ Convenience.all, ¬ Calc.Rebinds k.name source) :
    Exec.Meets (fun w _ w' => Upholds s ctx w w') (s.evaluateIn run rounds ctx source) := fun w =>
  of_foreign (Foreign.quiet.evaluateIn_meets (fun v => hn (.object v) nofun)
    (fun _ j _ x hname => .define hname j x) rounds ctx hsource w)

include hb

/-- A command evaluates its source, which may be a program that binds one of the names. -/
theorem consult (rounds : Nat) (source : String) :
    Exec.Meets (fun w _ w' => Upholds s ctx w w') (s.consult run rounds ctx source) := by
  refine Session.consult_meets hb of_not_sparing rounds ctx source fun hsource =>
    quiet.consult_meets (fun w => ?_) (evaluateIn hn rounds hsource)
  have hbinds : Binds 0 w (w.record (.consulting s.id ctx source)) := .record (fun _ => rfl) rfl
  refine ⟨hbinds, fun hspare ms hms => ⟨?_, ?_⟩⟩
  · exact hms.append (.of_host_eq hbinds rfl) (.record nofun) hspare
  · rw [World.since_eq (w.log_record _)]
    exact .consulting hms

/-- A unit is evaluated, which may be a program that binds one of the names. -/
theorem evaluate (rounds : Nat) (source : String) :
    Exec.Meets (Conduct.given (fun w _ w' => Upholds s ctx w w') (s.Houses 0 ctx))
      (s.evaluate run rounds ctx source) := by
  refine Session.evaluate_meets hb of_not_sparing rounds ctx source (fun _ hw => hw)
    fun hsource => ?_
  exact orders_given.evaluate_allowed (announce source) ((evaluateIn hn rounds hsource).given _)
    conclude

theorem step (htable : s.config.commands.Asks Command.Deed.Local) (rounds : Nat) :
    Exec.Meets (Conduct.given (fun w _ w' => Upholds s ctx w w') (s.Houses 0 ctx))
      (s.step run rounds ctx) := by
  have hread : Exec.Meets (fun w _ w' => Upholds s ctx w w') (s.readUnit run rounds ctx) := by
    refine quiet.readUnit_meets (fun c source hc => ?_) (fun t ht w => ?_)
      fun command hcommand call hcall => hcall ▸ htable command hcommand call
    · obtain rfl := hc.1 c source rfl
      exact consult hb hn rounds source
    · exact of_foreign (hn t (fun c hc => ht.2 c (congrArg _ hc)) w)
  refine orders_given.bind_meets (hread.given _) fun source => ?_
  exact orders_given.bind_meets (evaluate hb hn rounds source) fun outcome =>
    (quiet.print_meets s outcome).given _

end Inside

end Upholds

/-- What the session `s` does in the context `ctx` from its begin on, when it has just been put on
the stack, which the moment `b` tells. -/
structure Begins (s : Session Calc.host) (ctx : Calc.host.Context) (w w' : World Calc.host) :
    Prop where
  binds : s.Houses 0 ctx w → Binds 0 w w'
  informed : s.Houses 0 ctx w → 0 < Calc.Forest.size w.host →
    Sparing Convenience.all (w'.since w) → ∀ (ms : List (Moment Calc.host)) b,
      b.event.binds = true → b.view = w.view → Informed (ms ++ [b]) (w'.since w)

theorem Begins.body {run : Session.Runner Calc.host} {s : Session Calc.host}
    {ctx : Calc.host.Context}
    (hb : ∀ t, Exec.Meets (Conduct.given (fun w _ w' => Binds 0 w w') fun w =>
      Calc.Sound 0 t w.host) (s.nestVia run t))
    (hn : ∀ t, (∀ c, t ≠ .context c) →
      Exec.Meets (fun w _ w' => Foreign ctx.scope w w') (s.nestVia run t))
    (htable : s.config.commands.Asks Command.Deed.Local) (rounds : Nat) (w : World Calc.host) :
    Begins s ctx w (s.body run rounds ctx w).2 := by
  have hbinds := Binds.body hb
    (Calc.reachesTo_of_stays (htable.mono fun _ _ hd => hd.stays) 0) rounds ctx w
  refine ⟨hbinds, fun hw hpos hspare ms b hb' hview => ?_⟩
  have hexists : ctx.scope < Calc.Forest.size w.host := hw.scope.lt_size hpos
  -- The steps begin in a world with the same log and the same view, where the names are bound.
  have hreps := Upholds.orders_given.reps_meets (fun w _ => Upholds.quiet.spent w)
    (Upholds.step hb hn htable rounds) rounds (s.bindConveniences ctx w).2
    (hw.of_binds (Binds.bindConveniences s ctx w))
  have hstanding : Standing s.id w.depth ctx.scope (ms ++ [b]) (s.bindConveniences ctx w).2.host :=
    .here ms hb' (hview ▸ hw.holds.active) (congrArg Snapshot.depth hview)
      (hview ▸ hw.shows hexists)
  exact (hreps.upholds hspare _ hstanding).2

namespace Informs

theorem opens (c : Config Calc.host) :
    Conduct.Opens (fun (w : World Calc.host) _ w' => Informs w w') c (Calc.Sound 0)
      fun s ctx w _ w' => Begins s ctx w w' where
  toOrders := quiet.toOrders
  spent := quiet.spent
  newId w := of_log_eq ((Binds.opens c).newId w) rfl
  resolve t w ht := of_log_eq ((Binds.opens c).resolve t w ht) rfl
  fire s name receiver _ := quiet.writes.fire_meets s name [receiver] fun w =>
    quiet.record w _ rfl
  frame {s t w₀ w w₂ e e'} hc ht hhost hw hin hleft := by
    have hhouses : s.Houses 0 (Calc.host.resolve t w₀.host).1
        (s.begun (Calc.host.receiver (Calc.host.resolve t w₀.host).1) w) :=
      .begun s ht hw.binds
    refine ⟨(Binds.opens c).frame hc ht hhost hw.binds hin.binds hleft, fun hpos hspare => ?_⟩
    have hfollows := (hin.binds hhouses).nests.follows
    rw [Session.since_leave hfollows (w₂.leave_follows _ _), World.since_eq (s.begun_log _ w),
      World.since_eq (w₂.leave_log _ _)] at hspare ⊢
    obtain ⟨-, hspare⟩ := sparing_append.1 hspare
    -- That the session is put on the stack tells what it sees when it begins.
    have hinside := hin.informed hhouses hpos (sparing_append.1 hspare).1
      [⟨.started s.id w.depth (Calc.host.receiver (Calc.host.resolve t w₀.host).1), w.view,
        w.host⟩]
      ⟨.pushed s.id w.depth,
        (s.begun (Calc.host.receiver (Calc.host.resolve t w₀.host).1) w).view, w.host⟩ rfl rfl
    refine .append (.of_none ?_) (.append hinside (.of_none ?_))
    · simp [Event.consultation?]
    · simp [Event.consultation?]
  aborted {w w' i} id h := h.trans ((quiet.record w' (.aborted id i) rfl))
  ended w _ _ := quiet.record w _ rfl
  propagated w _ _ _ := quiet.record w _ rfl

/-- In every run, whenever a command evaluates its source, the names tell what its session has seen
when it bound them last, or what a session on the top level has seen since. -/
theorem run (rounds : Nat) (s : Session Calc.host)
    (htable : s.config.commands.Asks Command.Deed.Local) (t : Target Calc.host.Context) :
    Exec.Meets (Conduct.given (fun w _ w' => Informs w w') fun w => Calc.Sound 0 t w.host)
      (s.run rounds t) := by
  refine (opens s.config).run_meets (fun rounds s' ctx hs hn w => ?_) rounds s rfl t
  have htable' := hs ▸ htable
  have hstays := htable'.mono fun _ _ hd => hd.stays
  refine Begins.body (Binds.nest rounds s' (Calc.reachesTo_of_stays hstays 0))
    (fun t ht w => ?_) htable' rounds w
  -- A session that is opened elsewhere is in a scope of its own or on the top level.
  have hknown : Calc.Sound 0 t w.host := fun c hc => absurd hc (ht c)
  exact ⟨Accounted.nest Convenience.all ctx.scope rounds s' hstays t w
    ⟨hknown, fun c hc => absurd hc (ht c)⟩, Deep.nest rounds s' t w, hn t w hknown⟩

end Informs

/-! ## The names when a command evaluates its source -/

/-- In every run of a session on a target in which no program binds `_session_` or `_` and commands
keep to the context that they are called in, whatever sessions are opened in it: when a command
evaluates its source, its session has bound the names at some moment `b` and not again since. If its
scope is not the first one, or if no session on the top level has bound the names since `b` either,
then `_session_` means the session of the command, and `_` means what was the last result at `b`. If
moreover no unit had a value since `b`, this is the last result now. A session that has been opened
and closed since `b` may have changed the last result, though, and the names are not bound again
before the source of a command. -/
theorem Session.names_at_commands (rounds : Nat) (s : Session Calc.host)
    (htable : s.config.commands.Asks Command.Deed.Local) (t : Target Calc.host.Context)
    (w : World Calc.host) (ht : Calc.Known t w.host) (hhost : 0 < Calc.Forest.size w.host)
    (hspare : Sparing Convenience.all ((run rounds s t w).2.since w))
    {pre post : List (Moment Calc.host)} {m : Moment Calc.host} {id : SessionId}
    {c : Calc.Context} {source : String} (hms : (run rounds s t w).2.since w = pre ++ m :: post)
    (hm : m.event = .consulting id c source) :
    ∃ b after, LastBinding id m.view.depth pre b after ∧
      ((c.scope ≠ 0 ∨ ∀ n ∈ after, n.event.binds = true → n.view.receiver? ≠ some .main) →
        m.host.lookup c.scope "_session_" = some (.session id) ∧
        m.host.lookup c.scope "_" = some b.view.last) ∧
      ((∀ n ∈ after, n.event.value? = none) → b.view.last = m.view.last) := by
  have hconsult : m.event.consultation? = some (id, c, source) := by
    rw [hm]
    rfl
  obtain ⟨b, after, hlast, v, hmem, hv⟩ :=
    (Informs.run rounds s htable t w (ht.sound 0)).informed hhost hspare pre m post hms id c source
      hconsult
  refine ⟨b, after, hlast, fun hapart => ?_, fun hnone => ?_⟩
  · rw [topViews_eq_nil hapart, List.mem_singleton] at hmem
    subst hmem
    have hsession := Calc.Forest.lookup_of_get? (hv .session List.mem_cons_self)
    rw [Convenience.value, hlast.active] at hsession
    exact ⟨hsession,
      Calc.Forest.lookup_of_get? (hv .last (List.mem_cons_of_mem _ List.mem_cons_self))⟩
  · obtain ⟨before, rfl⟩ := hlast.split
    have hrecalls : Recalls w (run rounds s t w).2 := Recalls.run rounds s t w
    have hb := hrecalls.moments (hms.trans (List.append_assoc ..))
    have hvalue : m.event.value? = none := by
      rw [hm]
      rfl
    calc b.view.last
        = lastValue w.last (before ++ [b]) := hb
      _ = lastValue w.last (before ++ [b] ++ after) := by
        rw [lastValue_append _ _ after, lastValue_of_none _ hnone]
      _ = lastValue w.last (before ++ b :: after ++ [m]) := by
        rw [lastValue_concat _ _ hvalue, List.append_assoc, List.singleton_append]
      _ = m.view.last := (hrecalls.moments hms).symm

/-- A session on the top level opens one on five, where a unit has a value and then a command
evaluates a source. -/
theorem Session.names_at_commands_inside :
    let w : World Calc.host :=
      { host := .single, nextId := 2,
        inputs := [.scripted { queue :=
          [.ok (.line "3"), .ok (.line "cd 5"), .ok (.line "self + 3"), .ok (.line "cd _ + 1"),
            .ok (.line "exit"), .ok (.line "exit"), .ok (.line "_")] }] }
    let s : Session Calc.host := ⟨1, .standard 0⟩
    let five : Value := .int ⟨5, by decide, by decide⟩
    s.config.commands.Asks Command.Deed.Local ∧ Calc.Known .topLevel w.host ∧
      0 < Calc.Forest.size w.host ∧ Sparing Convenience.all ((run 12 s .topLevel w).2.since w) ∧
      ∃ pre m post b after, (run 12 s .topLevel w).2.since w = pre ++ m :: post ∧
        m.event = .consulting 2 (⟨five, 1⟩ : Calc.Context) "_ + 1" ∧
        LastBinding 2 m.view.depth pre b after ∧
        m.host.lookup 1 "_session_" = some (.session 2) ∧
        m.host.lookup 1 "_" = some b.view.last := by
  intro w s five
  have hspare : Sparing Convenience.all ((run 12 s .topLevel w).2.since w) := by decide +kernel
  have hplace : (((run 12 s .topLevel w).2.since w)[39]?.map fun m => m.event.consultation?) =
      some (some (2, (⟨five, 1⟩ : Calc.Context), "_ + 1")) := by
    decide +kernel
  obtain ⟨pre, m, post, hms, hm⟩ := exists_split hplace
  have hev := Event.eq_of_consultation? hm
  have htable : s.config.commands.Asks Command.Deed.Local := Command.standard_local
  have htarget := Calc.known_topLevel w.host
  obtain ⟨b, after, hlast, hnames, -⟩ :=
    names_at_commands 12 s htable .topLevel w htarget (by decide) hspare hms hev
  obtain ⟨hsession, hvalue⟩ := hnames (.inl (by decide))
  exact ⟨htable, htarget, by decide, hspare, pre, m, post, b, after, hms, hev, hlast, hsession,
    hvalue⟩

/-- Without such conditions `_` need not mean the last result. A session on the top level opens one
on five, where a unit has a value, and this is the last result when that session is closed. Then a
command of the first session evaluates a source, and no program has bound the name, but there `_`
still means nil. -/
theorem Session.last_result_unknown_to_command :
    let w : World Calc.host :=
      { host := .single, nextId := 2,
        inputs := [.scripted { queue :=
          [.ok (.line "cd 5"), .ok (.line "self"), .ok (.line "exit"), .ok (.line "cd _"),
            .ok (.line "self")] }] }
    let s : Session Calc.host := ⟨1, .standard 0⟩
    Sparing Convenience.all ((run 8 s .topLevel w).2.since w) ∧
      ∃ pre m post, (run 8 s .topLevel w).2.since w = pre ++ m :: post ∧
        m.event = .consulting 1 Calc.topContext "_" ∧
        m.view.last = .int ⟨5, by decide, by decide⟩ ∧ m.host.lookup 0 "_" = some .nil := by
  intro w s
  have hplace : (((run 8 s .topLevel w).2.since w)[41]?.map fun m =>
      (m.event.consultation?, m.view.last, Calc.Forest.lookup m.host 0 "_")) =
      some (some (1, Calc.topContext, "_"), .int ⟨5, by decide, by decide⟩, some .nil) := by
    decide +kernel
  obtain ⟨pre, m, post, hms, hm⟩ := exists_split hplace
  obtain ⟨hconsult, hview⟩ := Prod.mk.inj hm
  obtain ⟨hlast, hname⟩ := Prod.mk.inj hview
  exact ⟨by decide +kernel, pre, m, post, hms, Event.eq_of_consultation? hconsult, hlast, hname⟩

end CalcShell
