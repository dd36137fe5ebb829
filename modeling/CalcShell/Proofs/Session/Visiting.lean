import CalcShell.Proofs.Calc.Parts
import CalcShell.Proofs.Session.Evaluating

/-!
# The parts of a program that are evaluated

A program is visited part by part: evaluating a part begins by evaluating another one
(`Calc.First`), and where that has given a value it goes on with a next one (`Calc.Then`).
`Calc.Visits` is that evaluating a program in a world comes to evaluating a part of it in another
one, after whatever sessions were opened in between. That the parts visited are really evaluated is
`Calc.Visits.hitch`: where a part gives no value, the program does not either. So a call of `exit`
that is visited ends the program (`Session.evaluateIn_exits`).
-/

namespace CalcShell

/-- What comes behind a course changes nothing if it only makes another result of its result. -/
theorem Exec.follow_bind_done {H : Host} {α β : Type} (nest : Target H.Context → Exec H Value)
    (f : α → β) (course : Course H.Context H.State α) (w : World H) :
    ending (follow nest (course.bind fun a s => .done (f a) s) w).1 =
        ending (follow nest course w).1 ∧
      (follow nest (course.bind fun a s => .done (f a) s) w).2 = (follow nest course w).2 := by
  rw [follow_bind]
  generalize follow nest course w = r
  obtain ⟨_ | _, w'⟩ := r
  · exact ⟨rfl, rfl⟩
  · exact ⟨rfl, rfl⟩

namespace Calc

variable {rounds : Nat} {c : Context} {source : String}

theorem evaluate_of_error {e : SourceError} (h : parseProgram source = .error e) (f : Forest) :
    evaluate rounds c source f = .done (.fault (Failure.source e.render).fault) f := by
  rw [evaluate, h]

theorem evaluate_of_ok {p : Program} (h : parseProgram source = .ok p) (f : Forest) :
    evaluate rounds c source f =
      (Eval.stmts rounds c .nil p f).bind fun r f => .done (outcomeOf r) f := by
  rw [evaluate, h]
  rfl

end Calc

namespace Session

variable {run : Runner Calc.host} {rounds : Nat} {s : Session Calc.host} {c : Calc.host.Context}
  {source : String}

/-- Nothing happens when a source is no program. -/
theorem evaluateIn_of_error {e : Calc.SourceError} (h : Calc.parseProgram source = .error e)
    (w : World Calc.host) : (s.evaluateIn run rounds c source w).2 = w :=
  congrArg (fun course => (Exec.follow (H := Calc.host) _ course w).2)
    (Calc.evaluate_of_error h w.host)

/-- A source that is a program does what the program does, and stops where the program stops. -/
theorem evaluateIn_of_ok {p : Calc.Program} (h : Calc.parseProgram source = .ok p)
    (w : World Calc.host) :
    ending (s.evaluateIn run rounds c source w).1 =
        ending (Exec.follow (H := Calc.host) (s.nestVia run)
          (Calc.Eval.stmts rounds c .nil p w.host) w).1 ∧
      (s.evaluateIn run rounds c source w).2 =
        (Exec.follow (H := Calc.host) (s.nestVia run)
          (Calc.Eval.stmts rounds c .nil p w.host) w).2 := by
  have hcourse : s.evaluateIn run rounds c source w = Exec.follow (H := Calc.host) (s.nestVia run)
      ((Calc.Eval.stmts rounds c .nil p w.host).bind fun r f => .done (Calc.outcomeOf r) f) w :=
    congrArg (fun course => Exec.follow (H := Calc.host) _ course w) (Calc.evaluate_of_ok h w.host)
  rw [hcourse]
  exact Exec.follow_bind_done _ Calc.outcomeOf _ w

end Session

/-! ## What evaluating a program comes to -/

/-- How sessions are opened in an evaluation of the calculator. -/
abbrev Calc.Nest := Target Calc.Context → Exec Calc.host Value

/-- Evaluating the part `n` in the world `w` comes to evaluating the part `n'` in the world `w'`,
where `nest` runs the sessions that are opened. -/
inductive Calc.Visits (nest : Calc.Nest) (rounds : Nat) (c : Calc.Context)
    (n' : Calc.Node) (w' : World Calc.host) : Calc.Node → World Calc.host → Prop where
  | here : Visits nest rounds c n' w' n' w'
  | first {n n₁ w} : Calc.First rounds n n₁ → Visits nest rounds c n' w' n₁ w →
    Visits nest rounds c n' w' n w
  | next {n n₁ n₂ w w₁} {a : n₁.Result} : Calc.Then n n₁ a n₂ →
    Exec.follow (H := Calc.host) nest (n₁.eval rounds c w.host) w = (.ok (.ok a), w₁) →
    Visits nest rounds c n' w' n₂ w₁ → Visits nest rounds c n' w' n w

/-! ## What is visited is evaluated -/

/-- What keeps an evaluation from giving a value. -/
def Exec.hitch {α : Type} : Except Stop (Except Fault α) → Option (Stop ⊕ Fault)
  | .error stop => some (.inl stop)
  | .ok (.error fault) => some (.inr fault)
  | .ok (.ok _) => none

namespace Calc

variable {nest : Nest} {rounds : Nat} {c : Context} {n n' : Node}
  {w w' w₁ : World Calc.host} {x : Stop ⊕ Fault} {α β : Type} {m : Eval α} {k : α → Eval β} {a : α}

theorem follow_bind_of_ok
    (h : Exec.follow (H := Calc.host) nest (m w.host) w = (.ok (.ok a), w₁)) :
    Exec.follow (H := Calc.host) nest ((m >>= k) w.host) w =
      Exec.follow (H := Calc.host) nest (k a w₁.host) w₁ := by
  have hbind : Exec.follow (H := Calc.host) nest ((m >>= k) w.host) w = _ :=
    Exec.follow_bind (H := Calc.host) nest (m w.host) _ w
  rw [hbind, h]

theorem follow_bind_of_hitch
    (h : Exec.hitch (Exec.follow (H := Calc.host) nest (m w.host) w).1 = some x) :
    Exec.hitch (Exec.follow (H := Calc.host) nest ((m >>= k) w.host) w).1 = some x ∧
      (Exec.follow (H := Calc.host) nest ((m >>= k) w.host) w).2 =
        (Exec.follow (H := Calc.host) nest (m w.host) w).2 := by
  have hbind : Exec.follow (H := Calc.host) nest ((m >>= k) w.host) w = _ :=
    Exec.follow_bind (H := Calc.host) nest (m w.host) _ w
  rw [hbind]
  generalize Exec.follow (H := Calc.host) nest (m w.host) w = r at h ⊢
  obtain ⟨stop | fault | a, w₁⟩ := r
  · exact ⟨h, rfl⟩
  · exact ⟨h, rfl⟩
  · cases h

/-- What evaluating a program comes to is really evaluated: if it gives no value, then for this
reason the program does not either, and it ends where that has ended. -/
theorem Visits.hitch (h : Visits nest rounds c n' w' n w)
    (hx : Exec.hitch (Exec.follow (H := Calc.host) nest (n'.eval rounds c w'.host) w').1 = some x) :
    Exec.hitch (Exec.follow (H := Calc.host) nest (n.eval rounds c w.host) w).1 = some x ∧
      (Exec.follow (H := Calc.host) nest (n.eval rounds c w.host) w).2 =
        (Exec.follow (H := Calc.host) nest (n'.eval rounds c w'.host) w').2 := by
  induction h with
  | here => exact ⟨hx, rfl⟩
  | first hfirst _ ih =>
    obtain ⟨k, hk⟩ := hfirst.eval_eq c
    obtain ⟨hhitch, hworld⟩ := follow_bind_of_hitch (k := k) ih.1
    rw [hk]
    exact ⟨hhitch, hworld.trans ih.2⟩
  | next hthen hfollow _ ih =>
    obtain ⟨k, l, hk, hl⟩ := hthen.eval_eq rounds c
    obtain ⟨hhitch, hworld⟩ := follow_bind_of_hitch (k := l) ih.1
    rw [hk, follow_bind_of_ok hfollow, hl]
    exact ⟨hhitch, hworld.trans ih.2⟩

section Follows

variable (hn : ∀ t, Exec.Meets (fun (w : World Calc.host) _ w' => w'.Follows w) (nest t))
include hn

/-- Following an evaluation goes on with the log. -/
theorem follow_follows (course : Course Context Forest α) (w : World Calc.host) :
    (Exec.follow (H := Calc.host) nest course w).2.Follows w := by
  have horders : Conduct.Orders fun (w : World Calc.host) _ w' => w'.Follows w :=
    ⟨World.Follows.refl, fun h₁ h₂ => h₂.trans h₁⟩
  refine horders.follow_all_meets (fun _ _ => .of_log_eq rfl) hn (fun _ _ _ h => h)
    (fun stop v => ?_) course w
  cases stop with
  | interrupt i => exact v.record_follows (.raised i)
  | spent => exact .refl v

/-- One evaluation after the other goes on where the first one has led. -/
theorem follow_bind_follows (m : Eval α) (k : α → Eval β) (w : World Calc.host) :
    (Exec.follow (H := Calc.host) nest ((m >>= k) w.host) w).2.Follows
      (Exec.follow (H := Calc.host) nest (m w.host) w).2 := by
  have hbind : Exec.follow (H := Calc.host) nest ((m >>= k) w.host) w = _ :=
    Exec.follow_bind (H := Calc.host) nest (m w.host) _ w
  rw [hbind]
  generalize Exec.follow (H := Calc.host) nest (m w.host) w = r
  obtain ⟨stop | fault | a, w₁⟩ := r
  · exact .refl w₁
  · exact .refl w₁
  · exact follow_follows hn (k a w₁.host) w₁

/-- Where evaluating a program comes to is on its way. -/
theorem Visits.follows (h : Visits nest rounds c n' w' n w) :
    (Exec.follow (H := Calc.host) nest (n.eval rounds c w.host) w).2.Follows w' := by
  induction h with
  | here => exact follow_follows hn _ w'
  | @first n n₁ w hfirst _ ih =>
    obtain ⟨k, hk⟩ := hfirst.eval_eq c
    rw [hk]
    exact (follow_bind_follows hn _ k w).trans ih
  | @next n n₁ n₂ w w₁ a hthen hfollow _ ih =>
    obtain ⟨k, l, hk, hl⟩ := hthen.eval_eq rounds c
    rw [hk, follow_bind_of_ok hfollow, hl]
    exact (follow_bind_follows hn _ l w₁).trans ih

end Follows

/-- The arguments of a call of `exit` name a status: zero if there are none, and a number of 32 bits
names itself. -/
inductive Names : List Value → ℤ → Prop
  | zero : Names [] 0
  | number {n : Number} (hlow : -2147483648 ≤ n.toInt) (hhigh : n.toInt ≤ 2147483647) :
    Names [.int n] n.toInt

theorem Names.apply {values : List Value} {status : ℤ} (h : Names values status) :
    applyFunction "exit" values = .ok (.exit status) := by
  cases h with
  | zero => rfl
  | @number n hlow hhigh =>
    have hrange : -maxStatus - 1 ≤ n.toInt ∧ n.toInt ≤ maxStatus := by
      unfold maxStatus
      omega
    rw [applyFunction, exitStatus, if_pos hrange]
    rfl

end Calc

end CalcShell
