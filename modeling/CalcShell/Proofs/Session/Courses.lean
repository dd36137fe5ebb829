import CalcShell.Command.Table
import CalcShell.Session.World

/-!
# What evaluations and plans may come to

An evaluation is a `Course` and what a command does is a `Plan`: trees that say what is asked for
and how it goes on with what comes of that. What such a tree may come to is read off it, whatever
comes of what it asks for: the interrupts that it raises, the sessions that it opens, the deeds that
it asks for, and whether it passes interrupts on.
-/

namespace CalcShell

namespace Course

variable {C σ α β : Type}

/-- Every interrupt that an evaluation may come to satisfies `P`, whatever becomes of the sessions
that it opens. -/
def Raises (P : Interrupt → Prop) : Course C σ α → Prop
  | .done _ _ => True
  | .interrupt i _ => P i
  | .spent _ => True
  | .nest _ _ k => ∀ v s, (k v s).Raises P
  | .attempt _ _ k => ∀ r s, (k r s).Raises P

theorem raises_of_forall {P : Interrupt → Prop} (hP : ∀ i, P i) (course : Course C σ α) :
    course.Raises P := by
  induction course with
  | done a s => trivial
  | interrupt i s => exact hP i
  | spent s => trivial
  | nest t s k ih => exact ih
  | attempt t s k ih => exact ih

/-- Every stop that an evaluation may come to satisfies `P`, whatever becomes of the sessions that
it opens. -/
def Stops (P : Stop → Prop) : Course C σ α → Prop
  | .done _ _ => True
  | .interrupt i _ => P (.interrupt i)
  | .spent _ => P .spent
  | .nest _ _ k => ∀ v s, (k v s).Stops P
  | .attempt _ _ k => ∀ r s, (k r s).Stops P

theorem stops_of_forall {P : Stop → Prop} (hP : ∀ stop, P stop) (course : Course C σ α) :
    course.Stops P := by
  induction course with
  | done a s => trivial
  | interrupt i s => exact hP _
  | spent s => exact hP _
  | nest t s k ih => exact ih
  | attempt t s k ih => exact ih

theorem Stops.mono {P Q : Stop → Prop} (hPQ : ∀ stop, P stop → Q stop) {course : Course C σ α}
    (h : course.Stops P) : course.Stops Q := by
  induction course with
  | done a s => trivial
  | interrupt i s => exact hPQ _ h
  | spent s => exact hPQ _ h
  | nest t s k ih => exact fun v s => ih v s (h v s)
  | attempt t s k ih => exact fun r s => ih r s (h r s)

/-- One evaluation after the other stops as the two do. -/
theorem Stops.bind {P : Stop → Prop} {course : Course C σ α} {f : α → σ → Course C σ β}
    (h : course.Stops P) (hf : ∀ a s, (f a s).Stops P) : (course.bind f).Stops P := by
  induction course with
  | done a s => exact hf a s
  | interrupt i s => exact h
  | spent s => exact h
  | nest t s k ih => exact fun v s => ih v s (h v s)
  | attempt t s k ih => exact fun r s => ih r s (h r s)

/-- The interrupts that an evaluation raises are among its stops. -/
theorem Stops.raises {P : Stop → Prop} {course : Course C σ α} (h : course.Stops P) :
    course.Raises fun i => P (.interrupt i) := by
  induction course with
  | done a s => trivial
  | interrupt i s => exact h
  | spent s => trivial
  | nest t s k ih => exact fun v s => ih v s (h v s)
  | attempt t s k ih => exact fun r s => ih r s (h r s)

/-- An evaluation stops by the interrupts that it raises or by the end of the allowed rounds. -/
theorem Raises.stops {P : Interrupt → Prop} {Q : Stop → Prop} {course : Course C σ α}
    (h : course.Raises P) (hPQ : ∀ i, P i → Q (.interrupt i)) (hspent : Q .spent) :
    course.Stops Q := by
  induction course with
  | done a s => trivial
  | interrupt i s => exact hPQ i h
  | spent s => exact hspent
  | nest t s k ih => exact fun v s => ih v s (h v s)
  | attempt t s k ih => exact fun r s => ih r s (h r s)

/-- An evaluation passes every interrupt on that ends a session which it has opened. -/
def PassesOn : Course C σ α → Prop
  | .done _ _ | .interrupt _ _ | .spent _ => True
  | .nest _ _ k => ∀ v s, (k v s).PassesOn
  | .attempt _ _ _ => False

theorem PassesOn.bind {course : Course C σ α} {f : α → σ → Course C σ β} (h : course.PassesOn)
    (hf : ∀ a s, (f a s).PassesOn) : (course.bind f).PassesOn := by
  induction course with
  | done a s => exact hf a s
  | interrupt i s => trivial
  | spent s => trivial
  | nest t s k ih => exact fun v u => ih v u (h v u)
  | attempt t s k ih => exact h

/-- Every session that an evaluation opens is on a target that satisfies `P`, whatever becomes of
the sessions. -/
def Opens (P : Target C → Prop) : Course C σ α → Prop
  | .done _ _ | .interrupt _ _ | .spent _ => True
  | .nest t _ k => P t ∧ ∀ v s, (k v s).Opens P
  | .attempt t _ k => P t ∧ ∀ r s, (k r s).Opens P

theorem Opens.bind {P : Target C → Prop} {course : Course C σ α} {f : α → σ → Course C σ β}
    (h : course.Opens P) (hf : ∀ a s, (f a s).Opens P) : (course.bind f).Opens P := by
  induction course with
  | done a s => exact hf a s
  | interrupt i s => trivial
  | spent s => trivial
  | nest t s k ih => exact ⟨h.1, fun v u => ih v u (h.2 v u)⟩
  | attempt t s k ih => exact ⟨h.1, fun r u => ih r u (h.2 r u)⟩

/-- All states that an evaluation comes to stand in the relation to the state `s`, as long as the
sessions that it opens leave such states. -/
def Keeps (rel : σ → σ → Prop) (s : σ) : Course C σ α → Prop
  | .done _ t => rel s t
  | .interrupt _ t => rel s t
  | .spent t => rel s t
  | .nest _ t k => rel s t ∧ ∀ v u, rel t u → (k v u).Keeps rel u
  | .attempt _ t k => rel s t ∧ ∀ r u, rel t u → (k r u).Keeps rel u

namespace Keeps

variable {rel : σ → σ → Prop} (htrans : ∀ s t u, rel s t → rel t u → rel s u)
include htrans

/-- The states also stand in the relation to an earlier one. -/
theorem earlier {s t : σ} {course : Course C σ α} (h : course.Keeps rel t) (hst : rel s t) :
    course.Keeps rel s := by
  cases course with
  | done a u => exact htrans _ _ _ hst h
  | interrupt i u => exact htrans _ _ _ hst h
  | spent u => exact htrans _ _ _ hst h
  | nest v u k => exact ⟨htrans _ _ _ hst h.1, h.2⟩
  | attempt v u k => exact ⟨htrans _ _ _ hst h.1, h.2⟩

/-- One evaluation after the other. -/
theorem bind {s : σ} {course : Course C σ α} {f : α → σ → Course C σ β} (h : course.Keeps rel s)
    (hf : ∀ a t, (f a t).Keeps rel t) : (course.bind f).Keeps rel s := by
  induction course generalizing s with
  | done a t => exact (hf a t).earlier htrans h
  | interrupt i t => exact h
  | spent t => exact h
  | nest v t k ih => exact ⟨h.1, fun u t' hu => ih u t' (h.2 u t' hu)⟩
  | attempt v t k ih => exact ⟨h.1, fun r t' hu => ih r t' (h.2 r t' hu)⟩

end Keeps

end Course

/-- All evaluations of the host pass on the interrupts that end sessions. -/
def Host.PassesOn (H : Host) : Prop :=
  ∀ rounds c source state, (H.evaluate rounds c source state).PassesOn

namespace Command

variable {H : Host}

namespace Plan

variable {P : Deed H → Prop} {Q : Interrupt → Prop}

/-- Every deed that a plan asks for satisfies `P`, and every interrupt that it comes to by itself
satisfies `Q`, whatever comes of the deeds. -/
def Keeps (P : Deed H → Prop) (Q : Interrupt → Prop) : Plan H → Prop
  | .done => True
  | .interrupt i => Q i
  | .edit _ p => p.Keeps P Q
  | .look k => ∀ sight, (k sight).Keeps P Q
  | .act d k => P d ∧ ∀ a, (k a).Keeps P Q
  | .attempt d k => P d ∧ ∀ r, (k r).Keeps P Q

theorem keeps_of_forall (hP : ∀ d, P d) (hQ : ∀ i, Q i) (p : Plan H) : p.Keeps P Q := by
  induction p with
  | done => trivial
  | interrupt i => exact hQ i
  | edit f p ih => exact ih
  | look k ih => exact ih
  | act d k ih => exact ⟨hP d, ih⟩
  | attempt d k ih => exact ⟨hP d, ih⟩

theorem Keeps.mono {P' : Deed H → Prop} {Q' : Interrupt → Prop} (hP : ∀ d, P d → P' d)
    (hQ : ∀ i, Q i → Q' i) {p : Plan H} (h : p.Keeps P Q) : p.Keeps P' Q' := by
  induction p with
  | done => trivial
  | interrupt i => exact hQ i h
  | edit f p ih => exact ih h
  | look k ih => exact fun sight => ih sight (h sight)
  | act d k ih => exact ⟨hP d h.1, fun a => ih a (h.2 a)⟩
  | attempt d k ih => exact ⟨hP d h.1, fun r => ih r (h.2 r)⟩

/-- A plan passes every interrupt on that ends a deed of it. -/
def PassesOn : Plan H → Prop
  | .done | .interrupt _ => True
  | .edit _ p => p.PassesOn
  | .look k => ∀ sight, (k sight).PassesOn
  | .act _ k => ∀ a, (k a).PassesOn
  | .attempt _ _ => False

end Plan

/-- A deed asked for in the context `ctx` opens no session in another context that there is already.
-/
def Deed.Stays (ctx : H.Context) (d : Deed H) : Prop := ∀ c, d = .nest (.context c) → c = ctx

/-- A deed asked for in the context `ctx` evaluates no source in another context, and opens no
session in a context that there is already. -/
def Deed.Local (ctx : H.Context) (d : Deed H) : Prop :=
  (∀ c source, d = .evaluate c source → c = ctx) ∧ ∀ c, d ≠ .nest (.context c)

theorem Deed.Local.stays {ctx : H.Context} {d : Deed H} (h : d.Local ctx) : d.Stays ctx :=
  fun c hd => absurd hd (h.2 c)

namespace Table

/-- All handlers of a table pass on the interrupts that end what they ask for. -/
def PassesOn (t : Table H) : Prop := ∀ command ∈ t, ∀ call, (command.handler call).PassesOn

/-- Whatever a handler of the table asks for in the context that it is called in satisfies `P`. -/
def Asks (t : Table H) (P : H.Context → Deed H → Prop) : Prop :=
  ∀ command ∈ t, ∀ call : Call H,
    (command.handler call).Keeps (P call.context) fun _ => True

theorem Asks.mono {t : Table H} {P Q : H.Context → Deed H → Prop} (h : t.Asks P)
    (hPQ : ∀ ctx d, P ctx d → Q ctx d) : t.Asks Q := fun command hcommand call =>
  (h command hcommand call).mono (hPQ call.context) fun _ _ => trivial

/-- A command that is found stands in the table. -/
theorem mem_of_find? {t : Table H} {line : String} {c : Command H}
    {captures : List (Option String)} (h : t.find? line = some (c, captures)) : c ∈ t := by
  obtain ⟨c', hc', hmap⟩ := List.exists_of_findSome?_eq_some h
  obtain ⟨_, -, heq⟩ := Option.map_eq_some_iff.1 hmap
  rwa [← (Prod.mk.inj heq).1]

end Table

end Command

end CalcShell
