import CalcShell.Outcome
import CalcShell.Session.Target

/-!
# Courses of evaluation

Evaluating a unit changes the state of its host and may open sessions, which in turn change that
state and give values to go on with. A `Course` is all that as data: it ends, or it waits for a
session to end. An interrupt from the session it waits for passes by it, unless it asks to be told
how the session ended.
-/

namespace CalcShell

/-- How an evaluation goes from a given state, where `C` are the contexts that sessions may be held
in (`ExecutionContext.evaluate`). -/
inductive Course (C σ α : Type) where
  /-- It ends with a result. -/
  | done (result : α) (state : σ)
  /-- It ends by an interrupt. -/
  | interrupt (i : Interrupt) (state : σ)
  /-- It took more rounds than it was allowed. -/
  | spent (state : σ)
  /-- It waits for a session on a target, and goes on with what the session gives and the state that
  it leaves. -/
  | nest (target : Target C) (state : σ) (resume : Value → σ → Course C σ α)
  /-- It waits for a session on a target, and goes on however the session ended. -/
  | attempt (target : Target C) (state : σ) (resume : Except Interrupt Value → σ → Course C σ α)

namespace Course

variable {C D σ τ α β : Type}

/-- One evaluation after the other. -/
def bind : Course C σ α → (α → σ → Course C σ β) → Course C σ β
  | .done a s, f => f a s
  | .interrupt i s, _ => .interrupt i s
  | .spent s, _ => .spent s
  | .nest t s k, f => .nest t s fun v u => (k v u).bind f
  | .attempt t s k, f => .attempt t s fun r u => (k r u).bind f

/-- The course on a part of a larger state: `put` puts the part into it and `get` takes it out, and
`embed` makes contexts of those of the part. -/
def within (embed : C → D) (get : τ → σ) (put : σ → τ → τ) (whole : τ) :
    Course C σ α → Course D τ α
  | .done a s => .done a (put s whole)
  | .interrupt i s => .interrupt i (put s whole)
  | .spent s => .spent (put s whole)
  | .nest t s k =>
    .nest (t.map embed) (put s whole) fun v u => (k v (get u)).within embed get put u
  | .attempt t s k =>
    .attempt (t.map embed) (put s whole) fun r u => (k r (get u)).within embed get put u

end Course

/-- An evaluation that may fail with a fault. -/
def Evaluation (C σ α : Type) : Type := σ → Course C σ (Except Fault α)

namespace Evaluation

variable {C σ α β : Type}

/-- Gives a result. -/
protected def pure (a : α) : Evaluation C σ α := fun s => .done (.ok a) s

/-- One evaluation after the other, unless the first one fails. -/
protected def bind (m : Evaluation C σ α) (f : α → Evaluation C σ β) : Evaluation C σ β := fun s =>
  (m s).bind fun r s =>
    match r with
    | .error fault => .done (.error fault) s
    | .ok a => f a s

instance : Monad (Evaluation C σ) where
  pure := Evaluation.pure
  bind := Evaluation.bind

/-- Fails. -/
def fail (f : Fault) : Evaluation C σ α := fun s => .done (.error f) s

/-- Ends by an interrupt. -/
def interrupt (i : Interrupt) : Evaluation C σ α := fun s => .interrupt i s

/-- Opens a session on a value and gives what it gives. -/
def nest (v : Value) : Evaluation C σ Value := fun s =>
  .nest (.object v) s fun w t => .done (.ok w) t

/-- Gives what is read off the state. -/
def read (f : σ → α) : Evaluation C σ α := fun s => .done (.ok (f s)) s

/-- Changes the state. -/
def change (f : σ → σ) : Evaluation C σ Unit := fun s => .done (.ok ()) (f s)

/-- Gives up for lack of rounds. -/
def spent : Evaluation C σ α := fun s => .spent s

end Evaluation

end CalcShell
