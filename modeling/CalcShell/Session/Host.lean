import CalcShell.Course

/-!
# Hosts

A host is the language that sessions are held in. It has contexts, in which units are evaluated, and
it says when a text is a complete unit. All that it changes is a state of its own.
-/

namespace CalcShell

/-- What a host says of a text. -/
inductive Verdict where
  /-- It is a unit. -/
  | complete
  /-- It needs more text; the host may say why. -/
  | incomplete (reason : Option String)
  /-- The host could not tell. -/
  | fault (f : Fault)
deriving DecidableEq, Repr

/-- The language that sessions are held in (`ContextProvider`, `ExecutionContext` and
`CompletenessOracle`). -/
structure Host where
  /-- What evaluation changes. -/
  State : Type
  /-- Where units are evaluated. -/
  Context : Type
  /-- Contexts can be told apart. -/
  decEq : DecidableEq Context
  /-- The state at first. -/
  initial : State
  /-- The context of the top level. -/
  top : Context
  /-- The value that stands for the top level. -/
  topReceiver : Value
  /-- What a session in a context is held on. -/
  receiver : Context → Value
  /-- A new context around a value. -/
  anchor : Value → State → Context × State
  /-- A new context around a value that shares no bindings with others. -/
  detach : Value → State → Context × State
  /-- Binds a name in a context. -/
  bind : Context → String → Value → State → State
  /-- The names bound in a context. -/
  names : Context → State → List String
  /-- Evaluates a source in a context, with a bound on the rounds of its loops. -/
  evaluate : Nat → Context → String → State → Course Context State Outcome
  /-- Whether a text is a complete unit. -/
  judge : String → Verdict

namespace Host

instance (H : Host) : DecidableEq H.Context := H.decEq

/-- The context that a target means (`resolve`). -/
def resolve (H : Host) (t : Target H.Context) (s : H.State) : H.Context × H.State :=
  match t with
  | .topLevel => (H.top, s)
  | .object v => if v = H.topReceiver then (H.top, s) else H.anchor v s
  | .context c => (c, s)
  | .detached v => H.detach v s

end Host

end CalcShell
