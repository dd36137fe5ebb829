import CalcShell.Calc.Eval
import CalcShell.Calc.Parser
import CalcShell.Session.Host

/-!
# The language as a host

The top level has the first scope of the forest, and every other context a scope of its own: inside
the first one, or apart from it if it is detached. A text is complete unless the parser finds that
it stops too early; a text with any other error is complete too, and the error shows when it is
evaluated.
-/

namespace CalcShell.Calc

/-- The context of the top level (`top_level`). -/
def topContext : Context := ⟨.main, 0⟩

/-- A new context around a value, whose scope is inside the first one (`anchor`). -/
def anchor (v : Value) (f : Forest) : Context × Forest :=
  match f.addChild topContext.scope with
  | (i, f) => (⟨v, i⟩, f)

/-- A new context around a value, whose scope is inside no other. -/
def detach (v : Value) (f : Forest) : Context × Forest :=
  match f.addRoot with
  | (i, f) => (⟨v, i⟩, f)

/-- The outcome of an evaluation that ended. -/
def outcomeOf : Except Fault Value → Outcome
  | .ok v => .value v
  | .error f => .fault f

/-- Evaluates a source in a context (`evaluate`). A source that is no program has a fault. -/
def evaluate (rounds : Nat) (c : Context) (source : String) (f : Forest) :
    Course Context Forest Outcome :=
  match parseProgram source with
  | .error e => .done (.fault (Failure.source e.render).fault) f
  | .ok p => (evaluateProgram rounds c p f).bind fun r f => .done (outcomeOf r) f

/-- Whether a text is complete (`is_complete`): more text helps only where the parser
ran out of it. -/
def judge (source : String) : Verdict :=
  match parseProgram source with
  | .ok _ => .complete
  | .error e => if e.isIncomplete then .incomplete (some e.render) else .complete

/-- The language as a host (`CalcHost`). -/
def host : Host where
  State := Forest
  Context := Context
  decEq := inferInstance
  initial := .single
  top := topContext
  topReceiver := .main
  receiver := Context.receiver
  anchor := anchor
  detach := detach
  bind c name v f := f.define c.scope name v
  names c f := f.names c.scope
  evaluate := evaluate
  judge := judge

/-- Evaluates a program where no session can be opened. -/
def evaluateAlone (rounds : Nat) (c : Context) (p : Program) (f : Forest) :
    Course Context Forest (Except Fault Value) :=
  match evaluateProgram rounds c p f with
  | .nest _ f _ | .attempt _ f _ => .done (.error Failure.noSession.fault) f
  | course => course

end CalcShell.Calc
