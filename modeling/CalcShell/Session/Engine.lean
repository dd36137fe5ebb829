import CalcShell.Session.Config
import CalcShell.Session.World

/-!
# Sessions

A session reads a unit, evaluates it, prints the outcome and begins again, until an interrupt ends
it. While it runs it has a frame on the stack. Commands and evaluated units may open further
sessions inside it.

An interrupt that unwinds to a level ends sessions until it reaches the one that was entered at this
level, which ends as well and gives its receiver. Every other interrupt ends all sessions.

Everything but `run` is a plain function of how inner sessions are run, and `run` recurses on the
number of rounds allowed.
-/

namespace CalcShell

/-- A session: its number and what it is made of (`Session`). -/
structure Session (H : Host) where
  id : SessionId
  config : Config H

/-- What a round of reading, evaluating and printing leads to (`Flow`). -/
inductive Flow where
  /-- The session goes on. -/
  | goOn
  /-- Unwinding to a level. -/
  | breakout (level : Nat)
deriving DecidableEq

namespace Session

variable {H : Host}

/-- How a session is run on a target. -/
abbrev Runner (H : Host) := Session H → Target H.Context → Exec H Value

/-- Opens a session with the same parts inside of this one (`nest`). -/
def nestVia (run : Runner H) (s : Session H) (t : Target H.Context) : Exec H Value := do
  run ⟨← Exec.newId, s.config⟩ t

/-- Calls a hook (`fire`). -/
def fire (s : Session H) (name : String) (args : List Value) : Exec H Unit := do
  Exec.record (.fired name args)
  Exec.put (s.config.hooks.writing name args)

/-- Prints an outcome and flushes (`print`). -/
def print (s : Session H) (outcome : Outcome) : Exec H Unit := do
  Exec.record (.printed s.id outcome)
  Exec.put (s.config.print outcome).flushed

/-- Binds the names for the active session and for the last result in a context
(`bind_conveniences`). -/
def bindConveniences (s : Session H) (c : H.Context) : Exec H Unit := do
  let active := (← Exec.read World.active).getD s.id
  Exec.bindName c "_session_" (.session active)
  Exec.bindName c "_" (← Exec.read World.last)

/-- Evaluates a source in a context as the host does. -/
def evaluateIn (run : Runner H) (rounds : Nat) (s : Session H) (c : H.Context) (source : String) :
    Exec H Outcome := fun w =>
  Exec.follow (s.nestVia run) (H.evaluate rounds c source w.host) w

/-- Evaluates a unit (`evaluate`). A value becomes the last result; a fault does not. -/
def evaluate (run : Runner H) (rounds : Nat) (s : Session H) (c : H.Context) (source : String) :
    Exec H Outcome := do
  s.bindConveniences c
  Exec.record (.evaluating s.id c source)
  let outcome ← s.evaluateIn run rounds c source
  match outcome with
  | .value v =>
    Exec.change fun w => { w with last := v }
    Exec.record (.valued s.id v)
    s.bindConveniences c
  | .fault f => Exec.record (.faulted s.id f)
  return outcome

/-- Evaluates the source of a command. Its value does not become the last result. -/
def consult (run : Runner H) (rounds : Nat) (s : Session H) (c : H.Context) (source : String) :
    Exec H Outcome := do
  Exec.record (.consulting s.id c source)
  s.evaluateIn run rounds c source

/-! ## Commands -/

/-- What the session does that a handler asks for. -/
def perform (run : Runner H) (rounds : Nat) (s : Session H) :
    (d : Command.Deed H) → Exec H d.Result
  | .write w => Exec.put w
  | .evaluate c source => s.consult run rounds c source
  | .print outcome => s.print outcome
  | .nest t => s.nestVia run t

/-- Carries out the plan of a handler. Gives how that went and what is left of the pending text,
which stands beside the world. -/
def carryOut (run : Runner H) (rounds : Nat) (s : Session H) :
    Command.Plan H → String → World H → (Except Stop Unit × String) × World H
  | .done, pending, w => ((.ok (), pending), w)
  | .interrupt i, pending, w =>
    match Exec.interrupt i w with
    | (r, w) => ((r, pending), w)
  | .edit f p, pending, w => s.carryOut run rounds p (f pending) w
  | .look k, pending, w => s.carryOut run rounds (k ⟨pending, w.view, w.host⟩) pending w
  | .act d k, pending, w =>
    match s.perform run rounds d w with
    | (.error stop, w) => ((.error stop, pending), w)
    | (.ok a, w) => s.carryOut run rounds (k a) pending w
  | .attempt d k, pending, w =>
    match Exec.caught (s.perform run rounds d) w with
    | (.error stop, w) => ((.error stop, pending), w)
    | (.ok r, w) => s.carryOut run rounds (k r) pending w

/-- Calls the command that a line means, if it means one (`dispatch`). Gives whether it does, or why
it stopped, and what is left of the pending text. -/
def dispatch (run : Runner H) (rounds : Nat) (s : Session H) (ctx : H.Context)
    (line pending : String) (w : World H) : (Except Stop Bool × String) × World H :=
  match s.config.commands.find? line with
  | none => ((.ok false, pending), w)
  | some (command, captures) =>
    let w := w.record (.dispatched command.usage)
    let plan := command.handler ⟨line, captures, w.stack, ctx, s.config.commands.listings⟩
    match s.carryOut run rounds plan pending w with
    | ((.error stop, pending), w) => ((.error stop, pending), w)
    | ((.ok (), pending), w) => ((.ok true, pending), w)

/-! ## Reading -/

/-- What the host says of a text. -/
def judge (text : String) : Exec H Verdict := do
  match H.judge text with
  | .incomplete (some reason) => Exec.record (.incomplete reason)
  | _ => pure ()
  return H.judge text

/-- Whether the host takes a text for a complete unit (`judge_complete`). If it cannot tell, the
text counts as incomplete. -/
def isComplete (text : String) : Exec H Bool := do
  match ← judge text with
  | .complete => return true
  | .incomplete _ => return false
  | .fault f =>
    Exec.record (.undecided f)
    return false

/-- Calls the command that a line means, if it means one. Gives what is then pending. -/
def lookUp (run : Runner H) (rounds : Nat) (s : Session H) (ctx : H.Context)
    (line pending : String) : Exec H String := fun w =>
  match s.dispatch run rounds ctx line pending w with
  | ((.error stop, _), w) => (.error stop, w)
  | ((.ok _, pending), w) => (.ok pending, w)

/-- What a line leads to: it is added to the pending text and, if it is a command, the command is
called. Gives what is then pending. -/
def takeLine (run : Runner H) (rounds : Nat) (s : Session H) (ctx : H.Context)
    (pending line : String) : Exec H String := do
  Exec.record (.lineRead line)
  if !Text.isBlankText line then Exec.remember s.config.input line
  s.lookUp run rounds ctx line (pending ++ line ++ "\n")

/-- Reads lines until they make a complete unit, in at most the given number of rounds (the loop of
`read_unit`). -/
def readUnitFrom (run : Runner H) (rounds : Nat) (s : Session H) (ctx : H.Context) :
    Nat → String → Exec H String
  | 0, _ => Exec.stop .spent
  | n + 1, pending => do
    let level ← Exec.read World.level
    let prompt := s.config.prompts.select pending.isEmpty (H.receiver ctx) level
    match ← Exec.readLine s.config.input prompt with
    | .eof => Exec.interrupt .endOfInput
    | .interrupted =>
      Exec.record .cancelled
      s.readUnitFrom run rounds ctx n ""
    | .line line =>
      let pending ← s.takeLine run rounds ctx pending line
      if pending.isEmpty then s.readUnitFrom run rounds ctx n pending
      else if ← isComplete pending then return pending
      else s.readUnitFrom run rounds ctx n pending

/-- Reads a complete unit (`read_unit`). -/
def readUnit (run : Runner H) (rounds : Nat) (s : Session H) (ctx : H.Context) : Exec H String :=
  s.readUnitFrom run rounds ctx rounds ""

/-! ## Running -/

/-- Reads a unit, evaluates it and prints the outcome (`eval_step`). -/
def step (run : Runner H) (rounds : Nat) (s : Session H) (ctx : H.Context) : Exec H Unit := do
  let source ← s.readUnit run rounds ctx
  let outcome ← s.evaluate run rounds ctx source
  s.print outcome

/-- A step, and where it leads (`rep`). -/
def rep (run : Runner H) (rounds : Nat) (s : Session H) (ctx : H.Context) : Exec H Flow := do
  match ← Exec.attempt (s.step run rounds ctx) with
  | .ok () => return .goOn
  | .error (.interrupt (.breakout level)) => return .breakout level
  | .error stop => Exec.stop stop

/-- Steps until unwinding begins, in at most the given number of rounds (the loop of `run`). Gives
the level to unwind to. -/
def reps (run : Runner H) (rounds : Nat) (s : Session H) (ctx : H.Context) : Nat → Exec H Nat
  | 0 => Exec.stop .spent
  | n + 1 => do
    match ← s.rep run rounds ctx with
    | .goOn => s.reps run rounds ctx n
    | .breakout level => return level

/-- Runs a session in a context (`run`, behind `resolve`). -/
def runIn (run : Runner H) (rounds : Nat) (s : Session H) (ctx : H.Context) : Exec H Value := do
  let receiver := H.receiver ctx
  s.fire beforeSession [receiver]
  let depth ← Exec.read World.depth
  Exec.record (.started s.id depth receiver)
  let exit ← Exec.attempt <| Exec.withFrame s.id receiver do
    s.bindConveniences ctx
    s.reps run rounds ctx rounds
  match exit with
  | .error (.interrupt i) =>
    Exec.record (.aborted s.id i)
    Exec.stop (.interrupt i)
  | .error .spent => Exec.stop .spent
  | .ok level =>
    s.fire afterSession [receiver]
    if level = depth then
      Exec.record (.ended s.id level)
      return receiver
    else
      Exec.record (.propagated s.id level depth)
      Exec.stop (.interrupt (.breakout level))

/-- Runs a session on a target (`run`). Loops, sessions inside of sessions and steps of a session
each take at most the given number of rounds. -/
def run : Nat → Session H → Target H.Context → Exec H Value
  | 0, _, _ => Exec.stop .spent
  | rounds + 1, s, t => do s.runIn (run rounds) rounds (← Exec.resolve t)

/-- Opens a session with the same parts inside of this one, and runs it on a target. -/
def nest (rounds : Nat) (s : Session H) (t : Target H.Context) : Exec H Value :=
  s.nestVia (run rounds) t

end Session

end CalcShell
