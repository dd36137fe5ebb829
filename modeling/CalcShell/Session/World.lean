import CalcShell.Line.Source
import CalcShell.Session.Event

/-!
# The world that sessions run in

All sessions of a host share one world: the state of the host, the stack of open sessions, the last
result, the inputs and the output. What a session does is an `Exec`: it changes the world and gives
a result or stops. A stop is an interrupt or, apart from that, the end of the allowed rounds.
-/

namespace CalcShell

/-- Why something that runs gives no result. -/
inductive Stop where
  /-- It was interrupted. -/
  | interrupt (i : Interrupt)
  /-- It took more rounds than it was allowed. -/
  | spent
deriving DecidableEq

/-- The world of the sessions of a host (`SessionManager`). -/
structure World (H : Host) where
  host : H.State
  /-- The open sessions, outermost first. -/
  stack : List Frame := []
  /-- The value of the last unit that had one. -/
  last : Value := .nil
  /-- The innermost open session. -/
  active : Option SessionId := none
  /-- The number of the next session. -/
  nextId : SessionId := 1
  inputs : List Line.Source := []
  sink : Sink := {}
  /-- What happened so far. -/
  log : Array (Moment H) := #[]

namespace World

variable {H : Host}

/-- What can be seen of the sessions. -/
def view (w : World H) : Snapshot := ⟨w.stack, w.last, w.active⟩

/-- The number of open sessions. -/
def depth (w : World H) : Nat := w.stack.length

/-- The level of the innermost session. -/
def level (w : World H) : Nat := levelOf w.stack

/-- The world after an event. -/
def record (w : World H) (e : Event H) : World H :=
  { w with log := w.log.push ⟨e, w.view, w.host⟩ }

/-- The world with a session put on the stack (`enter`). -/
def enter (w : World H) (id : SessionId) (receiver : Value) : World H :=
  let entered : World H := { w with stack := w.stack ++ [⟨w.depth, receiver⟩], active := some id }
  entered.record (.pushed id w.depth)

/-- The world with the innermost session, which was put on at `depth`, taken off the stack; `active`
is the session active before (`drop` of `FrameGuard`). -/
def leave (w : World H) (active : Option SessionId) (depth : Nat) : World H :=
  let left : World H := { w with stack := w.stack.dropLast, active := active }
  left.record (.popped depth !w.stack.isEmpty)

end World

/-- Something that runs in the world of a host. -/
def Exec (H : Host) (α : Type) : Type := World H → Except Stop α × World H

namespace Exec

variable {H : Host} {α β : Type}

/-- Gives a result. -/
protected def pure (a : α) : Exec H α := fun w => (.ok a, w)

/-- One after the other, unless the first one stops. -/
protected def bind (m : Exec H α) (f : α → Exec H β) : Exec H β := fun w =>
  match m w with
  | (.error stop, w) => (.error stop, w)
  | (.ok a, w) => f a w

instance : Monad (Exec H) where
  pure := Exec.pure
  bind := Exec.bind

/-- Stops. -/
def stop (s : Stop) : Exec H α := fun w => (.error s, w)

/-- Runs to a result or a stop, and gives either. -/
def attempt (m : Exec H α) : Exec H (Except Stop α) := fun w =>
  match m w with
  | (r, w) => (.ok r, w)

/-- Runs to a result or an interrupt, and gives either. -/
def caught (m : Exec H α) : Exec H (Except Interrupt α) := fun w =>
  match m w with
  | (.error .spent, w) => (.error .spent, w)
  | (.error (.interrupt i), w) => (.ok (.error i), w)
  | (.ok a, w) => (.ok (.ok a), w)

/-- Gives what is read off the world. -/
def read (f : World H → α) : Exec H α := fun w => (.ok (f w), w)

/-- Changes the world. -/
def change (f : World H → World H) : Exec H Unit := fun w => (.ok (), f w)

/-- Records an event. -/
def record (e : Event H) : Exec H Unit := change (·.record e)

/-- Raises an interrupt. -/
def interrupt (i : Interrupt) : Exec H α := do
  record (.raised i)
  stop (.interrupt i)

/-- A new number for a session (`allocate_id`). -/
def newId : Exec H SessionId := fun w => (.ok w.nextId, { w with nextId := w.nextId + 1 })

/-- The context that a target means. -/
def resolve (t : Target H.Context) : Exec H H.Context := fun w =>
  let r := H.resolve t w.host
  (.ok r.1, { w with host := r.2 })

/-- Binds a name in a context. -/
def bindName (c : H.Context) (name : String) (v : Value) : Exec H Unit :=
  change fun w => { w with host := H.bind c name v w.host }

/-- Writes a piece. Where the piece is empty there is nothing to write and so nothing to refuse. -/
def write (piece : Piece) : Exec H Unit := fun w =>
  if piece = .text "" then (.ok (), w)
  else
    match w.sink.take piece with
    | .error e => interrupt (.io e) w
    | .ok sink => (.ok (), World.record { w with sink := sink } (.wrote piece))

/-- Writes pieces in order. -/
def writePieces : List Piece → Exec H Unit
  | [] => pure ()
  | p :: ps => do
    write p
    writePieces ps

/-- Writes something, up to its failure if it has one. -/
def put (w : Writing) : Exec H Unit := do
  writePieces w.pieces
  match w.failure with
  | none => pure ()
  | some e => interrupt (.io e)

/-- Reads a line from an input under a prompt (`read_line`). What the input writes of the prompt to
the output comes before anything is read. -/
def readLine (input : Nat) (prompt : String) : Exec H Line.Read := do
  record (.prompted input prompt)
  match (← read World.inputs)[input]? with
  | none => pure .eof
  | some source =>
    writePieces (source.announce prompt)
    let (result, shown, source) := source.readLine prompt
    change fun w => { w with inputs := w.inputs.set input source }
    write (.text shown)
    match result with
    | .ok r => pure r
    | .error e => interrupt (.io e)

/-- Asks an input to remember a line (`add_history`). -/
def remember (input : Nat) (entry : String) : Exec H Unit :=
  change fun w => { w with inputs := w.inputs.modify input (·.remember entry) }

/-- Runs with a session on the stack, and takes it off again however that ends (`FrameGuard`). -/
def withFrame (id : SessionId) (receiver : Value) (m : Exec H α) : Exec H α := fun w =>
  match m (w.enter id receiver) with
  | (r, v) => (r, v.leave w.active w.depth)

/-- Follows a course of evaluation, where `nest` runs the sessions that it opens. -/
def follow (nest : Target H.Context → Exec H Value) : Course H.Context H.State α → Exec H α
  | .done a s => fun w => (.ok a, { w with host := s })
  | .interrupt i s => fun w => interrupt i { w with host := s }
  | .spent s => fun w => (.error .spent, { w with host := s })
  | .nest t s k => fun w =>
    match nest t { w with host := s } with
    | (.error stop, w) => (.error stop, w)
    | (.ok v, w) => follow nest (k v w.host) w
  | .attempt t s k => fun w =>
    match caught (nest t) { w with host := s } with
    | (.error stop, w) => (.error stop, w)
    | (.ok r, w) => follow nest (k r w.host) w

end Exec

end CalcShell
