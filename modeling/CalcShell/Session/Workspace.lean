import CalcShell.Session.Describe

/-!
# Working with several sessions

A workspace is what a program that embeds sessions holds: the world, the defaults, and the sessions
and contexts it has made. A request is carried out on it and answered, and the report of a request
tells what happened meanwhile, split where prompts were shown.
-/

namespace CalcShell

/-- The world with the sessions and contexts made so far. -/
structure Workspace (H : Host) where
  world : World H
  defaults : Config H
  sessions : List (Session H)
  contexts : List H.Context
  /-- How many rounds anything may take. -/
  rounds : Nat

/-- Parts for sessions, possibly with prepared lines to read. -/
structure Parts (H : Host) where
  overrides : Overrides H := {}
  lines : Option (List Line.ReadResult) := none

/-- What can be asked of a workspace. Sessions and contexts are meant by their places. -/
inductive Request (H : Host) where
  | run (session : Nat) (target : Target H.Context)
  | nest (session : Nat) (target : Target H.Context)
  | newSession (parts : Parts H)
  | setDefaults (parts : Parts H)
  | context (target : Target H.Context)
  | rep (session context : Nat)
  | evaluate (session context : Nat) (source : String)
  | evaluateIn (session context : Nat) (source : String)
  | bind (context : Nat) (name : String) (value : Value)
  | names (context : Nat)
  | print (session : Nat) (outcome : Outcome)
  | dispatch (session context : Nat) (line pending : String)
  | fire (session : Nat) (name : String) (args : List Value)
  | prompt (session : Nat) (fresh : Bool) (receiver : Value) (level : Nat)
  | judge (text : String)
  | info (session : Nat)
  | describe (session : Nat)
  | describeCommands (session : Nat)
  | describeTarget (target : Target H.Context)

/-- The answer to a request. -/
inductive Reply where
  | stopped (why : Stop)
  | done
  | value (v : Value)
  | flow (f : Flow)
  | outcome (o : Outcome)
  | created (id : SessionId)
  | context (receiver : Value) (isTop : Bool)
  | names (ns : List String)
  | dispatched (result : Except Stop Bool) (pending : String)
  | text (s : String)
  | verdict (v : Verdict)
  | info (id : SessionId) (commands : Nat) (before after : Bool)
  /-- There is no such session or context. -/
  | missing

/-- An entry of a report: what was written and traced since the entry before, and what can be
seen. -/
structure Entry where
  /-- The prompt that is shown, if the entry is for one. -/
  prompt : Option String
  output : String
  trace : List String
  view : Snapshot

namespace Entry

/-- The entries for the prompts shown, and what was written and traced after the last of them;
`output` and `trace` are what came since the entry before. -/
def split {H : Host} (output : String) (trace : List String) :
    List (Moment H) → List Entry × String × List String
  | [] => ([], output, trace)
  | m :: log =>
    match m.event with
    | .prompted _ prompt =>
      match split "" [] log with
      | (entries, rest) => (⟨some prompt, output, trace, m.view⟩ :: entries, rest)
    | e => split (output ++ e.output) (trace ++ e.trace?.toList) log

end Entry

namespace Workspace

variable {H : Host}

/-- A workspace with one session, over an input of prepared lines. -/
def make (rounds : Nat) (lines : List Line.ReadResult) (sink : Sink) (overrides : Overrides H) :
    Workspace H :=
  let defaults := (Config.standard 0).merge overrides
  { world := { host := H.initial, inputs := [.scripted { queue := lines }], sink, nextId := 2 }
    defaults
    sessions := [⟨1, defaults⟩]
    contexts := [H.top]
    rounds }

/-- The parts, with an input of their own if they have lines for it. -/
def addInput (p : Parts H) (ws : Workspace H) : Overrides H × Workspace H :=
  match p.lines with
  | none => (p.overrides, ws)
  | some lines =>
    ({ p.overrides with input := some ws.world.inputs.length },
      { ws with
        world := { ws.world with inputs := ws.world.inputs ++ [.scripted { queue := lines }] } })

/-- Runs something in the world. -/
def exec {α : Type} (ws : Workspace H) (m : Exec H α) (reply : α → Reply) : Reply × Workspace H :=
  match m ws.world with
  | (.error stop, w) => (.stopped stop, { ws with world := w })
  | (.ok a, w) => (reply a, { ws with world := w })

/-- Something with a session. -/
def withSession (ws : Workspace H) (i : Nat) (f : Session H → Reply × Workspace H) :
    Reply × Workspace H :=
  match ws.sessions[i]? with
  | none => (.missing, ws)
  | some s => f s

/-- Something with a context. -/
def withContext (ws : Workspace H) (i : Nat) (f : H.Context → Reply × Workspace H) :
    Reply × Workspace H :=
  match ws.contexts[i]? with
  | none => (.missing, ws)
  | some c => f c

/-- How sessions are run. -/
def runner (ws : Workspace H) : Session.Runner H := Session.run ws.rounds

/-- Carries out a request. -/
def perform (ws : Workspace H) : Request H → Reply × Workspace H
  | .run i t => ws.withSession i fun s => ws.exec (ws.runner s t) .value
  | .nest i t => ws.withSession i fun s => ws.exec (s.nestVia ws.runner t) .value
  | .newSession parts =>
    match ws.addInput parts with
    | (overrides, ws) =>
      (.created ws.world.nextId,
        { ws with
          world := { ws.world with nextId := ws.world.nextId + 1 }
          sessions := ws.sessions ++ [⟨ws.world.nextId, ws.defaults.merge overrides⟩] })
  | .setDefaults parts =>
    match ws.addInput parts with
    | (overrides, ws) => (.done, { ws with defaults := ws.defaults.merge overrides })
  | .context t =>
    match H.resolve t ws.world.host with
    | (c, state) =>
      (.context (H.receiver c) (ws.contexts.head? = some c),
        { ws with
          world := { ws.world with host := state }
          contexts := ws.contexts ++ [c] })
  | .rep i j => ws.withSession i fun s => ws.withContext j fun c =>
    ws.exec (s.rep ws.runner ws.rounds c) .flow
  | .evaluate i j source => ws.withSession i fun s => ws.withContext j fun c =>
    ws.exec (s.evaluate ws.runner ws.rounds c source) .outcome
  | .evaluateIn i j source => ws.withSession i fun s => ws.withContext j fun c =>
    ws.exec (s.evaluateIn ws.runner ws.rounds c source) .outcome
  | .bind j name v => ws.withContext j fun c =>
    ws.exec (Exec.bindName c name v) fun _ => .done
  | .names j => ws.withContext j fun c => (.names (H.names c ws.world.host), ws)
  | .print i outcome => ws.withSession i fun s => ws.exec (s.print outcome) fun _ => .done
  | .dispatch i j line pending => ws.withSession i fun s => ws.withContext j fun c =>
    match s.dispatch ws.runner ws.rounds c line pending ws.world with
    | ((result, pending), w) => (.dispatched result pending, { ws with world := w })
  | .fire i name args => ws.withSession i fun s => ws.exec (s.fire name args) fun _ => .done
  | .prompt i fresh receiver level => ws.withSession i fun s =>
    (.text (s.config.prompts.select fresh receiver level), ws)
  | .judge text => ws.exec (Session.judge text) .verdict
  | .info i => ws.withSession i fun s =>
    (.info s.id s.config.commands.length (s.config.hooks.has beforeSession)
      (s.config.hooks.has afterSession), ws)
  | .describe i => ws.withSession i fun s => (.text s.describe, ws)
  | .describeCommands i => ws.withSession i fun s => (.text s.config.commands.describe, ws)
  | .describeTarget t => (.text (t.describe H.receiver), ws)

/-- A request that was carried out: its answer, an entry for every prompt shown, and an entry for
its end. -/
structure Report where
  reply : Reply
  reads : List Entry
  final : Entry

/-- Carries out a request and reports on it. -/
def request (ws : Workspace H) (r : Request H) : Report × Workspace H :=
  match ws.perform r with
  | (reply, ws') =>
    match Entry.split "" [] (ws'.world.log.toList.drop ws.world.log.size) with
    | (reads, output, trace) => (⟨reply, reads, ⟨none, output, trace, ws'.world.view⟩⟩, ws')

/-- Carries out requests in order and reports on them. -/
def requests (ws : Workspace H) : List (Request H) → List Report × Workspace H
  | [] => ([], ws)
  | r :: rs =>
    match ws.request r with
    | (report, ws) =>
      match ws.requests rs with
      | (reports, ws) => (report :: reports, ws)

end Workspace

end CalcShell
