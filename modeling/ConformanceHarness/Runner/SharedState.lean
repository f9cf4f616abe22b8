import ConformanceHarness.Loader.Validation
import ConformanceHarness.Runner.Network
import Mathlib.Data.List.AList

/-!
# What the branches of a scenario share

`RunnerState` of `scenario/runner.rs` and the tracer, as the steps of all branches see them:
the maps of connections, each with the connections in it; the listeners; the imaginary network;
and the trace file behind its lock.

A connection is an object with a number of its own. The maps and `CheckedOut` have numbers, and
what the source moves between them is the object. The lock of the trace is granted in the order
of the requests; a request that is dropped before it is granted is never written.

What is marked as a ghost is not read by any step.
-/

namespace ConformanceHarness.Concurrent

/-! ## Connections -/

/-- The map a connection is in. -/
inductive Side where
  /-- `connections`. -/
  | client
  /-- `server_connections`. -/
  | server
deriving Repr, DecidableEq

/-- A pair of channels. -/
inductive Channel where
  | hs
  | cs
  | bf
  | ts
  | ka
  | ln
  | lf
deriving Repr, DecidableEq

/-- `ClientConnection` and `ServerConnection`. The label is in `Runner/Connections.lean`. -/
structure Connection where
  side : Side
  /-- Ghost: the name it was opened under. -/
  name : String
  /-- `mux`: running, as it is until `abort`. -/
  mux : Bool
  /-- `ka_handle`, and `ts_handle` of a client connection: there, and not aborted. -/
  kaHandle : Bool
  tsHandle : Bool
  /-- The channels that are still there. -/
  channels : List Channel
  negotiatedVersion : Option UInt64
  lastChainSyncPoints : List Point
  /-- Ghost: what each `chain_sync` step that got to its end on it has collected. -/
  collected : List (List Point)

namespace Connection

/-- What `connect` inserts. -/
def opened (name : String) : Connection where
  side := .client
  name := name
  mux := true
  kaHandle := false
  tsHandle := false
  channels := [.hs, .cs, .bf, .ts, .ka, .ln, .lf]
  negotiatedVersion := none
  lastChainSyncPoints := []
  collected := []

/-- What `accept_handshake` inserts. Its keep-alive worker runs already. -/
def accepted (name : String) : Connection where
  side := .server
  name := name
  mux := true
  kaHandle := true
  tsHandle := false
  channels := [.cs, .bf, .ts, .ln, .lf]
  negotiatedVersion := none
  lastChainSyncPoints := []
  collected := []

/-- The workers are aborted, and then the mux. -/
def abort (conn : Connection) : Connection :=
  { conn with mux := false, kaHandle := false, tsHandle := false }

/-- The mux and the workers have been aborted. -/
def Aborted (conn : Connection) : Prop :=
  conn.mux = false ∧ conn.kaHandle = false ∧ conn.tsHandle = false

/-- The workers that can still be spawned. -/
def workers (conn : Connection) : List String :=
  (if conn.channels.contains .ka then ["keep-alive"] else []) ++
    if conn.channels.contains .ts then ["tx-submission"] else []

/-- The end of `StepKind::Handshake`: the workers whose channels are there are spawned. -/
def startWorkers (conn : Connection) (version : UInt64) : Connection :=
  { conn with
    negotiatedVersion := some version
    kaHandle := conn.kaHandle || conn.channels.contains .ka
    tsHandle := conn.tsHandle || conn.channels.contains .ts
    channels := (conn.channels.erase .ka).erase .ts }

/-- The points a `chain_sync` step has collected. -/
def storePoints (conn : Connection) (points : List Point) : Connection :=
  { conn with lastChainSyncPoints := points, collected := conn.collected ++ [points] }

end Connection

/-- A connection that a step has taken out: `CheckedOut`. -/
structure Token where
  side : Side
  name : String
  id : Nat
deriving Repr, DecidableEq

/-- `HashMap<String, _>` of connections. -/
abbrev Table := AList fun _ : String => Nat

/-- The numbers of the connections in a map. -/
def idsOf (table : Table) : List Nat := table.entries.map Sigma.snd

/-- The maps of connections and listeners. -/
structure Connections where
  connection : Nat → Connection
  /-- The number of the next connection that is inserted: those before have been. -/
  next : Nat
  clients : Table
  servers : Table
  listeners : Finset String
  /-- What `cleanup` has drained from a map and has still to close. -/
  drained : List (String × Nat)
  /-- Ghost: what is taken out. -/
  inUse : List Token
  /-- Ghost: the connections that were in a map when another was inserted under their name. -/
  overwritten : List Nat
  /-- Ghost: the connections that a `disconnect` step has removed. -/
  disconnected : List Nat
  /-- Ghost: the connections that `cleanup` has removed. -/
  cleaned : List Nat
  /-- Ghost: the steps that have opened or closed a connection or a listener, in that order. -/
  log : List Loader.StepDef

namespace Connections

/-- Nothing is connected. -/
def initial : Connections where
  connection := fun _ => .opened ""
  next := 0
  clients := ∅
  servers := ∅
  listeners := ∅
  drained := []
  inUse := []
  overwritten := []
  disconnected := []
  cleaned := []
  log := []

/-- The map of a side. -/
def table (c : Connections) : Side → Table
  | .client => c.clients
  | .server => c.servers

def setTable (c : Connections) (side : Side) (table : Table) : Connections :=
  match side with
  | .client => { c with clients := table }
  | .server => { c with servers := table }

/-- Changes a connection. -/
def update (c : Connections) (id : Nat) (f : Connection → Connection) : Connections :=
  { c with connection := Function.update c.connection id (f (c.connection id)) }

/-- `insert`. What was there under the name is dropped. -/
def insertAs (c : Connections) (side : Side) (name : String) (id : Nat) : Connections :=
  { c.setTable side ((c.table side).insert name id) with
    overwritten := c.overwritten ++ ((c.table side).lookup name).toList }

/-- The step that opens a connection inserts it. -/
def openAs (c : Connections) (side : Side) (step : Loader.StepDef) (conn : Connection) :
    Connections :=
  let inserted := c.insertAs side conn.name c.next
  { inserted with
    connection := Function.update c.connection c.next conn
    next := c.next + 1
    log := c.log ++ [step] }

section

variable (c : Connections) (side : Side) (table : Table)

@[simp] theorem setTable_connection : (c.setTable side table).connection = c.connection := by
  cases side <;> rfl

@[simp] theorem setTable_next : (c.setTable side table).next = c.next := by cases side <;> rfl

@[simp] theorem setTable_listeners : (c.setTable side table).listeners = c.listeners := by
  cases side <;> rfl

@[simp] theorem setTable_drained : (c.setTable side table).drained = c.drained := by
  cases side <;> rfl

@[simp] theorem setTable_inUse : (c.setTable side table).inUse = c.inUse := by cases side <;> rfl

@[simp] theorem setTable_overwritten :
    (c.setTable side table).overwritten = c.overwritten := by cases side <;> rfl

@[simp] theorem setTable_disconnected :
    (c.setTable side table).disconnected = c.disconnected := by cases side <;> rfl

@[simp] theorem setTable_cleaned : (c.setTable side table).cleaned = c.cleaned := by
  cases side <;> rfl

@[simp] theorem setTable_log : (c.setTable side table).log = c.log := by cases side <;> rfl

@[simp] theorem setTable_table : (c.setTable side table).table side = table := by
  cases side <;> rfl

/-- The other map stays. -/
theorem setTable_other {other : Side} (h : other ≠ side) :
    (c.setTable side table).table other = c.table other := by
  cases side <;> cases other <;> first | rfl | exact absurd rfl h

end

/-- `CheckedOut::take`. -/
def take (c : Connections) (side : Side) (name : String) : Option (Token × Connections) :=
  ((c.table side).lookup name).map fun id =>
    (⟨side, name, id⟩,
      { c.setTable side ((c.table side).erase name) with inUse := ⟨side, name, id⟩ :: c.inUse })

theorem take_eq_some {c c' : Connections} {side : Side} {name : String} {token : Token}
    (h : c.take side name = some (token, c')) :
    (c.table side).lookup name = some token.id ∧ token.side = side ∧ token.name = name ∧
      c' = { c.setTable side ((c.table side).erase name) with inUse := token :: c.inUse } := by
  obtain ⟨id, hlookup, heq⟩ := Option.map_eq_some_iff.mp h
  obtain ⟨rfl, rfl⟩ := Prod.mk.inj heq
  exact ⟨hlookup, rfl, rfl, rfl⟩

/-- `Drop for CheckedOut`. -/
def putBack (c : Connections) (token : Token) : Connections :=
  let inserted := c.insertAs token.side token.name token.id
  { inserted with inUse := c.inUse.erase token }

/-- `StepKind::Disconnect`, up to its event. -/
def disconnect (c : Connections) (step : Loader.StepDef) (name : String) :
    Option (Nat × Connections) :=
  (c.clients.lookup name).map fun id =>
    (id, { c.update id .abort with
      clients := c.clients.erase name
      disconnected := c.disconnected ++ [id]
      log := c.log ++ [step] })

theorem disconnect_eq_some {c c' : Connections} {step : Loader.StepDef} {name : String} {id : Nat}
    (h : c.disconnect step name = some (id, c')) : c.clients.lookup name = some id ∧
      c' = { c.update id .abort with
        clients := c.clients.erase name
        disconnected := c.disconnected ++ [id]
        log := c.log ++ [step] } := by
  obtain ⟨id', hlookup, heq⟩ := Option.map_eq_some_iff.mp h
  obtain ⟨rfl, rfl⟩ := Prod.mk.inj heq
  exact ⟨hlookup, rfl⟩

/-- `drain`, in the order in which the map iterates. -/
def drain (c : Connections) (side : Side) (order : List (String × Nat)) : Connections :=
  { c.setTable side ∅ with drained := order, cleaned := c.cleaned ++ order.map Prod.snd }

/-- The next connection that was drained is aborted. -/
def closeNext (c : Connections) (id : Nat) (rest : List (String × Nat)) : Connections :=
  { c.update id .abort with drained := rest }

end Connections

/-! ## The trace -/

/-- A line of the trace file. -/
structure Line where
  event : TraceEvent
  /-- Ghost: the connection whose end the event reports. -/
  closes : Option Nat

/-- Who waits for the lock of the trace. -/
structure Waiter where
  ticket : Nat
  /-- What is written, or else the buffer is drained. -/
  line : Option Line
  /-- A background worker waits, and no step. -/
  worker : Bool

/-- `TracerInner` and its lock. -/
structure TraceFile where
  /-- The number of requests so far. -/
  tickets : Nat
  /-- The requests that have not been granted, oldest first. -/
  queue : List Waiter
  eventBuffer : List TraceEvent
  /-- The lines that were to be written, in order. -/
  emitted : List Line
  /-- Those that were: the lines of the file. -/
  file : List Line
  /-- Ghost: the lines whose requests were dropped. -/
  cutOff : List Line

namespace TraceFile

/-- The file is created. -/
def initial : TraceFile := ⟨0, [], [], [], [], []⟩

/-- `lock()`, by a step or a worker. -/
def request (t : TraceFile) (line : Option Line) (worker : Bool) : TraceFile :=
  { t with tickets := t.tickets + 1, queue := t.queue ++ [⟨t.tickets, line, worker⟩] }

/-- The lock is granted to `w`, who is next. -/
def grant (t : TraceFile) (w : Waiter) (rest : List Waiter) (written : Bool) : TraceFile :=
  match w.line with
  | none => { t with queue := rest, eventBuffer := [] }
  | some line =>
    { t with
      queue := rest
      eventBuffer := t.eventBuffer ++ [line.event]
      emitted := t.emitted ++ [line]
      file := if written then t.file ++ [line] else t.file }

/-- The waiter of a step. -/
def isStep (ticket : Nat) (w : Waiter) : Bool := w.ticket = ticket && !w.worker

/-- A step that waits for the lock is dropped. -/
def cut (t : TraceFile) (ticket : Nat) : TraceFile :=
  { t with
    queue := t.queue.eraseP (isStep ticket)
    cutOff := t.cutOff ++ ((t.queue.find? (isStep ticket)).bind Waiter.line).toList }

/-- The tickets of the steps that wait. -/
def stepTickets (t : TraceFile) : List Nat :=
  (t.queue.filter fun w => !w.worker).map Waiter.ticket

/-- The lines that are waited for, oldest first. -/
def waiting (t : TraceFile) : List Line := t.queue.filterMap Waiter.line

end TraceFile

/-! ## The state -/

/-- A dial: the step that makes it, its parameters, and the address. -/
structure Dial where
  step : Loader.StepDef
  params : StepParams
  addr : String

/-- `RunnerState`, and the tracer. -/
structure State where
  net : RunState
  conns : Connections
  trace : TraceFile
  /-- Ghost: the addresses that were dialed. -/
  dialed : List Dial
  /-- Ghost: what `block_fetch` steps have taken from a connection, and the connection. -/
  fetched : List (Connection × List Point)

/-- A run starts: the tracer has no slot tracker yet. -/
def State.initial : State where
  net := .initial none (fun _ => none) fun _ => none
  conns := .initial
  trace := .initial
  dialed := []
  fetched := []

end ConformanceHarness.Concurrent
