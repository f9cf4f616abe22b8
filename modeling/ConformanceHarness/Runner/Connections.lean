import ConformanceHarness.Miniprotocols.BlockFetch
import ConformanceHarness.Miniprotocols.BlockFetchServer
import ConformanceHarness.Miniprotocols.ChainSync
import ConformanceHarness.Miniprotocols.ChainSyncServer
import ConformanceHarness.Miniprotocols.Handshake
import ConformanceHarness.Miniprotocols.LeiosFetch
import ConformanceHarness.Miniprotocols.LeiosFetchServer
import ConformanceHarness.Miniprotocols.LeiosNotify
import ConformanceHarness.Miniprotocols.LeiosNotifyServer
import ConformanceHarness.Runner.RunStep

/-!
# Connections, and what is emitted on them

The steps of `scenario/runner.rs` that open, use and close connections, with the sessions they
run and the workers they start. A step takes the connection it is on out of its map, and puts
it back when it ends, also if it fails or its branch is dropped. Any number of steps can be
under way: they are those of all branches.

A step comes with what the network has in store for it, so its events are known when it
starts. The order in which those of different steps and workers reach the trace is not.

Steps that are about no connection are left out, as is the frame around the steps: what they
emit is about no message. So is `cleanup`, after which there is nothing more.
-/

namespace ConformanceHarness.Connections

open ConformanceHarness.Lib (Prog)
open ConformanceHarness.Runner (LeafKind)

/-! ## Maps by name -/

/-- A `HashMap` from names. -/
abbrev NameMap (α : Type) := String → Option α

namespace NameMap

variable {α : Type}

/-- `insert`. -/
def insert (m : NameMap α) (name : String) (a : α) : NameMap α :=
  fun other => if other = name then some a else m other

/-- `remove`. -/
def erase (m : NameMap α) (name : String) : NameMap α :=
  fun other => if other = name then none else m other

end NameMap

/-! ## Connections -/

/-- `ClientConnection`: which channels are still there, the tasks of its workers, and the
label. -/
structure ClientConnection where
  hsChannels : Bool
  csChannels : Bool
  bfChannels : Bool
  kaChannels : Bool
  tsChannels : Bool
  lnChannels : Bool
  lfChannels : Bool
  kaHandle : Option Nat
  tsHandle : Option Nat
  peerId : Option String

/-- `ServerConnection`. -/
structure ServerConnection where
  csChannels : Bool
  bfChannels : Bool
  lnChannels : Bool
  lfChannels : Bool
  peerId : Option String

/-- What a step has taken out of the maps. -/
inductive CheckedOut where
  | nothing
  | client (conn : ClientConnection)
  | server (conn : ServerConnection)

/-! ## Steps under way -/

/-- Who emits an event. -/
inductive Emitter where
  | step (kind : LeafKind)
  | keepAlive
  | txSubmission
deriving Repr, DecidableEq

/-- An event to be emitted, and the clone of the tracer it goes through. -/
structure Outgoing where
  tracer : Tracer
  event : TraceEvent

/-- What the network has in store for the workers of a connection. -/
structure WorkerTraffic where
  /-- The pings that are answered. -/
  rounds : Nat
  initSent : Bool
  requests : List (TxSubmissionRequest × Bool)

/-- What a step does when its events are emitted. -/
inductive Completion where
  | nothing
  | openClient (conn : ClientConnection)
  | openServer (conn : ServerConnection)
  | openListener
  /-- The workers of the connection it is on are spawned, and it goes on. -/
  | spawnWorkers (traffic : WorkerTraffic)

/-- A step under way, or a worker. -/
structure Task where
  emitter : Emitter
  /-- The connection it is about, and its label. -/
  connName : String
  peerId : Option String
  pending : List Outgoing
  held : CheckedOut
  completion : Completion

/-- A line of the trace file. Only the event is in the file. -/
structure Line where
  emitter : Emitter
  connName : String
  peerId : Option String
  event : TraceEvent

/-- The runner's connections, and what goes on. -/
structure State where
  connections : NameMap ClientConnection
  serverConnections : NameMap ServerConnection
  listeners : NameMap Unit
  currentSlot : Option UInt64
  tasks : Nat → Option Task
  /-- The number of tasks so far. -/
  spawned : Nat
  trace : List Line

/-- Nothing is connected. -/
def State.initial (startSlot : Option UInt64) : State where
  connections := fun _ => none
  serverConnections := fun _ => none
  listeners := fun _ => none
  currentSlot := startSlot
  tasks := fun _ => none
  spawned := 0
  trace := []

/-- The scenario's tracer. -/
def tracer : Tracer := .opened

/-- `unwrap_or("default")`. -/
def nameOr (name : Option String) : String := name.getD "default"

/-! ## Tasks -/

namespace State

/-- A task starts. -/
def spawn (s : State) (task : Task) : State :=
  { s with
    tasks := fun id => if id = s.spawned then some task else s.tasks id
    spawned := s.spawned + 1 }

/-- A task goes on as another. -/
def setTask (s : State) (id : Nat) (task : Option Task) : State :=
  { s with tasks := fun other => if other = id then task else s.tasks other }

/-- `abort`. -/
def abort (s : State) : Option Nat → State
  | none => s
  | some id => s.setTask id none

/-- `Drop for CheckedOut`. -/
def putBack (s : State) (name : String) : CheckedOut → State
  | .nothing => s
  | .client conn => { s with connections := s.connections.insert name conn }
  | .server conn => { s with serverConnections := s.serverConnections.insert name conn }

end State

/-- A worker. It has a clone of the scenario's tracer. -/
def worker (emitter : Emitter) (connName : String) (peerId : Option String)
    (events : List TraceEvent) : Task where
  emitter := emitter
  connName := connName
  peerId := peerId
  pending := events.map (Outgoing.mk tracer)
  held := .nothing
  completion := .nothing

/-- The `ProtocolWorkersStarted` event. -/
def workersStarted (connName : String) (protocols : List String) : TraceEvent :=
  (TraceEvent.new .protocolWorkersStarted .internal
    (.object [("protocols", .array (protocols.map Value.string))])).withConnection connName

/-- `tokio::spawn(run_keepalive(..))`, if the channels are there. -/
def spawnKeepAlive (s : State) (connName : String) (conn : ClientConnection)
    (traffic : WorkerTraffic) : State × ClientConnection × List String :=
  if conn.kaChannels then
    (s.spawn (worker .keepAlive connName conn.peerId (KeepAlive.runKeepalive 0 traffic.rounds)),
      { conn with kaChannels := false, kaHandle := some s.spawned }, ["keep-alive"])
  else (s, conn, [])

/-- `tokio::spawn(run_tx_submission(..))`, if the channels are there. -/
def spawnTxSubmission (s : State) (connName : String) (conn : ClientConnection)
    (traffic : WorkerTraffic) : State × ClientConnection × List String :=
  if conn.tsChannels then
    (s.spawn (worker .txSubmission connName conn.peerId
        (TxSubmission.runTxSubmission traffic.initSent traffic.requests)),
      { conn with tsChannels := false, tsHandle := some s.spawned }, ["tx-submission"])
  else (s, conn, [])

/-! ## Client steps -/

/-- An event of a session, through `tracer`. -/
def sessionEvents {τ ρ μ κ : Type} (tracer : Tracer) (session : Session τ ρ μ κ) :
    List Outgoing := session.trace.map fun e => ⟨tracer, e.event⟩

/-- `VariableSet`. -/
def variableSet (name shape : String) : Outgoing :=
  ⟨tracer, .new .variableSet .internal (.object [("name", .string name), ("shape", .string shape)])⟩

/-- What a step emits and does, given the connection it has checked out. -/
structure Use (κ : Type) where
  conn : κ
  events : List Outgoing
  completion : Completion

/-- A step on a client connection. It fails if there is none of the name, or its channels have
been used. -/
def onClient (kind : LeafKind) (onName : Option String)
    (use : ClientConnection → Option (Use ClientConnection)) (s : State) :
    Option (State × Task) :=
  let connName := nameOr onName
  match s.connections connName with
  | none => none
  | some conn =>
    (use conn).map fun u =>
      ({ s with connections := s.connections.erase connName },
        { emitter := .step kind, connName, peerId := u.conn.peerId, pending := u.events,
          held := .client u.conn, completion := u.completion })

/-- `StepKind::Connect`. -/
def connect (asName peerId : Option String) (addr : String) (s : State) : Option (State × Task) :=
  let connName := nameOr asName
  let opened := (TraceEvent.new .connectionOpened .internal
    (.object [("addr", .string addr)])).withConnection connName
  some (s, {
    emitter := .step .connect
    connName
    peerId
    pending := [⟨tracer, opened⟩]
    held := .nothing
    completion := .openClient {
      hsChannels := true
      csChannels := true
      bfChannels := true
      kaChannels := true
      tsChannels := true
      lnChannels := true
      lfChannels := true
      kaHandle := none
      tsHandle := none
      peerId } })

/-- `StepKind::Handshake`, up to the start of the workers. -/
def handshake (onName : Option String) (versions : List UInt64) (magic : UInt64)
    (result : Except String HandshakeResult) (traffic : WorkerTraffic) :
    State → Option (State × Task) :=
  onClient .handshake onName fun conn =>
    if conn.hsChannels then
      let (negotiated, session) :=
        (Handshake.handshakeOnChannels versions magic result).run Handshake.session
      some {
        conn := { conn with hsChannels := false }
        events := sessionEvents (tracer.forPeerOpt conn.peerId) session
        completion := match negotiated with
          | .ok _ => .spawnWorkers traffic
          | .error _ => .nothing }
    else none

/-- The workers of a connection start, and `StepKind::Handshake` goes on. -/
def startWorkers (s : State) (id : Nat) (task : Task) (conn : ClientConnection)
    (traffic : WorkerTraffic) : State :=
  let (s₁, conn₁, keepAlive) := spawnKeepAlive s task.connName conn traffic
  let (s₂, conn₂, txSubmission) := spawnTxSubmission s₁ task.connName conn₁ traffic
  s₂.setTask id (some { task with
    pending := [⟨tracer, workersStarted task.connName (keepAlive ++ txSubmission)⟩]
    held := .client conn₂
    completion := .nothing })

/-- `StepKind::ChainSync`; without a session it fails before. -/
def chainSync (onName output : Option String)
    (session : Option (List Point × UInt64 × ChainSyncReplies)) : State → Option (State × Task) :=
  onClient .chainSync onName fun conn =>
    if conn.csChannels then
      some {
        conn := { conn with csChannels := false }
        events := match session with
          | none => []
          | some (points, count, replies) =>
            let (result, session) :=
              (ChainSyncClient.runChainSync points count replies).run ChainSyncClient.session
            sessionEvents (tracer.forPeerOpt conn.peerId) session ++ match result, output with
              | .ok summary, some var =>
                let n := summary.collectedPoints.length
                [variableSet var s!"array[{n}]"]
              | _, _ => []
        completion := .nothing }
    else none

/-- `StepKind::BlockFetch`. -/
def blockFetch (onName : Option String) (session : Option (List Point × Nat × BlockFetchReplies)) :
    State → Option (State × Task) :=
  onClient .blockFetch onName fun conn =>
    if conn.bfChannels then
      some {
        conn := { conn with bfChannels := false }
        events := match session with
          | none => []
          | some (points, batchSize, replies) =>
            sessionEvents (tracer.forPeerOpt conn.peerId)
              ((BlockFetchClient.runBlockFetch points batchSize replies).run
                BlockFetchClient.session).2
        completion := .nothing }
    else none

/-- `StepKind::LeiosNotify`. -/
def leiosNotify (onName : Option String) (count : UInt64) (replies : LeiosNotifyReplies) :
    State → Option (State × Task) :=
  onClient .leiosNotify onName fun conn =>
    if conn.lnChannels then
      some {
        conn := { conn with lnChannels := false }
        events := sessionEvents (tracer.forPeerOpt conn.peerId)
          ((LeiosNotifyClient.runLeiosNotify count replies).run LeiosNotifyClient.session).2
        completion := .nothing }
    else none

/-- `StepKind::LeiosFetch`. -/
def leiosFetch (onName : Option String) (session : Option (List NcPoint × LeiosFetchReplies)) :
    State → Option (State × Task) :=
  onClient .leiosFetch onName fun conn =>
    if conn.lfChannels then
      some {
        conn := { conn with lfChannels := false }
        events := match session with
          | none => []
          | some (points, replies) =>
            sessionEvents (tracer.forPeerOpt conn.peerId)
              ((LeiosFetchClient.runLeiosFetch points replies).run LeiosFetchClient.session).2
        completion := .nothing }
    else none

/-- What `query_tip` puts around the events of `fetch_tip`, and emits if it finds a tip. -/
def tipEvents (connName : String) (output : Option String) (tip : Except String (Option NcTip)) :
    List Outgoing :=
  match tip with
  | .error _ => []
  | .ok tip =>
    let (point, blockNumber) := match tip with
      | none => (Point.origin, 0)
      | some tip => (fromNcPoint tip.point, tip.blockNo)
    let completed := (TraceEvent.new .queryTipCompleted .internal
      (.object [("tip", .object [("block_number", .ofU64 blockNumber),
        ("point", .string (pointToStr point))])])).withConnection connName
    ⟨tracer, completed⟩ ::
      (output.map fun var => variableSet var "tip{point,block_number}").toList

/-- `StepKind::QueryTip`. It opens a connection of its own, which has no name and no label; the
events around it name the one the step is on. -/
def queryTip (onName output : Option String) (versions : List UInt64) (magic : UInt64)
    (result : Except String HandshakeResult) (tip : Except String (Option NcTip)) (s : State) :
    Option (State × Task) :=
  let connName := nameOr onName
  let (negotiated, session) :=
    (Handshake.handshakeOnChannels versions magic result).run Handshake.session
  let started := (TraceEvent.new .queryTipStarted .internal (.object [])).withConnection connName
  some (s, {
    emitter := .step .queryTip
    connName
    peerId := none
    pending := ⟨tracer, started⟩ :: sessionEvents tracer session ++ match negotiated with
      | .ok _ => tipEvents connName output tip
      | .error _ => []
    held := .nothing
    completion := .nothing })

/-- `StepKind::Disconnect`. -/
def disconnect (onName : Option String) (s : State) : Option (State × Task) :=
  let connName := nameOr onName
  match s.connections connName with
  | none => none
  | some conn =>
    let closed := (TraceEvent.new .connectionClosed .internal (.object [])).withConnection connName
    let s' := (s.abort conn.kaHandle).abort conn.tsHandle
    some ({ s' with connections := s'.connections.erase connName }, {
      emitter := .step .disconnect
      connName
      peerId := conn.peerId
      pending := [⟨tracer, closed⟩]
      held := .nothing
      completion := .nothing })

/-! ## Server steps -/

/-- The `ServerListenStarted` event. -/
def listenStarted (addr : String) : TraceEvent :=
  .new .serverListenStarted .internal (.object [("bind_address", .string addr)])

/-- `StepKind::Listen`. -/
def listen (asName : Option String) (addr : String) (s : State) : Option (State × Task) :=
  some (s, {
    emitter := .step .listen
    connName := nameOr asName
    peerId := none
    pending := [⟨tracer, listenStarted addr⟩]
    held := .nothing
    completion := .openListener })

/-- `StepKind::CloseListener`. -/
def closeListener (onName : Option String) (s : State) : Option (State × Task) :=
  let listenerName := nameOr onName
  some ({ s with listeners := s.listeners.erase listenerName }, {
    emitter := .step .closeListener
    connName := listenerName
    peerId := none
    pending := [⟨tracer, .new .serverListenStopped .internal (.object [])⟩]
    held := .nothing
    completion := .nothing })

/-- What `StepKind::AcceptHandshake` emits. The client has proposed `versions`; there is a version
if the handshake succeeds. -/
def acceptEvents (connName peerAddress : String) (versions : List UInt64) (magic : UInt64)
    (version : Option UInt64) : List Outgoing :=
  let accepted := (TraceEvent.new .serverBearerAccepted .internal
    (.object [("peer_address", .string peerAddress)])).withConnection connName
  let proposed := (Handshake.proposedEvent .received versions magic).withConnection connName
  let answered := match version with
    | none => []
    | some version =>
      [(Handshake.acceptedEvent .sent version).withConnection connName,
        (TraceEvent.new .serverHandshakeAccepted .internal
          (.object [("negotiated_version", .ofU64 version),
            ("peer_address", .string peerAddress)])).withConnection connName,
        workersStarted connName ["keep-alive"]]
  (accepted :: proposed :: answered).map (Outgoing.mk tracer)

/-- `StepKind::AcceptHandshake`. The worker it starts emits nothing. -/
def acceptHandshake (onName asName peerId : Option String) (peerAddress : String)
    (versions : List UInt64) (magic : UInt64) (version : Option UInt64) (s : State) :
    Option (State × Task) :=
  let connName := nameOr asName
  match s.listeners (nameOr onName) with
  | none => none
  | some () => some (s, {
      emitter := .step .acceptHandshake
      connName
      peerId
      pending := acceptEvents connName peerAddress versions magic version
      held := .nothing
      completion := match version with
        | none => .nothing
        | some _ => .openServer {
            csChannels := true
            bfChannels := true
            lnChannels := true
            lfChannels := true
            peerId } })

/-- A step on a server connection. It fails if there is none of the name, or its channels have
been used. -/
def onServer (kind : LeafKind) (onName : Option String)
    (use : ServerConnection → Option (Use ServerConnection)) (s : State) :
    Option (State × Task) :=
  let connName := nameOr onName
  match s.serverConnections connName with
  | none => none
  | some conn =>
    (use conn).map fun u =>
      ({ s with serverConnections := s.serverConnections.erase connName },
        { emitter := .step kind, connName, peerId := u.conn.peerId, pending := u.events,
          held := .server u.conn, completion := u.completion })

/-- `sc.peer_id = Some(as_peer_id)`, if there is an `as_peer` and its peer was found. -/
def ServerConnection.asPeer (conn : ServerConnection) (asPeer : Option String) :
    ServerConnection := { conn with peerId := asPeer.or conn.peerId }

/-- `StepKind::ServeChainSync`; without a session it fails before. -/
def serveChainSync (onName asPeer : Option String)
    (session : Option (List ScriptRule × Option FixtureChain × List ReceivedRequest)) :
    State → Option (State × Task) :=
  onServer .serveChainSync onName fun conn =>
    if conn.csChannels then
      let conn := { conn.asPeer asPeer with csChannels := false }
      some {
        conn
        events := match session with
          | none => []
          | some (rules, fixture, incoming) =>
            sessionEvents (tracer.forPeerOpt conn.peerId)
              ((ChainSync.executeResponseScript rules fixture incoming).run
                (ChainSync.session fixture)).2
        completion := .nothing }
    else none

/-- `StepKind::ServeBlockFetch`. -/
def serveBlockFetch (onName asPeer : Option String)
    (session : Option (List ScriptRule × Option BlockFixtureChain × List BlockFetchRequest)) :
    State → Option (State × Task) :=
  onServer .serveBlockFetch onName fun conn =>
    if conn.bfChannels then
      let conn := { conn.asPeer asPeer with bfChannels := false }
      some {
        conn
        events := match session with
          | none => []
          | some (rules, fixture, incoming) =>
            sessionEvents (tracer.forPeerOpt conn.peerId)
              ((BlockFetch.executeBlockFetchScript rules fixture incoming).run BlockFetch.session).2
        completion := .nothing }
    else none

/-- `StepKind::ServeLeiosNotify`. -/
def serveLeiosNotify (onName : Option String)
    (session : Option (LeiosNotifyRunner × List LeiosNotifyAction × List LeiosNotifyIncoming)) :
    State → Option (State × Task) :=
  onServer .serveLeiosNotify onName fun conn =>
    if conn.lnChannels then
      some {
        conn := { conn with lnChannels := false }
        events := match session with
          | none => []
          | some (runner, actions, incoming) =>
            sessionEvents (tracer.forPeerOpt conn.peerId)
              ((LeiosNotify.executeLeiosNotifyScript runner actions incoming).run
                LeiosNotify.session).2
        completion := .nothing }
    else none

/-- A runner that emits nothing, as the library's does not. -/
structure QuietRunner extends LeiosFetchRunner where
  send_trace : ∀ message s, ((send message).run s).2.trace = s.trace
  sendRaw_trace : ∀ bytes s, ((sendRaw bytes).run s).2.trace = s.trace

/-- `StepKind::ServeLeiosFetch`. -/
def serveLeiosFetch (onName : Option String)
    (session : Option (QuietRunner × List LeiosFetchRule × List FetchMessage)) :
    State → Option (State × Task) :=
  onServer .serveLeiosFetch onName fun conn =>
    if conn.lfChannels then
      some {
        conn := { conn with lfChannels := false }
        events := match session with
          | none => []
          | some (runner, rules, incoming) =>
            sessionEvents (tracer.forPeerOpt conn.peerId)
              ((LeiosFetch.executeLeiosFetchScript runner.toLeiosFetchRunner rules incoming).run
                LeiosFetch.session).2
        completion := .nothing }
    else none

/-! ## Runs -/

/-- A step that is about connections. -/
inductive NetStep where
  | connect (asName peerId : Option String) (addr : String)
  | handshake (onName : Option String) (versions : List UInt64) (magic : UInt64)
      (result : Except String HandshakeResult) (traffic : WorkerTraffic)
  | chainSync (onName output : Option String)
      (session : Option (List Point × UInt64 × ChainSyncReplies))
  | blockFetch (onName : Option String) (session : Option (List Point × Nat × BlockFetchReplies))
  | leiosNotify (onName : Option String) (count : UInt64) (replies : LeiosNotifyReplies)
  | leiosFetch (onName : Option String) (session : Option (List NcPoint × LeiosFetchReplies))
  | queryTip (onName output : Option String) (versions : List UInt64) (magic : UInt64)
      (result : Except String HandshakeResult) (tip : Except String (Option NcTip))
  | disconnect (onName : Option String)
  | listen (asName : Option String) (addr : String)
  | closeListener (onName : Option String)
  | acceptHandshake (onName asName peerId : Option String) (peerAddress : String)
      (versions : List UInt64) (magic : UInt64) (version : Option UInt64)
  | serveChainSync (onName asPeer : Option String)
      (session : Option (List ScriptRule × Option FixtureChain × List ReceivedRequest))
  | serveBlockFetch (onName asPeer : Option String)
      (session : Option (List ScriptRule × Option BlockFixtureChain × List BlockFetchRequest))
  | serveLeiosNotify (onName : Option String)
      (session : Option (LeiosNotifyRunner × List LeiosNotifyAction × List LeiosNotifyIncoming))
  | serveLeiosFetch (onName : Option String)
      (session : Option (QuietRunner × List LeiosFetchRule × List FetchMessage))

/-- A step starts; `none` if it fails before it does anything. -/
def NetStep.start : NetStep → State → Option (State × Task)
  | .connect asName peerId addr => Connections.connect asName peerId addr
  | .handshake onName versions magic result traffic =>
    Connections.handshake onName versions magic result traffic
  | .chainSync onName output session => Connections.chainSync onName output session
  | .blockFetch onName session => Connections.blockFetch onName session
  | .leiosNotify onName count replies => Connections.leiosNotify onName count replies
  | .leiosFetch onName session => Connections.leiosFetch onName session
  | .queryTip onName output versions magic result tip =>
    Connections.queryTip onName output versions magic result tip
  | .disconnect onName => Connections.disconnect onName
  | .listen asName addr => Connections.listen asName addr
  | .closeListener onName => Connections.closeListener onName
  | .acceptHandshake onName asName peerId peerAddress versions magic version =>
    Connections.acceptHandshake onName asName peerId peerAddress versions magic version
  | .serveChainSync onName asPeer session => Connections.serveChainSync onName asPeer session
  | .serveBlockFetch onName asPeer session => Connections.serveBlockFetch onName asPeer session
  | .serveLeiosNotify onName session => Connections.serveLeiosNotify onName session
  | .serveLeiosFetch onName session => Connections.serveLeiosFetch onName session

/-- What happens next. -/
inductive Action where
  | start (step : NetStep)
  /-- The next event of a task is emitted, and written if the trace can be written. -/
  | emit (id : Nat) (written : Bool)
  /-- A task has emitted everything. -/
  | finish (id : Nat)
  /-- A task ends early: by an error, or because it is dropped or aborted. -/
  | drop (id : Nat)
  /-- The imaginary clock moves. -/
  | advance (slot : UInt64)

/-- `emit`: the event is stamped, and written. -/
def emitNext (s : State) (id : Nat) (written : Bool) (task : Task) (out : Outgoing)
    (rest : List Outgoing) : State :=
  let line := ⟨task.emitter, task.connName, task.peerId,
    out.tracer.stamp s.currentSlot out.event⟩
  let s' := s.setTask id (some { task with pending := rest })
  if written then { s' with trace := s'.trace ++ [line] } else s'

/-- A task that has emitted everything does what is left to do. -/
def complete (s : State) (id : Nat) (task : Task) : State :=
  let ended := (s.setTask id none).putBack task.connName task.held
  match task.completion with
  | .nothing => ended
  | .openClient conn => { ended with connections := ended.connections.insert task.connName conn }
  | .openServer conn =>
    { ended with serverConnections := ended.serverConnections.insert task.connName conn }
  | .openListener => { ended with listeners := ended.listeners.insert task.connName () }
  | .spawnWorkers traffic =>
    match task.held with
    | .client conn => startWorkers s id task conn traffic
    | _ => ended

/-- One action; `none` if it cannot be taken. -/
def act (s : State) : Action → Option State
  | .start step => (step.start s).map fun (s', task) => s'.spawn task
  | .emit id written =>
    match s.tasks id with
    | none => none
    | some task =>
      match task.pending with
      | [] => none
      | out :: rest => some (emitNext s id written task out rest)
  | .finish id =>
    match s.tasks id with
    | none => none
    | some task => if task.pending.isEmpty then some (complete s id task) else none
  | .drop id =>
    match s.tasks id with
    | none => none
    | some task => some ((s.setTask id none).putBack task.connName task.held)
  | .advance slot => some { s with currentSlot := s.currentSlot.map fun _ => slot }

/-- Any number of actions. -/
def run (s : State) (actions : List Action) : Option State := actions.foldlM act s

end ConformanceHarness.Connections
