import ConformanceHarness.Lib.Scopes
import ConformanceHarness.Runner.ChainTrace
import ConformanceHarness.Runner.Connections
import ConformanceHarness.Runner.RunScenario
import ConformanceHarness.Runner.SharedState

/-!
# Scenarios as concurrent programs

All of `scenario/runner.rs` on the shared state: `ScenarioRunner::run` with `cleanup`, `run_step`,
and `execute_step` with each of its arms. Branches switch where they await, and an action is what
a branch does from one await to the next. What a step has checked out is held in a scope of the
program, so that it is released however the scope ends.

What a peer answers, and whether input and output succeed, is up to the surroundings. What the
sessions do in detail is in the modules about the protocols: here they emit what they like, and
come to an end or fail. So is the label of a connection. The keep-alive and tx-submission workers
emit at any time.
-/

namespace ConformanceHarness.Concurrent

open Lib
open Lib.Scope (seq always alwaysAll)
open Runner (LeafKind RunError internal)

/-- A scenario as `run` reads it, and its surroundings. -/
structure Setting where
  blake2b : List UInt8 → List UInt8
  files : Files
  scenario : Loader.Scenario
  description : Option String
  networkMagic : UInt64
  expectedOutcome : Option String
  sutGenesisTimeUnix : Option UInt64

/-- `target_address.as_deref().unwrap_or("")`. -/
def Setting.targetAddress (S : Setting) : String := S.scenario.targetAddress.getD ""

/-! ## Actions -/

/-- A step under way: its definition, and its parameters after substitution. -/
structure Leaf where
  step : Loader.StepDef
  params : StepParams
  resolved : Value

/-- `as_name`, or the default. -/
def Leaf.asName (l : Leaf) : String := l.step.asName.getD "default"

/-- `on_name`, or the default. -/
def Leaf.onName (l : Leaf) : String := l.step.onName.getD "default"

/-- What is done under the lock of the trace. -/
inductive Job where
  /-- `emit`, through a clone of the tracer. -/
  | emit (tracer : Tracer) (event : TraceEvent)
  /-- `emit` of the end of a connection. -/
  | close (id : Nat) (event : TraceEvent)
  /-- `drain_buffer`. -/
  | drain
  /-- `drain_buffer` at the end of a step, for its assertions. -/
  | closing (idx : Nat) (step : Loader.StepDef) (result : Except RunError Unit)

/-- The line that is to be written: `emit` stamps before it asks for the lock. -/
def Job.line (currentSlot : Option UInt64) : Job → Option Line
  | emit tracer event => some ⟨tracer.stamp currentSlot event, none⟩
  | close id event => some ⟨Tracer.opened.stamp currentSlot event, some id⟩
  | drain => none
  | closing _ _ _ => none

/-- What happens between two awaits. -/
inductive Action where
  /-- The lock of the trace is asked for. -/
  | request (job : Job)
  /-- The lock has been asked for. -/
  | waiting (ticket : Nat) (job : Job)
  /-- `CheckedOut`: a connection that a step has taken out. -/
  | checkedOut (token : Token)
  /-- `run`, after its first event. -/
  | begin
  | initPeer (peer : Peer)
  /-- `emit_completed`. -/
  | complete (passed failed : Nat) (outcome : String)
  /-- `drain` in `cleanup`. -/
  | drainTable (side : Side)
  | clearListeners
  | closeNext
  /-- The snapshot of the variables, and the substitution. -/
  | substitute (idx : Nat) (step : Loader.StepDef)
  /-- `branch_aborted` for the branches that were dropped. -/
  | reportAborted (branchCount : Nat)
  /-- Input or output that may fail. -/
  | io
  | sleep
  /-- A session with the peer. -/
  | session
  | setVariable (name : String) (v : Value) (shape : String)
  | dial (l : Leaf)
  | openConnection (side : Side) (l : Leaf)
  /-- `CheckedOut::take`, and what the step then does. -/
  | take (side : Side) (l : Leaf) (kind : LeafKind)
  | takeChannel (channel : Channel) (missing : String)
  | startWorkers (l : Leaf)
  | storePoints (l : Leaf)
  | fetchPoints (l : Leaf)
  | serveFixture (l : Leaf) (kind : LeafKind)
  | tip (l : Leaf)
  | disconnect (l : Leaf)
  | openListener (l : Leaf)
  | closeListener (l : Leaf)
  | accept (l : Leaf)
  | serverHandshake (l : Leaf) (peerAddress : String)
  | extendChain (l : Leaf)
  | advanceToSlot (l : Leaf)
  | tickSlots (l : Leaf)

/-- A program of the runner. -/
abbrev Prog := Scope Action RunError

/-- `anyhow!`. -/
def failWith (message : String) : Prog := .failed (.error [message])

/-- `tracer.emit(..).await?`. -/
def emit (event : TraceEvent) : Prog := .act (.request (.emit .opened event))

/-- Events of a step, one after the other, and what follows. -/
def emitAll (events : List Connections.Outgoing) (k : Prog) : Prog :=
  events.foldr (fun out k => seq (.act (.request (.emit out.tracer out.event))) k) k

/-- `let _ = tracer.emit(..).await`, for any number of events. -/
def emitIgnored (events : List TraceEvent) (k : Prog) : Prog := alwaysAll (events.map emit) k

/-! ## The arms of `execute_step` -/

/-- The address a `connect` or a `query_tip` step dials. -/
def address (S : Setting) (l : Leaf) : String :=
  match l.step.kind with
  | .leaf .connect => l.params.targetAddress.getD S.targetAddress
  | _ => S.targetAddress

/-- What a step does with the connection it has checked out. -/
def withConnection (l : Leaf) : LeafKind → Prog
  | .handshake =>
    seq (.act (.takeChannel .hs "handshake: no channels (already used?)"))
      (seq (.act .session) (.act (.startWorkers l)))
  | .chainSync =>
    seq (.act (.takeChannel .cs "chain_sync: no channels (already used?)"))
      (match mapEntries parsePoint (l.params.intersectionPoints.getD ["origin"]) with
      | .error f => .failed (.ofFault [] f)
      | .ok _ => seq (.act .session) (.act (.storePoints l)))
  | .blockFetch =>
    seq (.act (.takeChannel .bf "block_fetch: no channels (already used?)"))
      (match l.params.points.getD .fromChainSync with
      | .fromChainSync => seq (.act (.fetchPoints l)) (seq (.act .session) (.act .io))
      | .explicit strings =>
        match mapEntries parsePoint strings with
        | .error f => .failed (.ofFault [] f)
        | .ok _ => seq (.act .session) (.act .io))
  | .leiosNotify =>
    seq (.act (.takeChannel .ln "leios_notify: no channels (already used?)")) (.act .session)
  | .leiosFetch =>
    seq (.act (.takeChannel .lf "leios_fetch: no channels (already used?)"))
      (match l.params.points with
      | none => failWith "leios_fetch: points is required"
      | some .fromChainSync =>
        failWith ("leios_fetch: points = \"from_chain_sync\" is not supported; " ++
          "use an explicit array or a $varname reference")
      | some (.explicit strings) =>
        match mapEntries parsePoint strings with
        | .error f => .failed (.ofFault [] f)
        | .ok _ => .act .session)
  | .serveChainSync =>
    seq (.act (.takeChannel .cs "serve_chain_sync: no chain-sync channel"))
      (.act (.serveFixture l .serveChainSync))
  | .serveBlockFetch =>
    seq (.act (.takeChannel .bf "serve_block_fetch: no block-fetch channel"))
      (.act (.serveFixture l .serveBlockFetch))
  -- what these two make of `notifications` and `responses` is up to the session
  | .serveLeiosNotify =>
    seq (.act (.takeChannel .ln "serve_leios_notify: no leios-notify channel")) (.act .session)
  | .serveLeiosFetch =>
    seq (.act (.takeChannel .lf "serve_leios_fetch: no leios-fetch channel")) (.act .session)
  | _ => .done

/-- `ConnectionOpened`. -/
def connectionOpened (addr name : String) : TraceEvent :=
  (internal .connectionOpened [("addr", .string addr)]).withConnection name

/-- The kind of an `emit_peer_event` step. -/
def peerEventKind : String → EventKind
  | "peer_produced_block" => .peerProducedBlock
  | "peer_cast_vote" => .peerCastVote
  | "peer_forked_chain" => .peerForkedChain
  | "peer_joined_network" => .peerJoinedNetwork
  | "peer_left_network" => .peerLeftNetwork
  | _ => .peerNetworkEvent

/-- `StepKind::EmitPeerEvent`. -/
def emitPeerEvent (l : Leaf) : Prog :=
  match l.params.peerId with
  | none => failWith "emit_peer_event: peer_id is required"
  | some peerId =>
    match l.params.eventKind with
    | none => failWith "emit_peer_event: event_kind is required"
    | some kind =>
      let payload := (l.resolved.getField "payload").getD (.object [])
      emit ((TraceEvent.new (peerEventKind kind) .internal payload).withPeerId peerId)

/-- `execute_step`, for a step that has no steps of its own. -/
def executeLeaf (S : Setting) (l : Leaf) : LeafKind → Prog
  | .connect =>
    seq (.act (.dial l)) (seq (emit (connectionOpened (address S l) l.asName))
      (.act (.openConnection .client l)))
  | .queryTip =>
    seq (emit ((internal .queryTipStarted []).withConnection l.onName))
      (seq (.act (.dial l)) (seq (.act .session) (.act (.tip l))))
  | .handshake => .act (.take .client l .handshake)
  | .chainSync => .act (.take .client l .chainSync)
  | .blockFetch => .act (.take .client l .blockFetch)
  | .leiosNotify => .act (.take .client l .leiosNotify)
  | .leiosFetch => .act (.take .client l .leiosFetch)
  | .serveChainSync => .act (.take .server l .serveChainSync)
  | .serveBlockFetch => .act (.take .server l .serveBlockFetch)
  | .serveLeiosNotify => .act (.take .server l .serveLeiosNotify)
  | .serveLeiosFetch => .act (.take .server l .serveLeiosFetch)
  | .disconnect => .act (.disconnect l)
  | .sleep => .act .sleep
  | .listen =>
    seq (.act .io)
      (seq (emit (Connections.listenStarted (l.params.bindAddress.getD "0.0.0.0:3001")))
        (.act (.openListener l)))
  | .acceptHandshake => .act (.accept l)
  | .closeListener => .act (.closeListener l)
  | .emitPeerEvent => emitPeerEvent l
  | .peerExtendsChain => .act (.extendChain l)
  | .advanceToSlot => .act (.advanceToSlot l)
  | .tickSlots => .act (.tickSlots l)

/-! ## `run_step`, `repeat` and `parallel` -/

/-- The parameters `run_step` substitutes variables in. -/
def substituted (step : Loader.StepDef) : Value :=
  match step.kind with
  | .leaf _ => step.rawParams
  | .repeat | .parallel => step.rawParams.withoutBodies

/-- `run_step`, up to the substitution. -/
def runStep (idx : Nat) (step : Loader.StepDef) : Prog :=
  seq (.act (.request .drain)) (seq (emit (Runner.stepStarted idx step.kind.asStr))
    (seq (.act (.request .drain)) (.act (.substitute idx step))))

/-- The steps of a `repeat` body, from `idx` on. -/
def runBody : Nat → List Loader.StepDef → Prog
  | _, [] => .done
  | idx, step :: rest => seq (runStep idx step) (runBody (idx + 1) rest)

/-- One iteration of a `repeat` step. -/
def iteration (body : List Loader.StepDef) (i total : Nat) : Prog :=
  seq (emit (Runner.iterationStarted i total))
    (.bind (runBody 0 body) (emit (Runner.iterationCompleted i)) fun e =>
      seq (emit (Runner.iterationErred i e)) (.failed e))

/-- The iterations from `i` on, `n` of them. -/
def iterations (body : List Loader.StepDef) (total : Nat) : Nat → Nat → Prog
  | _, 0 => .done
  | i, n + 1 => seq (iteration body i total) (iterations body total (i + 1) n)

/-- `StepKind::Repeat`. -/
def executeRepeat (step : Loader.StepDef) (resolved : Value) : Prog :=
  match Runner.times resolved with
  | .error e => .failed e
  | .ok n =>
    match step.get "body" with
    | none => failWith "repeat step requires body"
    | some v =>
      match Loader.stepsOf v with
      | none => failWith "invalid repeat body"
      | some body => iterations body n 0 n

/-- The steps of a branch, from `si` on. -/
def branchSteps (bi : Nat) : Nat → List Loader.StepDef → Prog
  | _, [] => emit (Runner.branchCompleted bi)
  | si, step :: rest =>
    .bind (runStep si step) (branchSteps bi (si + 1) rest) fun e =>
      always (emit (Runner.branchFailed bi si e)) (.failed e)

/-- A branch. -/
def branch (bi : Nat) (steps : List Loader.StepDef) : Prog :=
  seq (emit (Runner.branchStarted bi)) (branchSteps bi 0 steps)

/-- `StepKind::Parallel`. -/
def executeParallel (step : Loader.StepDef) : Prog :=
  match step.get "branches" with
  | none => failWith "parallel step requires branches"
  | some v =>
    match Loader.branchesOf v with
    | none => failWith "parallel: invalid branches"
    | some branches =>
      let n := branches.length
      seq (emit (Runner.parallelStarted n))
        (.bind (.par (branches.mapIdx branch)) (emit (Runner.parallelCompleted (.ok ()))) fun e =>
          seq (.act (.reportAborted n))
            (seq (emit (Runner.parallelCompleted (.error e))) (.failed e)))

/-- `execute_step`. -/
def executeStep (S : Setting) (step : Loader.StepDef) (resolved : Value) : Prog :=
  match StepParams.fromValue resolved with
  | none =>
    let kind := step.kind.asStr
    failWith s!"step ({kind}): invalid params after substitution"
  | some params =>
    match step.kind with
    | .leaf kind => executeLeaf S ⟨step, params, resolved⟩ kind
    | .repeat => executeRepeat step resolved
    | .parallel => executeParallel step

/-- `run_step`, from the substitution to the end of the step. -/
def substitutedStep (S : Setting) (idx : Nat) (step : Loader.StepDef) (resolved : Value)
    (refs : List (String × String)) : Prog :=
  emitIgnored (refs.map fun r => Runner.variableReferenced idx r.1 r.2)
    (.bind (executeStep S step resolved) (.act (.request (.closing idx step (.ok ())))) fun e =>
      .act (.request (.closing idx step (.error e))))

/-- The end of `run_step`: the assertions, and `StepCompleted`. -/
def completeStep (idx : Nat) (step : Loader.StepDef) (result : Except RunError Unit)
    (events : List TraceEvent) : Prog :=
  let results := match step.expect with
    | none => []
    | some expect => Runner.evaluateAssertions expect events
  emitIgnored (results.map (Runner.assertionEvent idx)) <|
    match result with
    | .ok () =>
      if results.all Runner.AssertionResult.passed then emit (Runner.stepCompleted idx "ok")
      else seq (emit (Runner.stepCompleted idx "assertion_failed")) (.failed .assertionFailure)
    | .error e => emitIgnored [Runner.stepErred idx e] (.failed e)

/-! ## `run` -/

/-- `cleanup`. -/
def cleanup : Prog :=
  seq (.act (.drainTable .server)) (seq (.act .clearListeners) (.act (.drainTable .client)))

/-- The loop over the steps of a scenario; those before `idx` have passed. -/
def runSteps : Nat → List Loader.StepDef → Prog
  | idx, [] => .act (.complete idx 0 "completed")
  | idx, step :: rest =>
    .bind (runStep idx step) (runSteps (idx + 1) rest) fun e =>
      seq cleanup (seq (.act (.complete idx 1 e.outcome)) (.failed e))

/-- The initialisation of the declared peers. -/
def initPeers : List Peer → Prog
  | [] => .done
  | peer :: rest => seq (.act (.initPeer peer)) (initPeers rest)

/-- `ScenarioStarted`. -/
def scenarioStarted (S : Setting) : TraceEvent :=
  internal .scenarioStarted
    [("description", .ofOption .string S.description),
      ("expected_outcome", .ofOption .string S.expectedOutcome),
      ("name", .string S.scenario.name), ("network_magic", .ofU64 S.networkMagic),
      ("steps", .ofLen S.scenario.steps.length), ("target_address", .string S.targetAddress)]

/-- What `run` does before the loop. -/
def prelude (S : Setting) : Prog :=
  seq (emit (scenarioStarted S)) <| seq (.act .begin) <|
    match S.scenario.network with
    | none => .done
    | some network =>
      seq (emit (Runner.networkDeclared network.peers)) (initPeers network.peers)

/-- `ScenarioRunner::run`. -/
def run (S : Setting) : Prog := seq (prelude S) (runSteps 0 S.scenario.steps)

/-! ## What the actions do -/

/-- The lock of the trace is asked for. -/
def State.request (s : State) (job : Job) : State :=
  { s with trace := s.trace.request (job.line s.net.currentSlot) false }

/-- The step waits for the lock it has asked for. -/
def State.wait (s : State) (job : Job) : Prog := .act (.waiting s.trace.tickets job)

/-- How a step goes on when the lock has been granted; `written` if it has written its line. -/
def Resumes (events : List TraceEvent) (written : Bool) : Job → Prog → Prop
  | .emit _ _, rest => (written = true ∧ rest = .done) ∨ ∃ e, rest = .failed e
  | .close _ _, rest => (written = true ∧ rest = .done) ∨ ∃ e, rest = .failed e
  | .drain, rest => rest = .done
  | .closing idx step result, rest => rest = completeStep idx step result events

/-- Input or output has succeeded, or has failed. -/
def Ends (rest : Prog) : Prop := rest = .done ∨ ∃ e, rest = .failed e

/-- An event of a session, or of a worker. -/
def IsOwn (event : TraceEvent) : Prop :=
  Runner.isFrameKind event.kind = false ∧ event.kind ≠ .slotAdvanced ∧
    event.kind ≠ .connectionClosed ∧ event.slot = none

/-- `VariableSet`. -/
def variableSet (name shape : String) : TraceEvent :=
  internal .variableSet [("name", .string name), ("shape", .string shape)]

/-- `ConnectionClosed` of a `disconnect` step. -/
def connectionClosed (name : String) : TraceEvent :=
  (internal .connectionClosed []).withConnection name

/-- `ServerListenStopped`. -/
def listenStopped : TraceEvent := internal .serverListenStopped []

/-- `SlotAdvanced`, at the slot it advances to. -/
def slotAdvanced (fromSlot toSlot : UInt64) (reason : String) : TraceEvent :=
  { internal .slotAdvanced
      [("from_slot", .ofU64 fromSlot), ("reason", .string reason), ("to_slot", .ofU64 toSlot)] with
    slot := some toSlot }

/-- `PeerChainExtended`. -/
def peerChainExtended (e : ChainExtended) : TraceEvent :=
  internal .peerChainExtended
    ([("block_hash", .string e.blockHash), ("block_number", .ofU64 e.blockNumber)] ++
      Runner.optionalField "defect_kind" e.defectKind ++
      [("peer_id", .string e.peerId), ("slot", .ofU64 e.slot), ("source", .string e.source)])

/-- `ProductionRuleFired`. -/
def productionRuleFired (ev : ProductionEvent) : TraceEvent :=
  internal .productionRuleFired
    [("peer_id", .string ev.peerId), ("rule_kind", .string ev.ruleKind),
      ("skipped", .bool ev.skipped), ("slot", .ofU64 ev.slot)]

/-- `emit_production_events`. -/
def emitProductionEvents : List ProductionEvent → Prog
  | [] => .done
  | ev :: rest =>
    seq (emit (productionRuleFired ev))
      (seq (if ev.skipped then .done else emit (peerChainExtended ev.chainExtended))
        (emitProductionEvents rest))

/-- What a serve step reads. -/
def serveEnv (S : Setting) (s : State) : ServeEnv where
  files := S.files
  network := S.scenario.network.map Loader.Network.peers
  peers := s.net.peers
  currentSlot := s.net.currentSlot

/-- The script of a serve step. -/
def serveFixture (S : Setting) (s : State) (l : Leaf) (kind : LeafKind) :
    Except Fault (List ScriptRule) :=
  let env := serveEnv S s
  let responses := l.step.get "responses"
  if kind = .serveChainSync then do
    ServeChainSync.script (← ServeChainSync.fixture env l.params)
      (ServeChainSync.awaitSecs l.params) responses
  else do
    ServeBlockFetch.script (← ServeBlockFetch.fixture env l.params) l.params.noBlocksDefault
      responses

/-- `advance_to_slot` or `tick_slots`: the clock has moved, and `slot_advanced` is waited for. -/
def moveClock (reason : String) (s : State) (net : RunState) : State × Prog :=
  let event := slotAdvanced (s.net.currentSlot.getD 0) (net.currentSlot.getD 0) reason
  let moved := { s with net }
  let job := Job.emit .opened event
  (moved.request job, seq (moved.wait job) (emitProductionEvents (newEvents s.net net)))

/-- What an action does to the state, and what it leaves to do. `held` is what the step has
checked out. -/
def exec (S : Setting) (held : List Action) : Action → State → State → Prog → Prop
  | .request job, s, s', rest => s' = s.request job ∧ rest = s.wait job
  | .waiting ticket job, s, s', rest => ∃ w queue written, s.trace.queue = w :: queue ∧
    TraceFile.isStep ticket w = true ∧ s' = { s with trace := s.trace.grant w queue written } ∧
    Resumes s.trace.eventBuffer written job rest
  | .checkedOut _, _, _, _ => False
  | .begin, s, s', rest =>
    rest = .done ∧ ∃ vars, s' = { s with net := { s.net with
      currentSlot := S.scenario.network.bind Loader.Network.startSlot, vars } } ∧
      match S.sutGenesisTimeUnix with
      | none => vars = s.net.vars
      | some _ => ∃ slot : UInt64, vars = (s.net.vars.insert "current_slot" (.ofU64 slot)).insert
          "current_slot_minus_100" (.ofU64 (if slot < 100 then 0 else slot - 100))
  | .initPeer peer, s, s', rest =>
    match peer.initialState S.files with
    | .error f => s' = s ∧ rest = .failed (.ofFault [] f)
    | .ok ps =>
      let moved := { s with net := { s.net with peers := s.net.peers.insert peer.id ps } }
      let job := Job.emit .opened (Runner.peerStateInitialized peer ps)
      s' = moved.request job ∧ rest = moved.wait job
  | .complete passed failed outcome, s, s', rest => ∃ ms,
    let job := Job.emit .opened
      (Runner.scenarioCompleted S.scenario.name passed failed ms outcome)
    s' = s.request job ∧ rest = always (s.wait job) .done
  | .drainTable side, s, s', rest => ∃ order,
    order.Perm ((s.conns.table side).entries.map fun e => (e.1, e.2)) ∧
    s' = { s with conns := s.conns.drain side order } ∧ rest = .act .closeNext
  | .clearListeners, s, s', rest =>
    s' = { s with conns := { s.conns with listeners := ∅ } } ∧ rest = .done
  | .closeNext, s, s', rest =>
    match s.conns.drained with
    | [] => s' = s ∧ rest = .done
    | (name, id) :: more =>
      let closed := { s with conns := s.conns.closeNext id more }
      let job := Job.close id (Runner.connectionClosed name)
      s' = closed.request job ∧ rest = always (closed.wait job) (.act .closeNext)
  | .substitute idx step, s, s', rest =>
    s' = s ∧ rest = match substituteInValue (substituted step) s.net.vars with
      | .error f =>
        let kind := step.kind.asStr
        .failed (.ofFault [s!"step[{idx}] ({kind}): variable substitution failed"] f)
      | .ok (resolved, refs) => substitutedStep S idx step resolved refs
  | .reportAborted branchCount, s, s', rest =>
    s' = s ∧ ∃ reports : List (Nat × Nat), (∀ r ∈ reports, r.1 < branchCount) ∧
      rest = emitIgnored (reports.map fun r => Runner.branchAborted r.1 r.2) .done
  | .io, s, s', rest => s' = s ∧ Ends rest
  | .sleep, s, s', rest => s' = s ∧ rest = .done
  | .session, s, s', rest => s' = s ∧ (Ends rest ∨ ∃ tracer event, IsOwn event ∧
      rest = seq (.act (.request (.emit tracer event))) (.act .session))
  | .setVariable name v shape, s, s', rest =>
    let moved := { s with net := { s.net with vars := s.net.vars.insert name v } }
    let job := Job.emit .opened (variableSet name shape)
    s' = moved.request job ∧ rest = moved.wait job
  | .dial l, s, s', rest =>
    s' = { s with dialed := s.dialed ++ [⟨l.step, l.params, address S l⟩] } ∧ Ends rest
  | .openConnection side l, s, s', rest =>
    let conn := match side with
      | .client => Connection.opened l.asName
      | .server => Connection.accepted l.asName
    s' = { s with conns := s.conns.openAs side l.step conn } ∧ rest = .done
  | .take side l kind, s, s', rest =>
    match s.conns.take side l.onName with
    | none =>
      let name := l.onName
      s' = s ∧ rest = failWith (s!"connection \"{name}\" not found " ++
        "(missing connect/accept_handshake, or already in use by another branch)")
    | some (token, conns) =>
      s' = { s with conns } ∧ rest = .hold (.checkedOut token) (withConnection l kind)
  | .takeChannel channel missing, s, s', rest => ∃ token outer,
    held = .checkedOut token :: outer ∧
    if (s.conns.connection token.id).channels.contains channel then
      s' = { s with conns := s.conns.update token.id fun conn =>
        { conn with channels := conn.channels.erase channel } } ∧ rest = .done
    else s' = s ∧ rest = failWith missing
  | .startWorkers l, s, s', rest => ∃ token outer, held = .checkedOut token :: outer ∧
    ∃ version,
      let protocols := (s.conns.connection token.id).workers
      let started := { s with conns := s.conns.update token.id (·.startWorkers version) }
      let job := Job.emit .opened (Connections.workersStarted l.onName protocols)
      s' = started.request job ∧ rest = started.wait job
  | .storePoints l, s, s', rest => ∃ token outer, held = .checkedOut token :: outer ∧
    ∃ points, s' = { s with conns := s.conns.update token.id (·.storePoints points) } ∧
      rest = match l.step.output with
        | none => .act .io
        | some var =>
          let n := points.length
          seq (.act (.setVariable var (.array (points.map fun p => .string (pointToStr p)))
            s!"array[{n}]")) (.act .io)
  | .fetchPoints l, s, s', rest => ∃ token outer, held = .checkedOut token :: outer ∧
    let conn := s.conns.connection token.id
    if conn.lastChainSyncPoints = [] then
      let name := l.onName
      s' = s ∧ rest = failWith (s!"block_fetch: from_chain_sync but no chain_sync points " ++
        s!"on connection \"{name}\"")
    else
      s' = { s with
        conns := s.conns.update token.id fun conn => { conn with lastChainSyncPoints := [] }
        fetched := s.fetched ++ [(conn, conn.lastChainSyncPoints)] } ∧ rest = .done
  | .serveFixture l kind, s, s', rest =>
    s' = s ∧ rest = match serveFixture S s l kind with
      | .error f => .failed (.ofFault [] f)
      | .ok _ => .act .session
  | .tip l, s, s', rest => s' = s ∧ ∃ (point : Point) (blockNumber : UInt64),
    let v := Value.object [("block_number", .ofU64 blockNumber),
      ("point", .string (pointToStr point))]
    rest = seq (emit ((internal .queryTipCompleted [("tip", v)]).withConnection l.onName))
      (match l.step.output with
      | none => .done
      | some var => .act (.setVariable var v "tip{point,block_number}"))
  | .disconnect l, s, s', rest =>
    let name := l.onName
    match s.conns.disconnect l.step name with
    | none => s' = s ∧ rest = failWith s!"disconnect: connection \"{name}\" not found"
    | some (id, conns) =>
      let closed := { s with conns }
      let job := Job.close id (connectionClosed name)
      s' = closed.request job ∧ rest = closed.wait job
  | .openListener l, s, s', rest =>
    s' = { s with conns := { s.conns with
      listeners := insert l.asName s.conns.listeners, log := s.conns.log ++ [l.step] } } ∧
    rest = .done
  | .closeListener l, s, s', rest =>
    let closed := { s with conns := { s.conns with
      listeners := s.conns.listeners.erase l.onName, log := s.conns.log ++ [l.step] } }
    let job := Job.emit .opened listenStopped
    s' = closed.request job ∧ rest = closed.wait job
  | .accept l, s, s', rest => s' = s ∧
    if l.onName ∈ s.conns.listeners then
      (∃ e, rest = .failed e) ∨ ∃ peerAddress, rest = .act (.serverHandshake l peerAddress)
    else
      let name := l.onName
      rest = failWith s!"accept_handshake: listener \"{name}\" not found"
  | .serverHandshake l peerAddress, s, s', rest => s' = s ∧ ∃ versions version,
    let events := Connections.acceptEvents l.asName peerAddress versions S.networkMagic version
    match version with
    | none => ∃ e, rest = emitAll events (.failed e)
    | some _ => rest = emitAll events (.act (.openConnection .server l))
  | .extendChain l, s, s', rest =>
    match peerExtendsChain l.params s.net with
    | .error f => s' = s ∧ rest = .failed (.ofFault [] f)
    | .ok net => ∃ extension, explicitExtension l.params = some extension ∧
      let moved := { s with net }
      let job := Job.emit .opened (peerChainExtended extension)
      s' = moved.request job ∧ rest = moved.wait job
  | .advanceToSlot l, s, s', rest => ∃ order, s.net.peers.IterOrder order ∧
    match advanceToSlot S.blake2b order l.params s.net with
    | none => False
    | some (.error f) => s' = s ∧ rest = .failed (.ofFault [] f)
    | some (.ok net) => (s', rest) = moveClock "advance_to_slot" s net
  | .tickSlots l, s, s', rest => ∃ order, s.net.peers.IterOrder order ∧
    match tickSlots S.blake2b order l.params s.net with
    | none => False
    | some (.error f) => s' = s ∧ rest = .failed (.ofFault [] f)
    | some (.ok net) => (s', rest) = moveClock "tick_slots" s net

/-- A step that is dropped gives back what it has checked out, and waits no more. -/
def drop : Action → State → State
  | .waiting ticket _, s => { s with trace := s.trace.cut ticket }
  | .checkedOut token, s => { s with conns := s.conns.putBack token }
  | _, s => s

/-- What the background workers do: they emit, and end or are aborted at any time. -/
inductive Ambient : State → State → Prop where
  | request {s : State} {tracer : Tracer} {event : TraceEvent} (hown : IsOwn event) :
      Ambient s { s with
        trace := s.trace.request (some ⟨tracer.stamp s.net.currentSlot event, none⟩) true }
  | grant {s : State} {w : Waiter} {queue : List Waiter} {written : Bool}
      (hnext : s.trace.queue = w :: queue) (hworker : w.worker = true) :
      Ambient s { s with trace := s.trace.grant w queue written }
  | cancel {s : State} {before after : List Waiter} {w : Waiter}
      (hqueue : s.trace.queue = before ++ w :: after) (hworker : w.worker = true) :
      Ambient s { s with trace := { s.trace with queue := before ++ after } }

/-- The runner. -/
def machine (S : Setting) : Machine Action RunError State where
  exec := exec S
  drop := drop
  ambient := Ambient

end ConformanceHarness.Concurrent
