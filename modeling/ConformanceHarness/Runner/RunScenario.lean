import ConformanceHarness.Runner.RunStep

/-!
# Scenarios and their records

`ScenarioRunner::run`, next to background workers that emit events of their own, and
what the surroundings answer: the buffer, the variables and the flags, as what was recorded
so far has left them. Whether an event can be written, what a step finds on the
network, and the time are anybody's guess.
-/

namespace ConformanceHarness.Runner

open Lib

/-! ## `run` -/

/-- `Scenario`, as far as `run` reads it. -/
structure Scenario where
  name : String
  description : Option String
  targetAddress : Option String
  networkMagic : UInt64
  expectedOutcome : Option String
  /-- The declared peers. -/
  network : Option (List Peer)
  steps : List StepDef

/-- `ScenarioStarted`. -/
def scenarioStarted (scenario : Scenario) : TraceEvent :=
  internal .scenarioStarted
    [("description", .ofOption .string scenario.description),
      ("expected_outcome", .ofOption .string scenario.expectedOutcome),
      ("name", .string scenario.name), ("network_magic", .ofU64 scenario.networkMagic),
      ("steps", .ofLen scenario.steps.length),
      ("target_address", .string (scenario.targetAddress.getD ""))]

/-- A field of an object that is there only if it has a value. -/
def optionalField (key : String) : Option String → List (String × Value)
  | none => []
  | some v => [(key, .string v)]

/-- `NetworkDeclared`. -/
def networkDeclared (peers : List Peer) : TraceEvent :=
  internal .networkDeclared [("peers", .array (peers.map fun peer =>
    .object (optionalField "block_fetch_fixture" peer.blockFetchFixture ++
      optionalField "chain_sync_fixture" peer.chainSyncFixture ++
      optionalField "description" peer.description ++ [("id", .string peer.id)])))]

/-- `PeerStateInitialized`. -/
def peerStateInitialized (peer : Peer) (ps : PeerState) : TraceEvent :=
  internal .peerStateInitialized
    [("blocks_loaded", .ofLen ps.blockStore.size),
      ("chain_entries_loaded", .ofLen ps.chainEntries.length), ("peer_id", .string peer.id)]

/-- `ConnectionClosed` of a connection that is still open at the end. -/
def connectionClosed (name : String) : TraceEvent :=
  (internal .connectionClosed [("reason", .string "scenario_aborted")]).withConnection name

/-- `ScenarioCompleted`. -/
def scenarioCompleted (name : String) (passed failed : Nat) (durationMs : UInt64)
    (outcome : String) : TraceEvent :=
  internal .scenarioCompleted
    [("duration_ms", .ofU64 durationMs), ("name", .string name), ("outcome", .string outcome),
      ("steps_failed", .ofLen failed), ("steps_passed", .ofLen passed)]

/-- The path of the scenario. -/
def root : Path := [.scenario]

/-- `emit_completed`. -/
def emitCompleted (name : String) (passed failed : Nat) (outcome : String) (k : Run) : Run :=
  .ask ⟨root, .elapsed⟩ fun ms =>
    emitIgnored root [scenarioCompleted name passed failed ms outcome] k

/-- `cleanup`. -/
def cleanup (k : Run) : Run :=
  .ask ⟨root, .openConnections⟩ fun names => emitIgnored root (names.map connectionClosed) k

/-- The outcome of a scenario that a step has ended. -/
def RunError.outcome : RunError → String
  | assertionFailure => "assertion_failed"
  | error _ => "step_error"

/-- The loop over the steps of a scenario; the ones before `idx` have passed. -/
def runSteps (name : String) : Nat → List StepDef → Run
  | idx, [] => emitCompleted name idx 0 "completed" (.ret (.ok ()))
  | idx, step :: rest =>
    (runStep root idx step).bind fun
      | .ok () => runSteps name (idx + 1) rest
      | .error e => cleanup (emitCompleted name idx 1 e.outcome (fail e))

/-- The initialisation of the declared peers. -/
def initPeers (files : Files) (k : Run) : List Peer → Run
  | [] => k
  | peer :: rest =>
    match peer.initialState files with
    | .error f => fail (.ofFault [] f)
    | .ok ps => emit root (peerStateInitialized peer ps) (initPeers files k rest)

/-- `ScenarioRunner::run`. -/
def runScenario (files : Files) (scenario : Scenario) : Run :=
  let steps := runSteps scenario.name 0 scenario.steps
  emit root (scenarioStarted scenario) <|
    match scenario.network with
    | none => steps
    | some peers => emit root (networkDeclared peers) (initPeers files steps peers)

/-- The background workers, by the events they emit. -/
def workers (events : List OwnEvent) : Run :=
  emitIgnored [.workers] (events.map OwnEvent.event) (.ret (.ok ()))

/-- A scenario next to its background workers. -/
def program (files : Files) (scenario : Scenario) (events : List OwnEvent) : Run :=
  .join [] [runScenario files scenario, workers events] .ret

/-! ## What a record has left behind -/

/-- The event an entry is about. -/
def emitted : Label runner → Option Emitted
  | .did ⟨p, .emit event⟩ _ => some ⟨p, event⟩
  | _ => none

/-- The events emitted in a stretch of a record. -/
def emissions (record : Record) : List Emitted := record.filterMap emitted

/-- The event an entry has brought into the trace file. -/
def written : Label runner → Option Emitted
  | .did ⟨p, .emit event⟩ (.ok _) => some ⟨p, event⟩
  | _ => none

/-- The trace file. -/
def trace (record : Record) : List Emitted := record.filterMap written

/-- Whether an entry takes the buffer. -/
def isDrain : Label runner → Bool
  | .did ⟨_, .drain _⟩ _ => true
  | _ => false

/-- What an entry does to the buffer. -/
def bufferStep (buffer : List Emitted) (x : Label runner) : List Emitted :=
  if isDrain x then [] else buffer ++ (emitted x).toList

/-- `event_buffer`. -/
def buffered (record : Record) : List Emitted := record.foldl bufferStep []

/-- What an entry does to the variables. -/
def varsStep (vars : VarStore) : Label runner → VarStore
  | .did ⟨_, .setVariable name v⟩ _ => vars.insert name v
  | _ => vars

/-- The flags of a branch: `completed`, `failed`, `last_step`. -/
abbrev Flags := Bool × Bool × Nat

/-- What an entry does to the flags of the branch at `p`. -/
def flagsStep (p : Path) (flags : Flags) : Label runner → Flags
  | .did ⟨q, .storeCompleted⟩ _ => if q = p then (true, flags.2) else flags
  | .did ⟨q, .storeFailed⟩ _ => if q = p then (flags.1, true, flags.2.2) else flags
  | .did ⟨q, .storeLastStep si⟩ _ => if q = p then (flags.1, flags.2.1, si) else flags
  | _ => flags

/-- The flags of the branch at `p`. -/
def flagsOf (p : Path) (record : Record) : Flags := record.foldl (flagsStep p) (false, false, 0)

/-- What the surroundings answer, given the variables a scenario starts with. -/
def Faithful (vars : VarStore) (before : Record) : (r : Request) → r.call.Answer → Prop
  | ⟨_, .drain _⟩, events => events = buffered before
  | ⟨_, .snapshot _⟩, answer => answer = before.foldl varsStep vars
  | ⟨p, .load bi⟩, flags => flags = flagsOf (.branch bi :: p) before
  | _, _ => True

/-- A run of a scenario next to its background workers: what it has recorded so far, and what
is left of it. -/
structure ScenarioRun (files : Files) (scenario : Scenario) (events : List OwnEvent)
    (vars : VarStore) (record : Record) (rest : Run) : Prop where
  runs : (program files scenario events).Runs record rest
  answered : Future.Answered (Faithful vars) record

end ConformanceHarness.Runner
