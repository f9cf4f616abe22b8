import ConformanceHarness.Scenario.PeerState
import ConformanceHarness.Scenario.StepParams
import ConformanceHarness.Miniprotocols.BlockFetchServer
import ConformanceHarness.Miniprotocols.ChainSyncServer

/-!
# The serve steps

The steps `serve_chain_sync` and `serve_block_fetch` of `scenario/runner.rs`: where
a step's fixture comes from, which script it executes, and the initialisation of
the declared peers. The connection a step is on is there, with its channel.

`run_step` substitutes variables in a copy of the step's parameters. The typed
parameters are read from the copy, the list of responses from the original.
-/

namespace ConformanceHarness

/-- The file system, and `serde_json`'s parser. -/
structure Files where
  /-- The lines of the file at a path. -/
  lines : String → Option (List String)
  fromStr : String → Option Value

/-- `fixture::load`. -/
def Files.loadFixture (files : Files) (path : String) : Except Fault FixtureChain :=
  Fixture.load files.fromStr path (files.lines path)

/-- `block_fixture::load`. -/
def Files.loadBlockFixture (files : Files) (path : String) : Except Fault BlockFixtureChain :=
  BlockFixture.load files.fromStr path (files.lines path)

/-! ## Declared peers -/

/-- `Peer`: a peer as a scenario declares it. -/
structure Peer where
  id : String
  chainSyncFixture : Option String
  blockFetchFixture : Option String
  productionRule : Option ProductionRule
  description : Option String

/-- The state a declared peer starts with. -/
def Peer.initialState (files : Files) (peer : Peer) : Except Fault PeerState := do
  let id := peer.id
  let ps ← match peer.chainSyncFixture with
    | none => .ok PeerState.new
    | some path =>
      match withContext s!"peer \"{id}\": loading chain_sync_fixture \"{path}\""
          (files.loadFixture path) with
      | .error f => .error f
      | .ok chain => PeerState.fromFixtureChain chain
  let ps := { ps with productionRule := peer.productionRule }
  match peer.blockFetchFixture with
  | none => return ps
  | some path =>
    let chain ← withContext s!"peer \"{id}\": loading block_fetch_fixture \"{path}\""
      (files.loadBlockFixture path)
    ps.extendFromBlockFixtureChain chain

/-- What a serve step reads of the runner's state. -/
structure ServeEnv where
  files : Files
  network : Option (List Peer)
  peers : PeerMap
  currentSlot : Option UInt64

/-- `lookup_peer`. -/
def ServeEnv.lookupPeer (env : ServeEnv) (peerId : String) : Except Fault Peer :=
  match env.network with
  | none => bail "as_peer: no network declaration in scenario"
  | some peers =>
    match peers.find? fun p => p.id = peerId with
    | none => bail s!"as_peer: peer \"{peerId}\" not found in network block"
    | some peer => .ok peer

/-- `guard.get(..).ok_or_else(..)`. -/
def ServeEnv.peerState (env : ServeEnv) (step peerId : String) : Except Fault PeerState :=
  match env.peers peerId with
  | none => bail (s!"{step}: peer \"{peerId}\" has no state; " ++ "declare it in the network block")
  | some ps => .ok ps

/-! ## Scripts -/

/-- The loop over the parsed responses; they are numbered from `i`. -/
def convertRules (step : String) (cs : Option FixtureChain) (bf : Option BlockFixtureChain) :
    Nat → List ResponseRuleDef → Except Fault (List ScriptRule)
  | _, [] => .ok []
  | i, d :: rest =>
    match withContext s!"{step}: responses[{i}]" (ruleDefToScript cs bf d) with
    | .error f => .error f
    | .ok rule =>
      match convertRules step cs bf (i + 1) rest with
      | .error f => .error f
      | .ok rules => .ok (rule :: rules)

/-- The script of an explicit list of responses. -/
def explicitScript (step : String) (cs : Option FixtureChain) (bf : Option BlockFixtureChain)
    (responses : Value) : Except Fault (List ScriptRule) :=
  match ruleDefsFromValue responses with
  | none => bail s!"{step}: parsing responses"
  | some defs => convertRules step cs bf 0 defs

/-! ## `serve_chain_sync` -/

namespace ServeChainSync

/-- The step's name. -/
def step : String := "serve_chain_sync"

/-- `fixture_opt`: the chain of the peer served, or of the file. -/
def fixture (env : ServeEnv) (params : StepParams) : Except Fault (Option FixtureChain) :=
  match params.asPeer with
  | some peerId =>
    match env.lookupPeer peerId with
    | .error f => .error f
    | .ok _ =>
      match env.peerState step peerId with
      | .error f => .error f
      | .ok ps =>
        if ps.chainEntries.isEmpty && ps.chainTipSlot.isNone then .ok none
        else .ok (some (ps.filteredFixtureChain env.currentSlot))
  | none =>
    match params.fixturePath with
    | none => .ok none
    | some path =>
      (withContext s!"{step}: loading fixture \"{path}\"" (env.files.loadFixture path)).map some

/-- `await_secs`. -/
def awaitSecs (params : StepParams) : UInt64 := min (params.awaitAtTipSecs.getD 30) 300

/-- The script: explicit, or generated from the fixture. -/
def script (fixture : Option FixtureChain) (awaitSecs : UInt64) :
    Option Value → Except Fault (List ScriptRule)
  | some responses => explicitScript step fixture none responses
  | none =>
    match fixture with
    | none =>
      bail "serve_chain_sync: fixture_path or as_peer is required when responses is not set"
    | some chain => .ok (generateFromFixture chain awaitSecs)

/-- `StepKind::ServeChainSync`: how it ends, and the session. -/
def run (env : ServeEnv) (rawParams : Value) (params : StepParams)
    (incoming : List ReceivedRequest) : Except Fault Unit × ChainSyncSession :=
  match fixture env params with
  | .error f => (.error f, ChainSync.session none)
  | .ok chain =>
    match script chain (awaitSecs params) (rawParams.getField "responses") with
    | .error f => (.error f, ChainSync.session chain)
    | .ok rules =>
      let (result, session) :=
        (ChainSync.executeResponseScript rules chain incoming).run (ChainSync.session chain)
      (result.map fun _ => (), session)

end ServeChainSync

/-! ## `serve_block_fetch` -/

namespace ServeBlockFetch

/-- The step's name. -/
def step : String := "serve_block_fetch"

/-- `bf_fixture_opt`: the blocks of the peer served, or of the file. -/
def fixture (env : ServeEnv) (params : StepParams) : Except Fault (Option BlockFixtureChain) :=
  match params.asPeer with
  | some peerId =>
    match env.lookupPeer peerId with
    | .error f => .error f
    | .ok _ =>
      match env.peerState step peerId with
      | .error f => .error f
      | .ok ps =>
        let chain := ps.toBlockFixtureChain
        if chain.entries.isEmpty then .ok none else .ok (some chain)
  | none =>
    match params.blockFetchFixturePath with
    | none => .ok none
    | some path =>
      (withContext s!"{step}: loading fixture \"{path}\"" (env.files.loadBlockFixture path)).map
        some

/-- The script: explicit, or generated. -/
def script (fixture : Option BlockFixtureChain) (noBlocksDefault : Option Bool) :
    Option Value → Except Fault (List ScriptRule)
  | some responses => explicitScript step none fixture responses
  | none => .ok (generateForBlockFetch (noBlocksDefault.getD false))

/-- `StepKind::ServeBlockFetch`: how it ends, and the session. -/
def run (env : ServeEnv) (rawParams : Value) (params : StepParams)
    (incoming : List BlockFetchRequest) : Except Fault Unit × BlockFetchSession :=
  match fixture env params with
  | .error f => (.error f, BlockFetch.session)
  | .ok chain =>
    match script chain params.noBlocksDefault (rawParams.getField "responses") with
    | .error f => (.error f, BlockFetch.session)
    | .ok rules =>
      let (result, session) :=
        (BlockFetch.executeBlockFetchScript rules chain incoming).run BlockFetch.session
      (result.map fun _ => (), session)

end ServeBlockFetch

end ConformanceHarness
