import ConformanceHarness.Miniprotocols.Session

/-!
# The Block-Fetch server

`miniprotocols/blockfetch_server.rs`: the loop that executes a response script on
a Block-Fetch channel. `duration_ms` is real time and left out of the summary.
-/

namespace ConformanceHarness

open Session
open ConformanceHarness.Lib (Prog)

/-- `ServerBfState`. -/
inductive ServerBfState where
  | idle
  | busy
  | streaming
  | done
deriving Repr, DecidableEq

/-- `ServerBfState::as_str`. -/
def ServerBfState.asStr : ServerBfState → String
  | idle => "Idle"
  | busy => "Busy"
  | streaming => "Streaming"
  | done => "Done"

/-- `BlockFetchRequest`. -/
inductive BlockFetchRequest where
  | requestRange (fromPoint toPoint : Point)
  | clientDone
deriving Repr, DecidableEq

/-- `BlockFetchRequest::kind_str`. -/
def BlockFetchRequest.kindStr : BlockFetchRequest → String
  | requestRange .. => "request_range"
  | clientDone => "done"

/-- `BlockFetchRequest::matches_on`. -/
def BlockFetchRequest.matchesOn : BlockFetchRequest → On → Bool
  | _, .any => true
  | requestRange .., .requestRange => true
  | clientDone, .done => true
  | _, _ => false

/-- The messages of `blockfetch::Message` a server sends. -/
inductive BlockFetchMessage where
  | startBatch
  | noBlocks
  | block (body : List UInt8)
  | batchDone
deriving Repr, DecidableEq

/-- The counters of the loop. -/
structure BlockFetchCounters where
  rangeRequests : UInt64
  blocksServed : UInt64
  noBlocksResponses : UInt64
  rulesApplied : UInt64
deriving Repr, DecidableEq

/-- `BlockFetchServerSummary`. -/
structure BlockFetchServerSummary extends BlockFetchCounters where
  exitReason : String
deriving Repr, DecidableEq

/-- A Block-Fetch session. -/
abbrev BlockFetchSession := Session ServerBfState BlockFetchCounters BlockFetchMessage BlockSource

/-- A part of the Block-Fetch server. -/
abbrev BlockFetchServer :=
  Server ServerBfState BlockFetchCounters BlockFetchMessage BlockSource

namespace BlockFetch

/-- `MINI_PROTOCOL`. -/
def miniProtocol : String := "block-fetch"

/-! ## The content of a block -/

/-- `block_source_bytes`. -/
def blockSourceBytes : BlockSource → Except Fault (List UInt8)
  | .fixtureEntry e => e.bodyBytes
  | .literal bytes => .ok bytes

/-- `block_source_slot`. -/
def blockSourceSlot : BlockSource → UInt64
  | .fixtureEntry e => e.slot
  | .literal _ => 0

/-- `block_source_hash`. -/
def blockSourceHash : BlockSource → String
  | .fixtureEntry e => e.blockHash
  | .literal _ => ""

/-- `block_source_len`. -/
def blockSourceLen : BlockSource → Nat
  | .fixtureEntry e => (strBytes e.blockCborHex).length / 2
  | .literal bytes => bytes.length

/-! ## Events -/

/-- `emit_receive_event`. -/
def receiveEvent (request : BlockFetchRequest) (stateBefore stateAfter : ServerBfState) :
    TraceEvent :=
  let event := match request with
    | .requestRange fromPoint toPoint =>
      TraceEvent.new .blockFetchRequestRange .received
        (.object [("from", formatPoint fromPoint), ("to", formatPoint toPoint)])
    | .clientDone => TraceEvent.new .blockFetchClientDone .received (.object [])
  event.withStates miniProtocol stateBefore.asStr stateAfter.asStr

/-- The `BlockFetchBlock` event. -/
def blockEvent (source : BlockSource) (cborLen : Nat) : TraceEvent :=
  (TraceEvent.new .blockFetchBlock .sent
    (.object [("block_hash", .string (blockSourceHash source)), ("cbor_len", .ofLen cborLen),
      ("slot", .ofU64 (blockSourceSlot source))])).withStates miniProtocol "Streaming" "Streaming"

/-- The `BlockFetchBatchDone` event. -/
def batchDoneEvent (blocksInBatch : UInt64) : TraceEvent :=
  (TraceEvent.new .blockFetchBatchDone .sent
    (.object [("blocks_in_batch", .ofU64 blocksInBatch)])).withStates miniProtocol "Streaming"
      "Idle"

/-- The `ServerBlockFetchStarted` event. -/
def startedEvent (rules : List ScriptRule) (fixture : Option BlockFixtureChain) : TraceEvent :=
  (TraceEvent.new .serverBlockFetchStarted .internal
    (.object [("fixture_entries", .ofOption Value.ofLen (fixture.map (·.entries.length))),
      ("script_rules", .ofLen rules.length)])).withProtocol miniProtocol

/-- The `ServerBlockFetchCompleted` event. -/
def completedEvent (summary : BlockFetchServerSummary) : TraceEvent :=
  (TraceEvent.new .serverBlockFetchCompleted .internal
    (.object [("blocks_served", .ofU64 summary.blocksServed),
      ("exit_reason", .string summary.exitReason),
      ("no_blocks_responses", .ofU64 summary.noBlocksResponses),
      ("range_requests", .ofU64 summary.rangeRequests),
      ("rules_applied", .ofU64 summary.rulesApplied)])).withProtocol miniProtocol

/-! ## Send execution -/

/-- The arm of `NoBlocks`, also taken by a `StreamBatch` without blocks. -/
def sendNoBlocks (stateBefore : ServerBfState) : BlockFetchServer Unit := do
  sendMessage .noBlocks
  setState .idle
  update fun c => { c with noBlocksResponses := c.noBlocksResponses + 1 }
  emit ((TraceEvent.new .blockFetchNoBlocks .sent (.object [])).withStates miniProtocol
    stateBefore.asStr "Idle")

/-- The arm of `StartBatch`, also the first part of a `StreamBatch`. -/
def sendStartBatch (stateBefore : ServerBfState) : BlockFetchServer Unit := do
  sendMessage .startBatch
  setState .streaming
  emit ((TraceEvent.new .blockFetchStartBatch .sent (.object [])).withStates miniProtocol
    stateBefore.asStr "Streaming")

/-- One `Block` message, its body decoded. -/
def sendBlock (source : BlockSource) (body : List UInt8) (cborLen : Nat) :
    BlockFetchServer Unit := do
  sendMessage (.block body)
  noteDelivered source
  update fun c => { c with blocksServed := c.blocksServed + 1 }
  emit (blockEvent source cborLen)

/-- The arm of `BatchDone`, also the last part of a `StreamBatch`. -/
def sendBatchDone (blocksInBatch : UInt64) : BlockFetchServer Unit := do
  sendMessage .batchDone
  setState .idle
  emit (batchDoneEvent blocksInBatch)

/-- The blocks of a `StreamBatch`, each with its body; `none` for an unsatisfiable range. -/
def streamEntries (request : BlockFetchRequest) (fixture : Option BlockFixtureChain) :
    StreamBatchSources → Except Fault (Option (List (BlockSource × List UInt8)))
  | .explicit sources =>
    (mapEntries (fun s => (blockSourceBytes s).map fun body => (s, body)) sources).map some
  | .fromRequest =>
    match request with
    | .clientDone => .ok (some [])
    | .requestRange fromPoint toPoint =>
      match fixture with
      | none => .ok none
      | some chain =>
        match chain.findRange fromPoint toPoint with
        | .error f => .error f
        | .ok none => .ok none
        | .ok (some entries) =>
          (mapEntries (fun e => e.bodyBytes.map fun body => (.fixtureEntry e, body))
            entries).map some

/-- The loop over the blocks of a `StreamBatch`. -/
def sendBlocks : List (BlockSource × List UInt8) → BlockFetchServer Unit
  | [] => pure ()
  | (source, body) :: rest => do
    sendBlock source body body.length
    sendBlocks rest

/-- The arm of `StreamBatch`, its blocks decoded: a whole batch, or `NoBlocks`. -/
def sendStream (stateBefore : ServerBfState) :
    Option (List (BlockSource × List UInt8)) → BlockFetchServer Unit
  | none => sendNoBlocks stateBefore
  | some [] => sendNoBlocks stateBefore
  | some entries => do
    sendStartBatch stateBefore
    sendBlocks entries
    sendBatchDone (UInt64.ofNat entries.length)

/-- `execute_single_send`: whether the session ends here. -/
def executeSingleSend (send : ScriptSend) (request : BlockFetchRequest)
    (fixture : Option BlockFixtureChain) (stateBefore : ServerBfState) : BlockFetchServer Bool :=
  match send with
  | .noBlocks => do
    noteSend send
    sendNoBlocks stateBefore
    return false
  | .startBatch => do
    noteSend send
    sendStartBatch stateBefore
    return false
  | .block source => do
    let body ← Prog.ofExcept (blockSourceBytes source)
    noteSend send
    sendBlock source body (blockSourceLen source)
    return false
  | .batchDone => do
    noteSend send
    let s ← Prog.get
    sendBatchDone s.locals.blocksServed
    return false
  | .streamBatch sources => do
    let entries ← Prog.ofExcept (streamEntries request fixture sources)
    noteSend send
    sendStream stateBefore entries
    return false
  | .wait _ => return false
  | .disconnect => return true
  | .rawBytes bytes => do
    noteSend send
    sendRaw bytes
    emit (TraceEvent.new .error .sent (rawBytesPayload bytes))
    return false
  | .sendSequence _ =>
    Prog.ofExcept (bail "SendSequence reached execute_single_send — this is a bug")
  | other =>
    let kind := other.kindStr
    Prog.ofExcept
      (bail s!"Chain-Sync send rule \"{kind}\" reached Block-Fetch execution loop")

/-- The loop over the sends of a sequence. -/
def executeSequence (request : BlockFetchRequest) (fixture : Option BlockFixtureChain) :
    List ScriptSend → BlockFetchServer Bool
  | [] => return false
  | subSend :: rest => do
    let s ← Prog.get
    if ← executeSingleSend subSend request fixture s.state then
      return true
    else
      executeSequence request fixture rest

/-- `execute_send`. -/
def executeSend (send : ScriptSend) (request : BlockFetchRequest)
    (fixture : Option BlockFixtureChain) (stateBefore : ServerBfState) : BlockFetchServer Bool :=
  match send with
  | .sendSequence sends => executeSequence request fixture sends
  | single => executeSingleSend single request fixture stateBefore

/-! ## The loop -/

/-- The tracked state after a request. -/
def stateOnRequest : BlockFetchRequest → ServerBfState
  | .requestRange .. => .busy
  | .clientDone => .done

/-- A request is received: the state moves, and the event is written. -/
def receive (request : BlockFetchRequest) : BlockFetchServer Unit := do
  noteReceived
  let s ← Prog.get
  setState (stateOnRequest request)
  emit (receiveEvent request s.state (stateOnRequest request))

/-- A rule is found: the event is written, and the rule counted. -/
def applyRule (pos : Nat) (rule : ScriptRule) : BlockFetchServer Unit := do
  emit (ruleAppliedEvent pos rule)
  update fun c => { c with rulesApplied := c.rulesApplied + 1 }

/-- The loop, from rule `ruleIdx` on. -/
def serveLoop (rules : List ScriptRule) (fixture : Option BlockFixtureChain) :
    Nat → List BlockFetchRequest → BlockFetchServer Unit
  | _, [] => return ()
  | ruleIdx, request :: incoming => do
    receive request
    if request = .clientDone then
      return ()
    else
      update fun c => { c with rangeRequests := c.rangeRequests + 1 }
      match nextRule request.matchesOn ruleIdx (rules.drop ruleIdx) with
      | none =>
        let kind := request.kindStr
        let n := rules.length
        Prog.ofExcept
          (bail s!"serve_block_fetch: no matching rule for \"{kind}\" (exhausted {n} rules)")
      | some (pos, rule) =>
        applyRule pos rule
        let s ← Prog.get
        if ← executeSend rule.send request fixture s.state then
          return ()
        else
          serveLoop rules fixture (if rule.repeatable then ruleIdx else pos + 1) incoming

/-- `execute_block_fetch_script`, for the messages a client sends. -/
def executeBlockFetchScript (rules : List ScriptRule) (fixture : Option BlockFixtureChain)
    (incoming : List BlockFetchRequest) : BlockFetchServer BlockFetchServerSummary := do
  emit (startedEvent rules fixture)
  serveLoop rules fixture 0 incoming
  let s ← Prog.get
  let summary := { toBlockFetchCounters := s.locals, exitReason := "completed" }
  emit (completedEvent summary)
  return summary

/-- The session an execution starts from. -/
def session : BlockFetchSession := Session.start .idle ⟨0, 0, 0, 0⟩

end BlockFetch

end ConformanceHarness
