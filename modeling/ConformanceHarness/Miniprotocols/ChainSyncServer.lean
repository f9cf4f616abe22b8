import ConformanceHarness.Miniprotocols.Session

/-!
# The Chain-Sync server

`miniprotocols/chainsync_server.rs`: the loop that executes a response script on a
Chain-Sync channel, honest and adversarial alike. The cursor is consulted by the
two cursor rules only. `duration_ms` is real time and left out of the summary.
-/

namespace ConformanceHarness

open Session
open ConformanceHarness.Lib (Prog)

/-- `ServerCsState`. -/
inductive ServerCsState where
  | idle
  | intersect
  | canAwait
  | mustReply
  | done
deriving Repr, DecidableEq

/-- `ReceivedRequest`. -/
inductive ReceivedRequest where
  | findIntersect (points : List Point)
  | requestNext
  | done
deriving Repr, DecidableEq

namespace ServerCsState

/-- `ServerCsState::as_str`. -/
def asStr : ServerCsState → String
  | idle => "Idle"
  | intersect => "Intersect"
  | canAwait => "CanAwait"
  | mustReply => "MustReply"
  | done => "Done"

/-- `after_receive`. -/
def afterReceive (_ : ServerCsState) : ReceivedRequest → ServerCsState
  | .findIntersect _ => intersect
  | .requestNext => canAwait
  | .done => done

/-- `after_send`: what the loop tracks after a rule's send, from its kind alone. -/
def afterSend (state : ServerCsState) : ScriptSend → ServerCsState
  | .intersectFound .. | .intersectNotFound _ | .rollForward .. | .rollBackward ..
  | .cursorFindIntersect | .cursorAdvance => idle
  | .awaitReply _ => mustReply
  | .disconnect => done
  | .wait _ | .rawBytes _ => state
  | .startBatch | .block _ | .batchDone | .noBlocks | .streamBatch _ | .cursorRange
  | .sendSequence _ => state

end ServerCsState

/-- `ReceivedRequest::kind_str`. -/
def ReceivedRequest.kindStr : ReceivedRequest → String
  | findIntersect _ => "find_intersect"
  | requestNext => "request_next"
  | done => "done"

/-- `ReceivedRequest::matches_on`. -/
def ReceivedRequest.matchesOn : ReceivedRequest → On → Bool
  | _, .any => true
  | findIntersect _, .findIntersect => true
  | requestNext, .requestNext => true
  | done, .done => true
  | _, _ => false

/-- The points of a request that has some. -/
def ReceivedRequest.points : ReceivedRequest → List Point
  | findIntersect points => points
  | _ => []

/-- `HeaderContent`. -/
structure HeaderContent where
  variant : UInt8
  byronPrefix : Option (UInt8 × UInt64)
  cbor : List UInt8
deriving Repr, DecidableEq

/-- The messages of `chainsync::Message` a server sends. -/
inductive ChainSyncMessage where
  | rollForward (content : HeaderContent) (tip : Tip)
  | rollBackward (point : Point) (tip : Tip)
  | intersectFound (point : Point) (tip : Tip)
  | intersectNotFound (tip : Tip)
  | awaitReply
deriving Repr, DecidableEq

/-- The local variables of the loop that a summary reports. -/
structure ChainSyncCounters where
  headersServed : UInt64
  intersectsHandled : UInt64
  awaitTriggered : Bool
  rulesApplied : UInt64
deriving Repr, DecidableEq

/-- The local variables of the loop. -/
structure ChainSyncLocals where
  counters : ChainSyncCounters
  cursor : Option Cursor

/-- `ChainSyncServerSummary`. -/
structure ChainSyncServerSummary extends ChainSyncCounters where
  exitReason : String
deriving Repr, DecidableEq

/-- A Chain-Sync session. -/
abbrev ChainSyncSession := Session ServerCsState ChainSyncLocals ChainSyncMessage HeaderSource

/-- A part of the Chain-Sync server. -/
abbrev ChainSyncServer := Server ServerCsState ChainSyncLocals ChainSyncMessage HeaderSource

namespace ChainSync

/-- `MINI_PROTOCOL`. -/
def miniProtocol : String := "chain-sync"

/-! ## Tips and headers -/

/-- `format_tip`. -/
def formatTip (tip : Tip) : Value :=
  .object [("block_number", .ofU64 tip.blockNumber), ("point", formatPoint tip.point)]

/-- `zero_tip`. -/
def zeroTip : Tip := ⟨.origin, 0⟩

/-- `parse_point_str(..).unwrap_or(Point::Origin)`. -/
def parsePointOrOrigin (s : String) : Except Fault Point :=
  match parsePoint s with
  | .ok point => .ok point
  | .error (.err _) => .ok .origin
  | .error (.panic reason) => .error (.panic reason)

/-- `tip_spec_to_tip`. -/
def tipSpecToTip (spec : Option TipSpec) (fixtureTip : Option Tip) : Except Fault Tip :=
  match spec with
  | some s => (parsePointOrOrigin s.point).map fun point => ⟨point, s.blockNumber⟩
  | none => .ok (fixtureTip.getD zeroTip)

/-- `fixture.map(|f| f.tip())`, then `tip_spec_to_tip`. -/
def wireTip (fixture : Option FixtureChain) (spec : Option TipSpec) : Except Fault Tip :=
  match fixture with
  | none => tipSpecToTip spec none
  | some chain =>
    match chain.tip with
    | .error f => .error f
    | .ok tip => tipSpecToTip spec (some tip)

/-- `decode_hex_str`. -/
def decodeHexStr (s : String) : Except Fault (List UInt8) := decodePairsLenient (strBytes s)

/-- `entry_to_header_content`. -/
def entryToHeaderContent (entry : FixtureEntry) : Except Fault HeaderContent :=
  (decodeHexStr entry.cborHex).map fun cbor => ⟨entry.variant, none, cbor⟩

/-- `header_source_to_content`. -/
def headerSourceToContent : HeaderSource → Except Fault HeaderContent
  | .fixtureEntry entry => entryToHeaderContent entry
  | .literal cbor variant => .ok ⟨variant, none, cbor⟩

/-- `extract_header_info`. -/
def extractHeaderInfo : HeaderSource → UInt64 × String × UInt64
  | .fixtureEntry e => (e.slot, e.blockHash, e.blockNumber)
  | .literal .. => (0, "", 0)

/-! ## Events -/

/-- `emit_receive_event`. -/
def receiveEvent (request : ReceivedRequest) (stateBefore stateAfter : ServerCsState) :
    TraceEvent :=
  let event := match request with
    | .findIntersect points =>
      TraceEvent.new .chainSyncFindIntersect .received
        (.object [("points", .array (points.map formatPoint))])
    | .requestNext => TraceEvent.new .chainSyncRequestNext .received (.object [])
    | .done => TraceEvent.new .chainSyncDone .received (.object [])
  event.withStates miniProtocol stateBefore.asStr stateAfter.asStr

/-- A sent event, from `state_before` to the state named `stateAfter`. -/
def sentEvent (kind : EventKind) (payload : Value) (stateBefore : ServerCsState)
    (stateAfter : String) : TraceEvent :=
  (TraceEvent.new kind .sent payload).withStates miniProtocol stateBefore.asStr stateAfter

/-- The `ServerChainSyncStarted` event. -/
def startedEvent (rules : List ScriptRule) (fixture : Option FixtureChain) : TraceEvent :=
  (TraceEvent.new .serverChainSyncStarted .internal
    (.object [("fixture_entries", .ofOption Value.ofLen (fixture.map (·.entries.length))),
      ("script_rules", .ofLen rules.length)])).withProtocol miniProtocol

/-- The `ServerChainSyncCompleted` event. -/
def completedEvent (summary : ChainSyncServerSummary) : TraceEvent :=
  (TraceEvent.new .serverChainSyncCompleted .internal
    (.object [("await_triggered", .bool summary.awaitTriggered),
      ("exit_reason", .string summary.exitReason),
      ("headers_served", .ofU64 summary.headersServed),
      ("intersects_handled", .ofU64 summary.intersectsHandled),
      ("rules_applied", .ofU64 summary.rulesApplied)])).withProtocol miniProtocol

/-! ## Send execution -/

/-- An assignment to one of the counters. -/
def count (f : ChainSyncCounters → ChainSyncCounters) : ChainSyncServer Unit :=
  update fun l => { l with counters := f l.counters }

/-- `*headers_served += 1`. -/
def countHeader : ChainSyncServer Unit :=
  count fun c => { c with headersServed := c.headersServed + 1 }

/-- `*intersects_handled += 1`. -/
def countIntersect : ChainSyncServer Unit :=
  count fun c => { c with intersectsHandled := c.intersectsHandled + 1 }

/-- `*await_triggered = true`. -/
def triggerAwait : ChainSyncServer Unit := count fun c => { c with awaitTriggered := true }

/-- `cursor.ok_or_else(..)`. -/
def needCursor (rule : String) : ChainSyncServer Cursor := do
  let s ← Prog.get
  match s.locals.cursor with
  | some cursor => return cursor
  | none => Prog.ofExcept (bail s!"{rule} with no fixture")

/-- A write through the `&mut Cursor`. -/
def putCursor (cursor : Cursor) : ChainSyncServer Unit :=
  update fun l => { l with cursor := some cursor }

/-- The arm of `CursorFindIntersect`. -/
def cursorFindIntersect (request : ReceivedRequest) (stateBefore : ServerCsState) :
    ChainSyncServer Unit := do
  let cursor ← needCursor "CursorFindIntersect"
  countIntersect
  let tip ← Prog.ofExcept cursor.tip
  match ← Prog.ofExcept (cursor.findIntersect request.points) with
  | some pos =>
    putCursor (cursor.setPos pos)
    let foundPt ← Prog.ofExcept (cursor.setPos pos).currentPoint
    noteSend .cursorFindIntersect
    sendMessage (.intersectFound foundPt tip)
    emit (sentEvent .chainSyncIntersectFound
      (.object [("point", formatPoint foundPt), ("tip", formatTip tip)]) stateBefore "Idle")
  | none =>
    noteSend .cursorFindIntersect
    sendMessage (.intersectNotFound tip)
    emit (sentEvent .chainSyncIntersectNotFound (.object [("tip", formatTip tip)])
      stateBefore "Idle")

/-- The arm of `CursorAdvance`: past the last entry it sends `AwaitReply`. -/
def cursorAdvance (stateBefore : ServerCsState) : ChainSyncServer Unit := do
  let cursor ← needCursor "CursorAdvance"
  let tip ← Prog.ofExcept cursor.tip
  match ← Prog.ofExcept cursor.advance with
  | (next, some entry) =>
    let hc ← Prog.ofExcept (entryToHeaderContent entry)
    noteSend .cursorAdvance
    putCursor next
    sendMessage (.rollForward hc tip)
    noteDelivered (.fixtureEntry entry)
    countHeader
    emit (sentEvent .chainSyncRollForward
      (.object [("block_hash", .string entry.blockHash), ("block_number", .ofU64 entry.blockNumber),
        ("cbor_len", .ofLen ((strBytes entry.cborHex).length / 2)), ("slot", .ofU64 entry.slot),
        ("tip", formatTip tip)]) stateBefore "Idle")
  | (next, none) =>
    noteSend .cursorAdvance
    putCursor next
    triggerAwait
    sendMessage .awaitReply
    emit (sentEvent .chainSyncAwaitReply (.object [("hold_secs", .ofU64 0)])
      stateBefore "MustReply")

/-- The arm of `RollForward`. -/
def rollForward (source : HeaderSource) (tip : Option TipSpec) (fixture : Option FixtureChain)
    (stateBefore : ServerCsState) : ChainSyncServer Unit := do
  let wire ← Prog.ofExcept (wireTip fixture tip)
  let hc ← Prog.ofExcept (headerSourceToContent source)
  let (slot, hash, blockNumber) := extractHeaderInfo source
  noteSend (.rollForward source tip)
  sendMessage (.rollForward hc wire)
  noteDelivered source
  countHeader
  emit (sentEvent .chainSyncRollForward
    (.object [("block_hash", .string hash), ("block_number", .ofU64 blockNumber),
      ("slot", .ofU64 slot), ("tip", formatTip wire)]) stateBefore "Idle")

/-- The arm of `RollBackward`. -/
def rollBackward (point : String) (tip : Option TipSpec) (fixture : Option FixtureChain)
    (stateBefore : ServerCsState) : ChainSyncServer Unit := do
  let wire ← Prog.ofExcept (wireTip fixture tip)
  let pt ← Prog.ofExcept (parsePoint point)
  noteSend (.rollBackward point tip)
  sendMessage (.rollBackward pt wire)
  emit (sentEvent .chainSyncRollBackward
    (.object [("rollback_to", formatPoint pt), ("tip", formatTip wire)]) stateBefore "Idle")

/-- The arm of `IntersectFound`. -/
def intersectFound (point : String) (tip : Option TipSpec) (fixture : Option FixtureChain)
    (stateBefore : ServerCsState) : ChainSyncServer Unit := do
  let wire ← Prog.ofExcept (wireTip fixture tip)
  let pt ← Prog.ofExcept (parsePoint point)
  noteSend (.intersectFound point tip)
  sendMessage (.intersectFound pt wire)
  countIntersect
  emit (sentEvent .chainSyncIntersectFound
    (.object [("point", formatPoint pt), ("tip", formatTip wire)]) stateBefore "Idle")

/-- The arm of `IntersectNotFound`. -/
def intersectNotFound (tip : Option TipSpec) (fixture : Option FixtureChain)
    (stateBefore : ServerCsState) : ChainSyncServer Unit := do
  let wire ← Prog.ofExcept (wireTip fixture tip)
  noteSend (.intersectNotFound tip)
  sendMessage (.intersectNotFound wire)
  countIntersect
  emit (sentEvent .chainSyncIntersectNotFound (.object [("tip", formatTip wire)])
    stateBefore "Idle")

/-- `execute_send`: whether the session ends here. -/
def executeSend (send : ScriptSend) (request : ReceivedRequest) (fixture : Option FixtureChain)
    (stateBefore : ServerCsState) : ChainSyncServer Bool :=
  match send with
  | .cursorFindIntersect => do
    cursorFindIntersect request stateBefore
    return false
  | .cursorAdvance => do
    cursorAdvance stateBefore
    return false
  | .rollForward source tip => do
    rollForward source tip fixture stateBefore
    return false
  | .rollBackward point tip => do
    rollBackward point tip fixture stateBefore
    return false
  | .intersectFound point tip => do
    intersectFound point tip fixture stateBefore
    return false
  | .intersectNotFound tip => do
    intersectNotFound tip fixture stateBefore
    return false
  | .awaitReply holdSecs => do
    noteSend send
    triggerAwait
    sendMessage .awaitReply
    emit (sentEvent .chainSyncAwaitReply (.object [("hold_secs", .ofU64 holdSecs)])
      stateBefore "MustReply")
    return false
  | .wait _ => return false
  | .disconnect => return true
  | .rawBytes bytes => do
    noteSend send
    sendRaw bytes
    emit (TraceEvent.new .error .sent (rawBytesPayload bytes))
    return false
  | other =>
    let kind := other.kindStr
    Prog.ofExcept
      (bail s!"Block-Fetch send rule \"{kind}\" reached Chain-Sync execution loop")

section

variable {request : ReceivedRequest} {fixture : Option FixtureChain}
  {stateBefore : ServerCsState} {source : HeaderSource} {point : String} {tip : Option TipSpec}

theorem executeSend_cursorFindIntersect :
    executeSend .cursorFindIntersect request fixture stateBefore = (do
      cursorFindIntersect request stateBefore
      return false) := rfl

theorem executeSend_cursorAdvance :
    executeSend .cursorAdvance request fixture stateBefore = (do
      cursorAdvance stateBefore
      return false) := rfl

theorem executeSend_rollForward :
    executeSend (.rollForward source tip) request fixture stateBefore = (do
      rollForward source tip fixture stateBefore
      return false) := rfl

theorem executeSend_rollBackward :
    executeSend (.rollBackward point tip) request fixture stateBefore = (do
      rollBackward point tip fixture stateBefore
      return false) := rfl

theorem executeSend_intersectFound :
    executeSend (.intersectFound point tip) request fixture stateBefore = (do
      intersectFound point tip fixture stateBefore
      return false) := rfl

theorem executeSend_intersectNotFound :
    executeSend (.intersectNotFound tip) request fixture stateBefore = (do
      intersectNotFound tip fixture stateBefore
      return false) := rfl

end

/-- `tokio::time::sleep`: for how many seconds a send holds the session. -/
def sleepSecs : ScriptSend → UInt64
  | .awaitReply holdSecs => holdSecs
  | .wait durationSecs => durationSecs
  | _ => 0

/-! ## The loop -/

/-- A request is received: the state moves, and the event is written. -/
def receive (request : ReceivedRequest) : ChainSyncServer Unit := do
  noteReceived
  let s ← Prog.get
  setState (s.state.afterReceive request)
  emit (receiveEvent request s.state (s.state.afterReceive request))

/-- A rule is found: the event is written, and the rule counted. -/
def applyRule (pos : Nat) (rule : ScriptRule) : ChainSyncServer Unit := do
  emit (ruleAppliedEvent pos rule)
  count fun c => { c with rulesApplied := c.rulesApplied + 1 }

/-- The state moves on a send. -/
def settle (send : ScriptSend) : ChainSyncServer Unit := do
  let s ← Prog.get
  setState (s.state.afterSend send)

/-- The loop, from rule `ruleIdx` on. -/
def serveLoop (rules : List ScriptRule) (fixture : Option FixtureChain) :
    Nat → List ReceivedRequest → ChainSyncServer Unit
  | _, [] => return ()
  | ruleIdx, request :: incoming => do
    receive request
    if request = .done then
      return ()
    else
      match nextRule request.matchesOn ruleIdx (rules.drop ruleIdx) with
      | none =>
        let kind := request.kindStr
        let n := rules.length
        Prog.ofExcept
          (bail s!"serve_chain_sync: no matching rule for \"{kind}\" (exhausted {n} rules)")
      | some (pos, rule) =>
        applyRule pos rule
        let s ← Prog.get
        let done ← executeSend rule.send request fixture s.state
        settle rule.send
        if done then
          return ()
        else
          serveLoop rules fixture (if rule.repeatable then ruleIdx else pos + 1) incoming

/-- `execute_response_script`, for the messages a client sends. -/
def executeResponseScript (rules : List ScriptRule) (fixture : Option FixtureChain)
    (incoming : List ReceivedRequest) : ChainSyncServer ChainSyncServerSummary := do
  emit (startedEvent rules fixture)
  serveLoop rules fixture 0 incoming
  let s ← Prog.get
  let summary := { toChainSyncCounters := s.locals.counters, exitReason := "completed" }
  emit (completedEvent summary)
  return summary

/-- The session an execution starts from. -/
def session (fixture : Option FixtureChain) : ChainSyncSession :=
  Session.start .idle { counters := ⟨0, 0, false, 0⟩, cursor := fixture.map Cursor.new }

end ChainSync

end ConformanceHarness
