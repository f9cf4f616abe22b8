import ConformanceHarness.Miniprotocols.Net

/-!
# The Chain-Sync client

`run_chain_sync` of `miniprotocols/chainsync.rs`. `duration_ms` is real time and left out of
the summary.
-/

namespace ConformanceHarness

open Session
open ConformanceHarness.Lib (Prog)

/-- `CapturedHeader`. -/
structure CapturedHeader where
  slot : UInt64
  blockHash : List UInt8
  blockNumber : UInt64
  cbor : List UInt8
  variant : UInt8
deriving Repr, DecidableEq

/-- `ChainSyncEvent`: what a `request_next` brings. -/
inductive ChainSyncEvent where
  | rollForward (header : WrappedHeader) (tip : NcTip)
  | rollBackward (point : NcPoint) (tip : NcTip)
deriving Repr, DecidableEq

/-- The messages the client sends. -/
inductive ChainSyncRequest where
  | findIntersect (points : List NcPoint)
  | requestNext
  | done
deriving Repr, DecidableEq

/-- The local variables of the session. -/
structure ChainSyncProgress where
  headersReceived : UInt64
  rollbacks : UInt64
  messagesSent : UInt64
  messagesReceived : UInt64
  collectedPoints : List Point
  capturedHeaders : List CapturedHeader
deriving Repr, DecidableEq

/-- `ChainSyncSummary`. -/
structure ChainSyncSummary extends ChainSyncProgress where
  mustReplyTriggered : Bool
  exitReason : String
deriving Repr, DecidableEq

/-- What the peer does in a session. -/
structure ChainSyncReplies where
  intersect : Except String (Option (NcPoint × NcTip))
  incoming : List ChainSyncEvent
  /-- How the wait after the last of them ends. -/
  ending : NoReply
  done : Except String Unit

/-- A part of the Chain-Sync client. -/
abbrev ChainSyncClient := Client ChainSyncProgress ChainSyncRequest

namespace ChainSyncClient

/-- `MINI_PROTOCOL`. -/
def miniProtocol : String := "chain-sync"

/-! ## Events -/

/-- A wire event, and the states around it. -/
def wireEvent (kind : EventKind) (direction : Direction) (payload : Value)
    (stateBefore stateAfter : String) : TraceEvent :=
  (TraceEvent.new kind direction payload).withStates miniProtocol stateBefore stateAfter

/-- The `ChainSyncStarted` event. -/
def startedEvent (count : UInt64) : TraceEvent :=
  (TraceEvent.new .chainSyncStarted .internal
    (.object [("target_headers", .ofU64 count)])).withProtocol miniProtocol

/-- `roll_forward_payload`. -/
def rollForwardPayload (header : WrappedHeader) (tip : NcTip) : Value :=
  .object [("cbor_hex", .string (encodeHex header.raw)), ("cbor_len", .ofLen header.raw.length),
    ("tip", formatNcTip tip),
    ("variant", .ofU64 ((header.parsed.map HeaderInfo.era).getD 0).toUInt64)]

/-- The event of `emit_summary`. -/
def summaryEvent (summary : ChainSyncSummary) : TraceEvent :=
  (TraceEvent.new .chainSyncSessionSummary .internal
    (.object [("collected_points", .ofLen summary.collectedPoints.length),
      ("exit_reason", .string summary.exitReason),
      ("headers_received", .ofU64 summary.headersReceived),
      ("messages_received", .ofU64 summary.messagesReceived),
      ("messages_sent", .ofU64 summary.messagesSent),
      ("must_reply_triggered", .bool summary.mustReplyTriggered),
      ("rollbacks", .ofU64 summary.rollbacks)])).withProtocol miniProtocol

/-! ## The session -/

/-- `messages_sent += 1`, and the message. -/
def send (message : ChainSyncRequest) : ChainSyncClient Unit := do
  update fun l => { l with messagesSent := l.messagesSent + 1 }
  sendMessage message

/-- `messages_received += 1`. -/
def countReceived : ChainSyncClient Unit :=
  update fun l => { l with messagesReceived := l.messagesReceived + 1 }

/-- `build_summary` and `emit_summary`. -/
def finish (exitReason : String) : ChainSyncClient ChainSyncSummary := do
  let s ← Prog.get
  let summary := { toChainSyncProgress := s.locals, mustReplyTriggered := false, exitReason }
  emit (summaryEvent summary)
  return summary

/-- The intersection of the client's points with the chain of the peer. -/
def findIntersection (points : List Point) (reply : Except String (Option (NcPoint × NcTip))) :
    ChainSyncClient Unit := do
  emit (wireEvent .chainSyncFindIntersect .sent
    (.object [("points", .array (points.map formatPoint))]) "Idle" "Intersect")
  send (.findIntersect (points.map toNcPoint))
  match reply with
  | .ok (some (point, tip)) =>
    countReceived
    emit (wireEvent .chainSyncIntersectFound .received
      (.object [("point", formatNcPoint point), ("tip", formatNcTip tip)]) "Intersect" "Idle")
  | .ok none =>
    countReceived
    emit (wireEvent .chainSyncIntersectNotFound .received (.object []) "Intersect" "Idle")
  | .error message =>
    emit (clientError miniProtocol "find_intersect" message)
    Prog.ofExcept (bail s!"find_intersect failed: {message}")

/-- `extract_and_capture`. -/
def extractAndCapture (header : WrappedHeader) (l : ChainSyncProgress) : ChainSyncProgress :=
  match header.parsed, header.point with
  | some info, some (.specific slot hash) =>
    { l with
      collectedPoints := l.collectedPoints ++ [.specific slot hash.val]
      capturedHeaders := l.capturedHeaders ++
        [⟨slot, hash.val, info.blockNumber, header.raw, info.era⟩] }
  | _, _ => l

/-- One request. -/
def requestNext : ChainSyncClient Unit := do
  let s ← Prog.get
  emit (wireEvent .chainSyncRequestNext .sent
    (.object [("headers_received_so_far", .ofU64 s.locals.headersReceived)]) "Idle" "CanAwait")
  send .requestNext

/-- What a request has brought. -/
def receive : ChainSyncEvent → ChainSyncClient Unit
  | .rollForward header tip => do
    countReceived
    update fun l => extractAndCapture header { l with headersReceived := l.headersReceived + 1 }
    emit (wireEvent .chainSyncRollForward .received (rollForwardPayload header tip)
      "CanAwait" "Idle")
  | .rollBackward point tip => do
    countReceived
    update fun l => { l with rollbacks := l.rollbacks + 1 }
    emit (wireEvent .chainSyncRollBackward .received
      (.object [("rollback_to", formatNcPoint point), ("tip", formatNcTip tip)])
      "CanAwait" "Idle")

/-- A request has brought nothing: a timeout ends the session, an error fails it. -/
def noReply : NoReply → ChainSyncClient (Option ChainSyncSummary)
  | .timeout => do
    let summary ← finish "await_timeout"
    return some summary
  | .error message => do
    emit (clientError miniProtocol "request_next" message)
    let _ ← finish "error"
    Prog.ofExcept (bail s!"request_next failed: {message}")

/-- The main request loop. It answers a summary if the session ends in it. -/
def requestLoop (count : UInt64) (ending : NoReply) :
    List ChainSyncEvent → ChainSyncClient (Option ChainSyncSummary)
  | [] => do
    let s ← Prog.get
    if s.locals.headersReceived < count then
      requestNext
      noReply ending
    else
      return none
  | event :: incoming => do
    let s ← Prog.get
    if s.locals.headersReceived < count then
      requestNext
      receive event
      requestLoop count ending incoming
    else
      return none

/-- `MsgDone`. It does not matter whether it can be sent. -/
def sendDone : Except String Unit → ChainSyncClient Unit
  | .error message => emit (clientError miniProtocol "send_done" message)
  | .ok () => do
    send .done
    emit (wireEvent .chainSyncDone .sent (.object []) "Idle" "Done")

/-- `run_chain_sync`. -/
def runChainSync (intersectionPoints : List Point) (count : UInt64) (replies : ChainSyncReplies) :
    ChainSyncClient ChainSyncSummary := do
  emit (startedEvent count)
  findIntersection intersectionPoints replies.intersect
  match ← requestLoop count replies.ending replies.incoming with
  | some summary => return summary
  | none =>
    sendDone replies.done
    finish "completed"

/-- The session an execution starts from. -/
def session : Session Unit ChainSyncProgress ChainSyncRequest Unit :=
  Session.start () ⟨0, 0, 0, 0, [], []⟩

end ChainSyncClient

end ConformanceHarness
