import ConformanceHarness.Miniprotocols.Net
import Mathlib.Data.List.Defs

/-!
# The Block-Fetch client

`run_block_fetch` of `miniprotocols/blockfetch.rs`. `duration_ms` is real time and left out of
the summary.
-/

namespace ConformanceHarness

open Session
open ConformanceHarness.Lib (Prog)

/-- `CapturedBlock`. -/
structure CapturedBlock where
  slot : UInt64
  blockHash : List UInt8
  cbor : List UInt8
deriving Repr, DecidableEq

/-- The messages the client sends. -/
inductive BlockFetchClientMessage where
  | requestRange (fromPoint toPoint : NcPoint)
  | clientDone
deriving Repr, DecidableEq

/-- What a `request_range` brings, and the calls of `recv_block` that follow it. -/
inductive RangeReply where
  | noBlocks
  /-- `failed` is the error that ends the batch, if it does not end with `MsgBatchDone`. -/
  | batch (bodies : List (List UInt8)) (failed : Option String)
  | error (message : String)
deriving Repr, DecidableEq

/-- The local variables of the session. -/
structure BlockFetchProgress where
  rangeRequests : UInt64
  blocksReceived : UInt64
  noBlocksResponses : UInt64
  totalBytes : UInt64
  capturedBlocks : List CapturedBlock
deriving Repr, DecidableEq

/-- `BlockFetchSummary`. -/
structure BlockFetchSummary extends BlockFetchProgress where
  exitReason : String
deriving Repr, DecidableEq

/-- What the peer does in a session: the reply to each request, by its number. -/
structure BlockFetchReplies where
  range : Nat → RangeReply
  done : Except String Unit

/-- A part of the Block-Fetch client. -/
abbrev BlockFetchClient := Client BlockFetchProgress BlockFetchClientMessage

namespace BlockFetchClient

/-- `MINI_PROTOCOL`. -/
def miniProtocol : String := "block-fetch"

/-! ## Events -/

/-- A wire event, and the states around it. -/
def wireEvent (kind : EventKind) (direction : Direction) (payload : Value)
    (stateBefore stateAfter : String) : TraceEvent :=
  (TraceEvent.new kind direction payload).withStates miniProtocol stateBefore stateAfter

/-- The `BlockFetchStarted` event. -/
def startedEvent (totalPoints effectiveBatch : Nat) : TraceEvent :=
  (TraceEvent.new .blockFetchStarted .internal
    (.object [("batch_size", .ofLen effectiveBatch),
      ("total_points", .ofLen totalPoints)])).withProtocol miniProtocol

/-- The event of `emit_summary`. -/
def summaryEvent (summary : BlockFetchSummary) : TraceEvent :=
  (TraceEvent.new .blockFetchSessionSummary .internal
    (.object [("blocks_received", .ofU64 summary.blocksReceived),
      ("exit_reason", .string summary.exitReason),
      ("no_blocks_responses", .ofU64 summary.noBlocksResponses),
      ("range_requests", .ofU64 summary.rangeRequests),
      ("total_bytes", .ofU64 summary.totalBytes)])).withProtocol miniProtocol

/-! ## The session -/

/-- `capture_point`: where the body of a batch of one point belongs. -/
def capturePoint : List Point → Option (UInt64 × List UInt8)
  | [.specific slot hash] => some (slot, hash)
  | _ => none

/-- `build_summary` and `emit_summary`. -/
def finish (exitReason : String) : BlockFetchClient BlockFetchSummary := do
  let s ← Prog.get
  let summary := { toBlockFetchProgress := s.locals, exitReason }
  emit (summaryEvent summary)
  return summary

/-- The session fails. -/
def abort (phase message : String) : BlockFetchClient Unit := do
  emit (clientError miniProtocol phase message)
  let _ ← finish "error"
  Prog.ofExcept (bail s!"{phase} failed: {message}")

/-- A block body. -/
def receiveBlock (capture : Option (UInt64 × List UInt8)) (body : List UInt8) :
    BlockFetchClient Unit := do
  update fun l =>
    { l with
      totalBytes := l.totalBytes + UInt64.ofNat body.length
      blocksReceived := l.blocksReceived + 1
      capturedBlocks := l.capturedBlocks ++
        (capture.map fun point => ⟨point.1, point.2, body⟩).toList }
  emit (wireEvent .blockFetchBlock .received
    (.object [("cbor_hex", .string (encodeHex body)), ("cbor_len", .ofLen body.length)])
    "Streaming" "Streaming")

/-- The loop over the bodies of a batch; `received` of them were received before. -/
def receiveBlocks (capture : Option (UInt64 × List UInt8)) (failed : Option String) :
    Nat → List (List UInt8) → BlockFetchClient Unit
  | received, [] =>
    match failed with
    | none => emit (wireEvent .blockFetchBatchDone .received
        (.object [("blocks_in_batch", .ofLen received)]) "Streaming" "Idle")
    | some message => abort "recv_block" message
  | received, body :: rest => do
    receiveBlock capture body
    receiveBlocks capture failed (received + 1) rest

/-- One request and its reply, for a batch from one point to another. -/
def requestRange (batch : List Point) (fromPoint toPoint : Point) (reply : RangeReply) :
    BlockFetchClient Unit := do
  emit (wireEvent .blockFetchRequestRange .sent
    (.object [("batch_len", .ofLen batch.length), ("from", formatPoint fromPoint),
      ("to", formatPoint toPoint)]) "Idle" "Busy")
  sendMessage (.requestRange (toNcPoint fromPoint) (toNcPoint toPoint))
  match reply with
  | .error message => abort "request_range" message
  | .noBlocks =>
    update fun l => { l with
      rangeRequests := l.rangeRequests + 1
      noBlocksResponses := l.noBlocksResponses + 1 }
    emit (wireEvent .blockFetchNoBlocks .received
      (.object [("from", formatPoint fromPoint), ("to", formatPoint toPoint)]) "Busy" "Idle")
  | .batch bodies failed =>
    update fun l => { l with rangeRequests := l.rangeRequests + 1 }
    emit (wireEvent .blockFetchStartBatch .received (.object []) "Busy" "Streaming")
    receiveBlocks (capturePoint batch) failed 0 bodies

/-- The loop over the batches, from number `i` on. No batch is empty. -/
def fetchBatches (range : Nat → RangeReply) : Nat → List (List Point) → BlockFetchClient Unit
  | _, [] => return ()
  | i, batch :: rest =>
    match batch.head?, batch.getLast? with
    | some fromPoint, some toPoint => do
      requestRange batch fromPoint toPoint (range i)
      fetchBatches range (i + 1) rest
    | _, _ => Prog.ofExcept (.error (.panic "called `Option::unwrap()` on a `None` value"))

/-- `MsgClientDone`. It does not matter whether it can be sent. -/
def sendDone : Except String Unit → BlockFetchClient Unit
  | .error message => emit (clientError miniProtocol "send_done" message)
  | .ok () => do
    sendMessage .clientDone
    emit (wireEvent .blockFetchClientDone .sent (.object []) "Idle" "Done")

/-- `run_block_fetch`. -/
def runBlockFetch (points : List Point) (batchSize : Nat) (replies : BlockFetchReplies) :
    BlockFetchClient BlockFetchSummary := do
  let effectiveBatch := max batchSize 1
  emit (startedEvent points.length effectiveBatch)
  fetchBatches replies.range 0 (points.toChunks effectiveBatch)
  sendDone replies.done
  finish "completed"

/-- The session an execution starts from. -/
def session : Session Unit BlockFetchProgress BlockFetchClientMessage Unit :=
  Session.start () ⟨0, 0, 0, 0, []⟩

end BlockFetchClient

end ConformanceHarness
