import ConformanceHarness.Miniprotocols.Net

/-!
# The LeiosFetch client

`run_leios_fetch` of `miniprotocols/leios_fetch.rs`. `duration_ms` is real time and left out of
the summary.
-/

namespace ConformanceHarness

open Session
open ConformanceHarness.Lib (Prog)

/-- The messages the client sends. -/
inductive LeiosFetchClientMessage where
  | blockRequest (point : NcPoint)
  | done
deriving Repr, DecidableEq

/-- The local variables of the session. -/
structure LeiosFetchProgress where
  blocksRequested : UInt64
  blocksReceived : UInt64
deriving Repr, DecidableEq

/-- `LeiosFetchSummary`. -/
structure LeiosFetchSummary extends LeiosFetchProgress where
  exitReason : String
deriving Repr, DecidableEq

/-- What the peer does in a session: the block for each request, by its number. -/
structure LeiosFetchReplies where
  block : Nat → Except String (List UInt8)
  done : Except String Unit

/-- A part of the LeiosFetch client. -/
abbrev LeiosFetchClient := Client LeiosFetchProgress LeiosFetchClientMessage

namespace LeiosFetchClient

/-- `MINI_PROTOCOL`. -/
def miniProtocol : String := "leios-fetch"

/-! ## Events -/

/-- A wire event. -/
def wireEvent (kind : EventKind) (direction : Direction) (payload : Value) : TraceEvent :=
  (TraceEvent.new kind direction payload).withProtocol miniProtocol

/-- The `LeiosFetchStarted` event. -/
def startedEvent (targetBlocks : Nat) : TraceEvent :=
  (TraceEvent.new .leiosFetchStarted .internal
    (.object [("target_blocks", .ofLen targetBlocks)])).withProtocol miniProtocol

/-- The `Error` event of a fetch that failed. -/
def errorEvent (point : NcPoint) (message : String) : TraceEvent :=
  (TraceEvent.new .error .internal
    (.object [("error", .string message), ("phase", .string "fetch_block"),
      ("point", formatNcPoint point)])).withProtocol miniProtocol

/-- The event of `emit_summary`. -/
def summaryEvent (summary : LeiosFetchSummary) : TraceEvent :=
  (TraceEvent.new .leiosFetchSessionSummary .internal
    (.object [("blocks_received", .ofU64 summary.blocksReceived),
      ("blocks_requested", .ofU64 summary.blocksRequested),
      ("exit_reason", .string summary.exitReason)])).withProtocol miniProtocol

/-! ## The session -/

/-- The summary, and `emit_summary`. -/
def finish (exitReason : String) : LeiosFetchClient LeiosFetchSummary := do
  let s ← Prog.get
  let summary := { toLeiosFetchProgress := s.locals, exitReason }
  emit (summaryEvent summary)
  return summary

/-- One block. -/
def fetchBlock (point : NcPoint) (reply : Except String (List UInt8)) : LeiosFetchClient Unit := do
  emit (wireEvent .leiosFetchBlockRequest .sent (.object [("point", formatNcPoint point)]))
  update fun l => { l with blocksRequested := l.blocksRequested + 1 }
  sendMessage (.blockRequest point)
  match reply with
  | .ok block =>
    update fun l => { l with blocksReceived := l.blocksReceived + 1 }
    emit (wireEvent .leiosFetchBlock .received
      (.object [("block_len", .ofLen block.length), ("point", formatNcPoint point)]))
  | .error message =>
    emit (errorEvent point message)
    let _ ← finish "error"
    Prog.ofExcept (bail s!"leios_fetch fetch_block failed: {message}")

/-- The loop over the points, from number `i` on. -/
def fetchBlocks (block : Nat → Except String (List UInt8)) :
    Nat → List NcPoint → LeiosFetchClient Unit
  | _, [] => return ()
  | i, point :: rest => do
    fetchBlock point (block i)
    fetchBlocks block (i + 1) rest

/-- `MsgDone`. It does not matter whether it can be sent. -/
def sendDone : Except String Unit → LeiosFetchClient Unit
  | .error _ => return ()
  | .ok () => do
    sendMessage .done
    emit (wireEvent .leiosFetchDone .sent (.object []))

/-- `run_leios_fetch`. -/
def runLeiosFetch (points : List NcPoint) (replies : LeiosFetchReplies) :
    LeiosFetchClient LeiosFetchSummary := do
  emit (startedEvent points.length)
  fetchBlocks replies.block 0 points
  sendDone replies.done
  finish "completed"

/-- The session an execution starts from. -/
def session : Session Unit LeiosFetchProgress LeiosFetchClientMessage Unit :=
  Session.start () ⟨0, 0⟩

end LeiosFetchClient

end ConformanceHarness
