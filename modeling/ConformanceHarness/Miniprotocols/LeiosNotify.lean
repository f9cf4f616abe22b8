import ConformanceHarness.Miniprotocols.Net

/-!
# The LeiosNotify client

`run_leios_notify` of `miniprotocols/leios_notify.rs`. `duration_ms` is real time and left out
of the summary.
-/

namespace ConformanceHarness

open Session
open ConformanceHarness.Lib (Prog)

/-- `LeiosNotifyEvent`: what a `request_next` brings. -/
inductive LeiosNotifyEvent where
  | blockAnnouncement (header : WrappedHeader)
  | blockOffer (point : NcPoint) (ebSize : UInt32)
  | blockTxsOffer (point : NcPoint)
  | votes (voteCount : Nat)
deriving Repr, DecidableEq

/-- The messages the client sends. -/
inductive LeiosNotifyRequest where
  | requestNext
  | done
deriving Repr, DecidableEq

/-- The local variables of the session. -/
structure LeiosNotifyProgress where
  eventsReceived : UInt64
  blockAnnouncements : UInt64
  blockOffers : UInt64
  blockTxsOffers : UInt64
  voteMessages : UInt64
deriving Repr, DecidableEq

/-- `LeiosNotifySummary`. -/
structure LeiosNotifySummary extends LeiosNotifyProgress where
  exitReason : String
deriving Repr, DecidableEq

/-- What the peer does in a session. -/
structure LeiosNotifyReplies where
  incoming : List LeiosNotifyEvent
  /-- How the wait after the last of them ends. -/
  ending : NoReply
  done : Except String Unit

/-- A part of the LeiosNotify client. -/
abbrev LeiosNotifyClient := Client LeiosNotifyProgress LeiosNotifyRequest

namespace LeiosNotifyClient

/-- `MINI_PROTOCOL`. -/
def miniProtocol : String := "leios-notify"

/-! ## Events -/

/-- A wire event. -/
def wireEvent (kind : EventKind) (direction : Direction) (payload : Value) : TraceEvent :=
  (TraceEvent.new kind direction payload).withProtocol miniProtocol

/-- The `LeiosNotifyStarted` event. -/
def startedEvent (count : UInt64) : TraceEvent :=
  (TraceEvent.new .leiosNotifyStarted .internal
    (.object [("target_events", .ofU64 count)])).withProtocol miniProtocol

/-- The event of a notification. -/
def notificationEvent : LeiosNotifyEvent → TraceEvent
  | .blockAnnouncement header => wireEvent .leiosNotifyBlockAnnouncement .received
      (.object [("header_len", .ofLen header.raw.length)])
  | .blockOffer point ebSize => wireEvent .leiosNotifyBlockOffer .received
      (.object [("eb_size", .ofU64 ebSize.toUInt64), ("point", formatNcPoint point)])
  | .blockTxsOffer point => wireEvent .leiosNotifyBlockTxsOffer .received
      (.object [("point", formatNcPoint point)])
  | .votes voteCount => wireEvent .leiosNotifyVotes .received
      (.object [("vote_count", .ofLen voteCount)])

/-- The event of `emit_summary`. -/
def summaryEvent (summary : LeiosNotifySummary) : TraceEvent :=
  (TraceEvent.new .leiosNotifySessionSummary .internal
    (.object [("block_announcements", .ofU64 summary.blockAnnouncements),
      ("block_offers", .ofU64 summary.blockOffers),
      ("block_txs_offers", .ofU64 summary.blockTxsOffers),
      ("events_received", .ofU64 summary.eventsReceived),
      ("exit_reason", .string summary.exitReason),
      ("vote_messages", .ofU64 summary.voteMessages)])).withProtocol miniProtocol

/-! ## The session -/

/-- `build_summary` and `emit_summary`. -/
def finish (exitReason : String) : LeiosNotifyClient LeiosNotifySummary := do
  let s ← Prog.get
  let summary := { toLeiosNotifyProgress := s.locals, exitReason }
  emit (summaryEvent summary)
  return summary

/-- The counters after a notification. -/
def countEvent (event : LeiosNotifyEvent) (l : LeiosNotifyProgress) : LeiosNotifyProgress :=
  let l := { l with eventsReceived := l.eventsReceived + 1 }
  match event with
  | .blockAnnouncement _ => { l with blockAnnouncements := l.blockAnnouncements + 1 }
  | .blockOffer _ _ => { l with blockOffers := l.blockOffers + 1 }
  | .blockTxsOffer _ => { l with blockTxsOffers := l.blockTxsOffers + 1 }
  | .votes _ => { l with voteMessages := l.voteMessages + 1 }

/-- A request has brought nothing: a timeout ends the session, an error fails it. -/
def noReply : NoReply → LeiosNotifyClient (Option LeiosNotifySummary)
  | .timeout => do
    let summary ← finish "await_timeout"
    return some summary
  | .error message => do
    emit (clientError miniProtocol "request_next" message)
    let _ ← finish "error"
    Prog.ofExcept (bail s!"leios_notify request_next failed: {message}")

/-- The request loop. It answers a summary if the session ends in it. -/
def requestLoop (count : UInt64) (ending : NoReply) :
    List LeiosNotifyEvent → LeiosNotifyClient (Option LeiosNotifySummary)
  | [] => do
    let s ← Prog.get
    if s.locals.eventsReceived < count then
      sendMessage .requestNext
      noReply ending
    else
      return none
  | event :: incoming => do
    let s ← Prog.get
    if s.locals.eventsReceived < count then
      sendMessage .requestNext
      update (countEvent event)
      emit (notificationEvent event)
      requestLoop count ending incoming
    else
      return none

/-- `MsgDone`. It does not matter whether it can be sent. -/
def sendDone : Except String Unit → LeiosNotifyClient Unit
  | .error _ => return ()
  | .ok () => do
    sendMessage .done
    emit (wireEvent .leiosNotifyDone .sent (.object []))

/-- `run_leios_notify`. -/
def runLeiosNotify (count : UInt64) (replies : LeiosNotifyReplies) :
    LeiosNotifyClient LeiosNotifySummary := do
  emit (startedEvent count)
  match ← requestLoop count replies.ending replies.incoming with
  | some summary => return summary
  | none =>
    sendDone replies.done
    finish "completed"

/-- The session an execution starts from. -/
def session : Session Unit LeiosNotifyProgress LeiosNotifyRequest Unit :=
  Session.start () ⟨0, 0, 0, 0, 0⟩

end LeiosNotifyClient

end ConformanceHarness
