import ConformanceHarness.Miniprotocols.Net

/-!
# Handshakes and background workers

`handshake_on_channels` of `miniprotocols/handshake.rs`, and the workers that a handshake
starts: `run_keepalive` of `miniprotocols/keepalive.rs` and `run_tx_submission` of
`miniprotocols/txsubmission.rs`. A worker goes on whether or not an event could be written.
-/

namespace ConformanceHarness

open Session
open ConformanceHarness.Lib (Prog)

/-! ## Handshakes -/

/-- `HandshakeResult`; `refused` and `queryReply` fail the handshake. -/
inductive HandshakeResult where
  | accepted (versionNumber : UInt64)
  | refused (reason : String)
  | queryReply
deriving Repr, DecidableEq

/-- What the client sends: its versions. -/
structure ProposeVersions where
  versions : List UInt64
deriving Repr, DecidableEq

/-- A part of a handshake. -/
abbrev HandshakeClient := Client Unit ProposeVersions

namespace Handshake

/-- The `HandshakeStarted` event. -/
def startedEvent (magic : UInt64) : TraceEvent :=
  .new .handshakeStarted .internal (.object [("magic", .ofU64 magic)])

/-- The `HandshakeVersionProposed` event. -/
def proposedEvent (direction : Direction) (versions : List UInt64) (magic : UInt64) : TraceEvent :=
  .new .handshakeVersionProposed direction
    (.object [("magic", .ofU64 magic), ("versions", .array (versions.map Value.ofU64))])

/-- The `HandshakeVersionAccepted` event. -/
def acceptedEvent (direction : Direction) (version : UInt64) : TraceEvent :=
  .new .handshakeVersionAccepted direction (.object [("version", .ofU64 version)])

/-- The `HandshakeVersionRejected` event. -/
def rejectedEvent (reason : String) : TraceEvent :=
  .new .handshakeVersionRejected .received (.object [("reason", .string reason)])

/-- The `HandshakeCompleted` event. -/
def completedEvent (negotiated : UInt64) : TraceEvent :=
  .new .handshakeCompleted .internal (.object [("negotiated_version", .ofU64 negotiated)])

/-- `handshake_on_channels`: the version negotiated. `versions` are the library's, sorted. -/
def handshakeOnChannels (versions : List UInt64) (magic : UInt64)
    (result : Except String HandshakeResult) : HandshakeClient UInt64 := do
  emit (startedEvent magic)
  emit (proposedEvent .sent versions magic)
  sendMessage ⟨versions⟩
  match result with
  | .error e => Prog.ofExcept (bail s!"handshake failed: {e}")
  | .ok (.refused reason) =>
    emit (rejectedEvent reason)
    Prog.ofExcept (bail s!"handshake rejected: {reason}")
  | .ok .queryReply => Prog.ofExcept (bail "unexpected QueryReply during initiator handshake")
  | .ok (.accepted version) =>
    emit (acceptedEvent .received version)
    emit (completedEvent version)
    return version

/-- The session a handshake starts from. -/
def session : Session Unit Unit ProposeVersions Unit := Session.start () ()

end Handshake

/-! ## Keep-alive -/

namespace KeepAlive

/-- `MINI_PROTOCOL`. -/
def miniProtocol : String := "keep-alive"

/-- A ping or its answer. -/
def cookieEvent (kind : EventKind) (direction : Direction) (cookie : UInt16) : TraceEvent :=
  (TraceEvent.new kind direction
    (.object [("cookie", .ofU64 cookie.toUInt64)])).withProtocol miniProtocol

/-- `run_keepalive`: the events of `rounds` pings that were answered, from `cookie` on. -/
def runKeepalive : UInt16 → Nat → List TraceEvent
  | _, 0 => []
  | cookie, rounds + 1 =>
    cookieEvent .keepAliveSent .sent cookie :: cookieEvent .keepAliveReceived .received cookie ::
      runKeepalive (cookie + 1) rounds

end KeepAlive

/-! ## Tx-Submission -/

/-- A message of the consumer. -/
inductive TxSubmissionRequest where
  | requestTxIds (blocking : Bool) (ack req : UInt16)
  | requestTxs (count : Nat)
  | done
  | other (text : String)
deriving Repr, DecidableEq

namespace TxSubmission

/-- `MINI_PROTOCOL`. -/
def miniProtocol : String := "tx-submission"

/-- A `TxSubmissionMessage` event. -/
def messageEvent (direction : Direction) (payload : Value) : TraceEvent :=
  (TraceEvent.new .txSubmissionMessage direction payload).withProtocol miniProtocol

/-- The event of an answer. There is nothing to offer, so it is empty. -/
def replyEvent (msgKind : String) : TraceEvent :=
  messageEvent .sent (.object [("count", .ofLen 0), ("msg_kind", .string msgKind)])

/-- The events of one request: the request, and the answer if it could be sent. -/
def requestEvents (replied : Bool) : TxSubmissionRequest → List TraceEvent
  | .requestTxIds blocking ack req =>
    messageEvent .received (.object [("ack", .ofU64 ack.toUInt64), ("blocking", .bool blocking),
        ("msg_kind", .string "request_tx_ids"), ("req", .ofU64 req.toUInt64)]) ::
      (if replied then [replyEvent "reply_tx_ids"] else [])
  | .requestTxs count =>
    messageEvent .received
        (.object [("count", .ofLen count), ("msg_kind", .string "request_txs")]) ::
      (if replied then [replyEvent "reply_txs"] else [])
  | .done => []
  | .other _ => []

/-- A request that is answered. -/
def continues : TxSubmissionRequest → Bool
  | .requestTxIds _ _ _ => true
  | .requestTxs _ => true
  | .done => false
  | .other _ => false

/-- The loop over the requests, each with whether the answer could be sent. -/
def requestLoop : List (TxSubmissionRequest × Bool) → List TraceEvent
  | [] => []
  | (request, replied) :: rest =>
    requestEvents replied request ++ if continues request && replied then requestLoop rest else []

/-- `run_tx_submission`: the events of a worker, if it could send `MsgInit`. -/
def runTxSubmission (initSent : Bool) (requests : List (TxSubmissionRequest × Bool)) :
    List TraceEvent :=
  if initSent then
    messageEvent .sent (.object [("msg_kind", .string "init")]) :: requestLoop requests
  else []

end TxSubmission

end ConformanceHarness
