import ConformanceHarness.Miniprotocols.Net

/-!
# The LeiosNotify server

`miniprotocols/leios_notify_server.rs`: the loop that answers each request of a client with the
next action of a script. The library may refuse to send what the protocol does not allow, with
an error of its own. `duration_ms` is real time and left out of the summary.
-/

namespace ConformanceHarness

open Session
open ConformanceHarness.Lib (Prog)

/-- `VoteSpec`. -/
structure VoteSpec where
  slot : UInt64
  ebHash : String
  voterId : UInt16
  signature : String
deriving Repr, DecidableEq

/-- `LeiosNotifyAction`. -/
structure LeiosNotifyAction where
  kind : String
  headerBytes : Option String
  point : Option String
  ebSize : Option UInt32
  votes : Option (List VoteSpec)
  durationSecs : Option UInt64
  bytes : Option String
deriving Repr, DecidableEq

/-- `net_core::types::Vote`. -/
structure Vote where
  slot : UInt64
  ebHash : Hash32
  voterId : UInt16
  signature : List UInt8
deriving Repr, DecidableEq

/-- The messages the server sends. -/
inductive LeiosNotifyMessage where
  | blockAnnouncement (header : List UInt8)
  | blockOffer (point : NcPoint) (ebSize : UInt32)
  | blockTxsOffer (point : NcPoint)
  | votes (votes : List Vote)
deriving Repr, DecidableEq

/-- A message the server receives: a request, or another one, which it skips. -/
inductive LeiosNotifyIncoming where
  | requestNext
  | done
  | other (text : String)
deriving Repr, DecidableEq

/-- `LeiosNotifyServerSummary`. -/
structure LeiosNotifyServerSummary where
  notificationsSent : UInt64
  exitReason : String
deriving Repr, DecidableEq

/-- A LeiosNotify session: it tracks no state, and counts the notifications. -/
abbrev LeiosNotifySession := Session Unit UInt64 LeiosNotifyMessage Unit

/-- A part of the LeiosNotify server. -/
abbrev LeiosNotifyServer := Server Unit UInt64 LeiosNotifyMessage Unit

/-- What the protocol runner refuses to send, and what it says then. -/
structure LeiosNotifyRunner where
  refuses : LeiosNotifySession → LeiosNotifyMessage → Option String
  refusesRaw : LeiosNotifySession → List UInt8 → Option String

namespace LeiosNotify

/-- `MINI_PROTOCOL`. -/
def miniProtocol : String := "leios-notify"

/-! ## Parameters -/

/-- `decode_hex`. -/
def decodeHex : String → Except Fault (List UInt8) := decodeHexWith fun _ => invalidDigit

/-- `.map_err(|e| anyhow!("..{e}"))`: the text in front of the error becomes part of it. -/
def withText {α : Type} (text : String) : Except Fault α → Except Fault α
  | .ok a => .ok a
  | .error (.err chain) => bail (text ++ chain.head?.getD "")
  | .error (.panic reason) => .error (.panic reason)

/-- `decode_hex_opt`. -/
def decodeHexOpt (opt : Option String) (field : String) : Except Fault (List UInt8) :=
  match opt with
  | none => bail s!"leios_notify_server: missing {field}"
  | some s => withText s!"leios_notify_server: {field}: " (decodeHex s)

/-- `hash.copy_from_slice(..)`, after the check of the length. -/
def hashOf (what : String) (bytes : List UInt8) : Except Fault Hash32 :=
  if h : bytes.length = 32 then .ok ⟨bytes, h⟩
  else
    let n := bytes.length
    bail s!"{what} must be 32 bytes, got {n}"

/-- `parse_nc_point`. -/
def parseNcPoint (s : String) : Except Fault NcPoint :=
  if s = "origin" then .ok .origin
  else match splitOnce ':' s.toList with
    | none => bail "expected \"origin\" or \"slot:hex_hash\""
    | some (slotText, hashText) =>
      match parseUnsigned slotText with
      | .error e => bail s!"invalid slot: {e}"
      | .ok slot => do
        let bytes ← decodeHex (String.ofList hashText)
        let hash ← hashOf "point hash" bytes
        return .specific (UInt64.ofNat slot) hash

/-- `parse_point_opt`. -/
def parsePointOpt (opt : Option String) (field : String) : Except Fault NcPoint :=
  match opt with
  | none => bail s!"leios_notify_server: missing {field}"
  | some s => withText s!"leios_notify_server: {field}: " (parseNcPoint s)

/-- A vote of `build_votes`. -/
def buildVote (spec : VoteSpec) : Except Fault Vote := do
  let ebHashBytes ← withText "vote eb_hash: " (decodeHex spec.ebHash)
  let ebHash ← hashOf "vote eb_hash" ebHashBytes
  let signature ← withText "vote signature: " (decodeHex spec.signature)
  return ⟨spec.slot, ebHash, spec.voterId, signature⟩

/-- `build_votes`. -/
def buildVotes (specs : List VoteSpec) : Except Fault (List Vote) := mapEntries buildVote specs

/-! ## Events -/

/-- A wire event. -/
def wireEvent (kind : EventKind) (direction : Direction) (payload : Value) : TraceEvent :=
  (TraceEvent.new kind direction payload).withProtocol miniProtocol

/-- The `ServerLeiosNotifyStarted` event. -/
def startedEvent : TraceEvent :=
  (TraceEvent.new .serverLeiosNotifyStarted .internal (.object [])).withProtocol miniProtocol

/-- The `ServerLeiosNotifyCompleted` event. -/
def completedEvent (summary : LeiosNotifyServerSummary) : TraceEvent :=
  (TraceEvent.new .serverLeiosNotifyCompleted .internal
    (.object [("exit_reason", .string summary.exitReason),
      ("notifications_sent", .ofU64 summary.notificationsSent)])).withProtocol miniProtocol

/-- The event a `raw_bytes` action writes. -/
def rawEvent : TraceEvent :=
  (TraceEvent.new .error .sent (.object [("kind", .string "leios_notify_server"),
    ("phase", .string "raw_bytes")])).withProtocol miniProtocol

/-! ## Actions -/

/-- A notification is sent and counted, and its event is written. -/
def notify (runner : LeiosNotifyRunner) (message : LeiosNotifyMessage) (event : TraceEvent) :
    LeiosNotifyServer Bool := do
  let s ← Prog.get
  match runner.refuses s message with
  | some e => Prog.ofExcept (bail s!"leios_notify_server send: {e}")
  | none =>
    sendMessage message
    update (· + 1)
    emit event
    return false

/-- The arm of `raw_bytes`. -/
def notifyRaw (runner : LeiosNotifyRunner) (raw : List UInt8) : LeiosNotifyServer Bool := do
  let s ← Prog.get
  match runner.refusesRaw s raw with
  | some e => Prog.ofExcept (bail s!"leios_notify_server send_raw: {e}")
  | none =>
    sendRaw raw
    emit rawEvent
    return false

/-- `execute_action`: whether the session ends here. -/
def executeAction (runner : LeiosNotifyRunner) (action : LeiosNotifyAction) :
    LeiosNotifyServer Bool :=
  if action.kind = "block_announcement" then do
    let raw ← Prog.ofExcept (decodeHexOpt action.headerBytes "header_bytes")
    notify runner (.blockAnnouncement raw)
      (wireEvent .leiosNotifyBlockAnnouncement .sent (.object []))
  else if action.kind = "block_offer" then do
    let point ← Prog.ofExcept (parsePointOpt action.point "point")
    let ebSize := action.ebSize.getD 0
    notify runner (.blockOffer point ebSize)
      (wireEvent .leiosNotifyBlockOffer .sent (.object [("eb_size", .ofU64 ebSize.toUInt64)]))
  else if action.kind = "block_txs_offer" then do
    let point ← Prog.ofExcept (parsePointOpt action.point "point")
    notify runner (.blockTxsOffer point) (wireEvent .leiosNotifyBlockTxsOffer .sent (.object []))
  else if action.kind = "votes" then do
    let votes ← Prog.ofExcept (buildVotes (action.votes.getD []))
    notify runner (.votes votes)
      (wireEvent .leiosNotifyVotes .sent (.object [("count", .ofLen votes.length)]))
  else if action.kind = "wait" then return false
  else if action.kind = "disconnect" then return true
  else if action.kind = "raw_bytes" then do
    let raw ← Prog.ofExcept (decodeHexOpt action.bytes "bytes")
    notifyRaw runner raw
  else
    let other := action.kind
    Prog.ofExcept (bail s!"leios_notify_server: unknown action kind \"{other}\"")

/-! ## The loop -/

/-- The loop, with the actions that are left. -/
def serveLoop (runner : LeiosNotifyRunner) :
    List LeiosNotifyAction → List LeiosNotifyIncoming → LeiosNotifyServer Unit
  | _, [] => return ()
  | actions, .other _ :: incoming => serveLoop runner actions incoming
  | _, .done :: _ => emit (wireEvent .leiosNotifyDone .received (.object []))
  | [], .requestNext :: _ => return ()
  | action :: actions, .requestNext :: incoming => do
    if ← executeAction runner action then
      return ()
    else
      serveLoop runner actions incoming

/-- `execute_leios_notify_script`, for the messages the runner receives. -/
def executeLeiosNotifyScript (runner : LeiosNotifyRunner) (actions : List LeiosNotifyAction)
    (incoming : List LeiosNotifyIncoming) : LeiosNotifyServer LeiosNotifyServerSummary := do
  emit startedEvent
  serveLoop runner actions incoming
  let s ← Prog.get
  let summary := { notificationsSent := s.locals, exitReason := "completed" }
  emit (completedEvent summary)
  return summary

/-- The session an execution starts from. -/
def session : LeiosNotifySession := Session.start () 0

end LeiosNotify

end ConformanceHarness
