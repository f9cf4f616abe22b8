import ConformanceHarness.Miniprotocols.Session
import ConformanceHarness.Lib.RuleScript

/-!
# The LeiosFetch server

`miniprotocols/leios_fetch_server.rs`: the loop that executes a list of rules on a
LeiosFetch channel. Its rules are a type of their own: `on` and the kind of a send are
texts. The protocol runner that sends the messages is third-party code and a parameter.
`duration_ms` is real time and left out of the summary.
-/

namespace ConformanceHarness

open Session
open ConformanceHarness.Lib (Prog firstAt)

/-- `LeiosFetchSend`. -/
structure LeiosFetchSend where
  kind : String
  blockBytes : Option String
  durationSecs : Option UInt64
  bytes : Option String
deriving Repr, DecidableEq

/-- `LeiosFetchRule`. -/
structure LeiosFetchRule where
  on : String
  send : LeiosFetchSend
  repeatable : Bool
deriving Repr, DecidableEq

/-- `FetchRequest`. -/
inductive FetchRequest where
  | fetchBlock (point : Point)
  | done
deriving Repr, DecidableEq

/-- `FetchRequest::kind_str`. -/
def FetchRequest.kindStr : FetchRequest → String
  | fetchBlock _ => "fetch_block"
  | done => "done"

/-- `FetchRequest::matches_on`. -/
def FetchRequest.matchesOn (request : FetchRequest) (on : String) : Bool :=
  on = "any" || match request with
    | fetchBlock _ => on = "fetch_block"
    | done => on = "done"

/-- A message the runner receives: a request, or another one, which the loop skips. -/
inductive FetchMessage where
  | blockRequest (point : Point)
  | done
  | other (text : String)
deriving Repr, DecidableEq

/-- The request of a message. -/
def FetchMessage.request? : FetchMessage → Option FetchRequest
  | blockRequest point => some (.fetchBlock point)
  | done => some .done
  | other _ => none

/-- `MsgLeiosBlock`, the message a server sends. -/
structure LeiosBlockMessage where
  block : List UInt8
deriving Repr, DecidableEq

/-- `LeiosFetchServerSummary`. -/
structure LeiosFetchServerSummary where
  blocksServed : UInt64
  exitReason : String
deriving Repr, DecidableEq

/-- A LeiosFetch session: it tracks no state, and counts the blocks. -/
abbrev LeiosFetchSession := Session Unit UInt64 LeiosBlockMessage (List UInt8)

/-- A part of the LeiosFetch server. -/
abbrev LeiosFetchServer := Server Unit UInt64 LeiosBlockMessage (List UInt8)

/-- The sending half of the protocol runner. It may refuse what the protocol does not allow. -/
structure LeiosFetchRunner where
  send : LeiosBlockMessage → LeiosFetchServer Unit
  sendRaw : List UInt8 → LeiosFetchServer Unit

namespace LeiosFetch

/-- `MINI_PROTOCOL`. -/
def miniProtocol : String := "leios-fetch"

/-- `decode_hex_opt`. -/
def decodeHexOpt (opt : Option String) (field : String) : Except Fault (List UInt8) :=
  match opt with
  | none => bail s!"leios_fetch_server: missing {field}"
  | some s =>
    match decodeHexWith (fun _ => invalidDigit) s with
    | .ok bytes => .ok bytes
    | .error (.err chain) => bail (s!"leios_fetch_server: {field}: " ++ chain.head?.getD "")
    | .error (.panic reason) => .error (.panic reason)

/-! ## Events -/

/-- The `ServerLeiosFetchStarted` event. -/
def startedEvent : TraceEvent :=
  (TraceEvent.new .serverLeiosFetchStarted .internal (.object [])).withProtocol miniProtocol

/-- The `LeiosFetchDone` event. -/
def doneEvent : TraceEvent :=
  (TraceEvent.new .leiosFetchDone .received (.object [])).withProtocol miniProtocol

/-- The `ResponseRuleApplied` event. -/
def ruleAppliedEvent (rule : LeiosFetchRule) : TraceEvent :=
  TraceEvent.new .responseRuleApplied .internal
    (.object [("on", .string rule.on), ("send", .string rule.send.kind)])

/-- The `LeiosFetchBlock` event. -/
def blockEvent (blockLen : Nat) : TraceEvent :=
  (TraceEvent.new .leiosFetchBlock .sent
    (.object [("block_len", .ofLen blockLen)])).withProtocol miniProtocol

/-- The event a `raw_bytes` rule writes. -/
def rawEvent : TraceEvent :=
  (TraceEvent.new .error .sent (.object [("kind", .string "leios_fetch_server"),
    ("phase", .string "raw_bytes")])).withProtocol miniProtocol

/-- The `ServerLeiosFetchCompleted` event. -/
def completedEvent (summary : LeiosFetchServerSummary) : TraceEvent :=
  (TraceEvent.new .serverLeiosFetchCompleted .internal
    (.object [("blocks_served", .ofU64 summary.blocksServed),
      ("exit_reason", .string summary.exitReason)])).withProtocol miniProtocol

/-! ## The loop -/

/-- `execute_send_rule`: whether the session ends here. -/
def executeSendRule (runner : LeiosFetchRunner) (send : LeiosFetchSend) : LeiosFetchServer Bool :=
  if send.kind = "block" then do
    let block ← Prog.ofExcept (decodeHexOpt send.blockBytes "block_bytes")
    runner.send ⟨block⟩
    update (· + 1)
    emit (blockEvent block.length)
    return false
  else if send.kind = "wait" then return false
  else if send.kind = "disconnect" then return true
  else if send.kind = "raw_bytes" then do
    let raw ← Prog.ofExcept (decodeHexOpt send.bytes "bytes")
    runner.sendRaw raw
    emit rawEvent
    return false
  else
    let other := send.kind
    Prog.ofExcept (bail s!"leios_fetch_server: unknown send kind \"{other}\"")

/-- The loop, from rule `ruleIdx` on. -/
def serveLoop (runner : LeiosFetchRunner) (rules : List LeiosFetchRule) :
    Nat → List FetchMessage → LeiosFetchServer Unit
  | _, [] => return ()
  | ruleIdx, message :: incoming =>
    match message.request? with
    | none => serveLoop runner rules ruleIdx incoming
    | some request =>
      if request = .done then emit doneEvent
      else
        match firstAt (fun _ rule => request.matchesOn rule.on) ruleIdx (rules.drop ruleIdx) with
        | none =>
          let kind := request.kindStr
          let n := rules.length
          Prog.ofExcept
            (bail s!"serve_leios_fetch: no matching rule for \"{kind}\" (exhausted {n} rules)")
        | some (pos, rule) => do
          emit (ruleAppliedEvent rule)
          if ← executeSendRule runner rule.send then
            return ()
          else
            serveLoop runner rules (if rule.repeatable then ruleIdx else pos + 1) incoming

/-- `execute_leios_fetch_script`, for the messages the runner receives. -/
def executeLeiosFetchScript (runner : LeiosFetchRunner) (rules : List LeiosFetchRule)
    (incoming : List FetchMessage) : LeiosFetchServer LeiosFetchServerSummary := do
  emit startedEvent
  serveLoop runner rules 0 incoming
  let s ← Prog.get
  let summary := { blocksServed := s.locals, exitReason := "completed" }
  emit (completedEvent summary)
  return summary

/-- The session an execution starts from. -/
def session : LeiosFetchSession := Session.start () 0

end LeiosFetch

end ConformanceHarness
