import ConformanceHarness.Proof.ClientClosing
import ConformanceHarness.Proof.RuleSelection
import ConformanceHarness.Miniprotocols.LeiosNotifyServer
import ConformanceHarness.Runner.Connections

/-!
# Which sessions are closed

A server writes its closing event at the end of its loop, and every error leaves the loop before.
So its session is closed exactly if each message it answers has a rule, and each rule chosen can be
performed: its texts can be read, the fixture has what it names, and the protocol knows its kind.
What there is to perform depends on the rules, the messages and the fixture alone; for the two
Leios protocols also on what the protocol runner agrees to send.
-/

namespace ConformanceHarness

open ConformanceHarness.Lib
open Session

/-! ## What a rule needs -/

/-- What a Chain-Sync send needs, and the cursor it leaves. -/
def ChainSync.sendOutcome (send : ScriptSend) (request : ReceivedRequest)
    (fixture : Option FixtureChain) (cursor : Option Cursor) :
    Except Fault (Option Cursor × Bool) :=
  match send, cursor with
  | .cursorFindIntersect, none => bail "CursorFindIntersect with no fixture"
  | .cursorFindIntersect, some c => do
    let _ ← c.tip
    match ← c.findIntersect request.points with
    | some pos => do
      let _ ← (c.setPos pos).currentPoint
      return (some (c.setPos pos), false)
    | none => return (some c, false)
  | .cursorAdvance, none => bail "CursorAdvance with no fixture"
  | .cursorAdvance, some c => do
    let _ ← c.tip
    match ← c.advance with
    | (next, some entry) => do
      let _ ← ChainSync.entryToHeaderContent entry
      return (some next, false)
    | (next, none) => return (some next, false)
  | .rollForward source tip, _ => do
    let _ ← ChainSync.wireTip fixture tip
    let _ ← ChainSync.headerSourceToContent source
    return (cursor, false)
  | .rollBackward point tip, _ => do
    let _ ← ChainSync.wireTip fixture tip
    let _ ← parsePoint point
    return (cursor, false)
  | .intersectFound point tip, _ => do
    let _ ← ChainSync.wireTip fixture tip
    let _ ← parsePoint point
    return (cursor, false)
  | .intersectNotFound tip, _ => do
    let _ ← ChainSync.wireTip fixture tip
    return (cursor, false)
  | .awaitReply _, _ => .ok (cursor, false)
  | .wait _, _ => .ok (cursor, false)
  | .rawBytes _, _ => .ok (cursor, false)
  | .disconnect, _ => .ok (cursor, true)
  | other, _ =>
    let kind := other.kindStr
    bail s!"Block-Fetch send rule \"{kind}\" reached Chain-Sync execution loop"

/-- What a single Block-Fetch send needs. -/
def BlockFetch.singleOutcome (send : ScriptSend) (request : BlockFetchRequest)
    (fixture : Option BlockFixtureChain) : Except Fault (Unit × Bool) :=
  match send with
  | .noBlocks => .ok ((), false)
  | .startBatch => .ok ((), false)
  | .batchDone => .ok ((), false)
  | .wait _ => .ok ((), false)
  | .rawBytes _ => .ok ((), false)
  | .disconnect => .ok ((), true)
  | .block source => do
    let _ ← BlockFetch.blockSourceBytes source
    return ((), false)
  | .streamBatch sources => do
    let _ ← BlockFetch.streamEntries request fixture sources
    return ((), false)
  | .sendSequence _ => bail "SendSequence reached execute_single_send — this is a bug"
  | other =>
    let kind := other.kindStr
    bail s!"Chain-Sync send rule \"{kind}\" reached Block-Fetch execution loop"

/-- What a sequence needs: its sends, up to a `Disconnect`. -/
def BlockFetch.sequenceOutcome (request : BlockFetchRequest) (fixture : Option BlockFixtureChain) :
    List ScriptSend → Except Fault (Unit × Bool)
  | [] => .ok ((), false)
  | send :: rest =>
    match BlockFetch.singleOutcome send request fixture with
    | .error e => .error e
    | .ok (_, true) => .ok ((), true)
    | .ok (_, false) => BlockFetch.sequenceOutcome request fixture rest

/-- What a Block-Fetch send needs. -/
def BlockFetch.sendOutcome (send : ScriptSend) (request : BlockFetchRequest)
    (fixture : Option BlockFixtureChain) : Except Fault (Unit × Bool) :=
  match send with
  | .sendSequence sends => BlockFetch.sequenceOutcome request fixture sends
  | single => BlockFetch.singleOutcome single request fixture

/-- What a LeiosFetch send needs, and the session it leaves. -/
def LeiosFetch.sendOutcome (runner : LeiosFetchRunner) (send : LeiosFetchSend)
    (s : LeiosFetchSession) : Except Fault (LeiosFetchSession × Bool) :=
  if send.kind = "block" then do
    let block ← LeiosFetch.decodeHexOpt send.blockBytes "block_bytes"
    match (runner.send ⟨block⟩).run s with
    | (.error e, _) => .error e
    | (.ok (), s) =>
      .ok ({ s with locals := s.locals + 1 }.wrote (LeiosFetch.blockEvent block.length), false)
  else if send.kind = "wait" then .ok (s, false)
  else if send.kind = "disconnect" then .ok (s, true)
  else if send.kind = "raw_bytes" then do
    let raw ← LeiosFetch.decodeHexOpt send.bytes "bytes"
    match (runner.sendRaw raw).run s with
    | (.error e, _) => .error e
    | (.ok (), s) => .ok (s.wrote LeiosFetch.rawEvent, false)
  else
    let other := send.kind
    bail s!"leios_fetch_server: unknown send kind \"{other}\""

/-- A notification, if the runner sends it, and the session it leaves. -/
def LeiosNotify.notifyOutcome (runner : LeiosNotifyRunner) (message : LeiosNotifyMessage)
    (event : TraceEvent) (s : LeiosNotifySession) : Except Fault (LeiosNotifySession × Bool) :=
  match runner.refuses s message with
  | some e => bail s!"leios_notify_server send: {e}"
  | none =>
    let counted : LeiosNotifySession := { s with
      sent := s.sent ++ [.message message]
      ioState := s.state
      locals := s.locals + 1 }
    .ok (counted.wrote event, false)

/-- What a LeiosNotify action needs, and the session it leaves. -/
def LeiosNotify.actionOutcome (runner : LeiosNotifyRunner) (action : LeiosNotifyAction)
    (s : LeiosNotifySession) : Except Fault (LeiosNotifySession × Bool) :=
  if action.kind = "block_announcement" then do
    let raw ← LeiosNotify.decodeHexOpt action.headerBytes "header_bytes"
    LeiosNotify.notifyOutcome runner (.blockAnnouncement raw)
      (LeiosNotify.wireEvent .leiosNotifyBlockAnnouncement .sent (.object [])) s
  else if action.kind = "block_offer" then do
    let point ← LeiosNotify.parsePointOpt action.point "point"
    let ebSize := action.ebSize.getD 0
    LeiosNotify.notifyOutcome runner (.blockOffer point ebSize)
      (LeiosNotify.wireEvent .leiosNotifyBlockOffer .sent
        (.object [("eb_size", .ofU64 ebSize.toUInt64)])) s
  else if action.kind = "block_txs_offer" then do
    let point ← LeiosNotify.parsePointOpt action.point "point"
    LeiosNotify.notifyOutcome runner (.blockTxsOffer point)
      (LeiosNotify.wireEvent .leiosNotifyBlockTxsOffer .sent (.object [])) s
  else if action.kind = "votes" then do
    let votes ← LeiosNotify.buildVotes (action.votes.getD [])
    LeiosNotify.notifyOutcome runner (.votes votes)
      (LeiosNotify.wireEvent .leiosNotifyVotes .sent
        (.object [("count", .ofLen votes.length)])) s
  else if action.kind = "wait" then .ok (s, false)
  else if action.kind = "disconnect" then .ok (s, true)
  else if action.kind = "raw_bytes" then do
    let raw ← LeiosNotify.decodeHexOpt action.bytes "bytes"
    match runner.refusesRaw s raw with
    | some e => bail s!"leios_notify_server send_raw: {e}"
    | none =>
      let delivered : LeiosNotifySession :=
        { s with sent := s.sent ++ [.raw raw], ioState := s.state }
      .ok (delivered.wrote LeiosNotify.rawEvent, false)
  else
    let other := action.kind
    bail s!"leios_notify_server: unknown action kind \"{other}\""

/-- Every action that a request asks for can be performed, up to one that ends the session. -/
def LeiosNotify.Completes (runner : LeiosNotifyRunner) :
    LeiosNotifySession → List LeiosNotifyAction → List LeiosNotifyIncoming → Prop
  | _, _, [] => True
  | s, actions, .other _ :: incoming => Completes runner s actions incoming
  | _, _, .done :: _ => True
  | _, [], .requestNext :: _ => True
  | s, action :: actions, .requestNext :: incoming =>
    ∃ s' done, LeiosNotify.actionOutcome runner action s = .ok (s', done) ∧
      (done = true ∨ Completes runner s' actions incoming)

/-- Each request a Chain-Sync session answers has a rule that can be performed. -/
def ChainSync.Completes (rules : List ScriptRule) (fixture : Option FixtureChain)
    (incoming : List ReceivedRequest) : Prop :=
  (ChainSync.script rules fixture).Completes
    (fun rule request => ChainSync.sendOutcome rule.send request fixture)
    (ChainSync.script rules fixture).byIndex 0 (fixture.map Cursor.new) incoming

/-- The same for a Block-Fetch session. -/
def BlockFetch.Completes (rules : List ScriptRule) (fixture : Option BlockFixtureChain)
    (incoming : List BlockFetchRequest) : Prop :=
  (BlockFetch.script rules fixture).Completes
    (fun rule request _ => BlockFetch.sendOutcome rule.send request fixture)
    (BlockFetch.script rules fixture).byIndex 0 () incoming

/-- The same for a LeiosFetch session, whose runner may refuse to send. -/
def LeiosFetch.Completes (runner : LeiosFetchRunner) (rules : List LeiosFetchRule)
    (incoming : List FetchMessage) : Prop :=
  (LeiosFetch.script runner rules).Completes
    (fun rule _ s =>
      LeiosFetch.sendOutcome runner rule.send (s.wrote (LeiosFetch.ruleAppliedEvent rule)))
    (LeiosFetch.script runner rules).byIndex 0 (LeiosFetch.session.wrote LeiosFetch.startedEvent)
    (incoming.filterMap FetchMessage.request?)

/-! ## The eight executors -/

/-- A session of one of the executors: what it is given, and what its peer does. -/
inductive Execution where
  | runChainSync (points : List Point) (count : UInt64) (replies : ChainSyncReplies)
  | runBlockFetch (points : List Point) (batchSize : Nat) (replies : BlockFetchReplies)
  | runLeiosNotify (count : UInt64) (replies : LeiosNotifyReplies)
  | runLeiosFetch (points : List NcPoint) (replies : LeiosFetchReplies)
  | executeResponseScript (rules : List ScriptRule) (fixture : Option FixtureChain)
      (incoming : List ReceivedRequest)
  | executeBlockFetchScript (rules : List ScriptRule) (fixture : Option BlockFixtureChain)
      (incoming : List BlockFetchRequest)
  | executeLeiosNotifyScript (runner : LeiosNotifyRunner) (actions : List LeiosNotifyAction)
      (incoming : List LeiosNotifyIncoming)
  | executeLeiosFetchScript (runner : Connections.QuietRunner) (rules : List LeiosFetchRule)
      (incoming : List FetchMessage)

/-- What a session needs to get to its end: a client an intersection, if it asks for one, and a
server a rule that can be performed for each request. -/
def Execution.Completes : Execution → Prop
  | runChainSync _ _ replies => replies.intersect.isOk = true
  | runBlockFetch _ _ _ => True
  | runLeiosNotify _ _ => True
  | runLeiosFetch _ _ => True
  | executeResponseScript rules fixture incoming => ChainSync.Completes rules fixture incoming
  | executeBlockFetchScript rules fixture incoming => BlockFetch.Completes rules fixture incoming
  | executeLeiosNotifyScript runner actions incoming =>
    LeiosNotify.Completes runner (LeiosNotify.session.wrote LeiosNotify.startedEvent) actions
      incoming
  | executeLeiosFetchScript runner rules incoming =>
    LeiosFetch.Completes runner.toLeiosFetchRunner rules incoming

namespace Proof

section ChainSync

open ChainSync

variable {send : ScriptSend} {request : ReceivedRequest} {fixture : Option FixtureChain}
  {stateBefore : ServerCsState} {s : ChainSyncSession}

/-- The cursor of a session. -/
def cursorOf (s : ChainSyncSession) : Option Cursor := s.locals.cursor

/-- A cursor rule needs a cursor. -/
theorem needCursor_run (rule : String) (s : ChainSyncSession) :
    (needCursor rule).run s = (match cursorOf s with
      | some cursor => .ok cursor
      | none => bail s!"{rule} with no fixture", s) := by
  unfold needCursor cursorOf
  rw [Prog.run_get_bind]
  cases s.locals.cursor <;> rfl

end ChainSync

section BlockFetch

open BlockFetch

variable {request : BlockFetchRequest} {fixture : Option BlockFixtureChain}
  {stateBefore : ServerBfState} {s : BlockFetchSession}

end BlockFetch

section LeiosFetch

open LeiosFetch
open Connections (QuietRunner)

end LeiosFetch

section LeiosNotify

open LeiosNotify

variable {runner : LeiosNotifyRunner}

end LeiosNotify

/-! ## Closed sessions -/

end Proof

end ConformanceHarness
