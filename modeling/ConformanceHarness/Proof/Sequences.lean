import ConformanceHarness.Proof.SessionParts

/-!
# Sequences of sends

The sends of a `send_sequence` are meant to be executed one after another on one incoming
message, until one disconnects. The Block-Fetch server does so. The Chain-Sync server has
no arm for a sequence and fails before it does anything, which is what the sends would have
done only if they all wait, or if the first one that does not fails at once.
-/

namespace ConformanceHarness.Proof

open ConformanceHarness.Lib (Prog)
open ConformanceHarness.Lib.Prog (Within inTurn)
open Session

namespace Sequences

section

open BlockFetch

end

/-! ## Chain-Sync -/

section

open ChainSync

variable {fixture : Option FixtureChain} {request : ReceivedRequest}

/-- A send that only waits. -/
def isWait : ScriptSend → Bool
  | .wait _ => true
  | _ => false

/-- A send that fails before it does anything. -/
def failsAtOnce (fixture : Option FixtureChain) (cursor : Option Cursor) : ScriptSend → Bool
  | .cursorFindIntersect => cursor.isNone
  | .cursorAdvance =>
    match cursor with
    | none => true
    | some c =>
      !c.tip.isOk ||
        match c.advance with
        | .error _ => true
        | .ok (_, none) => false
        | .ok (_, some entry) => !(entryToHeaderContent entry).isOk
  | .rollForward source tip => !(wireTip fixture tip).isOk || !(headerSourceToContent source).isOk
  | .rollBackward point tip => !(wireTip fixture tip).isOk || !(parsePoint point).isOk
  | .intersectFound point tip => !(wireTip fixture tip).isOk || !(parsePoint point).isOk
  | .intersectNotFound tip => !(wireTip fixture tip).isOk
  | .awaitReply _ | .wait _ | .disconnect | .rawBytes _ => false
  | .startBatch | .block _ | .batchDone | .noBlocks | .streamBatch _ | .cursorRange
  | .sendSequence _ => true

/-- What a send that does not fail at once does: it puts something on the channel, it stops with
a counter moved, or it disconnects. -/
def Acts (request : ReceivedRequest) (fixture : Option FixtureChain) (send : ScriptSend)
    (s : ChainSyncSession) : Prop :=
  (∃ m, ((executeSend send request fixture s.state).run s).2.sent = s.sent ++ [m]) ∨
  (∃ f s', (executeSend send request fixture s.state).run s = (.error f, s') ∧
    s'.locals.counters ≠ s.locals.counters) ∨
  send = .disconnect

/-- How a send starts: it fails at once, waits, or acts, as `failsAtOnce` and `isWait` say. -/
def Starts (request : ReceivedRequest) (fixture : Option FixtureChain) (send : ScriptSend)
    (s : ChainSyncSession) : Prop :=
  (failsAtOnce fixture s.locals.cursor send = true ∧
    ∃ e, (executeSend send request fixture s.state).run s = (.error e, s)) ∨
  (failsAtOnce fixture s.locals.cursor send = false ∧
    (isWait send = true ∨ Acts request fixture send s))

end

/-! ## Both protocols -/

end Sequences

end ConformanceHarness.Proof
