import ConformanceHarness.Lib.Dialogue
import ConformanceHarness.Miniprotocols.LeiosFetch
import ConformanceHarness.Miniprotocols.LeiosFetchServer
import ConformanceHarness.Miniprotocols.LeiosNotify
import ConformanceHarness.Miniprotocols.LeiosNotifyServer

/-!
# What the clients and the servers of the Leios protocols hear of each other

Both clients read one message for each request, through the networking library. What the library
makes of a message is a parameter.
-/

namespace ConformanceHarness

open ConformanceHarness.Lib.Dialogue (reading)

/-- What the server reads of a request. -/
def LeiosNotifyRequest.received : LeiosNotifyRequest → LeiosNotifyIncoming
  | .requestNext => .requestNext
  | .done => .done

/-- What the networking library makes of what a LeiosNotify server sends: `request_next`. -/
structure LeiosNotifyLibrary where
  next : Wire LeiosNotifyMessage → Except String LeiosNotifyEvent

/-- The session of a client that hears these messages, if waiting for more ends so. -/
def LeiosNotifyLibrary.replies (lib : LeiosNotifyLibrary) (silence : NoReply)
    (done : Except String Unit) (heard : List (Wire LeiosNotifyMessage)) : LeiosNotifyReplies where
  incoming := (reading lib.next heard).1
  ending := (reading lib.next heard).2.elim silence .error
  done := done

/-- What the server reads of a message. -/
def LeiosFetchClientMessage.received : LeiosFetchClientMessage → FetchMessage
  | .blockRequest point => .blockRequest (fromNcPoint point)
  | .done => .done

/-- What the networking library makes of what a LeiosFetch server sends: `fetch_block`. -/
structure LeiosFetchLibrary where
  block : Wire LeiosBlockMessage → Except String (List UInt8)

/-- The session of a client that hears these messages, if waiting for more ends so. -/
def LeiosFetchLibrary.replies (lib : LeiosFetchLibrary) (silence : String)
    (done : Except String Unit) (heard : List (Wire LeiosBlockMessage)) : LeiosFetchReplies where
  block i := (heard[i]?).elim (.error silence) lib.block
  done := done

end ConformanceHarness
