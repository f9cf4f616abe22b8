import ConformanceHarness.Miniprotocols.ChainSync
import ConformanceHarness.Miniprotocols.ChainSyncServer

/-!
# What a Chain-Sync client and a Chain-Sync server hear of each other

The client reads what the server sends through the networking library, which is not part of the
harness: `find_intersection` reads one message, and `request_next` reads on past an `AwaitReply`.
What the library makes of a message is a parameter.
-/

namespace ConformanceHarness

/-- What the server reads of a request. -/
def ChainSyncRequest.received : ChainSyncRequest → ReceivedRequest
  | .findIntersect points => .findIntersect (points.map fromNcPoint)
  | .requestNext => .requestNext
  | .done => .done

/-- What the networking library makes of what a server sends. -/
structure ChainSyncLibrary where
  /-- What `find_intersection` answers. -/
  intersect : Wire ChainSyncMessage → Except String (Option (NcPoint × NcTip))
  /-- What `request_next` answers; if nothing, it waits on. -/
  next : Wire ChainSyncMessage → Except String (Option ChainSyncEvent)
  header : HeaderContent → WrappedHeader

/-- How waiting ends if the server says no more. -/
structure Silence where
  intersect : String
  next : NoReply

/-- A tip, as the library reads it. -/
def toNcTip (tip : Tip) : NcTip := ⟨toNcPoint tip.point, tip.blockNumber⟩

namespace ChainSyncLibrary

variable (lib : ChainSyncLibrary)

/-- What some messages bring to one `request_next` after the other, and the error of the one that
fails. -/
def events : List (Wire ChainSyncMessage) → List ChainSyncEvent × Option String
  | [] => ([], none)
  | m :: heard =>
    match lib.next m with
    | .error message => ([], some message)
    | .ok none => events heard
    | .ok (some event) => (event :: (events heard).1, (events heard).2)

/-- The session of a client that hears these messages. -/
def replies (silence : Silence) (done : Except String Unit) :
    List (Wire ChainSyncMessage) → ChainSyncReplies
  | [] => {
      intersect := .error silence.intersect, incoming := [], ending := silence.next, done }
  | m :: heard => {
      intersect := lib.intersect m
      incoming := (lib.events heard).1
      ending := (lib.events heard).2.elim silence.next .error
      done }

end ChainSyncLibrary

end ConformanceHarness
