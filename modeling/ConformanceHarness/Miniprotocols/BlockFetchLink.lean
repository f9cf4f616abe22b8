import ConformanceHarness.Miniprotocols.BlockFetch
import ConformanceHarness.Miniprotocols.BlockFetchServer

/-!
# What a Block-Fetch client and a Block-Fetch server hear of each other

The client reads what the server sends through the networking library: `request_range` reads one
message, and after a `StartBatch` each `recv_block` reads one. What the library makes of a message
is a parameter.
-/

namespace ConformanceHarness

/-- What the server reads of a message. -/
def BlockFetchClientMessage.received : BlockFetchClientMessage → BlockFetchRequest
  | .requestRange fromPoint toPoint => .requestRange (fromNcPoint fromPoint) (fromNcPoint toPoint)
  | .clientDone => .clientDone

/-- What the networking library makes of what a server sends. -/
structure BlockFetchLibrary where
  /-- What `request_range` answers: whether there are blocks. -/
  answer : Wire BlockFetchMessage → Except String Bool
  /-- What `recv_block` answers: a body, or the end of the batch. -/
  block : Wire BlockFetchMessage → Except String (Option (List UInt8))

namespace BlockFetchLibrary

variable (lib : BlockFetchLibrary) (silence : String)

/-- What some messages bring to one request after the other; if a batch has been started, these are
the bodies it has brought. -/
def rangeReplies : Option (List (List UInt8)) → List (Wire BlockFetchMessage) → List RangeReply
  | none, [] => []
  | some bodies, [] => [.batch bodies (some silence)]
  | none, m :: heard =>
    match lib.answer m with
    | .error message => [.error message]
    | .ok false => .noBlocks :: rangeReplies none heard
    | .ok true => rangeReplies (some []) heard
  | some bodies, m :: heard =>
    match lib.block m with
    | .error message => [.batch bodies (some message)]
    | .ok none => .batch bodies none :: rangeReplies none heard
    | .ok (some body) => rangeReplies (some (bodies ++ [body])) heard

/-- The session of a client that hears these messages, if waiting for more ends with `silence`. -/
def replies (done : Except String Unit) (heard : List (Wire BlockFetchMessage)) :
    BlockFetchReplies where
  range i := (lib.rangeReplies silence none heard).getD i (.error silence)
  done := done

end BlockFetchLibrary

end ConformanceHarness
