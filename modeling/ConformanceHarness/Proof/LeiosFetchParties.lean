import ConformanceHarness.Lib.Asking
import ConformanceHarness.Miniprotocols.LeiosLink
import ConformanceHarness.Proof.ClientRuns
import ConformanceHarness.Proof.WirePoints

/-!
# The two parties of a LeiosFetch session

`run_leios_fetch` asks for the block of one point after the other, and the rules of
`execute_leios_fetch_script` have answers. Each request is for a block, so the rules are chosen by
how many requests there have been, whatever the points are.
-/

namespace ConformanceHarness

open ConformanceHarness.Lib (Prog firstAt)
open ConformanceHarness.Lib.Asking (Answer)
open ConformanceHarness.Lib.Dialogue
open ConformanceHarness.Lib.Duplex (Party)

namespace LeiosFetchClient

/-- The event of a request. -/
def requestEvent (point : NcPoint) : TraceEvent :=
  wireEvent .leiosFetchBlockRequest .sent (.object [("point", formatNcPoint point)])

/-- The event of a block. -/
def blockEvent (point : NcPoint) (block : List UInt8) : TraceEvent :=
  wireEvent .leiosFetchBlock .received
    (.object [("block_len", .ofLen block.length), ("point", formatNcPoint point)])

/-- The blocks that come for some requests, the first of them being number `i`, and the error of
the one that fails. -/
def fetched (block : Nat → Except String (List UInt8)) :
    Nat → List NcPoint → List (List UInt8) × Option String
  | _, [] => ([], none)
  | i, _ :: rest =>
    match block i with
    | .error message => ([], some message)
    | .ok b => (b :: (fetched block (i + 1) rest).1, (fetched block (i + 1) rest).2)

/-- The counters, once some requests and blocks more are counted. -/
def count (requested received : Nat) (l : LeiosFetchProgress) : LeiosFetchProgress where
  blocksRequested := l.blocksRequested + UInt64.ofNat requested
  blocksReceived := l.blocksReceived + UInt64.ofNat received

end LeiosFetchClient

namespace Proof

open LeiosFetchClient

section

variable {block : Nat → Except String (List UInt8)} {s : FetchClientSession}

end

section

variable (lib : LeiosFetchLibrary) (silence : String)

end

end Proof

end ConformanceHarness
