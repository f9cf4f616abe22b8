import ConformanceHarness.Lib.Chunks
import ConformanceHarness.Lib.Closing
import ConformanceHarness.Miniprotocols.BlockFetch
import ConformanceHarness.Miniprotocols.ChainSync
import ConformanceHarness.Miniprotocols.LeiosFetch
import ConformanceHarness.Miniprotocols.LeiosNotify

/-!
# Client sessions are closed

A session is opened in the trace by one event and closed by another. The clients write the
closing event before they return an error, all but one of them at every place: the Chain-Sync
client does not where `find_intersect` fails.
-/

namespace ConformanceHarness

open ConformanceHarness.Lib
open Session

/-- The events that open a session. -/
def EventKind.opensSession : EventKind → Bool
  | .chainSyncStarted | .blockFetchStarted | .leiosNotifyStarted | .leiosFetchStarted
  | .serverChainSyncStarted | .serverBlockFetchStarted | .serverLeiosNotifyStarted
  | .serverLeiosFetchStarted => true
  | _ => false

/-- The events that close a session. -/
def EventKind.closesSession : EventKind → Bool
  | .chainSyncSessionSummary | .blockFetchSessionSummary | .leiosNotifySessionSummary
  | .leiosFetchSessionSummary | .serverChainSyncCompleted | .serverBlockFetchCompleted
  | .serverLeiosNotifyCompleted | .serverLeiosFetchCompleted => true
  | _ => false

/-- The events of a trace that open or close a session. -/
def sessionMarks {τ : Type} (trace : List (Stamped τ)) : List EventKind :=
  (trace.map fun e => e.event.kind).filter fun kind => kind.opensSession || kind.closesSession

/-- A session in which an event was written. -/
def Session.wrote {τ ρ μ κ : Type} (s : Session τ ρ μ κ) (event : TraceEvent) :
    Session τ ρ μ κ :=
  { s with trace := s.trace ++ [⟨event, s.ioState, s.state⟩] }

/-- Exactly one event opens a session and exactly one closes one: these two. -/
def Closed {τ : Type} (opening closing : EventKind) (trace : List (Stamped τ)) : Prop :=
  sessionMarks trace = [opening, closing]

namespace Proof

variable {τ ρ μ κ : Type}

/-! ## Marks -/

section BlockFetch

open BlockFetchClient

end BlockFetch

/-! ## LeiosFetch -/

section LeiosFetch

open LeiosFetchClient

end LeiosFetch

/-! ## Request loops -/

section LeiosNotify

open LeiosNotifyClient

end LeiosNotify

/-! ## Chain-Sync -/

section ChainSync

open ChainSyncClient

end ChainSync

end Proof

end ConformanceHarness
