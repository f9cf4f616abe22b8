import ConformanceHarness.Miniprotocols.Session

/-!
# The messages clients exchange

The types of the networking library that the client sides of `miniprotocols/` meet, and how
a client session is modelled. The library sends a request and waits for the reply that fits
it, or fails with an error whose text is its own; a session is given the replies, and how
waiting ends if there is none.
-/

namespace ConformanceHarness

/-- `[u8; 32]`. -/
abbrev Hash32 := { bytes : List UInt8 // bytes.length = 32 }

/-- `net_core::types::Point`. -/
inductive NcPoint where
  | origin
  | specific (slot : UInt64) (hash : Hash32)
deriving Repr, DecidableEq

/-- `net_core::types::Tip`. -/
structure NcTip where
  point : NcPoint
  blockNo : UInt64
deriving Repr, DecidableEq

/-- The fields of a header that the library has parsed. -/
structure HeaderInfo where
  blockNumber : UInt64
  era : UInt8
deriving Repr, DecidableEq

/-- `WrappedHeader`; `point` is what its `point()` answers. -/
structure WrappedHeader where
  raw : List UInt8
  parsed : Option HeaderInfo
  point : Option NcPoint
deriving Repr, DecidableEq

/-- The first 32 bytes, and zeros for those that are missing. -/
def padTo32 (hash : List UInt8) : Hash32 :=
  ⟨hash.take 32 ++ List.replicate (32 - hash.length) 0, by
    rw [List.length_append, List.length_take, List.length_replicate]
    omega⟩

/-- `to_nc_point`. -/
def toNcPoint : Point → NcPoint
  | .origin => .origin
  | .specific slot hash => .specific slot (padTo32 hash)

/-- `from_nc_point`. -/
def fromNcPoint : NcPoint → Point
  | .origin => .origin
  | .specific slot hash => .specific slot hash.val

/-- `format_nc_point`. -/
def formatNcPoint (point : NcPoint) : Value := formatPoint (fromNcPoint point)

/-- `format_nc_tip`. -/
def formatNcTip (tip : NcTip) : Value :=
  .object [("block_number", .ofU64 tip.blockNo), ("point", formatNcPoint tip.point)]

/-- How waiting for a reply ends if there is none: a timeout, if the session has one, or an
error. -/
inductive NoReply where
  | timeout
  | error (message : String)
deriving Repr, DecidableEq

/-- A part of a client. It tracks no state, and delivers nothing. -/
abbrev Client (ρ μ : Type) : Type → Type := Server Unit ρ μ Unit

/-- The `Error` event of a client. -/
def clientError (miniProtocol phase message : String) : TraceEvent :=
  (TraceEvent.new .error .internal
    (.object [("error", .string message), ("phase", .string phase)])).withProtocol miniProtocol

end ConformanceHarness
