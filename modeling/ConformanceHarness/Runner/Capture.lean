import ConformanceHarness.Miniprotocols.ChainSync
import ConformanceHarness.Scenario.Fixture

/-!
# Capturing a Chain-Sync fixture

What a `chain_sync` step of `scenario/runner.rs` does with the summary of its session when there
is a `--capture-fixture` path, and the functions of `scenario/fixture.rs` that write. File
operations succeed. A fixture is given as its lines: what is written is one line each time.
-/

namespace ConformanceHarness

/-- `serde_json`, as far as fixtures are concerned. -/
structure FixtureSerde where
  fromStr : String → Option Value
  /-- `to_string` of a `FixtureEntry`. -/
  entryToString : FixtureEntry → String

/-- `#[derive(Serialize)]` for `FixtureEntry`, as the value that is read back. -/
def FixtureEntry.toValue (e : FixtureEntry) : Value :=
  .object [("block_hash", .string e.blockHash), ("block_number", .ofU64 e.blockNumber),
    ("cbor_hex", .string e.cborHex), ("slot", .ofU64 e.slot),
    ("variant", .ofU64 e.variant.toUInt64)]

/-- The line `write_anchor` writes. -/
def anchorLine : Point → String
  | .origin => "\x7b\"anchor\":true\x7d"
  | .specific slot hash =>
    let hex := encodeHex hash
    "\x7b\"anchor\":true,\"block_hash\":\"" ++ hex ++ "\",\"slot\":" ++ s!"{slot}" ++ "\x7d"

/-- `write_anchor`: whatever was in the file is gone. -/
def writeAnchor (anchor : Point) : List String := [anchorLine anchor]

/-- `append_entry`. The file is created if there is none. -/
def appendEntry (serde : FixtureSerde) (entry : FixtureEntry) (lines : Option (List String)) :
    List String := lines.getD [] ++ [serde.entryToString entry]

/-- The entry of a captured header. -/
def CapturedHeader.entry (h : CapturedHeader) : FixtureEntry where
  slot := h.slot
  blockHash := encodeHex h.blockHash
  blockNumber := h.blockNumber
  cborHex := encodeHex h.cbor
  variant := h.variant

/-- The file at the `--capture-fixture` path, and `fixture_anchor_written`. -/
structure CaptureFile where
  lines : Option (List String)
  anchorWritten : Bool

/-- What is captured of a session. -/
def CaptureFile.capture (serde : FixtureSerde) (file : CaptureFile)
    (headers : List CapturedHeader) : CaptureFile :=
  if headers.isEmpty then file
  else
    let file := if file.anchorWritten then file
      else { lines := some (writeAnchor .origin), anchorWritten := true }
    let lines := headers.foldl (fun lines h => some (appendEntry serde h.entry lines)) file.lines
    { file with lines }

end ConformanceHarness
