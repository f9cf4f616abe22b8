import ConformanceHarness.Hex
import ConformanceHarness.Scenario.Vars

/-!
# Points in scenario files and traces

`parse_point` of `scenario/mod.rs` reads `"origin"` or `"slot:hex_hash"`, and
`point_to_str` writes that. `format_point` writes a point into a trace payload.
-/

namespace ConformanceHarness

/-- `scenario::decode_hex`. -/
def Scenario.decodeHex : String → Except Fault (List UInt8) :=
  decodeHexWith fun i => s!"invalid hex byte at offset {i}: {invalidDigit}"

/-- `parse_point`. -/
def parsePoint (s : String) : Except Fault Point :=
  if s = "origin" then .ok .origin
  else match splitOnce ':' s.toList with
    | none => bail s!"expected \"origin\" or \"slot:hex_hash\", got \"{s}\""
    | some (slotText, hashText) =>
      match parseUnsigned slotText with
      | .error e => .error (.err [s!"invalid slot in \"{s}\"", e])
      | .ok slot =>
        match withContext s!"invalid hash hex in \"{s}\""
            (Scenario.decodeHex (String.ofList hashText)) with
        | .error e => .error e
        | .ok hash => .ok (.specific (UInt64.ofNat slot) hash)

/-- `format_point`. -/
def formatPoint : Point → Value
  | .origin => .string "origin"
  | .specific slot hash =>
    .object [("hash", .string (encodeHex hash)), ("slot", .number (.unsigned slot))]

/-- `point_to_str`. -/
def pointToStr : Point → String
  | .origin => "origin"
  | .specific slot hash =>
    let hex := encodeHex hash
    s!"{slot}:{hex}"

end ConformanceHarness
