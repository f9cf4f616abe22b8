import ConformanceHarness.Scenario.Point

/-!
# Chain-Sync fixtures

`scenario/fixture.rs`: a captured chain of headers, its file format, and the
cursor a server walks it with. The hashes and headers of an entry are hex text,
and nothing checks that text when a file is loaded: decoding happens when a
point is compared or a header served, and may panic then.

The file is given as its lines; parsing a line as JSON is `serde_json`'s.
-/

namespace ConformanceHarness

/-- `DEFAULT_HEADER_VARIANT`: Conway. -/
def defaultHeaderVariant : UInt8 := 6

/-- `FixtureEntry`: one captured block header. -/
structure FixtureEntry where
  slot : UInt64
  blockHash : String
  blockNumber : UInt64
  cborHex : String
  variant : UInt8
deriving Repr, DecidableEq

/-- `FixtureChain`: an anchor point, and headers in chain order. -/
structure FixtureChain where
  anchor : Point
  entries : List FixtureEntry
deriving Repr, DecidableEq

namespace Fixture

/-- `fixture::decode_hex`. -/
def decodeHex : String → Except Fault (List UInt8) := decodeHexWith fun _ => invalidDigit

/-- `fixture::decode_hex_unchecked`: the empty string for an error, but a panic is a panic. -/
def decodeHexUnchecked (s : String) : Except Fault (List UInt8) :=
  match decodeHex s with
  | .ok bytes => .ok bytes
  | .error (.err _) => .ok []
  | .error (.panic reason) => .error (.panic reason)

/-! ## Loading -/

/-- `#[derive(Deserialize)]` for `FixtureEntry`. -/
def entryFromValue (v : Value) : Option FixtureEntry := do
  let field ← v.asStruct ["slot", "block_hash", "block_number", "cbor_hex", "variant"] 1
  let slot ← Value.required Value.asU64 (field "slot")
  let blockHash ← Value.required Value.asString (field "block_hash")
  let blockNumber ← Value.required Value.asU64 (field "block_number")
  let cborHex ← Value.required Value.asString (field "cbor_hex")
  let variant ← Value.defaulted Value.asU8 defaultHeaderVariant (field "variant")
  return { slot, blockHash, blockNumber, cborHex, variant }

/-- The `(Some(s), Some(h))` arm of `parse_anchor`. -/
def parseAnchorPoint (slot hash : Value) : Except Fault Point :=
  match slot.asU64 with
  | none => bail "anchor slot must be u64"
  | some slot =>
    match hash.asString with
    | none => bail "anchor block_hash must be string"
    | some text =>
      match withContext "anchor block_hash hex" (decodeHex text) with
      | .error e => .error e
      | .ok bytes => .ok (.specific slot bytes)

/-- `parse_anchor`, after the line is parsed. -/
def parseAnchor (v : Value) : Except Fault Point :=
  if (v.getField "anchor").bind Value.asBool = some true then
    match v.getField "slot", v.getField "block_hash" with
    | some slot, some hash =>
      if (hash.asString.getD "").isEmpty then .ok .origin else parseAnchorPoint slot hash
    | _, _ => .ok .origin
  else bail "first fixture line must have anchor: true"

/-- Unicode white space, as `trim` sees it. -/
def isWhiteSpace (c : Char) : Bool :=
  let n := c.toNat
  (9 ≤ n && n ≤ 13) || n = 32 || n = 0x85 || n = 0xA0 || n = 0x1680 || (0x2000 ≤ n && n ≤ 0x200A) ||
    n = 0x2028 || n = 0x2029 || n = 0x202F || n = 0x205F || n = 0x3000

/-- The loop over the lines after the anchor; `n` is the number of the first one. -/
def loadEntries (fromStr : String → Option Value) :
    Nat → List String → Except Fault (List FixtureEntry)
  | _, [] => .ok []
  | n, line :: rest =>
    if line.toList.all isWhiteSpace then loadEntries fromStr (n + 1) rest
    else match (fromStr line).bind entryFromValue with
      | none => bail s!"parsing line {n} of fixture"
      | some entry =>
        match loadEntries fromStr (n + 1) rest with
        | .error e => .error e
        | .ok entries => .ok (entry :: entries)

/-- `fixture::load`: the lines of the file at `path`, if it can be opened. -/
def load (fromStr : String → Option Value) (path : String) :
    Option (List String) → Except Fault FixtureChain
  | none => bail s!"opening fixture file {path}"
  | some [] => bail s!"fixture file is empty: {path}"
  | some (anchorLine :: lines) =>
    match fromStr anchorLine with
    | none => bail s!"parsing anchor in {path}"
    | some v =>
      match withContext s!"parsing anchor in {path}" (parseAnchor v) with
      | .error e => .error e
      | .ok anchor =>
        match loadEntries fromStr 2 lines with
        | .error e => .error e
        | .ok entries => .ok { anchor, entries }

end Fixture

/-- The point of an entry. -/
def FixtureEntry.point (e : FixtureEntry) : Except Fault Point :=
  (Fixture.decodeHexUnchecked e.blockHash).map (.specific e.slot)

/-- `FixtureChain::tip`. -/
def FixtureChain.tip (chain : FixtureChain) : Except Fault Tip :=
  match chain.entries.getLast? with
  | none => .ok ⟨chain.anchor, 0⟩
  | some e => e.point.map fun point => ⟨point, e.blockNumber⟩

/-! ## The cursor -/

/-- `Cursor`: -1 before the start, 0 at the anchor, `k` at entry `k`, counted from 1. -/
structure Cursor where
  chain : FixtureChain
  pos : Int

namespace Cursor

/-- `Cursor::new`. -/
def new (chain : FixtureChain) : Cursor := ⟨chain, -1⟩

/-- `Cursor::tip`. -/
def tip (c : Cursor) : Except Fault Tip := c.chain.tip

/-- The loop of `point_to_pos`: the first entry at `slot` with that hash. -/
def entryPos (slot : UInt64) (hash : List UInt8) :
    Nat → List FixtureEntry → Except Fault (Option Int)
  | _, [] => .ok none
  | i, e :: rest =>
    if slot = e.slot then
      match Fixture.decodeHexUnchecked e.blockHash with
      | .error f => .error f
      | .ok h => if hash = h then .ok (some (i + 1 : Nat)) else entryPos slot hash (i + 1) rest
    else entryPos slot hash (i + 1) rest

/-- `point_to_pos`. -/
def pointToPos (c : Cursor) : Point → Except Fault (Option Int)
  | .origin => .ok (if c.chain.anchor = .origin then some 0 else none)
  | .specific slot hash =>
    if c.chain.anchor = .specific slot hash then .ok (some 0)
    else entryPos slot hash 0 c.chain.entries

/-- `find_intersect`: the position of the first point that occurs. -/
def findIntersect (c : Cursor) : List Point → Except Fault (Option Int)
  | [] => .ok none
  | p :: rest =>
    match c.pointToPos p with
    | .error f => .error f
    | .ok (some pos) => .ok (some pos)
    | .ok none => findIntersect c rest

/-- `set_pos`. -/
def setPos (c : Cursor) (pos : Int) : Cursor := { c with pos }

/-- The panic of an index past the end of a `Vec`. -/
def indexPanic : Fault := .panic "index out of bounds"

/-- `as usize`, of an `isize`: exact unless it is negative. -/
def asUsize (n : Int) : Nat := if 0 ≤ n then n.toNat else (n + 2 ^ 64).toNat

/-- `&self.chain.entries[i]`. -/
def entryAt (c : Cursor) (i : Nat) : Except Fault FixtureEntry :=
  match c.chain.entries[i]? with
  | some e => .ok e
  | none => .error indexPanic

/-- `current_point`. -/
def currentPoint (c : Cursor) : Except Fault Point :=
  if c.pos ≤ 0 then .ok c.chain.anchor
  else match c.entryAt (asUsize (c.pos - 1)) with
    | .error f => .error f
    | .ok e => e.point

/-- `advance`: the cursor after it, and the new entry. -/
def advance (c : Cursor) : Except Fault (Cursor × Option FixtureEntry) :=
  let next := c.pos + 1
  if asUsize next > c.chain.entries.length then .ok (c, none)
  else if next = 0 then .ok (c.setPos next, none)
  else match c.entryAt (asUsize (next - 1)) with
    | .error f => .error f
    | .ok e => .ok (c.setPos next, some e)

/-- `remaining`: `saturating_sub` of the position after this one. -/
def remaining (c : Cursor) : Nat :=
  let next := asUsize (max (c.pos + 1) 0)
  c.chain.entries.length - next

end Cursor

end ConformanceHarness
