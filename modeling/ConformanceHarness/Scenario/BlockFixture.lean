import ConformanceHarness.Scenario.Fixture
import Std.Data.ExtTreeMap

/-!
# Block-Fetch fixtures

`scenario/block_fixture.rs`: block bodies by point, and the resolution of a
range. A peer's `block_store` is a `BTreeMap`, which iterates by slot and then
by hash.
-/

namespace ConformanceHarness

/-- The key order of `BTreeMap<(u64, Vec<u8>), _>`: by slot, then by hash. -/
abbrev blockKeyCmp : UInt64 × List UInt8 → UInt64 × List UInt8 → Ordering :=
  compareLex (compareOn Prod.fst) (compareOn Prod.snd)

instance : Std.LawfulEqCmp blockKeyCmp where
  eq_of_compare {a b} h := by
    simp [blockKeyCmp, compareLex, compareOn, Ordering.then_eq_eq] at h
    exact Prod.ext h.1 h.2

instance : Std.TransCmp blockKeyCmp :=
  @Std.instTransCmpCompareLex _ _ _ Std.instTransCmpCompareOnOfTransOrd
    Std.instTransCmpCompareOnOfTransOrd

/-- `BTreeMap<(slot, hash), body>`. -/
abbrev BlockStore := Std.ExtTreeMap (UInt64 × List UInt8) (List UInt8) blockKeyCmp

/-- `BlockFixtureEntry`: one block body. -/
structure BlockFixtureEntry where
  slot : UInt64
  blockHash : String
  blockCborHex : String
deriving Repr, DecidableEq

/-- `block_fixture::decode_hex_unchecked`. -/
def BlockFixtureEntry.decodeHexUnchecked (s : String) : Except Fault (List UInt8) :=
  decodePairsLenient (strBytes s)

/-- `body_bytes`. -/
def BlockFixtureEntry.bodyBytes (e : BlockFixtureEntry) : Except Fault (List UInt8) :=
  decodeHexUnchecked e.blockCborHex

/-- `point`. -/
def BlockFixtureEntry.point (e : BlockFixtureEntry) : Except Fault Point :=
  (decodeHexUnchecked e.blockHash).map (.specific e.slot)

/-- `BlockFixtureChain`. -/
structure BlockFixtureChain where
  anchor : Point
  entries : List BlockFixtureEntry
deriving Repr, DecidableEq

namespace BlockFixtureChain

/-- `from_block_store`. -/
def fromBlockStore (store : BlockStore) : BlockFixtureChain where
  anchor := .origin
  entries := store.toList.map fun ((slot, hash), body) =>
    { slot, blockHash := encodeHex hash, blockCborHex := encodeHex body }

/-- The loop of `position`: entries are numbered from `i`. -/
def entryIdx (slot : UInt64) (hash : List UInt8) :
    Nat → List BlockFixtureEntry → Except Fault (Option Nat)
  | _, [] => .ok none
  | i, e :: rest =>
    if e.slot = slot then
      match BlockFixtureEntry.decodeHexUnchecked e.blockHash with
      | .error f => .error f
      | .ok h => if h = hash then .ok (some i) else entryIdx slot hash (i + 1) rest
    else entryIdx slot hash (i + 1) rest

/-- `find_entry_idx`. -/
def findEntryIdx (chain : BlockFixtureChain) : Point → Except Fault (Option Nat)
  | .origin => .ok none
  | .specific slot hash => entryIdx slot hash 0 chain.entries

/-- `find_range`: the entries from one point to another, both included. -/
def findRange (chain : BlockFixtureChain) (fromPoint toPoint : Point) :
    Except Fault (Option (List BlockFixtureEntry)) :=
  match chain.findEntryIdx fromPoint with
  | .error f => .error f
  | .ok none => .ok none
  | .ok (some fromIdx) =>
    match chain.findEntryIdx toPoint with
    | .error f => .error f
    | .ok none => .ok none
    | .ok (some toIdx) =>
      if toIdx < fromIdx then .ok none
      else .ok (some ((chain.entries.take (toIdx + 1)).drop fromIdx))

end BlockFixtureChain

/-! ## Loading -/

namespace BlockFixture

/-- `#[derive(Deserialize)]` for `BlockFixtureEntry`. -/
def entryFromValue (v : Value) : Option BlockFixtureEntry := do
  let field ← v.asStruct ["slot", "block_hash", "block_cbor_hex"] 0
  let slot ← Value.required Value.asU64 (field "slot")
  let blockHash ← Value.required Value.asString (field "block_hash")
  let blockCborHex ← Value.required Value.asString (field "block_cbor_hex")
  return { slot, blockHash, blockCborHex }

/-- `parse_anchor`: the anchor of a block fixture is the origin. -/
def parseAnchor (v : Value) : Except Fault Point :=
  if (v.getField "anchor").bind Value.asBool = some true then .ok .origin
  else bail "first block-fixture line must have anchor: true"

/-- The loop over the lines after the anchor; `n` is the number of the first one. -/
def loadEntries (fromStr : String → Option Value) :
    Nat → List String → Except Fault (List BlockFixtureEntry)
  | _, [] => .ok []
  | n, line :: rest =>
    if line.toList.all Fixture.isWhiteSpace then loadEntries fromStr (n + 1) rest
    else match (fromStr line).bind entryFromValue with
      | none => bail s!"parsing line {n} of block fixture"
      | some entry =>
        match loadEntries fromStr (n + 1) rest with
        | .error e => .error e
        | .ok entries => .ok (entry :: entries)

/-- `block_fixture::load`. -/
def load (fromStr : String → Option Value) (path : String) :
    Option (List String) → Except Fault BlockFixtureChain
  | none => bail s!"opening block fixture {path}"
  | some [] => bail s!"block fixture is empty: {path}"
  | some (anchorLine :: lines) =>
    match fromStr anchorLine with
    | none => bail s!"parsing anchor in {path}"
    | some v =>
      match withContext s!"parsing anchor in {path}" (parseAnchor v) with
      | .error e => .error e
      | .ok anchor =>
        match loadEntries fromStr 2 lines with
        | .error e => .error e
        | .ok entries => .ok { anchor, entries }

end BlockFixture

end ConformanceHarness
