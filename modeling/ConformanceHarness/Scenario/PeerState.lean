import ConformanceHarness.Scenario.ProductionRule
import ConformanceHarness.Scenario.BlockFixture

/-!
# Peer state and automatic production

`scenario/peer_state.rs`: the runtime state of a declared peer, its conversion
from and to fixtures, and `apply_production_rules`, which extends every peer's
chain over a time advance.

The map of peers is a `HashMap`: its lookup is a function, and the order in which it
iterates is an argument of its own, of which nothing is assumed. Blake2b-256 is
third-party code and a parameter throughout.
-/

namespace ConformanceHarness

/-- `ChainEntry`: one block header in a peer's chain. -/
structure ChainEntry where
  slot : UInt64
  blockHash : List UInt8
  blockNumber : UInt64
  headerCbor : List UInt8
  variant : UInt8
deriving Repr, DecidableEq

/-- `PeerState`. -/
structure PeerState where
  chainEntries : List ChainEntry
  blockStore : BlockStore
  productionRule : Option ProductionRule

/-- `PeerState::new`. -/
def PeerState.new : PeerState := ⟨[], ∅, none⟩

/-- `chain_tip_slot`. -/
def PeerState.chainTipSlot (ps : PeerState) : Option UInt64 :=
  ps.chainEntries.getLast?.map (·.slot)

/-- `HashMap<String, PeerState>`, as its lookup. -/
abbrev PeerMap := String → Option PeerState

/-- `HashMap::insert`, also a write through `get_mut`. -/
def PeerMap.insert (peers : PeerMap) (id : String) (ps : PeerState) : PeerMap :=
  fun other => if other = id then some ps else peers other

@[simp] theorem PeerMap.insert_self (peers : PeerMap) (id : String) (ps : PeerState) :
    peers.insert id ps id = some ps := by simp [PeerMap.insert]

theorem PeerMap.insert_ne (peers : PeerMap) {id other : String} (ps : PeerState)
    (h : other ≠ id) : peers.insert id ps other = peers other := by simp [PeerMap.insert, h]

/-- `order` is an iteration order of the map: every key once. -/
def PeerMap.IterOrder (peers : PeerMap) (order : List String) : Prop :=
  order.Nodup ∧ ∀ id, id ∈ order ↔ (peers id).isSome

/-! ## Hex helpers of `peer_state.rs` -/

/-- `peer_state::decode_hex`. -/
def PeerState.decodeHex : String → Except Fault (List UInt8) :=
  decodeHexWith fun i => s!"invalid hex byte at offset {i}: {invalidDigit}"

/-- `peer_state::decode_hex_unchecked`. -/
def PeerState.decodeHexUnchecked (s : String) : Except Fault (List UInt8) :=
  decodePairsLenient (strBytes s)

/-! ## From and to fixtures -/

/-- `ChainEntry::from_fixture_entry`. -/
def ChainEntry.fromFixtureEntry (e : FixtureEntry) : Except Fault ChainEntry :=
  match PeerState.decodeHexUnchecked e.blockHash with
  | .error f => .error f
  | .ok blockHash =>
    match PeerState.decodeHexUnchecked e.cborHex with
    | .error f => .error f
    | .ok headerCbor =>
      .ok { slot := e.slot, blockHash, blockNumber := e.blockNumber, headerCbor
            variant := e.variant }

/-- `from_fixture_chain`: the anchor is not kept. -/
def PeerState.fromFixtureChain (chain : FixtureChain) : Except Fault PeerState :=
  (mapEntries ChainEntry.fromFixtureEntry chain.entries).map fun chainEntries =>
    { PeerState.new with chainEntries }

/-- The entry `filtered_fixture_chain` makes of a `ChainEntry`. -/
def ChainEntry.toFixtureEntry (e : ChainEntry) : FixtureEntry where
  slot := e.slot
  blockHash := encodeHex e.blockHash
  blockNumber := e.blockNumber
  cborHex := encodeHex e.headerCbor
  variant := e.variant

/-- `filtered_fixture_chain`: the entries up to the current slot, anchored at the origin. -/
def PeerState.filteredFixtureChain (ps : PeerState) (currentSlot : Option UInt64) :
    FixtureChain where
  anchor := .origin
  entries := (ps.chainEntries.filter fun e =>
    match currentSlot with
    | none => true
    | some s => e.slot ≤ s).map ChainEntry.toFixtureEntry

/-- `to_block_fixture_chain`. -/
def PeerState.toBlockFixtureChain (ps : PeerState) : BlockFixtureChain :=
  BlockFixtureChain.fromBlockStore ps.blockStore

/-- The loop of `extend_from_block_fixture_chain`. -/
def PeerState.extendFromBlocks (ps : PeerState) : List BlockFixtureEntry → Except Fault PeerState
  | [] => .ok ps
  | e :: rest =>
    match PeerState.decodeHexUnchecked e.blockHash with
    | .error f => .error f
    | .ok hash =>
      match e.bodyBytes with
      | .error f => .error f
      | .ok body =>
        extendFromBlocks { ps with blockStore := ps.blockStore.insert (e.slot, hash) body } rest

/-- `extend_from_block_fixture_chain`. -/
def PeerState.extendFromBlockFixtureChain (ps : PeerState) (chain : BlockFixtureChain) :
    Except Fault PeerState :=
  ps.extendFromBlocks chain.entries

/-! ## Synthetic block content -/

/-- `u64::to_be_bytes`. -/
def toBeBytes (v : UInt64) : List UInt8 :=
  [(v >>> 56).toUInt8, (v >>> 48).toUInt8, (v >>> 40).toUInt8, (v >>> 32).toUInt8,
    (v >>> 24).toUInt8, (v >>> 16).toUInt8, (v >>> 8).toUInt8, v.toUInt8]

/-- The bytes `synthetic_hash` feeds to Blake2b: `peer_id || slot_be || prev_hash`. -/
def hashInput (peerId : String) (slot : UInt64) (prevHash : List UInt8) : List UInt8 :=
  strBytes peerId ++ toBeBytes slot ++ prevHash

/-- `synthetic_hash`. -/
def syntheticHash (blake2b : List UInt8 → List UInt8) (peerId : String) (slot : UInt64)
    (prevHash : List UInt8) : List UInt8 :=
  blake2b (hashInput peerId slot prevHash)

/-- `cbor_uint`: CBOR unsigned integer encoding. -/
def cborUint (v : UInt64) : List UInt8 :=
  if v ≤ 23 then [v.toUInt8]
  else if v ≤ 0xFF then [0x18, v.toUInt8]
  else if v ≤ 0xFFFF then [0x19, (v >>> 8).toUInt8, (v &&& 0xFF).toUInt8]
  else if v ≤ 0xFFFFFFFF then
    [0x1a, (v >>> 24).toUInt8, ((v >>> 16) &&& 0xFF).toUInt8, ((v >>> 8) &&& 0xFF).toUInt8,
      (v &&& 0xFF).toUInt8]
  else
    [0x1b, (v >>> 56).toUInt8, ((v >>> 48) &&& 0xFF).toUInt8, ((v >>> 40) &&& 0xFF).toUInt8,
      ((v >>> 32) &&& 0xFF).toUInt8, ((v >>> 24) &&& 0xFF).toUInt8, ((v >>> 16) &&& 0xFF).toUInt8,
      ((v >>> 8) &&& 0xFF).toUInt8, (v &&& 0xFF).toUInt8]

/-- `synthetic_header_cbor`: `array(2)[ array(2)[block_number, slot], null ]`. -/
def syntheticHeaderCbor (blockNumber slot : UInt64) : List UInt8 :=
  [0x82, 0x82] ++ cborUint blockNumber ++ cborUint slot ++ [0xf6]

/-! ## `apply_production_rules` -/

/-- `ProductionEvent`. -/
structure ProductionEvent where
  peerId : String
  slot : UInt64
  ruleKind : String
  skipped : Bool
  blockNumber : UInt64
  blockHashHex : String
  defectKind : Option String
deriving Repr, DecidableEq

/-- `RuleContext`. -/
inductive RuleContext where
  | honest
  | forked (forkSlot : UInt64) (forkMarker canonicalRoot : String)
  | broken (breakAtSlot : UInt64) (wrongHashBytes : List UInt8)
  | sparse
deriving Repr, DecidableEq

/-- One element of `tasks`: a peer, its rule's kind, the slots that fire, the context. -/
structure ProductionTask where
  peerId : String
  ruleKind : String
  slots : List UInt64
  ctx : RuleContext

/-- `vec![0u8; 32]`. -/
def zeroHash : List UInt8 := List.replicate 32 0

/-- The `RuleContext` of a rule; `none` when decoding `wrong_hash` panics. -/
def ruleContext : ProductionRule → Option RuleContext
  | .forkedFromSlot firstSlot interval forkSlot forkMarker =>
    some (.forked forkSlot forkMarker s!"{firstSlot}:{interval}:{forkSlot}")
  | .brokenPrevHash _ _ breakAtSlot wrongHash =>
    match PeerState.decodeHex wrongHash with
    | .ok bytes => some (.broken breakAtSlot bytes)
    | .error (.err _) => some (.broken breakAtSlot zeroHash)
    | .error (.panic _) => none
  | .skipsSlots .. => some .sparse
  | _ => some .honest

/-- The closure of phase 1: `some none` for a peer with nothing to do. -/
def productionTask (oldSlot newSlot : UInt64) (id : String) (ps : PeerState) :
    Option (Option ProductionTask) :=
  match ps.productionRule with
  | none => some none
  | some .none => some none
  | some rule =>
    match rule.slotsInRange (oldSlot + 1) newSlot with
    | none => none
    | some slots =>
      if slots.isEmpty then some none
      else (ruleContext rule).map fun ctx => some ⟨id, rule.kindStr, slots, ctx⟩

/-- Phase 1: the tasks of all peers, in the map's iteration order. -/
def scanPeers (peers : PeerMap) (oldSlot newSlot : UInt64) :
    List String → Option (List ProductionTask)
  | [] => some []
  | id :: rest =>
    match peers id with
    | none => scanPeers peers oldSlot newSlot rest
    | some ps =>
      match productionTask oldSlot newSlot id ps, scanPeers peers oldSlot newSlot rest with
      | some task, some tasks => some (task.toList ++ tasks)
      | _, _ => none

/-- The hash inputs and the defect a rule context decides on:
`(hash_peer_id, hash_prev, defect)`. -/
def hashInputs (ctx : RuleContext) (peerId : String) (slot : UInt64) (actualPrev : List UInt8) :
    String × List UInt8 × Option String :=
  match ctx with
  | .forked forkSlot forkMarker canonicalRoot =>
    if slot < forkSlot then (canonicalRoot, actualPrev, none)
    else ("\x00" ++ forkMarker, actualPrev, some "fork_divergence")
  | .broken breakAtSlot wrongHashBytes =>
    if slot ≥ breakAtSlot then (peerId, wrongHashBytes, some "broken_prev_hash")
    else (peerId, actualPrev, none)
  | .sparse => (peerId, actualPrev, some "sparse_chain")
  | .honest => (peerId, actualPrev, none)

section Production

variable (blake2b : List UInt8 → List UInt8)

/-- The hash a new block builds on: the tip's, or 32 zero bytes. -/
def PeerState.actualPrev (ps : PeerState) : List UInt8 :=
  (ps.chainEntries.getLast?.map (·.blockHash)).getD zeroHash

/-- The number of the next block. -/
def PeerState.nextBlockNumber (ps : PeerState) : UInt64 :=
  (ps.chainEntries.getLast?.map (·.blockNumber + 1)).getD 0

/-- The entry phase 2 appends for a slot that is not skipped. -/
def producedEntry (peerId : String) (ctx : RuleContext) (ps : PeerState) (slot : UInt64) :
    ChainEntry :=
  let bn := ps.nextBlockNumber
  let inputs := hashInputs ctx peerId slot ps.actualPrev
  { slot
    blockHash := syntheticHash blake2b inputs.1 slot inputs.2.1
    blockNumber := bn
    headerCbor := syntheticHeaderCbor bn slot
    variant := defaultHeaderVariant }

/-- The chain tip already covers `slot`. -/
def PeerState.covers (ps : PeerState) (slot : UInt64) : Bool :=
  match ps.chainTipSlot with
  | none => false
  | some tip => tip ≥ slot

/-- The body of phase 2's inner loop. -/
def produceSlot (peerId ruleKind : String) (ctx : RuleContext) (ps : PeerState) (slot : UInt64) :
    PeerState × ProductionEvent :=
  if ps.covers slot then
    (ps, { peerId, slot, ruleKind, skipped := true, blockNumber := 0, blockHashHex := "",
           defectKind := none })
  else
    let entry := producedEntry blake2b peerId ctx ps slot
    ({ ps with
        chainEntries := ps.chainEntries ++ [entry]
        blockStore := ps.blockStore.insert (slot, entry.blockHash) [0xa0] },
     { peerId, slot, ruleKind, skipped := false, blockNumber := entry.blockNumber
       blockHashHex := encodeHex entry.blockHash
       defectKind := (hashInputs ctx peerId slot ps.actualPrev).2.2 })

/-- Phase 2's inner loop: the slots of one task. -/
def produceSlots (peerId ruleKind : String) (ctx : RuleContext) :
    PeerState → List UInt64 → PeerState × List ProductionEvent
  | ps, [] => (ps, [])
  | ps, slot :: rest =>
    let (ps', event) := produceSlot blake2b peerId ruleKind ctx ps slot
    let (ps'', events) := produceSlots peerId ruleKind ctx ps' rest
    (ps'', event :: events)

/-- Phase 2: the tasks in order, each through `get_mut`. -/
def runTasks : PeerMap → List ProductionTask → PeerMap × List ProductionEvent
  | peers, [] => (peers, [])
  | peers, task :: rest =>
    match peers task.peerId with
    | none => runTasks peers rest
    | some ps =>
      let (ps', events) := produceSlots blake2b task.peerId task.ruleKind task.ctx ps task.slots
      let (peers', events') := runTasks (peers.insert task.peerId ps') rest
      (peers', events ++ events')

/-- `apply_production_rules`, iterating the map in `order`; `none` when the call does not return. -/
def applyProductionRules (order : List String) (peers : PeerMap) (oldSlot newSlot : UInt64) :
    Option (PeerMap × List ProductionEvent) :=
  (scanPeers peers oldSlot newSlot order).map (runTasks blake2b peers)

end Production

end ConformanceHarness
