import ConformanceHarness.Scenario.Vars

/-!
# Step parameters

`StepParams` of `scenario/mod.rs`: the typed view of a step's parameters, read
after variable substitution. `body` is left out: it is removed from a `repeat` step before,
and no other step has one.
-/

namespace ConformanceHarness

/-- `BlockFetchPoints`. -/
inductive BlockFetchPoints where
  | fromChainSync
  | explicit (points : List String)
deriving Repr, DecidableEq

/-- `BlockFetchPoints::deserialize`. -/
def BlockFetchPoints.fromValue : Value → Option BlockFetchPoints
  | .string s => if s = "from_chain_sync" then some .fromChainSync else none
  | .array items => (items.mapM Value.asString).map .explicit
  | _ => none

/-- `StepParams`. -/
structure StepParams where
  intersectionPoints : Option (List String)
  count : Option UInt64
  awaitTimeoutSecs : Option UInt64
  points : Option BlockFetchPoints
  batchSize : Option UInt64
  durationSecs : Option UInt64
  times : Option UInt64
  slot : Option UInt64
  peerId : Option String
  blockNumber : Option UInt64
  blockHash : Option String
  headerCbor : Option String
  variant : Option UInt8
  blockBodyCbor : Option String
  bindAddress : Option String
  targetAddress : Option String
  eventKind : Option String
  responses : Option (List Value)
  asPeer : Option String
  fixturePath : Option String
  blockFetchFixturePath : Option String
  noBlocksDefault : Option Bool
  awaitAtTipSecs : Option UInt64
deriving Repr, Inhabited

/-- `serde_json::from_value::<StepParams>`. -/
def StepParams.fromValue : Value → Option StepParams
  | .object fields => do
    let field key := fields.lookup key
    return {
      intersectionPoints := ←
        Value.optional (Value.asVec Value.asString) (field "intersection_points")
      count := ← Value.optional Value.asU64 (field "count")
      awaitTimeoutSecs := ← Value.optional Value.asU64 (field "await_timeout_secs")
      points := ← Value.optional BlockFetchPoints.fromValue (field "points")
      batchSize := ← Value.optional Value.asU64 (field "batch_size")
      durationSecs := ← Value.optional Value.asU64 (field "duration_secs")
      times := ← Value.optional Value.asU64 (field "times")
      slot := ← Value.optional Value.asU64 (field "slot")
      peerId := ← Value.optional Value.asString (field "peer_id")
      blockNumber := ← Value.optional Value.asU64 (field "block_number")
      blockHash := ← Value.optional Value.asString (field "block_hash")
      headerCbor := ← Value.optional Value.asString (field "header_cbor")
      variant := ← Value.optional Value.asU8 (field "variant")
      blockBodyCbor := ← Value.optional Value.asString (field "block_body_cbor")
      bindAddress := ← Value.optional Value.asString (field "bind_address")
      targetAddress := ← Value.optional Value.asString (field "target_address")
      eventKind := ← Value.optional Value.asString (field "event_kind")
      responses := ← Value.optional (Value.asVec some) (field "responses")
      asPeer := ← Value.optional Value.asString (field "as_peer")
      fixturePath := ← Value.optional Value.asString (field "fixture_path")
      blockFetchFixturePath := ← Value.optional Value.asString (field "block_fetch_fixture_path")
      noBlocksDefault := ← Value.optional Value.asBool (field "no_blocks_default")
      awaitAtTipSecs := ← Value.optional Value.asU64 (field "await_at_tip_secs") }
  | _ => none

section

variable {fields : List (String × Value)} {params : StepParams}

theorem StepParams.fromValue_intersectionPoints
    (h : StepParams.fromValue (.object fields) = some params) :
    Value.optional (Value.asVec Value.asString) (fields.lookup "intersection_points") =
      some params.intersectionPoints := by
  obtain ⟨_, hpoints, h⟩ := Option.bind_eq_some_iff.mp h
  iterate 22 obtain ⟨_, -, h⟩ := Option.bind_eq_some_iff.mp h
  obtain rfl := Option.some.inj h
  exact hpoints

theorem StepParams.fromValue_points (h : StepParams.fromValue (.object fields) = some params) :
    Value.optional BlockFetchPoints.fromValue (fields.lookup "points") = some params.points := by
  iterate 3 obtain ⟨_, -, h⟩ := Option.bind_eq_some_iff.mp h
  obtain ⟨_, hpoints, h⟩ := Option.bind_eq_some_iff.mp h
  iterate 19 obtain ⟨_, -, h⟩ := Option.bind_eq_some_iff.mp h
  obtain rfl := Option.some.inj h
  exact hpoints

theorem StepParams.fromValue_asPeer (h : StepParams.fromValue (.object fields) = some params) :
    Value.optional Value.asString (fields.lookup "as_peer") = some params.asPeer := by
  iterate 18 obtain ⟨_, -, h⟩ := Option.bind_eq_some_iff.mp h
  obtain ⟨_, hasPeer, h⟩ := Option.bind_eq_some_iff.mp h
  iterate 4 obtain ⟨_, -, h⟩ := Option.bind_eq_some_iff.mp h
  obtain rfl := Option.some.inj h
  exact hasPeer

theorem StepParams.fromValue_blockHash (h : StepParams.fromValue (.object fields) = some params) :
    Value.optional Value.asString (fields.lookup "block_hash") = some params.blockHash := by
  iterate 10 obtain ⟨_, -, h⟩ := Option.bind_eq_some_iff.mp h
  obtain ⟨_, hblockHash, h⟩ := Option.bind_eq_some_iff.mp h
  iterate 12 obtain ⟨_, -, h⟩ := Option.bind_eq_some_iff.mp h
  obtain rfl := Option.some.inj h
  exact hblockHash

end

end ConformanceHarness
