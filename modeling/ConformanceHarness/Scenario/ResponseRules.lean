import ConformanceHarness.Scenario.BlockFixture

/-!
# Response rules

`scenario/response_rules.rs`: the rules of a scripted session as a scenario file
writes them, as the server executes them, and the conversion between the two.

The readers are those `#[derive(Deserialize)]` generates: a struct may be written
as an object or as an array in field order, an internally tagged enum likewise
with its tag first, and unknown fields are ignored.
-/

namespace ConformanceHarness

/-! ## As written -/

/-- `On`: which incoming message a rule matches. -/
inductive On where
  | requestNext
  | findIntersect
  | requestRange
  | done
  | any
deriving Repr, DecidableEq

/-- `TipSpec`. -/
structure TipSpec where
  point : String
  blockNumber : UInt64
deriving Repr, DecidableEq

/-- `SendDef`: the `send` object of a rule. `usize` is 64 bits wide. -/
inductive SendDef where
  | rollForward (headerFromFixture : Option UInt64) (headerCbor : Option String)
      (variant : Option UInt8) (tip : Option TipSpec)
  | rollBackward (point : String) (tip : Option TipSpec)
  | intersectFound (point : String) (tip : Option TipSpec)
  | intersectNotFound (tip : Option TipSpec)
  | awaitReply (holdSecs : UInt64)
  | startBatch
  | block (blockFromFixture : Option UInt64) (blockCbor : Option String)
  | batchDone
  | noBlocks
  | streamBatch (blockIndices : Option (List UInt64)) (blockCountFromRequest : Option Bool)
  | wait (durationSecs : UInt64)
  | disconnect
  | rawBytes (hex : String)
  | sendSequence (sends : List SendDef)
deriving Repr

/-- `ResponseRuleDef`. -/
structure ResponseRuleDef where
  on : On
  send : SendDef
deriving Repr

/-- The name of a unit variant: a string, or an object with that one key and `null`. -/
def Value.asVariantName : Value → Option String
  | .string s => some s
  | .object [(name, .null)] => some name
  | _ => none

/-- `Deserialize` for `On`. -/
def On.fromValue (v : Value) : Option On :=
  match v.asVariantName with
  | some "request_next" => some .requestNext
  | some "find_intersect" => some .findIntersect
  | some "request_range" => some .requestRange
  | some "done" => some .done
  | some "any" => some .any
  | _ => none

/-- `Deserialize` for `TipSpec`. -/
def TipSpec.fromValue (v : Value) : Option TipSpec := do
  let field ← v.asStruct ["point", "block_number"] 0
  let point ← Value.required Value.asString (field "point")
  let blockNumber ← Value.required Value.asU64 (field "block_number")
  return { point, blockNumber }

/-- A unit variant: nothing may follow the tag in an array. -/
def Value.asUnit {α : Type} (a : α) : Value → Option α
  | .object _ => some a
  | .array [] => some a
  | _ => none

/-- The variants of `SendDef` that do not contain another one. -/
def SendDef.flatFromValue (kind : String) (body : Value) : Option SendDef :=
  let tip (field : String → Option Value) := Value.optional TipSpec.fromValue (field "tip")
  match kind with
  | "roll_forward" => do
    let field ← body.asStruct ["header_from_fixture", "header_cbor", "variant", "tip"] 0
    let headerFromFixture ← Value.optional Value.asU64 (field "header_from_fixture")
    let headerCbor ← Value.optional Value.asString (field "header_cbor")
    let variant ← Value.optional Value.asU8 (field "variant")
    return .rollForward headerFromFixture headerCbor variant (← tip field)
  | "roll_backward" => do
    let field ← body.asStruct ["point", "tip"] 0
    return .rollBackward (← Value.required Value.asString (field "point")) (← tip field)
  | "intersect_found" => do
    let field ← body.asStruct ["point", "tip"] 0
    return .intersectFound (← Value.required Value.asString (field "point")) (← tip field)
  | "intersect_not_found" => do
    let field ← body.asStruct ["tip"] 0
    return .intersectNotFound (← tip field)
  | "await_reply" => do
    let field ← body.asStruct ["hold_secs"] 1
    return .awaitReply (← Value.defaulted Value.asU64 0 (field "hold_secs"))
  | "start_batch" => body.asUnit .startBatch
  | "block" => do
    let field ← body.asStruct ["block_from_fixture", "block_cbor"] 0
    let blockFromFixture ← Value.optional Value.asU64 (field "block_from_fixture")
    return .block blockFromFixture (← Value.optional Value.asString (field "block_cbor"))
  | "batch_done" => body.asUnit .batchDone
  | "no_blocks" => body.asUnit .noBlocks
  | "stream_batch" => do
    let field ← body.asStruct ["block_indices", "block_count_from_request"] 0
    let blockIndices ← Value.optional (Value.asVec Value.asU64) (field "block_indices")
    return .streamBatch blockIndices
      (← Value.optional Value.asBool (field "block_count_from_request"))
  | "wait" => do
    let field ← body.asStruct ["duration_secs"] 0
    return .wait (← Value.required Value.asU64 (field "duration_secs"))
  | "disconnect" => body.asUnit .disconnect
  | "raw_bytes" => do
    let field ← body.asStruct ["hex"] 0
    return .rawBytes (← Value.required Value.asString (field "hex"))
  | _ => none

mutual

/-- `Deserialize` for `SendDef`. -/
def SendDef.fromValue : Value → Option SendDef
  | .object fields =>
    match fields.lookup "kind" with
    | some (.string kind) =>
      if kind = "send_sequence" then (SendDef.sendsField fields).map .sendSequence
      else SendDef.flatFromValue kind (.object (fields.filter fun f => f.1 ≠ "kind"))
    | _ => none
  | .array (.string kind :: items) =>
    if kind = "send_sequence" then (SendDef.sendsOnly items).map .sendSequence
    else SendDef.flatFromValue kind (.array items)
  | _ => none

/-- The field `sends` of an object. -/
def SendDef.sendsField : List (String × Value) → Option (List SendDef)
  | [] => none
  | (key, v) :: rest => if key = "sends" then SendDef.sendsValue v else SendDef.sendsField rest

/-- The field `sends` as the only one of an array. -/
def SendDef.sendsOnly : List Value → Option (List SendDef)
  | [sends] => SendDef.sendsValue sends
  | _ => none

/-- `Vec<SendDef>`. -/
def SendDef.sendsValue : Value → Option (List SendDef)
  | .array items => SendDef.listFromValues items
  | _ => none

/-- The elements of a `Vec<SendDef>`. -/
def SendDef.listFromValues : List Value → Option (List SendDef)
  | [] => some []
  | v :: rest =>
    match SendDef.fromValue v, SendDef.listFromValues rest with
    | some d, some ds => some (d :: ds)
    | _, _ => none

end

/-- `Deserialize` for `ResponseRuleDef`. -/
def ResponseRuleDef.fromValue (v : Value) : Option ResponseRuleDef := do
  let field ← v.asStruct ["on", "send"] 0
  let on ← Value.required On.fromValue (field "on")
  let send ← Value.required SendDef.fromValue (field "send")
  return { on, send }

/-- `Vec<ResponseRuleDef>`. -/
def ruleDefsFromValue : Value → Option (List ResponseRuleDef) :=
  Value.asVec ResponseRuleDef.fromValue

/-! ## As executed -/

/-- `HeaderSource`. -/
inductive HeaderSource where
  | fixtureEntry (e : FixtureEntry)
  | literal (cbor : List UInt8) (variant : UInt8)
deriving Repr, DecidableEq

/-- `BlockSource`. -/
inductive BlockSource where
  | fixtureEntry (e : BlockFixtureEntry)
  | literal (bytes : List UInt8)
deriving Repr, DecidableEq

/-- `StreamBatchSources`. -/
inductive StreamBatchSources where
  | explicit (sources : List BlockSource)
  | fromRequest
deriving Repr, DecidableEq

/-- `ScriptSend`. -/
inductive ScriptSend where
  | rollForward (source : HeaderSource) (tip : Option TipSpec)
  | rollBackward (point : String) (tip : Option TipSpec)
  | intersectFound (point : String) (tip : Option TipSpec)
  | intersectNotFound (tip : Option TipSpec)
  | awaitReply (holdSecs : UInt64)
  | startBatch
  | block (source : BlockSource)
  | batchDone
  | noBlocks
  | streamBatch (sources : StreamBatchSources)
  | wait (durationSecs : UInt64)
  | disconnect
  | rawBytes (bytes : List UInt8)
  | sendSequence (sends : List ScriptSend)
  | cursorFindIntersect
  | cursorAdvance
  | cursorRange
deriving Repr

/-- `ScriptSend::kind_str`. -/
def ScriptSend.kindStr : ScriptSend → String
  | rollForward .. => "roll_forward"
  | rollBackward .. => "roll_backward"
  | intersectFound .. => "intersect_found"
  | intersectNotFound _ => "intersect_not_found"
  | awaitReply _ => "await_reply"
  | startBatch => "start_batch"
  | block _ => "block"
  | batchDone => "batch_done"
  | noBlocks => "no_blocks"
  | streamBatch _ => "stream_batch"
  | wait _ => "wait"
  | disconnect => "disconnect"
  | rawBytes _ => "raw_bytes"
  | sendSequence _ => "send_sequence"
  | cursorFindIntersect => "cursor_find_intersect"
  | cursorAdvance => "cursor_advance"
  | cursorRange => "cursor_range"

/-- `ScriptRule`. -/
structure ScriptRule where
  on : On
  send : ScriptSend
  repeatable : Bool
deriving Repr

/-- `ScriptRule::on_str`. -/
def ScriptRule.onStr (rule : ScriptRule) : String :=
  match rule.on with
  | .requestNext => "request_next"
  | .findIntersect => "find_intersect"
  | .requestRange => "request_range"
  | .done => "done"
  | .any => "any"

/-! ## Conversion -/

namespace ResponseRules

/-- `response_rules::decode_hex`. -/
def decodeHex : String → Except Fault (List UInt8) := decodeHexWith fun _ => invalidDigit

/-- `.map_err(|e| anyhow!("{what}: invalid hex: {e}"))`. -/
def decodeHexFor (what : String) (hex : String) : Except Fault (List UInt8) :=
  match decodeHex hex with
  | .ok bytes => .ok bytes
  | .error (.err chain) =>
    let e := chain.headD ""
    bail s!"{what}: invalid hex: {e}"
  | .error (.panic reason) => .error (.panic reason)

end ResponseRules

/-- The `source` of a `roll_forward`. -/
def convertHeaderSource (cs : Option FixtureChain) (variant : Option UInt8) :
    Option UInt64 → Option String → Except Fault HeaderSource
  | some idx, none =>
    match cs with
    | none => bail "header_from_fixture requires fixture_path to be set"
    | some chain =>
      match chain.entries[idx.toNat]? with
      | some entry => .ok (.fixtureEntry entry)
      | none =>
        let n := chain.entries.length
        bail s!"header_from_fixture index {idx} out of range (fixture has {n} entries)"
  | none, some hex =>
    match ResponseRules.decodeHexFor "header_cbor" hex with
    | .error e => .error e
    | .ok cbor => .ok (.literal cbor (variant.getD defaultHeaderVariant))
  | some _, some _ =>
    bail "roll_forward: header_from_fixture and header_cbor are mutually exclusive"
  | none, none => bail "roll_forward: one of header_from_fixture or header_cbor is required"

/-- The `source` of a `block`. -/
def convertBlockSource (bf : Option BlockFixtureChain) :
    Option UInt64 → Option String → Except Fault BlockSource
  | some idx, none =>
    match bf with
    | none => bail "block_from_fixture requires block_fetch_fixture_path"
    | some chain =>
      match chain.entries[idx.toNat]? with
      | some entry => .ok (.fixtureEntry entry)
      | none =>
        let n := chain.entries.length
        bail s!"block_from_fixture index {idx} out of range (fixture has {n} entries)"
  | none, some hex =>
    match ResponseRules.decodeHexFor "block_cbor" hex with
    | .error e => .error e
    | .ok bytes => .ok (.literal bytes)
  | some _, some _ => bail "block: block_from_fixture and block_cbor are mutually exclusive"
  | none, none => bail "block: one of block_from_fixture or block_cbor is required"

/-- The loop over `block_indices`; they are numbered from `n`. -/
def resolveBlockIndices (chain : BlockFixtureChain) :
    Nat → List UInt64 → Except Fault (List BlockSource)
  | _, [] => .ok []
  | n, idx :: rest =>
    match chain.entries[idx.toNat]? with
    | none => bail s!"stream_batch block_indices[{n}]={idx} out of range"
    | some e =>
      match resolveBlockIndices chain (n + 1) rest with
      | .error f => .error f
      | .ok sources => .ok (.fixtureEntry e :: sources)

/-- The `sources` of a `stream_batch`. -/
def convertStreamSources (bf : Option BlockFixtureChain) :
    Option (List UInt64) → Option Bool → Except Fault StreamBatchSources
  | some indices, _ =>
    match bf with
    | none => bail "stream_batch with block_indices requires block_fetch_fixture_path"
    | some chain => (resolveBlockIndices chain 0 indices).map .explicit
  | none, some true => .ok .fromRequest
  | none, _ => bail "stream_batch: set block_indices or block_count_from_request: true"

/-- `convert_send_def`. -/
def convertSendDef (cs : Option FixtureChain) (bf : Option BlockFixtureChain) :
    SendDef → Except Fault ScriptSend
  | .rollForward headerFromFixture headerCbor variant tip =>
    (convertHeaderSource cs variant headerFromFixture headerCbor).map fun source =>
      .rollForward source tip
  | .rollBackward point tip => .ok (.rollBackward point tip)
  | .intersectFound point tip => .ok (.intersectFound point tip)
  | .intersectNotFound tip => .ok (.intersectNotFound tip)
  | .awaitReply holdSecs => .ok (.awaitReply holdSecs)
  | .startBatch => .ok .startBatch
  | .batchDone => .ok .batchDone
  | .noBlocks => .ok .noBlocks
  | .block blockFromFixture blockCbor =>
    (convertBlockSource bf blockFromFixture blockCbor).map .block
  | .streamBatch blockIndices blockCountFromRequest =>
    (convertStreamSources bf blockIndices blockCountFromRequest).map .streamBatch
  | .wait durationSecs => .ok (.wait durationSecs)
  | .disconnect => .ok .disconnect
  | .rawBytes hex => (ResponseRules.decodeHexFor "raw_bytes" hex).map .rawBytes
  | .sendSequence _ => bail "convert_send_def called on SendSequence — use rule_def_to_script"

/-- `matches!(sub, SendDef::SendSequence { .. })`. -/
def SendDef.isSequence : SendDef → Bool
  | .sendSequence _ => true
  | _ => false

/-- The loop over the sends of a sequence; they are numbered from `i`. -/
def convertSequence (cs : Option FixtureChain) (bf : Option BlockFixtureChain) :
    Nat → List SendDef → Except Fault (List ScriptSend)
  | _, [] => .ok []
  | i, sub :: rest =>
    if sub.isSequence then
      bail (s!"send_sequence: sends[{i}] is itself a send_sequence — " ++
        "nesting is not allowed; flatten the sub-sends into the outer sequence")
    else
      match convertSendDef cs bf sub with
      | .error f => .error f
      | .ok send =>
        match convertSequence cs bf (i + 1) rest with
        | .error f => .error f
        | .ok sends => .ok (send :: sends)

/-- The `send` of a rule: a sequence, or a single send. -/
def convertRuleSend (cs : Option FixtureChain) (bf : Option BlockFixtureChain) :
    SendDef → Except Fault ScriptSend
  | .sendSequence sends => (convertSequence cs bf 0 sends).map .sendSequence
  | single => convertSendDef cs bf single

/-- `rule_def_to_script`. -/
def ruleDefToScript (cs : Option FixtureChain) (bf : Option BlockFixtureChain)
    (rule : ResponseRuleDef) : Except Fault ScriptRule :=
  (convertRuleSend cs bf rule.send).map fun send => { on := rule.on, send, repeatable := false }

/-! ## Generated scripts -/

/-- `generate_from_fixture`. -/
def generateFromFixture (chain : FixtureChain) (awaitAtTipSecs : UInt64) : List ScriptRule :=
  [{ on := .findIntersect, send := .cursorFindIntersect, repeatable := false }] ++
    chain.entries.map (fun _ =>
      { on := .requestNext, send := .cursorAdvance, repeatable := false }) ++
    [{ on := .requestNext, send := .awaitReply awaitAtTipSecs, repeatable := false },
      { on := .any, send := .disconnect, repeatable := false }]

/-- `generate_for_block_fetch`. -/
def generateForBlockFetch (noBlocksDefault : Bool) : List ScriptRule :=
  [{ on := .requestRange, send := if noBlocksDefault then .noBlocks else .cursorRange
     repeatable := true },
    { on := .any, send := .disconnect, repeatable := false }]

end ConformanceHarness
