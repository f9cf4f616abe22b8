import ConformanceHarness.Scenario.PeerState
import ConformanceHarness.Scenario.StepParams
import ConformanceHarness.Lib.Interleave

/-!
# The imaginary network

The part of `scenario/runner.rs` that moves the imaginary clock and extends the
peers' chains: the steps `advance_to_slot`, `tick_slots` and
`peer_extends_chain`, the control steps `repeat` and `parallel`, and the frame
`run_step` puts around each. All branches share one clock, one map of peers and
one variable store, and switch only where they await.

A run is a program of *segments*, the stretches of code between two awaits.
Every write to the trace awaits, and may fail; which of them a branch is waiting
for does not matter here. A `HashMap` may iterate differently at each call.

Three fields of `RunState` are ghosts. No step reads them.
-/

namespace ConformanceHarness

open Lib

/-- `StepDef`, by kind: the steps that touch the network, and the rest. -/
inductive StepDef where
  | advanceToSlot (rawParams : Value)
  | tickSlots (rawParams : Value)
  | peerExtendsChain (rawParams : Value)
  /-- `body` is what `raw_params.body` parses to. -/
  | repeat (rawParams : Value) (body : List StepDef)
  /-- `branches` is what `raw_params.branches` parses to. -/
  | parallel (rawParams : Value) (branches : List (List StepDef))
  | other (rawParams : Value)

/-- `raw_params`. -/
def StepDef.rawParams : StepDef → Value
  | advanceToSlot p => p
  | tickSlots p => p
  | peerExtendsChain p => p
  | .repeat p _ => p
  | parallel p _ => p
  | other p => p

/-- `map.remove`, twice: a `repeat` substitutes its body step by step. -/
def Value.withoutBodies : Value → Value
  | .object fields => .object (fields.filter fun f => f.1 ≠ "body" ∧ f.1 ≠ "branches")
  | v => v

/-- The parameters `run_step` substitutes variables in. -/
def StepDef.substituted : StepDef → Value
  | .repeat p _ => p.withoutBodies
  | parallel p _ => p.withoutBodies
  | step => step.rawParams

/-- The part of `RunnerState` the network lives in, and what a run did to it. -/
structure RunState where
  vars : VarStore
  currentSlot : Option UInt64
  peers : PeerMap
  /-- Ghost: the arguments of every call of `apply_production_rules`, oldest first. -/
  handed : List (UInt64 × UInt64)
  /-- Ghost: what those calls returned. -/
  events : List ProductionEvent
  /-- Ghost: the entries those calls appended to each peer's chain. -/
  produced : String → List ChainEntry

/-- The state a scenario starts in. -/
def RunState.initial (startSlot : Option UInt64) (peers : PeerMap) (vars : VarStore) : RunState :=
  { vars, currentSlot := startSlot, peers, handed := [], events := [], produced := fun _ => [] }

/-- The entries of `after` that `before` does not have yet. -/
def appended (before after : Option PeerState) : List ChainEntry :=
  match before, after with
  | some ps, some ps' => ps'.chainEntries.drop ps.chainEntries.length
  | _, _ => []

section

variable (blake2b : List UInt8 → List UInt8) (order : List String)

/-- The locked call of `apply_production_rules`; `none` when it does not return. -/
def applyLocked (s : RunState) (oldSlot newSlot : UInt64) : Option RunState :=
  (applyProductionRules blake2b order s.peers oldSlot newSlot).map fun (peers', events) =>
    { s with
      peers := peers'
      handed := s.handed ++ [(oldSlot, newSlot)]
      events := s.events ++ events
      produced := fun id => s.produced id ++ appended (s.peers id) (peers' id) }

/-- `StepKind::AdvanceToSlot`, up to its first await. -/
def advanceToSlot (params : StepParams) (s : RunState) : Option (Except Fault RunState) :=
  match params.slot with
  | none => some (bail "advance_to_slot: slot parameter is required")
  | some newSlot =>
    match s.currentSlot with
    | none =>
      some (bail "advance_to_slot: no network declaration — current_slot is not initialized")
    | some current =>
      if newSlot ≤ current then
        some (bail (s!"advance_to_slot: target slot {newSlot} is not greater than " ++
          s!"current slot {current}"))
      else (applyLocked blake2b order { s with currentSlot := some newSlot } current newSlot).map
        .ok

/-- `StepKind::TickSlots`, up to its first await. `fetch_add` wraps, and so does the sum. -/
def tickSlots (params : StepParams) (s : RunState) : Option (Except Fault RunState) :=
  match params.count with
  | none => some (bail "tick_slots: count parameter is required")
  | some count =>
    match s.currentSlot with
    | none => some (bail "tick_slots: no network declaration — current_slot is not initialized")
    | some oldSlot =>
      let newSlot := oldSlot + count
      (applyLocked blake2b order { s with currentSlot := some newSlot } oldSlot newSlot).map .ok

end

/-- `.ok_or_else(..)` for a parameter of `peer_extends_chain`. -/
def requireParam {α : Type} (name : String) : Option α → Except Fault α
  | some a => .ok a
  | none => bail s!"peer_extends_chain: {name} is required"

/-- The entry and the body `peer_extends_chain` decodes, and the peer they are for. -/
def decodeExtension (params : StepParams) :
    Except Fault (String × ChainEntry × Option (List UInt8)) := do
  let peerId ← requireParam "peer_id" params.peerId
  let slot ← requireParam "slot" params.slot
  let blockNumber ← requireParam "block_number" params.blockNumber
  let blockHashHex ← requireParam "block_hash" params.blockHash
  let headerCborHex ← requireParam "header_cbor" params.headerCbor
  let blockHash ← withContext "peer_extends_chain: block_hash" (PeerState.decodeHex blockHashHex)
  let headerCbor ← withContext "peer_extends_chain: header_cbor" (PeerState.decodeHex headerCborHex)
  let variant := params.variant.getD defaultHeaderVariant
  let body ← match params.blockBodyCbor with
    | none => .ok none
    | some hex =>
      withContext "peer_extends_chain: block_body_cbor" ((PeerState.decodeHex hex).map some)
  return (peerId, { slot, blockHash, blockNumber, headerCbor, variant }, body)

/-- The push onto the chain and the insertion of the body. -/
def PeerState.extend (ps : PeerState) (entry : ChainEntry) (body : Option (List UInt8)) :
    PeerState :=
  { ps with
    chainEntries := ps.chainEntries ++ [entry]
    blockStore := match body with
      | none => ps.blockStore
      | some bytes => ps.blockStore.insert (entry.slot, entry.blockHash) bytes }

/-- `StepKind::PeerExtendsChain`, up to its first await. -/
def peerExtendsChain (params : StepParams) (s : RunState) : Except Fault RunState :=
  match decodeExtension params with
  | .error e => .error e
  | .ok (peerId, entry, body) =>
    match s.peers peerId with
    | none =>
      bail (s!"peer_extends_chain: peer \"{peerId}\" not found — " ++
        "declare it in the network block")
    | some ps =>
      let accept : Except Fault RunState :=
        .ok { s with peers := s.peers.insert peerId (ps.extend entry body) }
      match ps.chainTipSlot with
      | none => accept
      | some tipSlot =>
        let slot := entry.slot
        if slot ≤ tipSlot then
          bail (s!"peer_extends_chain: slot {slot} is not greater than " ++
            s!"current chain tip slot {tipSlot}")
        else accept

/-! ## The program of a scenario -/

/-- The code between two awaits. -/
inductive Segment where
  /-- A write to the trace, or the assertions at the end of a step. -/
  | bookkeeping
  /-- The snapshot of the variables and the substitution. -/
  | substitute (step : StepDef)
  | advanceToSlot (params : StepParams)
  | tickSlots (params : StepParams)
  | peerExtendsChain (params : StepParams)
  /-- Some stretch of a step that is about something else. -/
  | other

/-- `run_step`: a trace write, the substitution, and what follows from it. -/
def runStep (step : StepDef) : Code Segment :=
  .seq (.act .bookkeeping) (.act (.substitute step))

/-- The loop over the steps of a scenario, a body or a branch. -/
def runSteps (steps : List StepDef) : Code Segment := Code.sequence (steps.map runStep)

/-- `execute_step`, given the substituted parameters. -/
def executeStep (step : StepDef) (resolved : Value) : Code Segment :=
  match StepParams.fromValue resolved with
  | none => .failed
  | some params =>
    match step with
    | .advanceToSlot _ => .seq (.act (.advanceToSlot params)) (.act .bookkeeping)
    | .tickSlots _ => .seq (.act (.tickSlots params)) (.act .bookkeeping)
    | .peerExtendsChain _ => .seq (.act (.peerExtendsChain params)) (.act .bookkeeping)
    | .repeat _ body =>
      match (resolved.getField "times").bind Value.asU64 with
      | none => .failed
      | some times =>
        Code.times (.seq (.act .bookkeeping) (.seq (runSteps body) (.act .bookkeeping))) times.toNat
    | .parallel _ branches =>
      .seq (.act .bookkeeping)
        (.seq (.par (branches.map fun steps =>
            .seq (.act .bookkeeping) (.seq (runSteps steps) (.act .bookkeeping))))
          (.act .bookkeeping))
    | .other _ => .act .other

/-- How a segment that may fail goes on. -/
def Continues (rest : Code Segment) : Prop := rest = .done ∨ rest = .failed

/-- What one segment can do to the shared state, and what it leaves to do. -/
def Executes (blake2b : List UInt8 → List UInt8) :
    Segment → RunState → RunState → Code Segment → Prop
  | .bookkeeping, s, s', rest => s' = s ∧ Continues rest
  | .substitute step, s, s', rest =>
    s' = s ∧ rest = match substituteInValue step.substituted s.vars with
      | .error _ => .failed
      | .ok (resolved, _) => .seq (executeStep step resolved) (.act .bookkeeping)
  | .advanceToSlot params, s, s', rest => ∃ order, s.peers.IterOrder order ∧
    match advanceToSlot blake2b order params s with
    | none => False
    | some (.error _) => s' = s ∧ rest = .failed
    | some (.ok s'') => s' = s'' ∧ rest = .done
  | .tickSlots params, s, s', rest => ∃ order, s.peers.IterOrder order ∧
    match tickSlots blake2b order params s with
    | none => False
    | some (.error _) => s' = s ∧ rest = .failed
    | some (.ok s'') => s' = s'' ∧ rest = .done
  | .peerExtendsChain params, s, s', rest =>
    match peerExtendsChain params s with
    | .error _ => s' = s ∧ rest = .failed
    | .ok s'' => s' = s'' ∧ rest = .done
  -- other steps write variables, as often as they like
  | .other, s, s', rest => (∃ vars, s' = { s with vars }) ∧ (Continues rest ∨ rest = .act .other)

/-- A run of a scenario from `s`, at any point of any interleaving. -/
def RunsTo (blake2b : List UInt8 → List UInt8) (steps : List StepDef) (s s' : RunState) : Prop :=
  ∃ rest, Reaches (Executes blake2b) (runSteps steps, s) (rest, s')

end ConformanceHarness
