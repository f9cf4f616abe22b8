import ConformanceHarness.Lib.Outbox
import ConformanceHarness.Runner.Network

/-!
# The `peer_chain_extended` events of a run

A step that appends to the peers' chains does so under one lock, before it awaits. Its events it
writes afterwards, one by one, and each write awaits: by then other branches may have appended to
the chains, and written. Here the program of a scenario writes these events too. The vector of
events a step holds on to is a batch of an outbox.
-/

namespace ConformanceHarness

open Lib

/-- The payload of a `peer_chain_extended` event. -/
structure ChainExtended where
  peerId : String
  slot : UInt64
  blockHash : String
  blockNumber : UInt64
  source : String
  defectKind : Option String
deriving Repr, DecidableEq

/-- The event of a production that is not skipped. -/
def ProductionEvent.chainExtended (ev : ProductionEvent) : ChainExtended where
  peerId := ev.peerId
  slot := ev.slot
  blockHash := ev.blockHashHex
  blockNumber := ev.blockNumber
  source := "production_rule"
  defectKind := ev.defectKind

/-- The event of a `peer_extends_chain` step. -/
def explicitExtension (params : StepParams) : Option ChainExtended := do
  let peerId ← params.peerId
  let slot ← params.slot
  let blockNumber ← params.blockNumber
  let blockHash ← params.blockHash
  return { peerId, slot, blockHash, blockNumber, source := "explicit", defectKind := none }

/-- The network, and the trace file as far as `peer_chain_extended` goes. -/
structure TracedState where
  net : RunState
  outbox : Outbox ChainExtended

/-- The state a scenario starts in. -/
def TracedState.initial (startSlot : Option UInt64) (peers : PeerMap) (vars : VarStore) :
    TracedState :=
  { net := .initial startSlot peers vars, outbox := .empty }

/-- The code between two awaits. -/
inductive TracedSegment where
  | segment (a : Segment)
  /-- Batch `n` writes its next `peer_chain_extended` event. -/
  | emitChainExtended (n : Nat)

/-- The production events of a call: those that were not there before. -/
def newEvents (s s' : RunState) : List ProductionEvent := s'.events.drop s.events.length

/-- The events a segment has to write from `s` to `s'`. -/
def owedEvents : Segment → RunState → RunState → List ChainExtended
  | .advanceToSlot _, s, s' =>
    ((newEvents s s').filter fun ev => !ev.skipped).map ProductionEvent.chainExtended
  | .tickSlots _, s, s' =>
    ((newEvents s s').filter fun ev => !ev.skipped).map ProductionEvent.chainExtended
  | .peerExtendsChain params, s, _ =>
    match peerExtendsChain params s with
    | .error _ => []
    | .ok _ => (explicitExtension params).toList
  | _, _, _ => []

/-- `emit_production_events`: `production_rule_fired` for each, and what is not skipped. -/
def emitProductionEvents (n : Nat) : List ProductionEvent → Code TracedSegment
  | [] => .done
  | ev :: rest =>
    .seq (.act (.segment .bookkeeping))
      (.seq (if ev.skipped then .done else .act (.emitChainExtended n))
        (emitProductionEvents n rest))

/-- What a segment writes after it. `slot_advanced` comes first. -/
def owedWrites (n : Nat) : Segment → RunState → RunState → Code TracedSegment
  | .advanceToSlot _, s, s' =>
    .seq (.act (.segment .bookkeeping)) (emitProductionEvents n (newEvents s s'))
  | .tickSlots _, s, s' =>
    .seq (.act (.segment .bookkeeping)) (emitProductionEvents n (newEvents s s'))
  | .peerExtendsChain _, _, _ => .act (.emitChainExtended n)
  | _, _, _ => .done

/-- What one segment can do. A failed write ends the step it is of. -/
def ExecutesTraced (blake2b : List UInt8 → List UInt8) :
    TracedSegment → TracedState → TracedState → Code TracedSegment → Prop
  | .segment a, s, s', rest => ∃ net residual, Executes blake2b a s.net net residual ∧
    s' = { net, outbox := s.outbox.post (owedEvents a s.net net) } ∧
    rest = .seq (residual.map .segment) (owedWrites s.outbox.next a s.net net)
  | .emitChainExtended n, s, s', rest =>
    (s' = { s with outbox := s.outbox.write n } ∧ rest = .done) ∨ (s' = s ∧ rest = .failed)

/-- The loop over the steps of a scenario. -/
def runTraced (steps : List StepDef) : Code TracedSegment := (runSteps steps).map .segment

/-- The `peer_chain_extended` events of peer `id` in the trace file, in file order. -/
def TracedState.chainEventsOf (s : TracedState) (id : String) : List ChainExtended :=
  Outbox.selected (·.peerId = id) s.outbox.written

end ConformanceHarness
