import ConformanceHarness.Lib.Program
import ConformanceHarness.Runner.Concurrent

/-!
# Network steps, write by write

The steps `peer_extends_chain` and `advance_to_slot` of `scenario/runner.rs` as programs over the
clock and the map of peers, every check and every write in the source's order. A step that stops
leaves what it has written so far, so that what it checks has to come before its first write. The
writes to the trace come last, and may fail.
-/

namespace ConformanceHarness

open Lib

/-- What the steps share: the clock and the map of peers. -/
structure NetworkState where
  currentSlot : Option UInt64
  peers : PeerMap

/-- The network of a run. -/
def RunState.network (s : RunState) : NetworkState := ⟨s.currentSlot, s.peers⟩

/-- What keeps a step from its end: a fault, or a call that never comes back. -/
inductive Stop where
  | fault (f : Fault)
  | stuck

/-- A step over the network. -/
abbrev NetworkProg := Prog NetworkState Stop

/-- `?`. -/
def orStop {α : Type} (r : Except Fault α) : NetworkProg α := Prog.ofExcept (r.mapError .fault)

/-- A write through `get_mut`. -/
def NetworkState.modifyPeer (id : String) (f : PeerState → PeerState) (s : NetworkState) :
    NetworkState :=
  match s.peers id with
  | none => s
  | some ps => { s with peers := s.peers.insert id (f ps) }

/-- `chain_entries.push`. -/
def PeerState.pushEntry (ps : PeerState) (entry : ChainEntry) : PeerState :=
  { ps with chainEntries := ps.chainEntries ++ [entry] }

/-- `block_store.insert`. -/
def PeerState.insertBody (ps : PeerState) (slot : UInt64) (hash body : List UInt8) : PeerState :=
  { ps with blockStore := ps.blockStore.insert (slot, hash) body }

/-- `current_slot.store`. -/
def NetworkState.storeSlot (newSlot : UInt64) (s : NetworkState) : NetworkState :=
  { s with currentSlot := some newSlot }

namespace NetworkProg

section

variable (emit : TraceEvent → Except Fault Unit)

/-- Writes to the trace, until one fails. -/
def emitAll : List TraceEvent → Except Fault Unit
  | [] => .ok ()
  | event :: rest =>
    match emit event with
    | .error f => .error f
    | .ok _ => emitAll rest

/-! ## `StepKind::PeerExtendsChain` -/

/-- The monotonic slot check. -/
def checkTip (ps : PeerState) (slot : UInt64) : Except Fault Unit :=
  match ps.chainTipSlot with
  | none => .ok ()
  | some tipSlot =>
    if slot ≤ tipSlot then
      bail (s!"peer_extends_chain: slot {slot} is not greater than " ++
        s!"current chain tip slot {tipSlot}")
    else .ok ()

/-- `guard.get_mut(peer_id)`. -/
def getPeer (peerId : String) (s : NetworkState) : Except Fault PeerState :=
  match s.peers peerId with
  | none =>
    bail (s!"peer_extends_chain: peer \"{peerId}\" not found — " ++
      "declare it in the network block")
  | some ps => .ok ps

/-- `StepKind::PeerExtendsChain`. Everything is decoded outside the lock. -/
def peerExtendsChain (params : StepParams) : NetworkProg Unit := do
  let (peerId, entry, bodyOpt) ← orStop (decodeExtension params)
  let s ← Prog.get
  let ps ← orStop (getPeer peerId s)
  orStop (checkTip ps entry.slot)
  Prog.modify (NetworkState.modifyPeer peerId fun ps => ps.pushEntry entry)
  match bodyOpt with
  | none => pure ()
  | some body =>
    Prog.modify (NetworkState.modifyPeer peerId fun ps =>
      ps.insertBody entry.slot entry.blockHash body)
  orStop (emitAll emit ((explicitExtension params).toList.map Concurrent.peerChainExtended))

/-! ## `StepKind::AdvanceToSlot` -/

/-- What `emit_production_events` writes for one event. -/
def productionEvents (ev : ProductionEvent) : List TraceEvent :=
  Concurrent.productionRuleFired ev ::
    if ev.skipped then [] else [Concurrent.peerChainExtended ev.chainExtended]

/-- The `slot` parameter. -/
def requireSlot (params : StepParams) : Except Fault UInt64 :=
  match params.slot with
  | none => bail "advance_to_slot: slot parameter is required"
  | some slot => .ok slot

/-- `slot_arc.load`. -/
def loadSlot (s : NetworkState) : Except Fault UInt64 :=
  match s.currentSlot with
  | none => bail "advance_to_slot: no network declaration — current_slot is not initialized"
  | some current => .ok current

/-- The target is ahead of the clock. -/
def checkTarget (newSlot current : UInt64) : Except Fault Unit :=
  if newSlot ≤ current then
    bail (s!"advance_to_slot: target slot {newSlot} is not greater than " ++
      s!"current slot {current}")
  else .ok ()

variable (blake2b : List UInt8 → List UInt8) (order : List String)

/-- `apply_production_rules` on the locked map. -/
def applyRules (oldSlot newSlot : UInt64) : NetworkProg (List ProductionEvent) := do
  let s ← Prog.get
  match applyProductionRules blake2b order s.peers oldSlot newSlot with
  | none => Prog.ofExcept (.error .stuck)
  | some (peers', events) =>
    Prog.modify fun s => { s with peers := peers' }
    return events

/-- `StepKind::AdvanceToSlot`. -/
def advanceToSlot (params : StepParams) : NetworkProg Unit := do
  let newSlot ← orStop (requireSlot params)
  let s ← Prog.get
  let current ← orStop (loadSlot s)
  orStop (checkTarget newSlot current)
  Prog.modify (NetworkState.storeSlot newSlot)
  let prodEvents ← applyRules blake2b order current newSlot
  orStop (emit (Concurrent.slotAdvanced current newSlot "advance_to_slot"))
  orStop (emitAll emit (prodEvents.flatMap productionEvents))

end

end NetworkProg

end ConformanceHarness
