import ConformanceHarness.Proof.Clock
import ConformanceHarness.Runner.NetworkSteps

/-!
# Failed network steps change nothing

A step that stops keeps what it has written so far. Both steps check everything before their first
write, so that with a trace that can be written the only stops are before it; and the two writes
of an extension come to the one that the network's model makes.
-/

namespace ConformanceHarness

open Lib

/-- What a `peer_extends_chain` step has done that succeeded. -/
structure Extended (params : StepParams) (s s' : NetworkState) : Prop where
  clock : s'.currentSlot = s.currentSlot
  others : ∀ other, params.peerId ≠ some other → s'.peers other = s.peers other
  named : ∃ id ps ps' entry body, Proof.GivesExtension params id entry body ∧
    s.peers id = some ps ∧ s'.peers id = some ps' ∧
    (∀ tip, ps.chainTipSlot = some tip → tip < entry.slot) ∧
    ps'.chainEntries = ps.chainEntries ++ [entry] ∧
    (params.blockBodyCbor = none → ps'.blockStore = ps.blockStore) ∧
    (∀ hex, params.blockBodyCbor = some hex → ∃ bytes, PeerState.decodeHex hex = .ok bytes ∧
      ps'.blockStore = ps.blockStore.insert (entry.slot, entry.blockHash) bytes) ∧
    ps'.productionRule = ps.productionRule

/-- How a step ends whose first stretch ends so in the network's model. -/
def RunState.ending (s : RunState) : Except Fault RunState → Except Stop Unit × NetworkState
  | .error f => (.error (.fault f), s.network)
  | .ok s' => (.ok (), s'.network)

namespace Proof

open NetworkProg

variable {emit : TraceEvent → Except Fault Unit} {blake2b : List UInt8 → List UInt8}
  {order : List String} {params : StepParams}

/-! ## Parts of a step -/

theorem run_orStop_ok {α β : Type} {r : Except Fault α} {a : α} (h : r = .ok a)
    (f : α → NetworkProg β) (s : NetworkState) : (orStop r >>= f).run s = (f a).run s := by
  rw [h]
  rfl

theorem run_orStop_error {α β : Type} {r : Except Fault α} {e : Fault} (h : r = .error e)
    (f : α → NetworkProg β) (s : NetworkState) :
    (orStop r >>= f).run s = (.error (.fault e), s) := by
  rw [h]
  rfl

theorem emitAll_ok (hemit : ∀ event, emit event = .ok ()) (events : List TraceEvent) :
    emitAll emit events = .ok () := by
  induction events with
  | nil => rfl
  | cons event rest ih => rw [emitAll, hemit event, ih]

theorem insert_insert (peers : PeerMap) (id : String) (ps ps' : PeerState) :
    (peers.insert id ps).insert id ps' = peers.insert id ps' := by
  funext other
  by_cases h : other = id
  · rw [h, PeerMap.insert_self, PeerMap.insert_self]
  · rw [PeerMap.insert_ne _ _ h, PeerMap.insert_ne _ _ h, PeerMap.insert_ne _ _ h]

theorem modifyPeer_of_some {s : NetworkState} {id : String} {ps : PeerState}
    (h : s.peers id = some ps) (f : PeerState → PeerState) :
    s.modifyPeer id f = { s with peers := s.peers.insert id (f ps) } := by
  rw [NetworkState.modifyPeer, h]

/-! ## Each step against the network's model -/

section

variable {s : NetworkState} {id : String} {ps : PeerState} {entry : ChainEntry}

/-- The push alone. -/
theorem modifyPeer_push (h : s.peers id = some ps) :
    (s.modifyPeer id fun ps => ps.pushEntry entry) =
      { s with peers := s.peers.insert id (ps.extend entry none) } :=
  modifyPeer_of_some h _

/-- The push and the insertion are one write of the peer. -/
theorem modifyPeer_push_insert (h : s.peers id = some ps) (bytes : List UInt8) :
    ((s.modifyPeer id fun ps => ps.pushEntry entry).modifyPeer id fun ps =>
        ps.insertBody entry.slot entry.blockHash bytes) =
      { s with peers := s.peers.insert id (ps.extend entry (some bytes)) } := by
  rw [modifyPeer_push h, modifyPeer_of_some (PeerMap.insert_self _ _ _)]
  dsimp only
  rw [insert_insert]
  rfl

end

/-- The checks of the network's model, one after another. -/
theorem peerExtendsChain_eq (params : StepParams) (s : RunState) :
    ConformanceHarness.peerExtendsChain params s =
      (decodeExtension params).bind fun given => (getPeer given.1 s.network).bind fun ps =>
        (checkTip ps given.2.1.slot).map fun _ =>
          { s with peers := s.peers.insert given.1 (ps.extend given.2.1 given.2.2) } := by
  rw [ConformanceHarness.peerExtendsChain]
  rcases decodeExtension params with e | ⟨id, entry, body⟩
  · rfl
  · rw [Except.bind, getPeer, RunState.network]
    dsimp only
    rcases s.peers id with _ | ps
    · rfl
    · rw [Except.bind, checkTip]
      dsimp only
      rcases ps.chainTipSlot with _ | tip
      · rfl
      · dsimp only
        by_cases hle : entry.slot ≤ tip
        · rw [if_pos hle, if_pos hle]
          rfl
        · rw [if_neg hle, if_neg hle]
          rfl

theorem getPeer_eq_ok {id : String} {s : NetworkState} {ps : PeerState}
    (h : getPeer id s = .ok ps) : s.peers id = some ps := by
  rw [getPeer] at h
  rcases hps : s.peers id with _ | found <;> rw [hps] at h
  · cases h
  · rw [Except.ok.inj h]

/-- **`peer_extends_chain` does what the network's model says**: all of it, or nothing. -/
theorem peerExtendsChain_run (hemit : ∀ event, emit event = .ok ()) (s : RunState) :
    (NetworkProg.peerExtendsChain emit params).run s.network =
      s.ending (ConformanceHarness.peerExtendsChain params s) := by
  rw [peerExtendsChain_eq, NetworkProg.peerExtendsChain]
  rcases hdecode : decodeExtension params with e | ⟨id, entry, body⟩
  · exact run_orStop_error rfl _ _
  · rw [run_orStop_ok rfl, Except.bind, Prog.run_get_bind]
    dsimp only
    rcases hget : getPeer id s.network with e | ps
    · exact run_orStop_error rfl _ _
    · have hps := getPeer_eq_ok hget
      rw [run_orStop_ok rfl, Except.bind]
      rcases checkTip ps entry.slot with e | u
      · exact run_orStop_error rfl _ _
      · rw [run_orStop_ok rfl, Prog.run_modify_bind]
        have hlast : ∀ t : NetworkState, (orStop (emitAll emit
            ((explicitExtension params).toList.map Concurrent.peerChainExtended))).run t =
              (.ok (), t) := by
          intro t
          rw [emitAll_ok hemit]
          rfl
        cases body with
        | none =>
          dsimp only
          rw [hlast, modifyPeer_push hps]
          rfl
        | some bytes =>
          dsimp only
          rw [Prog.run_modify_bind, hlast, modifyPeer_push_insert hps]
          rfl

/-- **`advance_to_slot` does what the network's model says**: all of it, or nothing. Only a call of
`apply_production_rules` that does not come back stops it after the clock has moved. -/
theorem advanceToSlot_run (hemit : ∀ event, emit event = .ok ()) (s : RunState) :
    (∃ r, ConformanceHarness.advanceToSlot blake2b order params s = some r ∧
        (NetworkProg.advanceToSlot emit blake2b order params).run s.network = s.ending r) ∨
      ∃ current newSlot, s.currentSlot = some current ∧ params.slot = some newSlot ∧
        applyProductionRules blake2b order s.peers current newSlot = none ∧
        (NetworkProg.advanceToSlot emit blake2b order params).run s.network =
          (.error .stuck, s.network.storeSlot newSlot) := by
  rw [ConformanceHarness.advanceToSlot, NetworkProg.advanceToSlot]
  rcases hslot : params.slot with _ | newSlot
  · have hrequire : requireSlot params =
        bail "advance_to_slot: slot parameter is required" := by
      rw [requireSlot, hslot]
    exact .inl ⟨_, rfl, run_orStop_error hrequire _ _⟩
  · have hrequire : requireSlot params = .ok newSlot := by
      rw [requireSlot, hslot]
    rw [run_orStop_ok hrequire, Prog.run_get_bind]
    rcases hcurrent : s.currentSlot with _ | current
    · have hload : loadSlot s.network =
          bail "advance_to_slot: no network declaration — current_slot is not initialized" := by
        rw [loadSlot, RunState.network, hcurrent]
      exact .inl ⟨_, rfl, run_orStop_error hload _ _⟩
    · have hload : loadSlot s.network = .ok current := by
        rw [loadSlot, RunState.network, hcurrent]
      rw [run_orStop_ok hload]
      dsimp only
      by_cases hle : newSlot ≤ current
      · rw [if_pos hle]
        exact .inl ⟨_, rfl, run_orStop_error (if_pos hle) _ _⟩
      · have hcheck : checkTarget newSlot current = .ok () := if_neg hle
        rw [if_neg hle, run_orStop_ok hcheck, Prog.run_modify_bind, applyLocked]
        dsimp only
        rw [Prog.run_bind, applyRules, Prog.run_get_bind, NetworkState.storeSlot,
          RunState.network]
        dsimp only
        rcases happly : applyProductionRules blake2b order s.peers current newSlot with
          _ | ⟨peers', events⟩
        · exact .inr ⟨current, newSlot, rfl, rfl, happly, rfl⟩
        · refine .inl ⟨_, rfl, ?_⟩
          dsimp only
          rw [Prog.run_modify_bind, Prog.run_pure]
          dsimp only
          rw [run_orStop_ok (hemit _), emitAll_ok hemit]
          rfl

/-! ## Both steps -/

/-- What the network's model says of an extension, as the step's own parameters have it. -/
theorem extended_of_ok {s s' : RunState}
    (h : ConformanceHarness.peerExtendsChain params s = .ok s') :
    Extended params s.network s'.network := by
  obtain ⟨id, entry, body, ps, hdecode, hps, htip, rfl⟩ := peerExtendsChain_ok h
  have hgives := decodeExtension_gives hdecode
  refine ⟨rfl, fun other hother => ?_, id, ps, ps.extend entry body, entry, body, hgives, hps,
    PeerMap.insert_self _ _ _, htip, rfl, fun hnone => ?_, fun hex hhex => ?_, rfl⟩
  · have hne : other ≠ id := fun heq => hother (heq ▸ hgives.peerId)
    exact PeerMap.insert_ne _ _ hne
  · rw [hgives.noBody hnone]
    rfl
  · obtain ⟨bytes, hbytes, rfl⟩ := hgives.withBody hex hhex
    exact ⟨bytes, hbytes, rfl⟩

/-- **Failed network steps change nothing.** As long as the trace can be written, a
`peer_extends_chain` step that stops, and an `advance_to_slot` step that fails, leave the clock and
every peer as they were. A `peer_extends_chain` step that succeeds has added one entry, past the
old tip, and the body if there is one, to the peer it names, and done nothing else. -/
theorem failed_steps_change_nothing (hemit : ∀ event, emit event = .ok ()) (params : StepParams)
    (s s' : NetworkState) :
    (∀ stop, (NetworkProg.peerExtendsChain emit params).run s = (.error stop, s') → s' = s) ∧
      (∀ f, (NetworkProg.advanceToSlot emit blake2b order params).run s =
        (.error (.fault f), s') → s' = s) ∧
      ((NetworkProg.advanceToSlot emit blake2b order params).run s = (.error .stuck, s') →
        ∃ current newSlot, s.currentSlot = some current ∧ params.slot = some newSlot ∧
          applyProductionRules blake2b order s.peers current newSlot = none) ∧
      ((NetworkProg.peerExtendsChain emit params).run s = (.ok (), s') → Extended params s s') := by
  -- a run that has this network
  obtain ⟨run, rfl⟩ : ∃ run : RunState, run.network = s :=
    ⟨.initial s.currentSlot s.peers fun _ => none, rfl⟩
  refine ⟨fun stop hrun => ?_, fun f hrun => ?_, fun hrun => ?_, fun hrun => ?_⟩
  · rw [peerExtendsChain_run hemit] at hrun
    rcases hmodel : ConformanceHarness.peerExtendsChain params run with e | run' <;>
      rw [hmodel] at hrun <;> obtain ⟨hend, rfl⟩ := Prod.mk.inj hrun
    · rfl
    · cases hend
  · rcases @advanceToSlot_run _ blake2b order _ hemit run with
      ⟨r, -, hr⟩ | ⟨current, newSlot, -, -, -, hr⟩ <;> rw [hr] at hrun
    · rcases r with e | run' <;> obtain ⟨hend, rfl⟩ := Prod.mk.inj hrun
      · rfl
      · cases hend
    · obtain ⟨hend, -⟩ := Prod.mk.inj hrun
      cases hend
  · rcases @advanceToSlot_run _ blake2b order _ hemit run with
      ⟨r, -, hr⟩ | ⟨current, newSlot, hcurrent, hslot, hnone, hr⟩
    · rw [hr] at hrun
      rcases r with e | run' <;> obtain ⟨hend, -⟩ := Prod.mk.inj hrun <;> cases hend
    · exact ⟨current, newSlot, hcurrent, hslot, hnone⟩
  · rw [peerExtendsChain_run hemit] at hrun
    rcases hmodel : ConformanceHarness.peerExtendsChain params run with e | run' <;>
      rw [hmodel] at hrun <;> obtain ⟨hend, rfl⟩ := Prod.mk.inj hrun
    · cases hend
    · exact extended_of_ok hmodel

/-! ## One extension -/

/-- A run with one peer, whose chain is empty. -/
def onePeerRun : RunState :=
  .initial (some 5) (fun id => if id = "p" then some .new else none) fun _ => none

/-- Parameters of a step that extends its chain, with a body. -/
def extendOnePeer : StepParams :=
  { (default : StepParams) with
    slot := some 9, peerId := some "p", blockNumber := some 1, blockHash := some "ab"
    headerCbor := some "00", blockBodyCbor := some "a0" }

/-- The network after that step. -/
def onePeerExtended : NetworkState :=
  { onePeerRun.network with
    peers := onePeerRun.peers.insert "p" (PeerState.new.extend
      { slot := 9, blockHash := [0xab], blockNumber := 1, headerCbor := [0x00]
        variant := defaultHeaderVariant } (some [0xa0])) }

theorem run_extendOnePeer :
    (NetworkProg.peerExtendsChain (fun _ => .ok ()) extendOnePeer).run onePeerRun.network =
      (.ok (), onePeerExtended) :=
  peerExtendsChain_run (fun _ => rfl) onePeerRun

theorem failed_steps_change_nothing_onePeer :
    Extended extendOnePeer onePeerRun.network onePeerExtended :=
  (@failed_steps_change_nothing (fun _ => .ok ()) (fun _ => []) ["p"] (fun _ => rfl)
    extendOnePeer onePeerRun.network onePeerExtended).2.2.2 run_extendOnePeer

end Proof

end ConformanceHarness
