import ConformanceHarness.Runner.ChainTrace
import ConformanceHarness.Proof.AuditTrail

/-!
# The trace and the order of a chain

An event is written after the lock is released, so the trace lists a peer's blocks in the order
of the writes. It is the order of the chain within one batch, and across batches as long as the
peer's chain is not appended to while an event of it is unwritten. Two branches break it: the one
that appends second can write first.
-/

namespace ConformanceHarness.Proof

open ConformanceHarness Lib

/-- The event tells of the entry. -/
def Announces (event : ChainExtended) (e : ChainEntry) : Prop :=
  event.slot = e.slot ∧ event.blockNumber = e.blockNumber ∧
    PeerState.decodeHex event.blockHash = .ok e.blockHash

/-- The events of one peer. -/
abbrev ofPeer (id : String) (event : ChainExtended) : Bool := event.peerId = id

/-! ## What a segment owes -/

theorem announces_of_reports {event : ProductionEvent} {e : ChainEntry} (h : Reports event e) :
    Announces event.chainExtended e := by
  obtain ⟨hslot, hnumber, hhash⟩ := h
  refine ⟨hslot, hnumber, ?_⟩
  show PeerState.decodeHex event.blockHashHex = _
  rw [hhash]
  exact decodeHexWith_encodeHex ..

/-- The events of a peer, before and after they become trace events. -/
theorem chainExtended_ofPeer (id : String) (events : List ProductionEvent) :
    ((events.filter fun ev => !ev.skipped).map ProductionEvent.chainExtended).filter (ofPeer id) =
      (notSkipped (eventsOf id events)).map ProductionEvent.chainExtended := by
  rw [List.filter_map, List.filter_filter, notSkipped, eventsOf, List.filter_filter]
  refine congrArg _ (List.filter_congr fun ev _ => ?_)
  exact Bool.and_comm _ _

theorem announces_all {events : List ProductionEvent} {entries : List ChainEntry}
    (h : List.Forall₂ Reports events entries) :
    List.Forall₂ Announces (events.map ProductionEvent.chainExtended) entries :=
  List.forall₂_map_left_iff.mpr (h.imp fun _ _ => announces_of_reports)

/-- What decoding the parameters of a `peer_extends_chain` tells of its event. -/
theorem decodeExtension_event {params : StepParams} {id : String} {entry : ChainEntry}
    {body : Option (List UInt8)} (h : decodeExtension params = .ok (id, entry, body)) :
    ∃ event, explicitExtension params = some event ∧ event.peerId = id ∧ Announces event entry := by
  have hgives := decodeExtension_gives h
  obtain ⟨hashHex, hhashHex, hhash⟩ := hgives.blockHash
  refine ⟨{ peerId := id, slot := entry.slot, blockHash := hashHex
            blockNumber := entry.blockNumber, source := "explicit", defectKind := none },
    ?_, rfl, rfl, rfl, hhash⟩
  rw [explicitExtension, hgives.peerId, hgives.slot, hgives.blockNumber, hhashHex]
  rfl

section

variable {blake2b : List UInt8 → List UInt8}

/-- A locked call appends to a peer what its events announce. -/
theorem applyLocked_announces {order : List String} {old new : UInt64} {s₀ s s' : RunState}
    {id : String} {ps : PeerState} (h : applyLocked blake2b order s₀ old new = some s')
    (horder : s.peers.IterOrder order) (hps : s.peers id = some ps)
    (hpeers : s₀.peers = s.peers) (hevents : s₀.events = s.events) :
    ∃ ps' entries, s'.peers id = some ps' ∧ ps'.chainEntries = ps.chainEntries ++ entries ∧
      List.Forall₂ Announces
        ((((newEvents s s').filter fun ev => !ev.skipped).map ProductionEvent.chainExtended).filter
          (ofPeer id)) entries := by
  obtain ⟨⟨peers', events⟩, hc, rfl⟩ := Option.map_eq_some_iff.mp h
  rw [hpeers] at hc
  obtain ⟨ps', evs, hp, hps', hevs⟩ := applyProductionRules_peer horder hc hps
  obtain ⟨entries, htrail⟩ := producePeer_auditTrail hp
  refine ⟨ps', entries, hps', htrail.chain, ?_⟩
  have hnew : newEvents s { s₀ with
      peers := peers'
      handed := s₀.handed ++ [(old, new)]
      events := s₀.events ++ events
      produced := fun id => s₀.produced id ++ appended (s₀.peers id) (peers' id) } = events := by
    show (s₀.events ++ events).drop s.events.length = events
    rw [hevents, List.drop_left]
  rw [chainExtended_ofPeer, hnew, hevs]
  exact announces_all htrail.reported

/-- **A segment owes an event for every entry it appends**, in order. -/
theorem owedEvents_announce {a : Segment} {s s' : RunState} {rest : Code Segment} {id : String}
    {ps : PeerState} (h : Executes blake2b a s s' rest) (hps : s.peers id = some ps) :
    ∃ ps' entries, s'.peers id = some ps' ∧ ps'.chainEntries = ps.chainEntries ++ entries ∧
      List.Forall₂ Announces ((owedEvents a s s').filter (ofPeer id)) entries := by
  have still : s'.peers = s.peers → owedEvents a s s' = [] → ∃ ps' entries,
      s'.peers id = some ps' ∧ ps'.chainEntries = ps.chainEntries ++ entries ∧
        List.Forall₂ Announces ((owedEvents a s s').filter (ofPeer id)) entries := by
    intro hpeers howed
    rw [howed]
    exact ⟨ps, [], by rw [hpeers, hps], (List.append_nil _).symm, .nil⟩
  have none_new : s' = s → newEvents s s' = [] := by
    intro heq
    rw [heq, newEvents, List.drop_length]
  cases a with
  | bookkeeping => exact still (congrArg _ h.1) rfl
  | substitute step => exact still (congrArg _ h.1) rfl
  | other =>
      obtain ⟨⟨vars, heq⟩, -⟩ := h
      exact still (by rw [heq]) rfl
  | peerExtendsChain params =>
      simp only [Executes] at h
      split at h
      · rename_i hfail
        exact still (congrArg _ h.1) (by simp only [owedEvents, hfail])
      · rename_i s'' hok
        obtain ⟨other, entry, body, qs, hdecode, hqs, -, heq⟩ := peerExtendsChain_ok hok
        obtain ⟨event, hevent, hpeer, hannounces⟩ := decodeExtension_event hdecode
        have howed : owedEvents (.peerExtendsChain params) s s' = [event] := by
          simp only [owedEvents, hok, hevent, Option.toList]
        rw [howed, h.1, heq]
        by_cases hid : id = other
        · subst hid
          obtain rfl := Option.some.inj (hqs.symm.trans hps)
          refine ⟨_, [entry], PeerMap.insert_self .., rfl, ?_⟩
          rw [List.filter_cons_of_pos (p := ofPeer id) (decide_eq_true hpeer)]
          exact .cons hannounces .nil
        · refine ⟨ps, [], (PeerMap.insert_ne _ _ hid).trans hps, (List.append_nil _).symm, ?_⟩
          rw [List.filter_cons_of_neg]
          · exact .nil
          · intro hsame
            exact hid ((of_decide_eq_true hsame).symm.trans hpeer)
  | advanceToSlot params =>
      obtain ⟨order, horder, h⟩ := h
      split at h
      · exact h.elim
      · exact still (congrArg _ h.1) (by simp only [owedEvents, none_new h.1]; rfl)
      · rename_i s'' hok
        obtain ⟨old, new, -, -, -, hs⟩ := advanceToSlot_ok hok
        obtain ⟨rfl, -⟩ := h
        exact applyLocked_announces hs horder hps rfl rfl
  | tickSlots params =>
      obtain ⟨order, horder, h⟩ := h
      split at h
      · exact h.elim
      · exact still (congrArg _ h.1) (by simp only [owedEvents, none_new h.1]; rfl)
      · rename_i s'' hok
        obtain ⟨old, count, -, -, hs⟩ := tickSlots_ok hok
        obtain ⟨rfl, -⟩ := h
        exact applyLocked_announces hs horder hps rfl rfl

/-! ## Along a run -/

/-- What is posted of a peer are the entries its chain got, in chain order. -/
structure Posted (id : String) (ps : PeerState) (s : TracedState) : Prop where
  sound : s.outbox.Sound
  entries : ∃ ps' entries, s.net.peers id = some ps' ∧
    ps'.chainEntries = ps.chainEntries ++ entries ∧
      List.Forall₂ Announces (Outbox.selected (ofPeer id) s.outbox.posted) entries

/-- What is posted after one batch more. -/
theorem selected_post {ε : Type} (p : ε → Bool) (o : Outbox ε) (batch : List ε) :
    Outbox.selected p (o.post batch).posted = Outbox.selected p o.posted ++ batch.filter p := by
  cases batch with
  | nil => exact (List.append_nil _).symm
  | cons item rest => rw [Outbox.post_cons, Outbox.selected_append, Outbox.selected_batch]

theorem write_posted {ε : Type} (o : Outbox ε) (n : Nat) : (o.write n).posted = o.posted := by
  unfold Outbox.write
  split <;> rfl

/-- **Preserved by every segment.** -/
theorem posted_step {a : TracedSegment} {s s' : TracedState} {rest : Code TracedSegment}
    {id : String} {ps : PeerState} (h : ExecutesTraced blake2b a s s' rest)
    (hinv : Posted id ps s) : Posted id ps s' := by
  obtain ⟨hsound, ps₁, entries, hps₁, hchain, hposted⟩ := hinv
  cases a with
  | segment a =>
      obtain ⟨net, residual, hexec, rfl, -⟩ := h
      obtain ⟨ps₂, more, hps₂, hmore, howed⟩ := owedEvents_announce hexec hps₁
      refine ⟨hsound.post _, ps₂, entries ++ more, hps₂, ?_, ?_⟩
      · rw [hmore, hchain, List.append_assoc]
      · rw [selected_post]
        exact List.rel_append hposted howed
  | emitChainExtended n =>
      rcases h with ⟨rfl, -⟩ | ⟨rfl, -⟩
      · refine ⟨hsound.write n, ps₁, entries, hps₁, hchain, ?_⟩
        rw [write_posted]
        exact hposted
      · exact ⟨hsound, ps₁, entries, hps₁, hchain, hposted⟩

theorem posted_initial {start : Option UInt64} {peers : PeerMap} {vars : VarStore} {id : String}
    {ps : PeerState} (hps : peers id = some ps) :
    Posted id ps (TracedState.initial start peers vars) where
  sound := .empty
  entries := ⟨ps, [], hps, (List.append_nil _).symm, .nil⟩

variable (blake2b) in
/-- A segment that appends to the peer's chain only if no event of the peer is unwritten. -/
def ExecutesInTurn (id : String) (a : TracedSegment) (s s' : TracedState)
    (rest : Code TracedSegment) : Prop :=
  ExecutesTraced blake2b a s s' rest ∧
    ((s'.net.peers id).map (·.chainEntries) ≠ (s.net.peers id).map (·.chainEntries) →
      s.outbox.NonePending (ofPeer id))

theorem inTurn_step {a : TracedSegment} {s s' : TracedState} {rest : Code TracedSegment}
    {id : String} {ps : PeerState} (h : ExecutesInTurn blake2b id a s s' rest)
    (hinv : Posted id ps s) (hturn : s.outbox.InTurn (ofPeer id)) :
    s'.outbox.InTurn (ofPeer id) := by
  obtain ⟨hexec, halone⟩ := h
  obtain ⟨hsound, ps₁, -, hps₁, -, -⟩ := hinv
  cases a with
  | segment a =>
      obtain ⟨net, residual, hnet, rfl, -⟩ := hexec
      obtain ⟨ps₂, more, hps₂, hmore, howed⟩ := owedEvents_announce hnet hps₁
      by_cases hnone : (owedEvents a s.net net).filter (ofPeer id) = []
      · exact hturn.post_others hsound hnone
      · -- an event is owed, so the chain has grown
        have hgrown : more ≠ [] := by
          intro hnil
          rw [hnil] at howed
          exact hnone (List.forall₂_nil_right_iff.mp howed)
        refine hturn.post (halone fun hsame => hgrown ?_) _
        dsimp only at hsame
        rw [hps₁, hps₂, Option.map_some, Option.map_some, hmore] at hsame
        exact List.append_right_eq_self.mp (Option.some.inj hsame)
  | emitChainExtended n =>
      rcases hexec with ⟨rfl, -⟩ | ⟨rfl, -⟩
      · exact hturn.write n
      · exact hturn

/-- Related lists, the first in two parts. -/
theorem forall₂_append_left {α β : Type} {R : α → β → Prop} {l₁ l₂ : List α} {l : List β}
    (h : List.Forall₂ R (l₁ ++ l₂) l) :
    ∃ m₁ m₂, l = m₁ ++ m₂ ∧ List.Forall₂ R l₁ m₁ ∧ List.Forall₂ R l₂ m₂ := by
  induction l₁ generalizing l with
  | nil => exact ⟨[], l, rfl, .nil, h⟩
  | cons a rest ih =>
      obtain ⟨b, l', hab, hrest, rfl⟩ := List.forall₂_cons_left_iff.mp h
      obtain ⟨m₁, m₂, rfl, h₁, h₂⟩ := ih hrest
      exact ⟨b :: m₁, m₂, rfl, .cons hab h₁, h₂⟩

/-- **What the trace says of a chain.** In every run the events posted for a peer are the entries
appended to its chain, in chain order, and every batch writes its events in this order and keeps
those it has not written. In a run that appends to the peer's chain only when no event of it is
unwritten, the peer's events in the trace are the first of these entries, and all of them when
nothing is left to write. -/
theorem chain_trace {start : Option UInt64} {peers : PeerMap} {vars : VarStore}
    {steps : List StepDef} {c : Code TracedSegment} {s : TracedState} {id : String}
    {ps : PeerState} (hps : peers id = some ps)
    (h : Reaches (ExecutesTraced blake2b) (runTraced steps, .initial start peers vars) (c, s)) :
    (∀ n, Outbox.ofBatch n s.outbox.written ++ s.outbox.pending n =
      Outbox.ofBatch n s.outbox.posted) ∧
    ∃ ps' entries, s.net.peers id = some ps' ∧ ps'.chainEntries = ps.chainEntries ++ entries ∧
      List.Forall₂ Announces (Outbox.selected (ofPeer id) s.outbox.posted) entries ∧
      (Reaches (ExecutesInTurn blake2b id) (runTraced steps, .initial start peers vars) (c, s) →
        ∃ announced later, entries = announced ++ later ∧
          List.Forall₂ Announces (s.chainEventsOf id) announced ∧
          (s.outbox.NonePending (ofPeer id) → later = [])) := by
  have hinv : Posted id ps s :=
    h.invariant (fun _ _ _ _ hexec => posted_step hexec) (posted_initial hps)
  obtain ⟨hsound, ps', entries, hps', hchain, hposted⟩ := hinv
  refine ⟨hsound.batches, ps', entries, hps', hchain, hposted, fun hreach => ?_⟩
  have hturn : Posted id ps s ∧ s.outbox.InTurn (ofPeer id) := by
    have hstep : ∀ a t t' rest, ExecutesInTurn blake2b id a t t' rest →
        Posted id ps t ∧ t.outbox.InTurn (ofPeer id) →
        Posted id ps t' ∧ t'.outbox.InTurn (ofPeer id) :=
      fun _ _ _ _ hexec ht => ⟨posted_step hexec.1 ht.1, inTurn_step hexec ht.1 ht.2⟩
    exact hreach.invariant hstep ⟨posted_initial hps, .empty⟩
  obtain ⟨unwritten, hunwritten⟩ := hturn.2.written_first
  rw [← hunwritten] at hposted
  obtain ⟨announced, later, hsplit, hwritten, hlater⟩ := forall₂_append_left hposted
  refine ⟨announced, later, hsplit, hwritten, fun hnone => ?_⟩
  have hall := hturn.2.written_eq hnone
  rw [← hunwritten] at hall
  rw [List.self_eq_append_right.mp hall] at hlater
  exact List.forall₂_nil_left_iff.mp hlater

end

/-! ## Runs of a step and of a branch -/

section

variable {blake2b : List UInt8 → List UInt8} {s s' : TracedState} {c : Code TracedSegment}
  {step : StepDef} {resolved : Value} {refs : List (String × String)}

theorem bookkeeping_reaches (s : TracedState) :
    Reaches (ExecutesTraced blake2b) (.act (.segment .bookkeeping), s) (.done, s) :=
  .head (.act ⟨s.net, .done, ⟨rfl, Or.inl rfl⟩, rfl, rfl⟩) (.single .seqDone)

/-- The program of one step, and what is left of it while it executes. -/
theorem runStep_reaches
    (hsub : substituteInValue step.substituted s.net.vars = .ok (resolved, refs))
    (h : Reaches (ExecutesTraced blake2b) ((executeStep step resolved).map .segment, s) (c, s')) :
    Reaches (ExecutesTraced blake2b) ((runStep step).map .segment, s)
      (.seq (.seq c (.act (.segment .bookkeeping))) .done, s') := by
  refine .seq (bookkeeping_reaches s) ?_
  have hexec : Executes blake2b (.substitute step) s.net s.net
      (.seq (executeStep step resolved) (.act .bookkeeping)) := by
    refine ⟨rfl, ?_⟩
    rw [hsub]
  exact .head (.act ⟨s.net, _, hexec, rfl, rfl⟩) ((h.inSeq _).inSeq _)

theorem runStep_finishes (h : Reaches (ExecutesTraced blake2b) (c, s) (.done, s')) :
    Reaches (ExecutesTraced blake2b) (.seq (.seq c (.act (.segment .bookkeeping))) .done, s)
      (.done, s') :=
  .seq (.seq h (bookkeeping_reaches s')) .refl

/-- The program of a branch of one step. -/
def oneStepBranch (step : StepDef) : Code Segment :=
  .seq (.act .bookkeeping) (.seq (runSteps [step]) (.act .bookkeeping))

theorem oneStepBranch_reaches
    (h : Reaches (ExecutesTraced blake2b) ((runStep step).map .segment, s) (c, s')) :
    Reaches (ExecutesTraced blake2b) ((oneStepBranch step).map .segment, s)
      (.seq (.seq c .done) (.act (.segment .bookkeeping)), s') :=
  .seq (bookkeeping_reaches s) ((h.inSeq _).inSeq _)

theorem oneStepBranch_finishes (h : Reaches (ExecutesTraced blake2b) (c, s) (.done, s')) :
    Reaches (ExecutesTraced blake2b) (.seq (.seq c .done) (.act (.segment .bookkeeping)), s)
      (.done, s') :=
  .seq (.seq h .refl) (bookkeeping_reaches s')

end

/-! ## A tick and an extension, side by side -/

/-- The hash of the block at slot 9, and its text. -/
def nineDigest : List UInt8 := (List.replicate 16 [0x5a, 0x3d]).flatten

def nineHash : String := "5a3d5a3d5a3d5a3d5a3d5a3d5a3d5a3d5a3d5a3d5a3d5a3d5a3d5a3d5a3d5a3d"

/-- `peer_extends_chain` of `p` at slot 9. -/
def extendNineParams : Value := .object [("block_hash", .string nineHash),
  ("block_number", .number (.unsigned 1)), ("header_cbor", .string "00"),
  ("peer_id", .string "p"), ("slot", .number (.unsigned 9))]

def extendNine : StepDef := .peerExtendsChain extendNineParams

/-- `parallel`, with `tick_slots` by 7 in one branch and the extension in the other. -/
def tickBesideExtend : StepDef := .parallel (.object [("branches", .array
  [.array [.object [("count", .number (.unsigned 7)), ("kind", .string "tick_slots")]],
    .array [.object [("block_hash", .string nineHash), ("block_number", .number (.unsigned 1)),
      ("header_cbor", .string "00"), ("kind", .string "peer_extends_chain"),
      ("peer_id", .string "p"), ("slot", .number (.unsigned 9))]]])])
  [[tickSeven], [extendNine]]

/-- The entry the tick appends. -/
def entryFive : ChainEntry where
  slot := 5
  blockHash := slotFiveDigest
  blockNumber := 0
  headerCbor := syntheticHeaderCbor 0 5
  variant := defaultHeaderVariant

/-- The entry the extension appends. -/
def entryNine : ChainEntry where
  slot := 9
  blockHash := nineDigest
  blockNumber := 1
  headerCbor := [0x00]
  variant := defaultHeaderVariant

/-- Their events. -/
def announceFive : ChainExtended where
  peerId := "p"
  slot := 5
  blockHash := encodeHex slotFiveDigest
  blockNumber := 0
  source := "production_rule"
  defectKind := none

def announceNine : ChainExtended where
  peerId := "p"
  slot := 9
  blockHash := nineHash
  blockNumber := 1
  source := "explicit"
  defectKind := none

/-- What the extension reads from its parameters. -/
def extendNineRead : StepParams :=
  { (default : StepParams) with
    slot := some 9, peerId := some "p", blockNumber := some 1, blockHash := some nineHash
    headerCbor := some "00" }

section

variable {net₁ : RunState} {ps : PeerState}

/-- The state the scenario starts in. -/
def raceStart : TracedState := .initial (some 0) oneSlotPeers fun _ => none

/-- The state after the tick appended, and after the extension did. -/
def afterTick (net₁ : RunState) : TracedState :=
  { net := net₁, outbox := Outbox.empty.post [announceFive] }

def afterExtension (net₁ : RunState) (ps : PeerState) : TracedState where
  net := { net₁ with peers := net₁.peers.insert "p" (ps.extend entryNine none) }
  outbox := (Outbox.empty.post [announceFive]).post [announceNine]

/-- The state in which both have written, the extension first. -/
def raceEnd (net₁ : RunState) (ps : PeerState) : TracedState :=
  { afterExtension net₁ ps with outbox := ((afterExtension net₁ ps).outbox.write 1).write 0 }

/-- What is left of the tick when it has appended. -/
def tickWrites (net₁ : RunState) : Code TracedSegment :=
  .seq (.seq .done (owedWrites 0 (.tickSlots tickSevenParams) raceStart.net net₁))
    (.act (.segment .bookkeeping))

theorem emit_reaches {blake2b : List UInt8 → List UInt8} (s : TracedState) (n : Nat) :
    Reaches (ExecutesTraced blake2b) (.act (.emitChainExtended n), s)
      (.done, { s with outbox := s.outbox.write n }) :=
  .single (.act (Or.inl ⟨rfl, rfl⟩))

variable (hs : applyLocked (fun _ => slotFiveDigest) ["p"]
  (RunState.initial (some 7) oneSlotPeers fun _ => none) 0 7 = some net₁)

include hs

/-- The event the call returned. -/
theorem race_events : newEvents raceStart.net net₁ = [{
    peerId := "p", slot := 5, ruleKind := "at_slots", skipped := false, blockNumber := 0
    blockHashHex := encodeHex slotFiveDigest, defectKind := none }] := by
  have hval : (applyLocked (fun _ => slotFiveDigest) ["p"]
      (RunState.initial (some 7) oneSlotPeers fun _ => none) 0 7).map
        (newEvents raceStart.net ·) = some [{
    peerId := "p", slot := 5, ruleKind := "at_slots", skipped := false, blockNumber := 0
    blockHashHex := encodeHex slotFiveDigest, defectKind := none }] := rfl
  rw [hs] at hval
  exact Option.some.inj hval

theorem race_chain : ∃ ps, net₁.peers "p" = some ps ∧ ps.chainEntries = [entryFive] := by
  have hval : (applyLocked (fun _ => slotFiveDigest) ["p"]
      (RunState.initial (some 7) oneSlotPeers fun _ => none) 0 7).map
        (fun s => (s.peers "p").map (·.chainEntries)) = some (some [entryFive]) := rfl
  rw [hs] at hval
  exact Option.map_eq_some_iff.mp (Option.some.inj hval)

theorem race_vars : net₁.vars = fun _ => none := by
  obtain ⟨r, -, rfl⟩ := Option.map_eq_some_iff.mp hs
  rfl

/-- The tick appends, and has its events to write. -/
theorem tick_appends : Reaches (ExecutesTraced fun _ => slotFiveDigest)
    ((runStep tickSeven).map .segment, raceStart)
    (.seq (.seq (tickWrites net₁) (.act (.segment .bookkeeping))) .done, afterTick net₁) := by
  have hsub : substituteInValue tickSeven.substituted raceStart.net.vars =
      .ok (tickSeven.rawParams, []) := rfl
  have hexec : Executes (fun _ => slotFiveDigest) (.tickSlots tickSevenParams) raceStart.net net₁
      .done := by
    refine ⟨["p"], oneSlotPeers_iterOrder, ?_⟩
    rw [show tickSlots (fun _ => slotFiveDigest) ["p"] tickSevenParams raceStart.net =
      some (.ok net₁)
      from tickSlots_seven hs]
    exact ⟨rfl, rfl⟩
  have howed : owedEvents (.tickSlots tickSevenParams) raceStart.net net₁ = [announceFive] := by
    rw [owedEvents, race_events hs]
    rfl
  have happends : Reaches (ExecutesTraced fun _ => slotFiveDigest)
      (.act (.segment (.tickSlots tickSevenParams)), raceStart)
      (.seq .done (owedWrites 0 (.tickSlots tickSevenParams) raceStart.net net₁),
        afterTick net₁) := by
    refine .single (.act ⟨net₁, .done, hexec, ?_, rfl⟩)
    rw [howed]
    rfl
  exact runStep_reaches hsub (happends.inSeq _)

/-- The tick writes its event. -/
theorem tick_writes (s : TracedState) : Reaches (ExecutesTraced fun _ => slotFiveDigest)
    (tickWrites net₁, s) (.done, { s with outbox := s.outbox.write 0 }) := by
  have howedWrites : owedWrites 0 (.tickSlots tickSevenParams) raceStart.net net₁ =
      .seq (.act (.segment .bookkeeping)) (.seq (.act (.segment .bookkeeping))
        (.seq (.act (.emitChainExtended 0)) .done)) := by
    rw [owedWrites, race_events hs]
    rfl
  rw [tickWrites, howedWrites]
  refine Reaches.seq (.head .seqDone ?_) (bookkeeping_reaches _)
  refine Reaches.seq (bookkeeping_reaches s) (Reaches.seq (bookkeeping_reaches s) ?_)
  exact Reaches.seq (emit_reaches s 0) .refl

/-- The extension appends, and writes its event. -/
theorem extension_runs (hps : net₁.peers "p" = some ps) (hchain : ps.chainEntries = [entryFive]) :
    Reaches (ExecutesTraced fun _ => slotFiveDigest)
      ((runStep extendNine).map .segment, afterTick net₁)
      (.done, { afterExtension net₁ ps with outbox :=
        (afterExtension net₁ ps).outbox.write 1 }) := by
  have hsub : substituteInValue extendNine.substituted (afterTick net₁).net.vars =
      .ok (extendNineParams, []) := by
    rw [show (afterTick net₁).net.vars = fun _ => none from race_vars hs]
    rfl
  refine (runStep_reaches hsub .refl).trans (runStep_finishes ?_)
  have hextend : peerExtendsChain extendNineRead net₁ = .ok (afterExtension net₁ ps).net := by
    have hdecode : decodeExtension extendNineRead = .ok ("p", entryNine, none) := rfl
    have htip : ps.chainTipSlot = some 5 := by
      rw [PeerState.chainTipSlot, hchain]
      rfl
    have hpast : ¬ entryNine.slot ≤ 5 := by decide
    simp only [peerExtendsChain, hdecode, hps, htip, if_neg hpast]
    rfl
  have hexec : Executes (fun _ => slotFiveDigest) (.peerExtendsChain extendNineRead) net₁
      (afterExtension net₁ ps).net .done := by simp [Executes, hextend]
  have howed : owedEvents (.peerExtendsChain extendNineRead) net₁ (afterExtension net₁ ps).net =
      [announceNine] := by
    simp only [owedEvents, hextend]
    rfl
  have happends : Reaches (ExecutesTraced fun _ => slotFiveDigest)
      (.act (.segment (.peerExtendsChain extendNineRead)), afterTick net₁)
      (.seq .done (.act (.emitChainExtended 1)), afterExtension net₁ ps) := by
    refine .single (.act ⟨_, .done, hexec, ?_, rfl⟩)
    show _ = TracedState.mk _ (Outbox.post _ (owedEvents _ net₁ _))
    rw [howed]
    rfl
  exact Reaches.seq (happends.trans (Reaches.seq .refl (emit_reaches _ 1))) (bookkeeping_reaches _)

/-- **The extension appends second and writes first.** -/
theorem race_reaches (hps : net₁.peers "p" = some ps) (hchain : ps.chainEntries = [entryFive]) :
    Reaches (ExecutesTraced fun _ => slotFiveDigest)
      (runTraced [tickBesideExtend], raceStart) (.done, raceEnd net₁ ps) := by
  have hsub : substituteInValue tickBesideExtend.substituted raceStart.net.vars =
      .ok (.object [], []) := rfl
  refine Reaches.seq ((runStep_reaches hsub .refl).trans (runStep_finishes ?_)) .refl
  refine Reaches.seq (bookkeeping_reaches _) (Reaches.seq ?_ (bookkeeping_reaches _))
  -- the first branch up to its writes, the second as a whole, and the rest of the first
  have hfirst := Reaches.inPar (oneStepBranch_reaches (tick_appends hs)) []
    [(oneStepBranch extendNine).map .segment]
  have hsecond := Reaches.inPar ((oneStepBranch_reaches (extension_runs hs hps hchain)).trans
    (oneStepBranch_finishes .refl))
      [.seq (.seq (.seq (.seq (tickWrites net₁) (.act (.segment .bookkeeping))) .done) .done)
        (.act (.segment .bookkeeping))] []
  have hrest := Reaches.inPar (oneStepBranch_finishes (runStep_finishes (tick_writes hs
    { afterExtension net₁ ps with outbox := (afterExtension net₁ ps).outbox.write 1 }))) [] [.done]
  refine hfirst.trans (hsecond.trans (hrest.trans (.single (.parDone fun c hc => ?_))))
  rcases List.mem_cons.mp hc with rfl | hc
  · rfl
  · exact List.mem_singleton.mp hc

end

/-- **The trace of a run that is over can list a chain in another order.** -/
theorem trace_not_in_chain_order : ∃ (s : TracedState) (ps : PeerState),
    oneSlotPeers "p" = some { PeerState.new with productionRule := some (.atSlots [5]) } ∧
      Reaches (ExecutesTraced fun _ => slotFiveDigest)
        (runTraced [tickBesideExtend], .initial (some 0) oneSlotPeers fun _ => none) (.done, s) ∧
      s.net.peers "p" = some ps ∧ ps.chainEntries.map (·.slot) = [5, 9] ∧
      (s.chainEventsOf "p").map (·.slot) = [9, 5] ∧
      ¬ List.Forall₂ Announces (s.chainEventsOf "p") ps.chainEntries := by
  obtain ⟨net₁, hs, -⟩ := oneSlotPeers_run
  obtain ⟨ps, hps, hchain⟩ := race_chain hs
  have hslots : ((ps.extend entryNine none).chainEntries).map (·.slot) = [5, 9] := by
    show (ps.chainEntries ++ [entryNine]).map (·.slot) = _
    rw [hchain]
    rfl
  have hevents : (raceEnd net₁ ps).chainEventsOf "p" = [announceNine, announceFive] := rfl
  have hpeer : (raceEnd net₁ ps).net.peers "p" = some (ps.extend entryNine none) :=
    PeerMap.insert_self net₁.peers "p" (ps.extend entryNine none)
  refine ⟨raceEnd net₁ ps, ps.extend entryNine none, oneSlotPeers_p, race_reaches hs hps hchain,
    hpeer, hslots, by rw [hevents]; rfl, fun hall => ?_⟩
  rw [hevents] at hall
  obtain ⟨e, rest, hfirst, -, heq⟩ := List.forall₂_cons_left_iff.mp hall
  rw [heq] at hslots
  have hfive : e.slot = 5 := (List.cons.inj hslots).1
  have hnine : (9 : UInt64) = e.slot := hfirst.1
  rw [hfive] at hnine
  exact absurd hnine (by decide)

theorem chain_trace_race : ∃ s : TracedState,
    (∀ n, Outbox.ofBatch n s.outbox.written ++ s.outbox.pending n =
      Outbox.ofBatch n s.outbox.posted) ∧
    ∃ ps' entries, s.net.peers "p" = some ps' ∧ ps'.chainEntries = [] ++ entries ∧
      List.Forall₂ Announces (Outbox.selected (ofPeer "p") s.outbox.posted) entries ∧
      (Reaches (ExecutesInTurn (fun _ => slotFiveDigest) "p")
          (runTraced [tickBesideExtend], .initial (some 0) oneSlotPeers fun _ => none) (.done, s) →
        ∃ announced later, entries = announced ++ later ∧
          List.Forall₂ Announces (s.chainEventsOf "p") announced ∧
          (s.outbox.NonePending (ofPeer "p") → later = [])) := by
  obtain ⟨net₁, hs, -⟩ := oneSlotPeers_run
  obtain ⟨ps, hps, hchain⟩ := race_chain hs
  exact ⟨raceEnd net₁ ps, chain_trace oneSlotPeers_p (race_reaches hs hps hchain)⟩

end ConformanceHarness.Proof
