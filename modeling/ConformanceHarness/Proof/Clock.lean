import ConformanceHarness.Proof.Advance
import ConformanceHarness.Lib.Intervals
import ConformanceHarness.Runner.Network

/-!
# Exactly-once production

The clock moves in two idioms: `advance_to_slot` loads, checks and stores,
`tick_slots` fetches and adds. Neither awaits between moving the clock and
handing the interval it moved over to `apply_production_rules`. So in every
interleaving the intervals handed over are consecutive, which is the invariant
here, and what a rule schedules over consecutive intervals it schedules once.

The invariant speaks of runs in which no `u64` sum overflows. The hypothesis is
about each step of the run, and about the sums of that step alone.
-/

namespace ConformanceHarness.Proof

open ConformanceHarness Lib

/-! ## One call, as a set of slots -/

/-- The events of peer `id` for slot `x`. -/
def eventCount (id : String) (x : UInt64) (events : List ProductionEvent) : Nat :=
  events.countP fun e => e.peerId = id ∧ e.slot = x

@[simp] theorem eventCount_nil (id : String) (x : UInt64) : eventCount id x [] = 0 := rfl

@[simp] theorem eventCount_append (id : String) (x : UInt64) (e₁ e₂ : List ProductionEvent) :
    eventCount id x (e₁ ++ e₂) = eventCount id x e₁ + eventCount id x e₂ :=
  List.countP_append

theorem eventCount_eq_count (id : String) (x : UInt64) (events : List ProductionEvent) :
    eventCount id x events = ((eventsOf id events).map (·.slot)).count x := by
  unfold eventCount eventsOf
  rw [List.count, List.countP_map, List.countP_filter]
  refine List.countP_congr fun e _ => ?_
  simp [and_comm]

/-- Peer `id` has a rule, and the rule fires at `x`. -/
def Scheduled (peers : PeerMap) (id : String) (x : UInt64) : Prop :=
  ∃ ps rule, peers id = some ps ∧ ps.productionRule = some rule ∧ Fires rule x

/-- No sum `apply_production_rules(old, new)` makes to find the slots overflows. -/
def RuleSumsFit (peers : PeerMap) (old new : UInt64) : Prop :=
  ∀ id ps rule, peers id = some ps → ps.productionRule = some rule → rule ≠ .none →
    old.toNat + 1 < 2 ^ 64 ∧ (old + 1 ≤ new → RuleFits rule (old + 1))

/-- Every declared rule passed validation. -/
def AllAccepted (peers : PeerMap) (start : Option UInt64) : Prop :=
  ∀ id ps rule, peers id = some ps → ps.productionRule = some rule → rule.Accepted start

section

variable {blake2b : List UInt8 → List UInt8}

/-- The task of a peer whose rule is not `none`. -/
def scheduledTask (old new : UInt64) (id : String) (rule : ProductionRule) :
    Option (Option ProductionTask) :=
  match rule.slotsInRange (old + 1) new with
  | none => none
  | some slots =>
    if slots.isEmpty then some none
    else (ruleContext rule).map fun ctx => some ⟨id, rule.kindStr, slots, ctx⟩

/-- What a call that returned did to one peer. -/
theorem producePeer_spec {old new : UInt64} {id : String} {ps ps' : PeerState}
    {evs : List ProductionEvent} (h : producePeer blake2b old new id ps = some (ps', evs)) :
    (ps.productionRule = none ∨ ps.productionRule = some .none) ∧ ps' = ps ∧ evs = [] ∨
      ∃ rule l ctx, ps.productionRule = some rule ∧ rule ≠ .none ∧
        rule.slotsInRange (old + 1) new = some l ∧ (l ≠ [] → ruleContext rule = some ctx) ∧
        (ps', evs) = produceSlots blake2b id rule.kindStr ctx ps l := by
  obtain ⟨task?, htask, heq⟩ := Option.map_eq_some_iff.mp h
  unfold productionTask at htask
  cases hrule : ps.productionRule with
  | none =>
      rw [hrule] at htask
      obtain rfl := Option.some.inj htask
      obtain ⟨rfl, rfl⟩ := Prod.mk.inj heq
      exact Or.inl ⟨Or.inl rfl, rfl, rfl⟩
  | some rule =>
      rw [hrule] at htask
      by_cases hnone : rule = .none
      · subst hnone
        obtain rfl := Option.some.inj htask
        obtain ⟨rfl, rfl⟩ := Prod.mk.inj heq
        exact Or.inl ⟨Or.inr rfl, rfl, rfl⟩
      · -- every rule but `none` is scheduled alike
        have htask' : scheduledTask old new id rule = some task? := by
          cases rule <;> first | exact absurd rfl hnone | exact htask
        cases hl : rule.slotsInRange (old + 1) new with
        | none => simp [scheduledTask, hl] at htask'
        | some l =>
            simp only [scheduledTask, hl] at htask'
            cases l with
            | nil =>
                obtain rfl := Option.some.inj htask'
                exact Or.inr ⟨rule, [], .honest, rfl, hnone, hl, by simp, heq.symm⟩
            | cons slot rest =>
                obtain ⟨ctx, hctx, rfl⟩ := Option.map_eq_some_iff.mp htask'
                exact Or.inr ⟨rule, slot :: rest, ctx, rfl, hnone, hl, fun _ => hctx, heq.symm⟩

/-- Production leaves a peer's rule alone. -/
theorem producePeer_rule_eq {old new : UInt64} {id : String} {ps ps' : PeerState}
    {evs : List ProductionEvent} (h : producePeer blake2b old new id ps = some (ps', evs)) :
    ps'.productionRule = ps.productionRule := by
  rcases producePeer_spec h with ⟨-, rfl, -⟩ | ⟨rule, l, ctx, -, -, -, -, heq⟩
  · rfl
  · rw [(Prod.mk.inj heq).1, produceSlots_rule]

/-- The slots a call reports of one peer are those its rule schedules in `(old, new]`. -/
theorem producePeer_slots {old new : UInt64} {id : String} {ps ps' : PeerState}
    {evs : List ProductionEvent} {start : Option UInt64}
    (h : producePeer blake2b old new id ps = some (ps', evs))
    (hacc : ∀ rule, ps.productionRule = some rule → rule.Accepted start)
    (hfit : ∀ rule, ps.productionRule = some rule → rule ≠ .none →
      old.toNat + 1 < 2 ^ 64 ∧ (old + 1 ≤ new → RuleFits rule (old + 1))) :
    (evs.map (·.slot)).Nodup ∧ ∀ x, x ∈ evs.map (·.slot) ↔
      old < x ∧ x ≤ new ∧ ∃ rule, ps.productionRule = some rule ∧ Fires rule x := by
  rcases producePeer_spec h with ⟨hidle, -, rfl⟩ | ⟨rule, l, ctx, hrule, hnone, hl, -, heq⟩
  · refine ⟨List.nodup_nil, fun x => ⟨by simp, ?_⟩⟩
    rintro ⟨-, -, rule, hrule, hf⟩
    rcases hidle with hr | hr
    · rw [hr] at hrule
      simp at hrule
    · rw [hr] at hrule
      rw [← Option.some.inj hrule] at hf
      exact hf.elim
  · obtain ⟨hold, hsums⟩ := hfit rule hrule hnone
    obtain ⟨hsorted, hmem⟩ := slotsInRange_spec (Accepted.ordered (hacc rule hrule)) hsums hl
    have hslots : evs.map (·.slot) = l := by
      rw [(Prod.mk.inj heq).2, produceSlots_event_slots]
    have hold1 : (old + 1).toNat = old.toNat + 1 := by
      rw [UInt64.toNat_add, UInt64.toNat_one, Nat.mod_eq_of_lt hold]
    rw [hslots]
    refine ⟨hsorted.imp fun hlt => UInt64.ne_of_lt hlt, fun x => ?_⟩
    rw [hmem, UInt64.le_iff_toNat_le, hold1, UInt64.lt_iff_toNat_lt]
    constructor
    · rintro ⟨hlo, hhi, hf⟩
      exact ⟨hlo, hhi, rule, hrule, hf⟩
    · rintro ⟨hlo, hhi, rule', hrule', hf⟩
      rw [hrule] at hrule'
      rw [← Option.some.inj hrule'] at hf
      exact ⟨hlo, hhi, hf⟩

open scoped Classical in
/-- **One call reports each scheduled slot of `(old, new]` once**, and nothing else. -/
theorem applyProductionRules_eventCount {order : List String} {peers peers' : PeerMap}
    {old new : UInt64} {events : List ProductionEvent} {start : Option UInt64}
    (horder : peers.IterOrder order)
    (h : applyProductionRules blake2b order peers old new = some (peers', events))
    (hacc : AllAccepted peers start) (hfit : RuleSumsFit peers old new) (id : String)
    (x : UInt64) :
    eventCount id x events = if old < x ∧ x ≤ new ∧ Scheduled peers id x then 1 else 0 := by
  rw [eventCount_eq_count]
  cases hps : peers id with
  | none =>
      rw [(applyProductionRules_none horder h hps).2, if_neg]
      · rfl
      · rintro ⟨-, -, ps, rule, hps', -⟩
        rw [hps] at hps'
        simp at hps'
  | some ps =>
      obtain ⟨ps', evs, hp, -, hevs⟩ := applyProductionRules_peer horder h hps
      obtain ⟨hnd, hmem⟩ := producePeer_slots hp (hacc id ps · hps) (hfit id ps · hps)
      have hsched : Scheduled peers id x ↔ ∃ rule, ps.productionRule = some rule ∧
        Fires rule x := by
        constructor
        · rintro ⟨ps'', rule, hps'', hrule, hf⟩
          rw [hps] at hps''
          exact ⟨rule, by rw [Option.some.inj hps'', hrule], hf⟩
        · rintro ⟨rule, hrule, hf⟩
          exact ⟨ps, rule, hps, hrule, hf⟩
      rw [hevs, hnd.count, hsched]
      by_cases hx : x ∈ evs.map (·.slot)
      · rw [if_pos hx, if_pos ((hmem x).mp hx)]
      · rw [if_neg hx, if_neg (mt (hmem x).mpr hx)]

/-! ## What a segment can do to the network -/

/-- The sums a segment makes before it hands an interval over fit in a `u64`. -/
def NoOverflow : Segment → RunState → Prop
  | .advanceToSlot params, s => ∀ old new, s.currentSlot = some old → params.slot = some new →
      old < new → RuleSumsFit s.peers old new
  | .tickSlots params, s => ∀ old count, s.currentSlot = some old → params.count = some count →
      old.toNat + count.toNat < 2 ^ 64 ∧ RuleSumsFit s.peers old (old + count)
  | _, _ => True

/-- What a segment can do to the network. -/
inductive NetworkStep (blake2b : List UInt8 → List UInt8) (a : Segment) (s s' : RunState) :
    Prop where
  /-- Clock, peers and ghosts stay. -/
  | quiet (vars : VarStore) (heq : s' = { s with vars })
  /-- An explicit extension of one peer's chain, past its tip. -/
  | extended (id : String) (ps : PeerState) (entry : ChainEntry) (body : Option (List UInt8))
      (hps : s.peers id = some ps) (htip : ∀ tip, ps.chainTipSlot = some tip → tip < entry.slot)
      (heq : s' = { s with peers := s.peers.insert id (ps.extend entry body) })
  /-- The clock moves from `old` to `new`, and the interval is handed over. -/
  | advanced (order : List String) (old new : UInt64) (horder : s.peers.IterOrder order)
      (hold : s.currentSlot = some old)
      (hmoved : applyLocked blake2b order { s with currentSlot := some new } old new = some s')
      (hforward : NoOverflow a s → old ≤ new ∧ RuleSumsFit s.peers old new)

/-- What the parameters of a `peer_extends_chain` step give: the peer, its new entry, and the body
of the block if there is one. -/
structure GivesExtension (params : StepParams) (id : String) (entry : ChainEntry)
    (body : Option (List UInt8)) : Prop where
  peerId : params.peerId = some id
  slot : params.slot = some entry.slot
  blockNumber : params.blockNumber = some entry.blockNumber
  blockHash : ∃ hex, params.blockHash = some hex ∧ PeerState.decodeHex hex = .ok entry.blockHash
  headerCbor : ∃ hex, params.headerCbor = some hex ∧
    PeerState.decodeHex hex = .ok entry.headerCbor
  variant : entry.variant = params.variant.getD defaultHeaderVariant
  noBody : params.blockBodyCbor = none → body = none
  withBody : ∀ hex, params.blockBodyCbor = some hex →
    ∃ bytes, PeerState.decodeHex hex = .ok bytes ∧ body = some bytes

theorem requireParam_eq_ok {α : Type} {name : String} {o : Option α} {a : α}
    (h : requireParam name o = .ok a) : o = some a := by
  cases o with
  | none => cases h
  | some b => rw [Except.ok.inj h]

/-- **What decoding leaves is what the parameters give.** -/
theorem decodeExtension_gives {params : StepParams} {id : String} {entry : ChainEntry}
    {body : Option (List UInt8)} (h : decodeExtension params = .ok (id, entry, body)) :
    GivesExtension params id entry body := by
  unfold decodeExtension at h
  obtain ⟨peerId, hpeer, h⟩ := bind_eq_ok.mp h
  obtain ⟨slot, hslot, h⟩ := bind_eq_ok.mp h
  obtain ⟨number, hnumber, h⟩ := bind_eq_ok.mp h
  obtain ⟨hashHex, hhashHex, h⟩ := bind_eq_ok.mp h
  obtain ⟨headerHex, hheaderHex, h⟩ := bind_eq_ok.mp h
  obtain ⟨hash, hhash, h⟩ := bind_eq_ok.mp h
  obtain ⟨header, hheader, h⟩ := bind_eq_ok.mp h
  have hgives : ∀ body', (∀ hex, params.blockBodyCbor = some hex →
      ∃ bytes, PeerState.decodeHex hex = .ok bytes ∧ body' = some bytes) →
      (params.blockBodyCbor = none → body' = none) →
      GivesExtension params peerId
        { slot, blockHash := hash, blockNumber := number, headerCbor := header
          variant := params.variant.getD defaultHeaderVariant } body' := fun body' hwith hno =>
    { peerId := requireParam_eq_ok hpeer
      slot := requireParam_eq_ok hslot
      blockNumber := requireParam_eq_ok hnumber
      blockHash := ⟨hashHex, requireParam_eq_ok hhashHex, withContext_eq_ok.mp hhash⟩
      headerCbor := ⟨headerHex, requireParam_eq_ok hheaderHex, withContext_eq_ok.mp hheader⟩
      variant := rfl
      noBody := hno
      withBody := hwith }
  dsimp only at h
  rcases hcbor : params.blockBodyCbor with _ | hex <;> rw [hcbor] at h hgives
  · obtain ⟨body', hbody', h⟩ := bind_eq_ok.mp h
    obtain rfl := Except.ok.inj hbody'
    obtain ⟨rfl, hrest⟩ := Prod.mk.inj (Except.ok.inj h)
    obtain ⟨rfl, rfl⟩ := Prod.mk.inj hrest
    exact hgives none (fun _ hsome => absurd hsome.symm (Option.some_ne_none _)) fun _ => rfl
  · obtain ⟨body', hbody', h⟩ := bind_eq_ok.mp h
    obtain ⟨rfl, hrest⟩ := Prod.mk.inj (Except.ok.inj h)
    obtain ⟨rfl, rfl⟩ := Prod.mk.inj hrest
    refine hgives _ (fun other hother => ?_) fun hnone => absurd hnone (Option.some_ne_none _)
    obtain rfl := Option.some.inj hother
    have hdecoded := withContext_eq_ok.mp hbody'
    rcases hbytes : PeerState.decodeHex hex with e | bytes <;> rw [hbytes] at hdecoded
    · cases hdecoded
    · exact ⟨bytes, rfl, (Except.ok.inj hdecoded).symm⟩

/-- A successful `peer_extends_chain` decodes an entry past the peer's tip and appends it. -/
theorem peerExtendsChain_ok {params : StepParams} {s s' : RunState}
    (h : peerExtendsChain params s = .ok s') :
    ∃ id entry body ps, decodeExtension params = .ok (id, entry, body) ∧ s.peers id = some ps ∧
      (∀ tip, ps.chainTipSlot = some tip → tip < entry.slot) ∧
      s' = { s with peers := s.peers.insert id (ps.extend entry body) } := by
  unfold peerExtendsChain at h
  split at h
  · simp at h
  · rename_i peerId entry body hdecode
    split at h
    · simp [bail] at h
    · rename_i ps hps
      dsimp only at h
      split at h
      · rename_i htip
        refine ⟨peerId, entry, body, ps, hdecode, hps, ?_, (Except.ok.inj h).symm⟩
        intro tip ht
        rw [htip] at ht
        simp at ht
      · rename_i tipSlot htip
        split at h
        · simp [bail] at h
        · rename_i hgt
          refine ⟨peerId, entry, body, ps, hdecode, hps, ?_, (Except.ok.inj h).symm⟩
          intro tip ht
          rw [htip] at ht
          rw [← Option.some.inj ht]
          exact UInt64.not_le.mp hgt

/-- A successful `advance_to_slot` sets a later clock and hands the interval over. -/
theorem advanceToSlot_ok {order : List String} {params : StepParams} {s s' : RunState}
    (h : advanceToSlot blake2b order params s = some (.ok s')) :
    ∃ old new, s.currentSlot = some old ∧ params.slot = some new ∧ old < new ∧
      applyLocked blake2b order { s with currentSlot := some new } old new = some s' := by
  unfold advanceToSlot at h
  split at h
  · simp [bail] at h
  · rename_i new hnew
    split at h
    · simp [bail] at h
    · rename_i old hold
      split at h
      · simp [bail] at h
      · rename_i hgt
        obtain ⟨s'', hs, heq⟩ := Option.map_eq_some_iff.mp h
        rw [Except.ok.inj heq] at hs
        exact ⟨old, new, hold, hnew, UInt64.not_le.mp hgt, hs⟩

/-- A successful `tick_slots` adds its count to the clock, modulo `2^64`, and hands the
interval over. -/
theorem tickSlots_ok {order : List String} {params : StepParams} {s s' : RunState}
    (h : tickSlots blake2b order params s = some (.ok s')) :
    ∃ old count, s.currentSlot = some old ∧ params.count = some count ∧
      applyLocked blake2b order { s with currentSlot := some (old + count) } old (old + count) =
        some s' := by
  unfold tickSlots at h
  split at h
  · simp [bail] at h
  · rename_i count hcount
    split at h
    · simp [bail] at h
    · rename_i old hold
      obtain ⟨s'', hs, heq⟩ := Option.map_eq_some_iff.mp h
      rw [Except.ok.inj heq] at hs
      exact ⟨old, count, hold, hcount, hs⟩

theorem peerExtendsChain_step {params : StepParams} {s s' : RunState}
    (h : peerExtendsChain params s = .ok s') :
    NetworkStep blake2b (.peerExtendsChain params) s s' := by
  obtain ⟨id, entry, body, ps, -, hps, htip, heq⟩ := peerExtendsChain_ok h
  exact .extended id ps entry body hps htip heq

theorem advanceToSlot_step {order : List String} {params : StepParams} {s s' : RunState}
    (horder : s.peers.IterOrder order)
    (h : advanceToSlot blake2b order params s = some (.ok s')) :
    NetworkStep blake2b (.advanceToSlot params) s s' := by
  obtain ⟨old, new, hold, hnew, hlt, hs⟩ := advanceToSlot_ok h
  exact .advanced order old new horder hold hs fun hfit =>
    ⟨UInt64.le_of_lt hlt, hfit old new hold hnew hlt⟩

theorem tickSlots_step {order : List String} {params : StepParams} {s s' : RunState}
    (horder : s.peers.IterOrder order)
    (h : tickSlots blake2b order params s = some (.ok s')) :
    NetworkStep blake2b (.tickSlots params) s s' := by
  obtain ⟨old, count, hold, hcount, hs⟩ := tickSlots_ok h
  refine .advanced order old (old + count) horder hold hs fun hfit => ?_
  obtain ⟨hsum, hrules⟩ := hfit old count hold hcount
  refine ⟨?_, hrules⟩
  rw [UInt64.le_iff_toNat_le, UInt64.toNat_add, Nat.mod_eq_of_lt hsum]
  omega

/-- **Everything a segment can do to the network.** -/
theorem Executes.network {a : Segment} {s s' : RunState} {rest : Code Segment}
    (h : Executes blake2b a s s' rest) : NetworkStep blake2b a s s' := by
  have still : s' = s → NetworkStep blake2b a s s' := fun heq => .quiet s.vars heq
  cases a with
  | bookkeeping => exact still h.1
  | substitute step => exact still h.1
  | other =>
      obtain ⟨⟨vars, heq⟩, -⟩ := h
      exact .quiet vars heq
  | peerExtendsChain params =>
      simp only [Executes] at h
      split at h
      · exact still h.1
      · rename_i s'' heq
        rw [h.1]
        exact peerExtendsChain_step heq
  | advanceToSlot params =>
      obtain ⟨order, horder, h⟩ := h
      split at h
      · exact h.elim
      · exact still h.1
      · rename_i s'' heq
        rw [h.1]
        exact advanceToSlot_step horder heq
  | tickSlots params =>
      obtain ⟨order, horder, h⟩ := h
      split at h
      · exact h.elim
      · exact still h.1
      · rename_i s'' heq
        rw [h.1]
        exact tickSlots_step horder heq

/-! ## The invariant -/

/-- Each peer has the rule it was declared with. -/
def SameRules (peers peers' : PeerMap) : Prop :=
  ∀ id, (peers' id).map (·.productionRule) = (peers id).map (·.productionRule)

theorem SameRules.rule {peers peers' : PeerMap} (h : SameRules peers peers') {id : String}
    {ps' : PeerState} {rule : ProductionRule} (hps : peers' id = some ps')
    (hrule : ps'.productionRule = some rule) :
    ∃ ps, peers id = some ps ∧ ps.productionRule = some rule := by
  have hid := h id
  rw [hps, Option.map_some, hrule] at hid
  obtain ⟨ps, hps', heq⟩ := Option.map_eq_some_iff.mp hid.symm
  exact ⟨ps, hps', heq⟩

theorem SameRules.scheduled {peers peers' : PeerMap} (h : SameRules peers peers') {id : String}
    {x : UInt64} : Scheduled peers' id x ↔ Scheduled peers id x := by
  constructor
  · rintro ⟨ps', rule, hps, hrule, hf⟩
    obtain ⟨ps, hps', hrule'⟩ := h.rule hps hrule
    exact ⟨ps, rule, hps', hrule', hf⟩
  · rintro ⟨ps, rule, hps, hrule, hf⟩
    have hsymm : SameRules peers' peers := fun id => (h id).symm
    obtain ⟨ps', hps', hrule'⟩ := hsymm.rule hps hrule
    exact ⟨ps', rule, hps', hrule', hf⟩

theorem SameRules.applied {order : List String} {peers peers' peers'' : PeerMap}
    {old new : UInt64} {events : List ProductionEvent} (h : SameRules peers peers')
    (horder : peers'.IterOrder order)
    (hc : applyProductionRules blake2b order peers' old new = some (peers'', events)) :
    SameRules peers peers'' := by
  intro id
  rw [← h id]
  cases hps : peers' id with
  | none => rw [(applyProductionRules_none horder hc hps).1]
  | some ps =>
      obtain ⟨ps', _, hp, hps', -⟩ := applyProductionRules_peer horder hc hps
      rw [hps', Option.map_some, Option.map_some, producePeer_rule_eq hp]

theorem SameRules.extended {peers peers' : PeerMap} (h : SameRules peers peers') {id : String}
    {ps : PeerState} (hps : peers' id = some ps) (entry : ChainEntry)
    (body : Option (List UInt8)) : SameRules peers (peers'.insert id (ps.extend entry body)) := by
  intro other
  rw [← h other]
  by_cases hid : other = id
  · rw [hid, PeerMap.insert_self, hps]
    rfl
  · rw [PeerMap.insert_ne _ _ hid]

open scoped Classical in
/-- The clock has covered `(start, current]`, and each slot's events are in. -/
def ClockInv (start : UInt64) (peers : PeerMap) (s : RunState) : Prop :=
  SameRules peers s.peers ∧ ∃ current, s.currentSlot = some current ∧
    Consecutive start s.handed current ∧
    ∀ id x, eventCount id x s.events =
      if start < x ∧ x ≤ current ∧ Scheduled peers id x then 1 else 0

theorem clockInv_initial (start : UInt64) (peers : PeerMap) (vars : VarStore) :
    ClockInv start peers (RunState.initial (some start) peers vars) := by
  refine ⟨fun _ => rfl, start, rfl, rfl, fun id x => ?_⟩
  rw [if_neg]
  · rfl
  · rintro ⟨h1, h2, -⟩
    exact UInt64.not_le.mpr h1 h2

open scoped Classical in
/-- **Preserved by every segment** whose sums fit. -/
theorem clockInv_step {start : UInt64} {peers : PeerMap} {a : Segment} {s s' : RunState}
    {rest : Code Segment} (hacc : AllAccepted peers (some start))
    (h : Executes blake2b a s s' rest ∧ NoOverflow a s) (hinv : ClockInv start peers s) :
    ClockInv start peers s' := by
  obtain ⟨hsame, current, hcur, hcons, hcount⟩ := hinv
  cases Executes.network h.1 with
  | quiet vars heq =>
      rw [heq]
      exact ⟨hsame, current, hcur, hcons, hcount⟩
  | extended id ps entry body hps htip heq =>
      rw [heq]
      exact ⟨hsame.extended hps entry body, current, hcur, hcons, hcount⟩
  | advanced order old new horder hold hmoved hforward =>
      obtain ⟨hle, hsums⟩ := hforward h.2
      obtain ⟨⟨peers', events⟩, hc, heq⟩ := Option.map_eq_some_iff.mp hmoved
      rw [hold] at hcur
      obtain rfl := Option.some.inj hcur
      subst heq
      refine ⟨hsame.applied horder hc, new, rfl, hcons.snoc hle, fun id x => ?_⟩
      have hacc' : AllAccepted s.peers (some start) := fun id ps' rule hps hrule => by
        obtain ⟨ps, hps', hrule'⟩ := hsame.rule hps hrule
        exact hacc id ps rule hps' hrule'
      have hstart := hcons.le
      have hone := applyProductionRules_eventCount horder hc hacc' hsums id x
      show eventCount id x (s.events ++ events) = _
      rw [eventCount_append, hcount, hone, hsame.scheduled]
      -- a slot is in the span so far, in the new interval, or in neither
      by_cases hx : x ≤ old
      · have hout : ¬ (old < x ∧ x ≤ new ∧ Scheduled peers id x) := fun h =>
          UInt64.not_le.mpr h.1 hx
        rw [if_neg hout, Nat.add_zero]
        refine if_congr (and_congr_right fun _ => and_congr_left fun _ => ?_) rfl rfl
        exact iff_of_true hx (UInt64.le_trans hx hle)
      · have hout : ¬ (start < x ∧ x ≤ old ∧ Scheduled peers id x) := fun h => hx h.2.1
        have hgt : old < x := UInt64.not_le.mp hx
        rw [if_neg hout, Nat.zero_add]
        refine if_congr (and_congr_left fun _ => ?_) rfl rfl
        exact iff_of_true hgt (UInt64.lt_of_le_of_lt hstart hgt)

/-- A run of a scenario no segment of which overflows. -/
def RunsWithoutOverflow (blake2b : List UInt8 → List UInt8) (steps : List StepDef)
    (s s' : RunState) : Prop :=
  ∃ rest, Reaches (fun a s s' rest => Executes blake2b a s s' rest ∧ NoOverflow a s)
    (runSteps steps, s) (rest, s')

open scoped Classical in
/-- **Exactly-once production under any interleaving.** The intervals handed to
`apply_production_rules` lead from the start slot to the current one without a
gap, so they cover every slot between exactly once, and each peer has one event
for every slot its rule schedules there and none for any other. -/
theorem exactly_once_production {start : UInt64} {peers : PeerMap} {vars : VarStore}
    {steps : List StepDef} {s : RunState} (hacc : AllAccepted peers (some start))
    (h : RunsWithoutOverflow blake2b steps (RunState.initial (some start) peers vars) s) :
    ∃ current, s.currentSlot = some current ∧ Consecutive start s.handed current ∧
      (∀ x, s.handed.countP (fun i => InInterval x i) = if start < x ∧ x ≤ current then 1 else 0) ∧
      ∀ id x, eventCount id x s.events =
        if start < x ∧ x ≤ current ∧ Scheduled peers id x then 1 else 0 := by
  obtain ⟨rest, hreach⟩ := h
  obtain ⟨-, current, hcur, hcons, hcount⟩ :=
    hreach.invariant (fun a s s' rest hs hi => clockInv_step hacc hs hi)
      (clockInv_initial start peers vars)
  exact ⟨current, hcur, hcons, fun x => by rw [hcons.countP_eq], hcount⟩

/-! ## A scenario of one tick -/

/-- `tick_slots` with `count` 7. -/
def tickSeven : StepDef := .tickSlots (.object [("count", .number (.unsigned 7))])

/-- What `tick_slots` reads from it. -/
def tickSevenParams : StepParams := { (default : StepParams) with count := some 7 }

/-- A scenario of one `tick_slots` runs it, whatever else is asked of its segments. -/
theorem oneTick_reaches {Allowed : Segment → RunState → Prop} {order : List String}
    {rawParams resolved : Value} {refs : List (String × String)} {params : StepParams}
    {s s' : RunState} (hsub : substituteInValue rawParams s.vars = .ok (resolved, refs))
    (hparams : StepParams.fromValue resolved = some params) (horder : s.peers.IterOrder order)
    (htick : tickSlots blake2b order params s = some (.ok s'))
    (hbookkeeping : Allowed .bookkeeping s)
    (hsubstitute : Allowed (.substitute (.tickSlots rawParams)) s)
    (hallowed : Allowed (.tickSlots params) s) :
    ∃ rest, Reaches (fun a s s' rest => Executes blake2b a s s' rest ∧ Allowed a s)
      (runSteps [.tickSlots rawParams], s) (rest, s') := by
  let afterTick : Code Segment :=
    .seq (.seq (.seq .done (.act .bookkeeping)) (.act .bookkeeping)) .done
  refine ⟨afterTick, ?_⟩
  refine .head (.seqStep (.seqStep (.act ⟨⟨rfl, Or.inl rfl⟩, hbookkeeping⟩))) ?_
  refine .head (.seqStep .seqDone) ?_
  have hexecute : executeStep (.tickSlots rawParams) resolved =
      .seq (.act (.tickSlots params)) (.act .bookkeeping) := by
    rw [executeStep, hparams]
  have hsubst : Executes blake2b (.substitute (.tickSlots rawParams)) s s
      (.seq (executeStep (.tickSlots rawParams) resolved) (.act .bookkeeping)) := by
    refine ⟨rfl, ?_⟩
    rw [show StepDef.substituted (.tickSlots rawParams) = rawParams from rfl, hsub]
  refine .head (.seqStep (.act ⟨hsubst, hsubstitute⟩)) ?_
  rw [hexecute]
  refine .head (.seqStep (.seqStep (.seqStep (.act (a := Segment.tickSlots params) ?_)))) .refl
  refine ⟨⟨order, horder, ?_⟩, hallowed⟩
  rw [htick]
  exact ⟨rfl, rfl⟩

/-- `tick_slots` by 7 from 0. -/
theorem tickSlots_seven {order : List String} {peers : PeerMap} {s : RunState}
    (hs : applyLocked blake2b order (RunState.initial (some 7) peers fun _ => none) 0 7 = some s) :
    tickSlots blake2b order tickSevenParams (RunState.initial (some 0) peers fun _ => none) =
      some (.ok s) := by
  have h : tickSlots blake2b order tickSevenParams
      (RunState.initial (some 0) peers fun _ => none) = (applyLocked blake2b order
        (RunState.initial (some 7) peers fun _ => none) 0 7).map .ok := rfl
  rw [h, hs]
  rfl

/-- A scenario of that one step reaches what it makes of the clock and the peers. -/
theorem tickSeven_allowed {Allowed : Segment → RunState → Prop} {order : List String}
    {peers : PeerMap} {s : RunState} (horder : peers.IterOrder order)
    (hs : applyLocked blake2b order (RunState.initial (some 7) peers fun _ => none) 0 7 = some s)
    (hbookkeeping : Allowed .bookkeeping (RunState.initial (some 0) peers fun _ => none))
    (hsubstitute : Allowed (.substitute tickSeven) (RunState.initial (some 0) peers fun _ => none))
    (hallowed : Allowed (.tickSlots tickSevenParams)
      (RunState.initial (some 0) peers fun _ => none)) :
    ∃ rest, Reaches (fun a s s' rest => Executes blake2b a s s' rest ∧ Allowed a s)
      (runSteps [tickSeven], RunState.initial (some 0) peers fun _ => none) (rest, s) :=
  oneTick_reaches rfl rfl horder (tickSlots_seven hs) hbookkeeping hsubstitute hallowed

/-- A scenario of that one step moves the clock from 0 to 7. -/
theorem tickSeven_runs {order : List String} {peers : PeerMap} {s : RunState}
    (horder : peers.IterOrder order)
    (hs : applyLocked blake2b order (RunState.initial (some 7) peers fun _ => none) 0 7 = some s)
    (hfit : RuleSumsFit peers 0 7) :
    RunsWithoutOverflow blake2b [tickSeven] (RunState.initial (some 0) peers fun _ => none) s := by
  refine tickSeven_allowed horder hs trivial trivial ?_
  intro old count hold hcount
  obtain rfl := Option.some.inj hold
  obtain rfl := Option.some.inj hcount
  exact ⟨by decide, hfit⟩

end

theorem oneSlotPeers_sumsFit : RuleSumsFit oneSlotPeers 0 7 := fun id ps rule hps hrule _ =>
  ⟨by decide, fun hle => ruleFits_of_room hle ((oneSlotPeers_sound 7).room id ps rule hps hrule)⟩

/-- The tick of a peer that produces at slot 5. -/
theorem oneSlotPeers_run : ∃ s, applyLocked (fun _ => slotFiveDigest) ["p"]
      (RunState.initial (some 7) oneSlotPeers fun _ => none) 0 7 = some s ∧
    s.currentSlot = some 7 ∧ RunsWithoutOverflow (fun _ => slotFiveDigest) [tickSeven]
      (RunState.initial (some 0) oneSlotPeers fun _ => none) s := by
  obtain ⟨s, hs⟩ := Option.isSome_iff_exists.mp (show (applyLocked (fun _ => slotFiveDigest) ["p"]
    (RunState.initial (some 7) oneSlotPeers fun _ => none) 0 7).isSome by rfl)
  refine ⟨s, hs, ?_, tickSeven_runs oneSlotPeers_iterOrder hs oneSlotPeers_sumsFit⟩
  obtain ⟨r, -, rfl⟩ := Option.map_eq_some_iff.mp hs
  rfl

open scoped Classical in
theorem exactly_once_production_tickSeven : ∃ s : RunState, s.currentSlot = some 7 ∧
    ∃ current, s.currentSlot = some current ∧ Consecutive (0 : UInt64) s.handed current ∧
      (∀ x, s.handed.countP (fun i => InInterval x i) = if 0 < x ∧ x ≤ current then 1 else 0) ∧
      ∀ id x, eventCount id x s.events =
        if 0 < x ∧ x ≤ current ∧ Scheduled oneSlotPeers id x then 1 else 0 := by
  obtain ⟨s, -, hslot, hruns⟩ := oneSlotPeers_run
  have hacc : AllAccepted oneSlotPeers (some 0) := by
    intro id ps rule hps hrule pos
    rw [oneSlotPeers_rule hps hrule]
    rfl
  exact ⟨s, hslot, exactly_once_production hacc hruns⟩

end ConformanceHarness.Proof
