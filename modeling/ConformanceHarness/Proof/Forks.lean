import ConformanceHarness.Proof.AuditTrail

/-!
# Peers that fork

Two peers whose `forked_from_slot` rules differ in the marker only produce at the same slots. Up
to the fork slot both hash the timing of the rule in place of an id, so as long as their chains
agree the next blocks agree; from the fork slot on each hashes its own marker. A block's hash
covers the hash before it, so both facts are carried along the chain, entry by entry.

The two peers may be declared in one network or in two: all that matters is that the same
intervals are handed to `apply_production_rules`.
-/

namespace ConformanceHarness.Proof

open ConformanceHarness Lib

section

variable {blake2b : List UInt8 → List UInt8}

/-! ## One peer, along a run -/

variable (blake2b) in
/-- What calls over `intervals`, one after the other, do to one peer. -/
def advancePeer (id : String) : PeerState → List (UInt64 × UInt64) →
    Option (PeerState × List ProductionEvent)
  | ps, [] => some (ps, [])
  | ps, (old, new) :: rest =>
    match producePeer blake2b old new id ps with
    | none => none
    | some (ps₁, events₁) =>
      (advancePeer id ps₁ rest).map fun (ps₂, events₂) => (ps₂, events₁ ++ events₂)

theorem advancePeer_cons {id : String} {ps ps' : PeerState} {old new : UInt64}
    {rest : List (UInt64 × UInt64)} {events : List ProductionEvent}
    (h : advancePeer blake2b id ps ((old, new) :: rest) = some (ps', events)) :
    ∃ ps₁ events₁ events₂, producePeer blake2b old new id ps = some (ps₁, events₁) ∧
      advancePeer blake2b id ps₁ rest = some (ps', events₂) ∧ events = events₁ ++ events₂ := by
  rw [advancePeer] at h
  split at h
  · exact nomatch h
  · rename_i ps₁ events₁ hp
    obtain ⟨⟨ps₂, events₂⟩, hrest, heq⟩ := Option.map_eq_some_iff.mp h
    obtain ⟨rfl, rfl⟩ := Prod.mk.inj heq
    exact ⟨ps₁, events₁, events₂, hp, hrest, rfl⟩

theorem advancePeer_snoc {id : String} {ps ps₁ ps₂ : PeerState} {old new : UInt64}
    {intervals : List (UInt64 × UInt64)} {events₁ events₂ : List ProductionEvent}
    (h : advancePeer blake2b id ps intervals = some (ps₁, events₁))
    (hp : producePeer blake2b old new id ps₁ = some (ps₂, events₂)) :
    advancePeer blake2b id ps (intervals ++ [(old, new)]) = some (ps₂, events₁ ++ events₂) := by
  induction intervals generalizing ps events₁ with
  | nil =>
      obtain ⟨rfl, rfl⟩ := Prod.mk.inj (Option.some.inj h)
      rw [List.nil_append, advancePeer, hp]
      simp [advancePeer]
  | cons interval rest ih =>
      obtain ⟨old₀, new₀⟩ := interval
      obtain ⟨ps₀, events₀, events, hp₀, hrest, rfl⟩ := advancePeer_cons h
      rw [List.cons_append, advancePeer, hp₀]
      simp only [ih hrest, Option.map_some, List.append_assoc]

/-- The segment does not extend the chain of peer `id` explicitly. -/
def NotExtended (id : String) (a : Segment) (s : RunState) : Prop :=
  ∀ params s', a = .peerExtendsChain params → peerExtendsChain params s = .ok s' →
    s'.peers id = s.peers id

variable (blake2b) in
/-- A segment of a run in which peer `id` is extended by time advances only. -/
abbrev ExecutesAdvancing (id : String) (a : Segment) (s s' : RunState) (rest : Code Segment) :
    Prop :=
  Executes blake2b a s s' rest ∧ NotExtended id a s

/-- **A segment writes variables, extends one chain or moves the clock.** -/
theorem Executes.cases {a : Segment} {s s' : RunState} {rest : Code Segment}
    (h : Executes blake2b a s s' rest) :
    (∃ vars, s' = { s with vars }) ∨
    (∃ params other entry body ps, a = .peerExtendsChain params ∧
      peerExtendsChain params s = .ok s' ∧ decodeExtension params = .ok (other, entry, body) ∧
      s.peers other = some ps ∧
      s' = { s with peers := s.peers.insert other (ps.extend entry body) }) ∨
    ∃ order old new, s.peers.IterOrder order ∧
      applyLocked blake2b order { s with currentSlot := some new } old new = some s' := by
  have still : s' = s → ∃ vars, s' = { s with vars } := fun heq => ⟨s.vars, heq⟩
  cases a with
  | bookkeeping => exact Or.inl (still h.1)
  | substitute step => exact Or.inl (still h.1)
  | other => exact Or.inl h.1
  | peerExtendsChain params =>
      simp only [Executes] at h
      split at h
      · exact Or.inl (still h.1)
      · rename_i s'' hok
        rw [h.1]
        obtain ⟨other, entry, body, ps, hdecode, hps, -, heq⟩ := peerExtendsChain_ok hok
        exact Or.inr (Or.inl ⟨params, other, entry, body, ps, rfl, hok, hdecode, hps, heq⟩)
  | advanceToSlot params =>
      obtain ⟨order, horder, h⟩ := h
      split at h
      · exact h.elim
      · exact Or.inl (still h.1)
      · rename_i s'' hok
        obtain ⟨old, new, -, -, -, hs⟩ := advanceToSlot_ok hok
        rw [h.1]
        exact Or.inr (Or.inr ⟨order, old, new, horder, hs⟩)
  | tickSlots params =>
      obtain ⟨order, horder, h⟩ := h
      split at h
      · exact h.elim
      · exact Or.inl (still h.1)
      · rename_i s'' hok
        obtain ⟨old, count, -, -, hs⟩ := tickSlots_ok hok
        rw [h.1]
        exact Or.inr (Or.inr ⟨order, old, old + count, horder, hs⟩)

/-- Such a segment is a time advance, or leaves the peer alone. -/
theorem ExecutesAdvancing.cases {id : String} {a : Segment} {s s' : RunState} {rest : Code Segment}
    (h : ExecutesAdvancing blake2b id a s s' rest) :
    (s'.peers id = s.peers id ∧ s'.handed = s.handed ∧ s'.events = s.events) ∨
      ∃ order old new, s.peers.IterOrder order ∧
        applyLocked blake2b order { s with currentSlot := some new } old new = some s' := by
  obtain ⟨hexec, hnot⟩ := h
  rcases Executes.cases hexec with ⟨vars, heq⟩ | ⟨params, _, entry, body, ps, ha, hok, -, -, heq⟩ |
    hmoved
  · rw [heq]
    exact Or.inl ⟨rfl, rfl, rfl⟩
  · have hpeer := hnot params s' ha hok
    refine Or.inl ⟨hpeer, ?_, ?_⟩ <;> rw [heq]
  · exact Or.inr hmoved

/-- The peer is what the calls made so far made of it. -/
def AdvancedTo (blake2b : List UInt8 → List UInt8) (id : String) (ps : PeerState) (s : RunState) :
    Prop :=
  ∃ ps', s.peers id = some ps' ∧
    advancePeer blake2b id ps s.handed = some (ps', eventsOf id s.events)

/-- **A run without explicit extensions is a sequence of calls**, for the peer. -/
theorem reaches_advancedTo {id : String} {ps : PeerState} {start : Option UInt64}
    {peers : PeerMap} {vars : VarStore} {steps : List StepDef} {c : Code Segment} {s : RunState}
    (h : Reaches (ExecutesAdvancing blake2b id) (runSteps steps, .initial start peers vars) (c, s))
    (hps : peers id = some ps) : AdvancedTo blake2b id ps s := by
  have hstep : ∀ a t t' rest, ExecutesAdvancing blake2b id a t t' rest →
      AdvancedTo blake2b id ps t → AdvancedTo blake2b id ps t' := by
    intro a t t' rest hexec hinv
    obtain ⟨ps₁, hps₁, hadv⟩ := hinv
    rcases hexec.cases with ⟨hpeers, hhanded, hevents⟩ | ⟨order, old, new, horder, hmoved⟩
    · exact ⟨ps₁, by rw [hpeers, hps₁], by rw [hhanded, hevents, hadv]⟩
    · obtain ⟨⟨peers', events⟩, hc, rfl⟩ := Option.map_eq_some_iff.mp hmoved
      obtain ⟨ps₂, evs, hp, hps₂, hevs⟩ := applyProductionRules_peer horder hc hps₁
      refine ⟨ps₂, hps₂, ?_⟩
      have hsnoc := advancePeer_snoc hadv hp
      rw [← hevs, ← eventsOf_append] at hsnoc
      exact hsnoc
  exact h.invariant hstep ⟨ps, hps, rfl⟩

/-! ## A forked peer -/

/-- `canonical_root`. -/
def canonicalRoot (firstSlot interval forkSlot : UInt64) : String :=
  s!"{firstSlot}:{interval}:{forkSlot}"

/-- The context of a `forked_from_slot` rule. -/
def forkContext (firstSlot interval forkSlot : UInt64) (forkMarker : String) : RuleContext :=
  .forked forkSlot forkMarker (canonicalRoot firstSlot interval forkSlot)

/-- A peer with a schedule runs the inner loop over the slots its timing gives. -/
theorem producePeer_timed {old new : UInt64} {rule : ProductionRule} {t : UInt64 × UInt64}
    {ctx : RuleContext} {id : String} {ps ps' : PeerState} {events : List ProductionEvent}
    (hrule : ps.productionRule = some rule) (ht : timing? rule = some t)
    (hctx : ruleContext rule = some ctx)
    (h : producePeer blake2b old new id ps = some (ps', events)) :
    ∃ slots, rule.slotsInRange (old + 1) new = some slots ∧
      (ps', events) = produceSlots blake2b id rule.kindStr ctx ps slots := by
  rcases producePeer_spec h with ⟨hidle, -, -⟩ | ⟨rule', slots, ctx', hr, -, hslots, hctx', heq⟩
  · rw [hrule] at hidle
    rcases hidle with hidle | hidle
    · exact nomatch hidle
    · obtain rfl := Option.some.inj hidle
      exact nomatch ht
  · rw [hrule] at hr
    obtain rfl := Option.some.inj hr
    refine ⟨slots, hslots, ?_⟩
    rw [heq]
    cases slots with
    | nil => rfl
    | cons slot rest =>
        have hsame := hctx' (List.cons_ne_nil slot rest)
        rw [hctx] at hsame
        rw [Option.some.inj hsame]

theorem producePeer_forked {old new first interval fork : UInt64} {marker id : String}
    {ps ps' : PeerState} {events : List ProductionEvent}
    (hrule : ps.productionRule = some (.forkedFromSlot first interval fork marker))
    (h : producePeer blake2b old new id ps = some (ps', events)) :
    ∃ slots, (ProductionRule.forkedFromSlot first interval fork marker).slotsInRange (old + 1) new =
        some slots ∧
      (ps', events) = produceSlots blake2b id "forked_from_slot"
        (forkContext first interval fork marker) ps slots :=
  producePeer_timed hrule rfl rfl h

/-! ## Blocks and defects -/

/-- The defect a forked peer's block at `slot` carries. -/
def forkDefect (fork slot : UInt64) : Option String :=
  if slot < fork then none else some "fork_divergence"

theorem hashInputs_fork {first interval fork slot : UInt64} {marker id : String}
    {prev : List UInt8} :
    hashInputs (forkContext first interval fork marker) id slot prev =
      if slot < fork then (canonicalRoot first interval fork, prev, none)
      else ("\x00" ++ marker, prev, some "fork_divergence") := rfl

theorem hashInputs_forkDefect {first interval fork slot : UInt64} {marker id : String}
    {prev : List UInt8} :
    (hashInputs (forkContext first interval fork marker) id slot prev).2.2 =
      forkDefect fork slot := by
  rw [hashInputs_fork, forkDefect]
  split <;> rfl

/-- The event reports the block, and the defect of its slot. -/
def ReportsFork (fork : UInt64) (event : ProductionEvent) (e : ChainEntry) : Prop :=
  Reports event e ∧ event.defectKind = forkDefect fork e.slot

/-- `events` tell how `ps` became `ps'`, block by block. -/
def ForkTrail (fork : UInt64) (ps ps' : PeerState) (events : List ProductionEvent) : Prop :=
  ∃ entries, ps'.chainEntries = ps.chainEntries ++ entries ∧
    List.Forall₂ (ReportsFork fork) (notSkipped events) entries

theorem ForkTrail.refl (fork : UInt64) (ps : PeerState) : ForkTrail fork ps ps [] :=
  ⟨[], (List.append_nil _).symm, .nil⟩

theorem ForkTrail.trans {fork : UInt64} {ps ps₁ ps₂ : PeerState}
    {events₁ events₂ : List ProductionEvent} (h : ForkTrail fork ps ps₁ events₁)
    (h' : ForkTrail fork ps₁ ps₂ events₂) : ForkTrail fork ps ps₂ (events₁ ++ events₂) := by
  obtain ⟨entries₁, hchain₁, hreported₁⟩ := h
  obtain ⟨entries₂, hchain₂, hreported₂⟩ := h'
  refine ⟨entries₁ ++ entries₂, by rw [hchain₂, hchain₁, List.append_assoc], ?_⟩
  rw [notSkipped, List.filter_append]
  exact List.rel_append hreported₁ hreported₂

section

variable {first interval fork : UInt64} {marker id kind : String}

theorem forkTrail_slot (ps : PeerState) (slot : UInt64) :
    ForkTrail fork ps
      (produceSlot blake2b id kind (forkContext first interval fork marker) ps slot).1
      [(produceSlot blake2b id kind (forkContext first interval fork marker) ps slot).2] := by
  unfold produceSlot
  split
  · exact ⟨[], (List.append_nil _).symm, .nil⟩
  · exact ⟨[_], rfl, .cons ⟨⟨rfl, rfl, rfl⟩, hashInputs_forkDefect⟩ .nil⟩

theorem forkTrail_slots (ps : PeerState) (slots : List UInt64) :
    ForkTrail fork ps
      (produceSlots blake2b id kind (forkContext first interval fork marker) ps slots).1
      (produceSlots blake2b id kind (forkContext first interval fork marker) ps slots).2 := by
  induction slots generalizing ps with
  | nil => exact .refl fork ps
  | cons slot rest ih =>
      rw [produceSlots_cons]
      exact (forkTrail_slot ps slot).trans (ih _)

/-! ## What is hashed -/

/-- The bytes `synthetic_hash` feeds to Blake2b for a block at `slot` on top of `chain`. -/
def hashedBytes (ctx : RuleContext) (id : String) (chain : List ChainEntry) (slot : UInt64) :
    List UInt8 :=
  let prev := (chain.getLast?.map (·.blockHash)).getD zeroHash
  let inputs := hashInputs ctx id slot prev
  hashInput inputs.1 slot inputs.2.1

/-- Every block of the chain has the hash of these bytes. -/
def HashedAlong (blake2b : List UInt8 → List UInt8) (ctx : RuleContext) (id : String)
    (chain : List ChainEntry) : Prop :=
  ∀ before e after, chain = before ++ e :: after →
    e.blockHash = blake2b (hashedBytes ctx id before e.slot)

theorem HashedAlong.nil {ctx : RuleContext} : HashedAlong blake2b ctx id [] := by
  intro before e after h
  simp at h

theorem HashedAlong.snoc {ctx : RuleContext} {chain : List ChainEntry} {entry : ChainEntry}
    (h : HashedAlong blake2b ctx id chain)
    (hentry : entry.blockHash = blake2b (hashedBytes ctx id chain entry.slot)) :
    HashedAlong blake2b ctx id (chain ++ [entry]) := by
  intro before e after heq
  rcases List.eq_nil_or_concat' after with rfl | ⟨init, last, rfl⟩
  · -- the new block
    obtain ⟨rfl, hlast⟩ := List.append_inj' heq rfl
    obtain rfl := (List.cons.inj hlast).1
    exact hentry
  · rw [← List.cons_append, ← List.append_assoc] at heq
    exact h before e init (List.append_inj' heq rfl).1

theorem HashedAlong.slot {ctx : RuleContext} {ps : PeerState} (slot : UInt64)
    (h : HashedAlong blake2b ctx id ps.chainEntries) :
    HashedAlong blake2b ctx id (produceSlot blake2b id kind ctx ps slot).1.chainEntries := by
  unfold produceSlot
  split
  · exact h
  · exact h.snoc rfl

theorem HashedAlong.slots {ctx : RuleContext} {ps : PeerState} (slots : List UInt64)
    (h : HashedAlong blake2b ctx id ps.chainEntries) :
    HashedAlong blake2b ctx id (produceSlots blake2b id kind ctx ps slots).1.chainEntries := by
  induction slots generalizing ps with
  | nil => exact h
  | cons slot rest ih =>
      rw [produceSlots_cons]
      exact ih (h.slot slot)

end

/-! ## Two forked peers -/

/-- Two blocks at one place of two forks: one header, and one hash before the fork slot. -/
def Forked (fork : UInt64) (e e' : ChainEntry) : Prop :=
  servedPart e = servedPart e' ∧ (e.slot < fork → e.blockHash = e'.blockHash)

/-- The chains agree block by block, but for the hashes from the fork slot on. -/
def ForkedChains (fork : UInt64) (ps qs : PeerState) : Prop :=
  List.Forall₂ (Forked fork) ps.chainEntries qs.chainEntries

theorem forkedChains_of_eq {ps qs : PeerState} (fork : UInt64)
    (h : ps.chainEntries = qs.chainEntries) : ForkedChains fork ps qs := by
  rw [ForkedChains, h]
  exact List.forall₂_same.mpr fun e _ => ⟨rfl, fun _ => rfl⟩

/-- Related lists end in related elements. -/
theorem forall₂_getLast? {α β : Type} {R : α → β → Prop} {l : List α} {l' : List β}
    (h : List.Forall₂ R l l') :
    (l.getLast? = none ∧ l'.getLast? = none) ∨
      ∃ a b, l.getLast? = some a ∧ l'.getLast? = some b ∧ R a b := by
  have hreverse := List.forall₂_reverse_iff.mpr h
  rw [← List.head?_reverse, ← List.head?_reverse]
  generalize l.reverse = m, l'.reverse = m' at hreverse
  cases hreverse with
  | nil => exact Or.inl ⟨rfl, rfl⟩
  | cons hhead _ => exact Or.inr ⟨_, _, rfl, rfl, hhead⟩

section

variable {fork : UInt64} {ps qs : PeerState}

theorem map_servedPart_of_forked {l l' : List ChainEntry} (h : List.Forall₂ (Forked fork) l l') :
    l.map servedPart = l'.map servedPart := by
  induction h with
  | nil => rfl
  | cons hentry _ ih => rw [List.map_cons, List.map_cons, hentry.1, ih]

theorem ForkedChains.sameHeaders (h : ForkedChains fork ps qs) : SameHeaders ps qs :=
  map_servedPart_of_forked h

/-- Before the fork slot both build on one block. -/
theorem ForkedChains.actualPrev {slot : UInt64} (h : ForkedChains fork ps qs)
    (hcovers : ¬ ps.covers slot = true) (hslot : slot < fork) : ps.actualPrev = qs.actualPrev := by
  unfold PeerState.actualPrev
  rcases forall₂_getLast? h with ⟨hps, hqs⟩ | ⟨e, e', hps, hqs, -, hhash⟩
  · rw [hps, hqs]
  · -- the tip lies below the slot, so below the fork slot
    have htip : e.slot < slot := by
      refine UInt64.not_le.mp fun hle => hcovers ?_
      exact covers_iff.mpr ⟨e, hps, hle⟩
    rw [hps, hqs, Option.map_some, Option.map_some, hhash (UInt64.lt_trans htip hslot)]

section

variable {first interval : UInt64} {marker marker' id id' kind kind' : String}

/-- Before the fork slot two contexts have one name and one previous hash hashed. -/
def AgreeBefore (fork : UInt64) (ctx ctx' : RuleContext) (id id' : String) : Prop :=
  ∀ slot prev, slot < fork → (hashInputs ctx id slot prev).1 = (hashInputs ctx' id' slot prev).1 ∧
    (hashInputs ctx id slot prev).2.1 = (hashInputs ctx' id' slot prev).2.1

theorem agreeBefore_fork : AgreeBefore fork (forkContext first interval fork marker)
    (forkContext first interval fork marker') id id' := by
  -- both hash the canonical root
  intro slot prev hslot
  rw [hashInputs_fork, hashInputs_fork, if_pos hslot, if_pos hslot]
  exact ⟨rfl, rfl⟩

variable {ctx ctx' : RuleContext}

theorem ForkedChains.slot (hagree : AgreeBefore fork ctx ctx' id id') (slot : UInt64)
    (h : ForkedChains fork ps qs) :
    ForkedChains fork (produceSlot blake2b id kind ctx ps slot).1
      (produceSlot blake2b id' kind' ctx' qs slot).1 := by
  have hnumber := h.sameHeaders.nextBlockNumber
  unfold produceSlot
  rw [← h.sameHeaders.covers slot]
  by_cases hcovers : ps.covers slot = true
  · rw [if_pos hcovers, if_pos hcovers]
    exact h
  · rw [if_neg hcovers, if_neg hcovers]
    refine List.rel_append h (.cons ⟨?_, fun hslot => ?_⟩ .nil)
    · simp only [servedPart, producedEntry, hnumber]
    · obtain ⟨hname, hprev⟩ := hagree slot qs.actualPrev hslot
      simp only [producedEntry, h.actualPrev hcovers hslot, hname, hprev]

theorem ForkedChains.slots (hagree : AgreeBefore fork ctx ctx' id id') (slots : List UInt64)
    (h : ForkedChains fork ps qs) :
    ForkedChains fork (produceSlots blake2b id kind ctx ps slots).1
      (produceSlots blake2b id' kind' ctx' qs slots).1 := by
  induction slots generalizing ps qs with
  | nil => exact h
  | cons slot rest ih =>
      rw [produceSlots_cons, produceSlots_cons]
      exact ih (h.slot hagree slot)

end

/-! ## Along a run -/

variable {first interval : UInt64} {marker marker' id id' : String} {ps' qs' : PeerState}
  {intervals : List (UInt64 × UInt64)} {events events' : List ProductionEvent}

theorem advancePeer_forkTrail
    (hrule : ps.productionRule = some (.forkedFromSlot first interval fork marker))
    (h : advancePeer blake2b id ps intervals = some (ps', events)) :
    ForkTrail fork ps ps' events := by
  induction intervals generalizing ps events with
  | nil =>
      obtain ⟨rfl, rfl⟩ := Prod.mk.inj (Option.some.inj h)
      exact .refl fork ps
  | cons interval rest ih =>
      obtain ⟨ps₁, events₁, events₂, hp, hrest, rfl⟩ := advancePeer_cons h
      obtain ⟨slots, -, heq⟩ := producePeer_forked hrule hp
      have hfirst : ForkTrail fork ps ps₁ events₁ := by
        rw [(Prod.mk.inj heq).1, (Prod.mk.inj heq).2]
        exact forkTrail_slots ps slots
      exact hfirst.trans (ih (by rw [producePeer_rule_eq hp, hrule]) hrest)

theorem advancePeer_hashedAlong
    (hrule : ps.productionRule = some (.forkedFromSlot first interval fork marker))
    (h : advancePeer blake2b id ps intervals = some (ps', events))
    (hhashed : HashedAlong blake2b (forkContext first interval fork marker) id ps.chainEntries) :
    HashedAlong blake2b (forkContext first interval fork marker) id ps'.chainEntries := by
  induction intervals generalizing ps events with
  | nil =>
      obtain ⟨rfl, rfl⟩ := Prod.mk.inj (Option.some.inj h)
      exact hhashed
  | cons interval rest ih =>
      obtain ⟨ps₁, events₁, events₂, hp, hrest, rfl⟩ := advancePeer_cons h
      obtain ⟨slots, -, heq⟩ := producePeer_forked hrule hp
      refine ih (by rw [producePeer_rule_eq hp, hrule]) hrest ?_
      rw [(Prod.mk.inj heq).1]
      exact hhashed.slots slots

/-- **Peers with one timing whose contexts agree before the fork slot** have chains that agree
before it, and headers that agree throughout. -/
theorem advancePeer_forkedChains {rule rule' : ProductionRule} {t : UInt64 × UInt64}
    {ctx ctx' : RuleContext} (hrule : ps.productionRule = some rule)
    (hrule' : qs.productionRule = some rule') (ht : timing? rule = some t)
    (ht' : timing? rule' = some t) (hctx : ruleContext rule = some ctx)
    (hctx' : ruleContext rule' = some ctx') (hagree : AgreeBefore fork ctx ctx' id id')
    (h : advancePeer blake2b id ps intervals = some (ps', events))
    (h' : advancePeer blake2b id' qs intervals = some (qs', events'))
    (hforked : ForkedChains fork ps qs) : ForkedChains fork ps' qs' := by
  induction intervals generalizing ps qs events events' with
  | nil =>
      obtain ⟨rfl, -⟩ := Prod.mk.inj (Option.some.inj h)
      obtain ⟨rfl, -⟩ := Prod.mk.inj (Option.some.inj h')
      exact hforked
  | cons head rest ih =>
      obtain ⟨ps₁, events₁, _, hp, hrest, -⟩ := advancePeer_cons h
      obtain ⟨qs₁, events₁', _, hq, hrest', -⟩ := advancePeer_cons h'
      obtain ⟨slots, hslots, heq⟩ := producePeer_timed hrule ht hctx hp
      obtain ⟨slots', hslots', heq'⟩ := producePeer_timed hrule' ht' hctx' hq
      rw [slotsInRange_of_timing ht ht', hslots'] at hslots
      obtain rfl := Option.some.inj hslots
      refine ih (by rw [producePeer_rule_eq hp, hrule]) (by rw [producePeer_rule_eq hq, hrule'])
        hrest hrest' ?_
      rw [(Prod.mk.inj heq).1, (Prod.mk.inj heq').1]
      exact hforked.slots hagree slots'

/-! ## The hash inputs differ -/

theorem hashInput_marker_ne {slot : UInt64} {prev prev' : List UInt8} (hmarker : marker ≠ marker')
    (hlen : prev.length = prev'.length) :
    hashInput ("\x00" ++ marker) slot prev ≠ hashInput ("\x00" ++ marker') slot prev' := by
  intro heq
  -- what follows the marker has one length, so the markers end at one place
  have hids := (List.append_inj' (List.append_inj' heq hlen).1 rfl).1
  rw [strBytes_append, strBytes_append] at hids
  exact hmarker (strBytes_inj (List.append_cancel_left hids))

/-- On top of a hashed chain the previous hash is 32 bytes long. -/
theorem HashedAlong.prev_length {ctx : RuleContext} {before after : List ChainEntry}
    (hlen : ∀ input, (blake2b input).length = 32)
    (h : HashedAlong blake2b ctx id (before ++ after)) :
    ((before.getLast?.map (·.blockHash)).getD zeroHash).length = 32 := by
  rcases List.eq_nil_or_concat' before with rfl | ⟨init, last, rfl⟩
  · exact List.length_replicate
  · rw [List.append_assoc] at h
    rw [List.getLast?_concat, Option.map_some, Option.getD_some, h init last after rfl]
    exact hlen _

end

section

variable {first interval fork : UInt64} {marker marker' : String} {i j : String}
  {start start' : Option UInt64} {peers peers' : PeerMap} {vars vars' : VarStore}
  {steps steps' : List StepDef} {c c' : Code Segment} {s s' : RunState} {ps qs : PeerState}

/-- **Forks share their history.** Two peers, in one run or in two with the same time advances,
that start from one chain and whose rules differ in the marker only: their chains agree block by
block, before the fork slot in the hash too, where no block carries a defect. -/
theorem forks_share_history
    (h : Reaches (ExecutesAdvancing blake2b i) (runSteps steps, .initial start peers vars) (c, s))
    (h' : Reaches (ExecutesAdvancing blake2b j)
      (runSteps steps', .initial start' peers' vars') (c', s'))
    (hsame : s.handed = s'.handed) (hps : peers i = some ps) (hqs : peers' j = some qs)
    (hrule : ps.productionRule = some (.forkedFromSlot first interval fork marker))
    (hrule' : qs.productionRule = some (.forkedFromSlot first interval fork marker'))
    (hchain : ps.chainEntries = qs.chainEntries) :
    ∃ ps' qs', s.peers i = some ps' ∧ s'.peers j = some qs' ∧
      ps'.chainEntries.length = qs'.chainEntries.length ∧
      List.Forall₂ (Forked fork) ps'.chainEntries qs'.chainEntries ∧
      (∃ entries, ps'.chainEntries = ps.chainEntries ++ entries ∧
        List.Forall₂ (ReportsFork fork) (notSkipped (eventsOf i s.events)) entries) ∧
      ∃ entries, qs'.chainEntries = qs.chainEntries ++ entries ∧
        List.Forall₂ (ReportsFork fork) (notSkipped (eventsOf j s'.events)) entries := by
  obtain ⟨ps', hps', hadv⟩ := reaches_advancedTo h hps
  obtain ⟨qs', hqs', hadv'⟩ := reaches_advancedTo h' hqs
  have htrail := advancePeer_forkTrail hrule hadv
  have htrail' := advancePeer_forkTrail hrule' hadv'
  rw [← hsame] at hadv'
  have hforked : ForkedChains fork ps' qs' :=
    advancePeer_forkedChains hrule hrule' rfl rfl rfl rfl agreeBefore_fork hadv hadv'
      (forkedChains_of_eq fork hchain)
  exact ⟨ps', qs', hps', hqs', List.Forall₂.length_eq hforked, hforked, htrail, htrail'⟩

/-- **Forks really diverge.** Two such peers with different markers that start from empty chains:
from the fork slot on what is hashed for a block of the one and for the block of the other at the
same slot is different, and the blocks carry `fork_divergence`. Of Blake2b-256 only the length of
its digests matters. -/
theorem forks_diverge (hlen : ∀ input, (blake2b input).length = 32)
    (h : Reaches (ExecutesAdvancing blake2b i) (runSteps steps, .initial start peers vars) (c, s))
    (h' : Reaches (ExecutesAdvancing blake2b j)
      (runSteps steps', .initial start' peers' vars') (c', s'))
    (hsame : s.handed = s'.handed) (hps : peers i = some ps) (hqs : peers' j = some qs)
    (hrule : ps.productionRule = some (.forkedFromSlot first interval fork marker))
    (hrule' : qs.productionRule = some (.forkedFromSlot first interval fork marker'))
    (hmarker : marker ≠ marker') (hempty : ps.chainEntries = []) (hempty' : qs.chainEntries = []) :
    ∃ ps' qs', s.peers i = some ps' ∧ s'.peers j = some qs' ∧
      ps'.chainEntries.map (·.slot) = qs'.chainEntries.map (·.slot) ∧
      (∀ before e after before' e' after', ps'.chainEntries = before ++ e :: after →
        qs'.chainEntries = before' ++ e' :: after' → e.slot = e'.slot → fork ≤ e.slot →
        e.blockHash = blake2b
          (hashedBytes (forkContext first interval fork marker) i before e.slot) ∧
        e'.blockHash =
          blake2b (hashedBytes (forkContext first interval fork marker') j before' e'.slot) ∧
        hashedBytes (forkContext first interval fork marker) i before e.slot ≠
          hashedBytes (forkContext first interval fork marker') j before' e'.slot) ∧
      List.Forall₂ (ReportsFork fork) (notSkipped (eventsOf i s.events)) ps'.chainEntries ∧
      List.Forall₂ (ReportsFork fork) (notSkipped (eventsOf j s'.events)) qs'.chainEntries := by
  obtain ⟨ps', hps', hadv⟩ := reaches_advancedTo h hps
  obtain ⟨qs', hqs', hadv'⟩ := reaches_advancedTo h' hqs
  obtain ⟨entries, hentries, htrail⟩ := advancePeer_forkTrail hrule hadv
  obtain ⟨entries', hentries', htrail'⟩ := advancePeer_forkTrail hrule' hadv'
  have hhashed := advancePeer_hashedAlong hrule hadv (by rw [hempty]; exact .nil)
  have hhashed' := advancePeer_hashedAlong hrule' hadv' (by rw [hempty']; exact .nil)
  rw [← hsame] at hadv'
  have hforked := advancePeer_forkedChains hrule hrule' rfl rfl rfl rfl agreeBefore_fork hadv hadv'
    (forkedChains_of_eq fork (hempty.trans hempty'.symm))
  have hslots := congrArg (List.map Prod.fst) hforked.sameHeaders
  rw [List.map_map, List.map_map] at hslots
  rw [hempty, List.nil_append] at hentries
  rw [hempty', List.nil_append] at hentries'
  refine ⟨ps', qs', hps', hqs', hslots, ?_, by rw [hentries]; exact htrail,
    by rw [hentries']; exact htrail'⟩
  intro before e after before' e' after' hsplit hsplit' hslot hfork
  refine ⟨hhashed before e after hsplit, hhashed' before' e' after' hsplit', ?_⟩
  rw [hsplit] at hhashed
  rw [hsplit'] at hhashed'
  have hprev := hhashed.prev_length hlen
  have hprev' := hhashed'.prev_length hlen
  have hnot : ¬ e'.slot < fork := UInt64.not_lt.mpr (hslot ▸ hfork)
  simp only [hashedBytes, hslot, hashInputs_fork, if_neg hnot]
  exact hashInput_marker_ne hmarker (hprev.trans hprev'.symm)

end
end

/-! ## Two forked peers, and a tick by 7 -/

theorem tickSeven_advancing {blake2b : List UInt8 → List UInt8} {order : List String}
    {peers : PeerMap} {s : RunState} (horder : peers.IterOrder order)
    (hs : applyLocked blake2b order (RunState.initial (some 7) peers fun _ => none) 0 7 = some s)
    (id : String) :
    ∃ c, Reaches (ExecutesAdvancing blake2b id)
      (runSteps [tickSeven], .initial (some 0) peers fun _ => none) (c, s) :=
  tickSeven_allowed horder hs (fun _ _ h => nomatch h) (fun _ _ h => nomatch h)
    (fun _ _ h => nomatch h)

theorem forkedPeers_a : forkedPeers "a" = some (forkedAtFive "x") := by
  rw [forkedPeers, PeerMap.insert_ne _ _ (by decide), PeerMap.insert_self]

theorem forkedPeers_b : forkedPeers "b" = some (forkedAtFive "y") := PeerMap.insert_self ..

theorem forkDigest_length (input : List UInt8) : (forkDigest input).length = 32 := by
  unfold forkDigest
  split <;> rfl

/-- A run of one tick, seen from any peer. -/
theorem forkedPeers_reaches : ∃ s, s.currentSlot = some 7 ∧
    ∀ id, ∃ c, Reaches (ExecutesAdvancing forkDigest id)
      (runSteps [tickSeven], .initial (some 0) forkedPeers fun _ => none) (c, s) := by
  obtain ⟨s, hs, -⟩ := forkedPeers_run
  have hslot : s.currentSlot = some 7 := by
    obtain ⟨r, -, rfl⟩ := Option.map_eq_some_iff.mp hs
    rfl
  exact ⟨s, hslot, tickSeven_advancing forkedPeers_iterOrder hs⟩

theorem forks_share_history_forked : ∃ (s : RunState) (ps qs : PeerState),
    s.currentSlot = some 7 ∧ s.peers "a" = some ps ∧ s.peers "b" = some qs ∧
      ps.chainEntries.length = qs.chainEntries.length ∧
      List.Forall₂ (Forked 5) ps.chainEntries qs.chainEntries ∧
      (∃ entries, ps.chainEntries = (forkedAtFive "x").chainEntries ++ entries ∧
        List.Forall₂ (ReportsFork 5) (notSkipped (eventsOf "a" s.events)) entries) ∧
      ∃ entries, qs.chainEntries = (forkedAtFive "y").chainEntries ++ entries ∧
        List.Forall₂ (ReportsFork 5) (notSkipped (eventsOf "b" s.events)) entries := by
  obtain ⟨s, hslot, hreach⟩ := forkedPeers_reaches
  obtain ⟨c, ha⟩ := hreach "a"
  obtain ⟨c', hb⟩ := hreach "b"
  obtain ⟨ps, qs, h⟩ := forks_share_history ha hb rfl forkedPeers_a forkedPeers_b rfl rfl rfl
  exact ⟨s, ps, qs, hslot, h⟩

theorem forks_diverge_forked : ∃ (s : RunState) (ps qs : PeerState),
    s.currentSlot = some 7 ∧ s.peers "a" = some ps ∧ s.peers "b" = some qs ∧
      ps.chainEntries.map (·.slot) = qs.chainEntries.map (·.slot) ∧
      (∀ before e after before' e' after', ps.chainEntries = before ++ e :: after →
        qs.chainEntries = before' ++ e' :: after' → e.slot = e'.slot → 5 ≤ e.slot →
        e.blockHash = forkDigest (hashedBytes (forkContext 5 100 5 "x") "a" before e.slot) ∧
        e'.blockHash = forkDigest (hashedBytes (forkContext 5 100 5 "y") "b" before' e'.slot) ∧
        hashedBytes (forkContext 5 100 5 "x") "a" before e.slot ≠
          hashedBytes (forkContext 5 100 5 "y") "b" before' e'.slot) ∧
      List.Forall₂ (ReportsFork 5) (notSkipped (eventsOf "a" s.events)) ps.chainEntries ∧
      List.Forall₂ (ReportsFork 5) (notSkipped (eventsOf "b" s.events)) qs.chainEntries := by
  obtain ⟨s, hslot, hreach⟩ := forkedPeers_reaches
  obtain ⟨c, ha⟩ := hreach "a"
  obtain ⟨c', hb⟩ := hreach "b"
  obtain ⟨ps, qs, h⟩ := forks_diverge forkDigest_length ha hb rfl forkedPeers_a forkedPeers_b rfl
    rfl (by decide) rfl rfl
  exact ⟨s, ps, qs, hslot, h⟩

end ConformanceHarness.Proof
