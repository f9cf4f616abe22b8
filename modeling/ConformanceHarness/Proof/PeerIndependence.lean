import ConformanceHarness.Proof.Production

/-!
# Peers do not influence each other's production

`apply_production_rules` walks a hash map of peers, and what one of them gets out of a call is
its new state and its own events. `applyProductionRules_peer` says these are a function of the
peer alone in every call that returns; here the calls that do not return are counted in. A rule
that cannot be evaluated keeps the whole call, so it is the one thing by which a peer can be felt
by another.
-/

namespace ConformanceHarness.Proof

open ConformanceHarness

variable {blake2b : List UInt8 → List UInt8} {oldSlot newSlot : UInt64} {id : String}
  {ps : PeerState}

/-- What peer `id` gets out of a call: its state afterwards and its events. -/
def outcomeOf (id : String) (result : Option (PeerMap × List ProductionEvent)) :
    Option (Option PeerState × List ProductionEvent) :=
  result.map fun r => (r.1 id, eventsOf id r.2)

/-- The map that holds one peer. -/
def PeerMap.only (id : String) (ps : PeerState) : PeerMap :=
  PeerMap.insert (fun _ => none) id ps

theorem PeerMap.only_iterOrder (id : String) (ps : PeerState) :
    (PeerMap.only id ps).IterOrder [id] := by
  refine ⟨List.pairwise_singleton _ id, fun other => ?_⟩
  rw [List.mem_singleton, PeerMap.only, PeerMap.insert]
  split <;> simp [*]

/-- **Nobody else is felt**: `id` gets out of a call on `peers` what it gets out of a call on its
own. -/
def ProducesAlone (blake2b : List UInt8 → List UInt8) (order : List String) (peers : PeerMap)
    (oldSlot newSlot : UInt64) (id : String) (ps : PeerState) : Prop :=
  outcomeOf id (applyProductionRules blake2b order peers oldSlot newSlot) =
    outcomeOf id (applyProductionRules blake2b [id] (PeerMap.only id ps) oldSlot newSlot)

/-- The peer's rule can be evaluated: its loop ends below `u64::MAX`, and if it has a slot in
`(old, new]` then its `wrong_hash` is read without a panic. -/
def RuleEvaluates (oldSlot newSlot : UInt64) (ps : PeerState) : Prop :=
  ∀ rule, ps.productionRule = some rule →
    (newSlot < oldSlot + 1 ∨ newSlot ≠ u64Max ∨ ∀ i, rule.interval? = some i → i = 0) ∧
    (rule.slotsInRange (oldSlot + 1) newSlot ≠ some [] → (ruleContext rule).isSome)

theorem productionTask_isSome :
    (productionTask oldSlot newSlot id ps).isSome ↔ RuleEvaluates oldSlot newSlot ps := by
  unfold productionTask RuleEvaluates
  split
  · rename_i hrule
    simp [hrule]
  · rename_i hrule
    simp [hrule, ProductionRule.interval?, ProductionRule.slotsInRange]
  · rename_i rule hne hrule
    have hslots : (rule.slotsInRange (oldSlot + 1) newSlot).isSome ↔ _ := slotsInRange_isSome
    simp only [hrule, Option.some.injEq, forall_eq', ← hslots]
    cases rule.slotsInRange (oldSlot + 1) newSlot with
    | none => simp
    | some slots => cases slots <;> simp

/-- What a peer gets out of a call, when everybody's rule can be evaluated and otherwise. -/
theorem outcomeOf_apply (blake2b : List UInt8 → List UInt8) (oldSlot newSlot : UInt64)
    {order : List String} {peers : PeerMap} {id : String} {ps : PeerState}
    (horder : peers.IterOrder order) (hps : peers id = some ps) :
    ((∀ other q, peers other = some q → RuleEvaluates oldSlot newSlot q) →
      outcomeOf id (applyProductionRules blake2b order peers oldSlot newSlot) =
        (producePeer blake2b oldSlot newSlot id ps).map fun r => (some r.1, r.2)) ∧
    (¬ (∀ other q, peers other = some q → RuleEvaluates oldSlot newSlot q) →
      outcomeOf id (applyProductionRules blake2b order peers oldSlot newSlot) = none) := by
  have hreturns : (applyProductionRules blake2b order peers oldSlot newSlot).isSome ↔
      ∀ other q, peers other = some q → RuleEvaluates oldSlot newSlot q := by
    rw [applyProductionRules_isSome horder]
    refine forall_congr' fun other => forall_congr' fun q => imp_congr_right fun _ => ?_
    rw [producePeer, Option.isSome_map, productionTask_isSome]
  rw [← hreturns]
  cases h : applyProductionRules blake2b order peers oldSlot newSlot with
  | none => exact ⟨nofun, fun _ => rfl⟩
  | some r =>
      obtain ⟨ps', evs, hpeer, hstate, hevents⟩ := applyProductionRules_peer horder h hps
      refine ⟨fun _ => ?_, fun hnot => absurd rfl hnot⟩
      rw [hpeer, outcomeOf, Option.map_some, hstate, hevents]
      rfl

theorem producePeer_isSome (blake2b : List UInt8 → List UInt8) (oldSlot newSlot : UInt64)
    (id : String) (ps : PeerState) :
    (producePeer blake2b oldSlot newSlot id ps).isSome ↔ RuleEvaluates oldSlot newSlot ps := by
  rw [producePeer, Option.isSome_map, productionTask_isSome]

/-- On its own a peer gets what its own rule gives. -/
theorem outcomeOf_only :
    outcomeOf id (applyProductionRules blake2b [id] (PeerMap.only id ps) oldSlot newSlot) =
      (producePeer blake2b oldSlot newSlot id ps).map fun r => (some r.1, r.2) := by
  have hself : PeerMap.only id ps id = some ps := PeerMap.insert_self ..
  have hothers : (∀ other q, PeerMap.only id ps other = some q → RuleEvaluates oldSlot newSlot q) ↔
      RuleEvaluates oldSlot newSlot ps := by
    refine ⟨fun h => h id ps hself, fun h other q hq => ?_⟩
    rw [PeerMap.only, PeerMap.insert] at hq
    split at hq
    · exact Option.some.inj hq ▸ h
    · cases hq
  obtain ⟨hreturns, hkept⟩ :=
    outcomeOf_apply blake2b oldSlot newSlot (PeerMap.only_iterOrder id ps) hself
  by_cases h : RuleEvaluates oldSlot newSlot ps
  · exact hreturns (hothers.mpr h)
  · rw [hkept (mt hothers.mp h)]
    have : ¬ (producePeer blake2b oldSlot newSlot id ps).isSome :=
      mt (producePeer_isSome ..).mp h
    rw [Option.not_isSome_iff_eq_none.mp this]
    rfl

/-- **A peer's production depends on that peer alone exactly when** its own rule cannot be
evaluated (nothing comes back then, with or without the others) or everybody else's can. -/
theorem producesAlone_iff (blake2b : List UInt8 → List UInt8) (order : List String)
    (peers : PeerMap) (oldSlot newSlot : UInt64) (id : String) (ps : PeerState)
    (horder : peers.IterOrder order) (hps : peers id = some ps) :
    ProducesAlone blake2b order peers oldSlot newSlot id ps ↔
      ¬ RuleEvaluates oldSlot newSlot ps ∨
        ∀ other q, other ≠ id → peers other = some q → RuleEvaluates oldSlot newSlot q := by
  obtain ⟨hreturns, hkept⟩ := outcomeOf_apply blake2b oldSlot newSlot horder hps
  have hown := producePeer_isSome blake2b oldSlot newSlot id ps
  rw [ProducesAlone, outcomeOf_only]
  constructor
  · intro h
    by_cases hp : RuleEvaluates oldSlot newSlot ps
    · refine Or.inr fun other q _ hq => ?_
      by_contra hstuck
      -- the call is kept by `other`, while `id` on its own gets an answer
      rw [hkept fun hall => hstuck (hall other q hq)] at h
      rw [← Option.isSome_map, ← h] at hown
      exact nomatch hown.mpr hp
    · exact Or.inl hp
  · rintro (hp | hothers)
    · rw [hkept fun hall => hp (hall id ps hps), Option.not_isSome_iff_eq_none.mp (mt hown.mp hp)]
      rfl
    · by_cases hp : RuleEvaluates oldSlot newSlot ps
      · refine hreturns fun other q hq => ?_
        rcases eq_or_ne other id with rfl | hne
        · exact Option.some.inj (hps.symm.trans hq) ▸ hp
        · exact hothers other q hne hq
      · rw [hkept fun hall => hp (hall id ps hps), Option.not_isSome_iff_eq_none.mp (mt hown.mp hp)]
        rfl

/-- Two peers: `p` fires at slot 5, `q` at every slot. -/
def sparseAndDense : PeerMap :=
  (PeerMap.only "p" { PeerState.new with productionRule := some (.atSlots [5]) }).insert "q"
    { PeerState.new with productionRule := some (.everyNSlots 0 1) }

theorem sparseAndDense_iterOrder : sparseAndDense.IterOrder ["p", "q"] := by
  refine ⟨by decide, fun id => ?_⟩
  simp only [sparseAndDense, PeerMap.only, PeerMap.insert, List.mem_cons, List.not_mem_nil,
    or_false]
  by_cases hq : id = "q"
  · simp [hq]
  · by_cases hp : id = "p" <;> simp [hp, hq]

theorem producesAlone_iff_sparse :
    ProducesAlone (fun bytes => bytes) ["p", "q"] sparseAndDense 0 10 "p"
        { PeerState.new with productionRule := some (.atSlots [5]) } ↔
      ¬ RuleEvaluates 0 10 { PeerState.new with productionRule := some (.atSlots [5]) } ∨
        ∀ other q, other ≠ "p" → sparseAndDense other = some q → RuleEvaluates 0 10 q :=
  producesAlone_iff _ _ _ _ _ _ _ sparseAndDense_iterOrder rfl

/-- Up to `u64::MAX` the loop of `q` does not end, and `p` gets nothing. -/
theorem dense_keeps_sparse :
    ¬ ProducesAlone (fun bytes => bytes) ["p", "q"] sparseAndDense 0 u64Max "p"
      { PeerState.new with productionRule := some (.atSlots [5]) } := by
  intro h
  have hq : ¬ RuleEvaluates 0 u64Max
      { PeerState.new with productionRule := some (.everyNSlots 0 1) } := by
    intro hq
    rcases (hq _ rfl).1 with hlt | hne | hinterval
    · exact absurd hlt (by decide)
    · exact hne rfl
    · exact absurd (hinterval 1 rfl) (by decide)
  have hp : sparseAndDense "p" = some { PeerState.new with productionRule := some (.atSlots [5]) } :=
    rfl
  have hkept := (outcomeOf_apply (fun bytes => bytes) 0 u64Max sparseAndDense_iterOrder hp).2
    fun hall => hq (hall "q" _ rfl)
  rw [ProducesAlone, hkept, outcomeOf_only] at h
  have hevaluates :
      RuleEvaluates 0 u64Max { PeerState.new with productionRule := some (.atSlots [5]) } := by
    intro rule hrule
    obtain rfl := Option.some.inj hrule
    exact ⟨Or.inr (Or.inr fun i hi => nomatch hi), fun _ => rfl⟩
  have hsome := (producePeer_isSome (fun bytes => bytes) 0 u64Max "p" _).mpr hevaluates
  rw [← Option.isSome_map, ← h] at hsome
  exact nomatch hsome

end ConformanceHarness.Proof
