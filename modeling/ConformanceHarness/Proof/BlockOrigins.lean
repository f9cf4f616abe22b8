import ConformanceHarness.Proof.Forks

/-!
# What each produced block was hashed over

The hash of a produced block covers a name, its slot and a previous hash; which name and which
hash is decided by the context of the peer's rule. Both the events and the chains outlive the
call, so the connection can be made afterwards: every event that is not skipped reports a block
that is on the chain still, hashed on top of the blocks before it, with the defect the context
gives it. Explicit extensions come in between and change nothing of that.
-/

namespace ConformanceHarness.Proof

open ConformanceHarness Lib

variable {blake2b : List UInt8 → List UInt8} {id kind : String} {ctx : RuleContext}
  {ps ps₁ ps₂ : PeerState} {chain : List ChainEntry} {event : ProductionEvent} {e : ChainEntry}
  {events events₁ events₂ : List ProductionEvent}

/-- The hash of the last block, or 32 zero bytes: what the next block is built on. -/
def prevHash (chain : List ChainEntry) : List UInt8 :=
  (chain.getLast?.map (·.blockHash)).getD zeroHash

/-- `event` reports `e`, a block of `chain` hashed over what `ctx` says on top of the blocks before
it. -/
def BuiltIn (blake2b : List UInt8 → List UInt8) (ctx : RuleContext) (id : String)
    (chain : List ChainEntry) (event : ProductionEvent) (e : ChainEntry) : Prop :=
  Reports event e ∧ ∃ before after, chain = before ++ e :: after ∧
    e.blockHash = syntheticHash blake2b (hashInputs ctx id e.slot (prevHash before)).1 e.slot
      (hashInputs ctx id e.slot (prevHash before)).2.1 ∧
    event.defectKind = (hashInputs ctx id e.slot (prevHash before)).2.2

/-- The block stays where it is as the chain grows. -/
theorem BuiltIn.mono (h : BuiltIn blake2b ctx id chain event e) (more : List ChainEntry) :
    BuiltIn blake2b ctx id (chain ++ more) event e := by
  obtain ⟨hreports, before, after, rfl, hhash, hdefect⟩ := h
  exact ⟨hreports, before, after ++ more, by simp, hhash, hdefect⟩

/-- The same, with the context of the peer's rule. -/
def Built (blake2b : List UInt8 → List UInt8) (id : String) (ps : PeerState)
    (event : ProductionEvent) (e : ChainEntry) : Prop :=
  ∃ rule ctx, ps.productionRule = some rule ∧ ruleContext rule = some ctx ∧
    BuiltIn blake2b ctx id ps.chainEntries event e

theorem Built.mono (h : Built blake2b id ps event e) {more : List ChainEntry}
    (hrule : ps₁.productionRule = ps.productionRule)
    (hchain : ps₁.chainEntries = ps.chainEntries ++ more) : Built blake2b id ps₁ event e := by
  obtain ⟨rule, ctx, hr, hctx, hbuilt⟩ := h
  exact ⟨rule, ctx, hrule.trans hr, hctx, hchain ▸ hbuilt.mono more⟩

/-! ## One call -/

/-- `events` tell how `ps` became `ps₁`, and what was hashed for each block. -/
def BuiltTrail (blake2b : List UInt8 → List UInt8) (id : String) (ps ps₁ : PeerState)
    (events : List ProductionEvent) : Prop :=
  ps₁.productionRule = ps.productionRule ∧
  ∃ entries, ps₁.chainEntries = ps.chainEntries ++ entries ∧
    List.Forall₂ (Built blake2b id ps₁) (notSkipped events) entries

theorem BuiltTrail.refl (ps : PeerState) : BuiltTrail blake2b id ps ps [] :=
  ⟨rfl, [], (List.append_nil _).symm, .nil⟩

theorem BuiltTrail.trans (h : BuiltTrail blake2b id ps ps₁ events₁)
    (h' : BuiltTrail blake2b id ps₁ ps₂ events₂) :
    BuiltTrail blake2b id ps ps₂ (events₁ ++ events₂) := by
  obtain ⟨hrule₁, entries₁, hchain₁, hbuilt₁⟩ := h
  obtain ⟨hrule₂, entries₂, hchain₂, hbuilt₂⟩ := h'
  refine ⟨hrule₂.trans hrule₁, entries₁ ++ entries₂, by rw [hchain₂, hchain₁, List.append_assoc],
    ?_⟩
  rw [notSkipped, List.filter_append]
  exact List.rel_append (hbuilt₁.imp fun _ _ hb => hb.mono hrule₂ hchain₂) hbuilt₂

theorem produceSlot_built {rule : ProductionRule} (hrule : ps.productionRule = some rule)
    (hctx : ruleContext rule = some ctx) (slot : UInt64) :
    BuiltTrail blake2b id ps (produceSlot blake2b id kind ctx ps slot).1
      [(produceSlot blake2b id kind ctx ps slot).2] := by
  refine ⟨produceSlot_rule, ?_⟩
  unfold produceSlot
  split
  · exact ⟨[], (List.append_nil _).symm, .nil⟩
  · exact ⟨[_], rfl, .cons ⟨rule, ctx, hrule, hctx, ⟨rfl, rfl, rfl⟩, _, [], rfl, rfl, rfl⟩ .nil⟩

theorem produceSlots_built {rule : ProductionRule} (hctx : ruleContext rule = some ctx)
    (slots : List UInt64) (hrule : ps.productionRule = some rule) :
    BuiltTrail blake2b id ps (produceSlots blake2b id kind ctx ps slots).1
      (produceSlots blake2b id kind ctx ps slots).2 := by
  induction slots generalizing ps with
  | nil => exact .refl ps
  | cons slot rest ih =>
      rw [produceSlots_cons]
      exact (produceSlot_built hrule hctx slot).trans (ih (produceSlot_rule.trans hrule))

/-- **What a call does to one peer**, with the inputs of every hash. -/
theorem producePeer_built {old new : UInt64}
    (h : producePeer blake2b old new id ps = some (ps₁, events)) :
    BuiltTrail blake2b id ps ps₁ events := by
  rcases producePeer_spec h with ⟨-, rfl, rfl⟩ | ⟨rule, slots, ctx, hrule, -, -, hctx, heq⟩
  · exact .refl ps₁
  · rw [(Prod.mk.inj heq).1, (Prod.mk.inj heq).2]
    cases slots with
    | nil => exact .refl ps
    | cons slot rest => exact produceSlots_built (hctx (List.cons_ne_nil _ _)) (slot :: rest) hrule

/-- The same, for one call after the other. -/
theorem advancePeer_built {intervals : List (UInt64 × UInt64)}
    (h : advancePeer blake2b id ps intervals = some (ps₁, events)) :
    BuiltTrail blake2b id ps ps₁ events := by
  induction intervals generalizing ps events with
  | nil =>
      obtain ⟨rfl, rfl⟩ := Prod.mk.inj (Option.some.inj h)
      exact .refl ps
  | cons interval rest ih =>
      obtain ⟨ps₀, events₀, events', hp, hrest, rfl⟩ := advancePeer_cons h
      exact (producePeer_built hp).trans (ih hrest)

/-! ## Along a run -/

/-- Whatever is reported of a peer, and whatever production gave it, is a block of its chain and
was hashed over what its rule says. -/
def AllBuilt (blake2b : List UInt8 → List UInt8) (s : RunState) : Prop :=
  ∀ id, match s.peers id with
    | none => eventsOf id s.events = [] ∧ s.produced id = []
    | some ps => List.Forall₂ (Built blake2b id ps) (notSkipped (eventsOf id s.events))
        (s.produced id)

theorem allBuilt_initial (start : Option UInt64) (peers : PeerMap) (vars : VarStore) :
    AllBuilt blake2b (RunState.initial start peers vars) := by
  intro id
  show match peers id with
    | none => ([] : List ProductionEvent) = [] ∧ ([] : List ChainEntry) = []
    | some ps => List.Forall₂ (Built blake2b id ps) [] []
  cases peers id with
  | none => exact ⟨rfl, rfl⟩
  | some ps => exact .nil

/-- Each element of a related list is related to one of the other. -/
theorem forall₂_mem_right {α β : Type} {R : α → β → Prop} {l : List α} {l' : List β}
    (h : List.Forall₂ R l l') {b : β} (hb : b ∈ l') : ∃ a ∈ l, R a b := by
  induction h with
  | nil => exact nomatch hb
  | cons hhead _ ih =>
      rcases List.mem_cons.mp hb with rfl | hb
      · exact ⟨_, List.mem_cons_self, hhead⟩
      · obtain ⟨a, ha, hab⟩ := ih hb
        exact ⟨a, List.mem_cons_of_mem _ ha, hab⟩

/-- **Preserved by every segment**: a call adds a trail, an extension lengthens a chain. -/
theorem allBuilt_step {a : Segment} {s s' : RunState} {rest : Code Segment}
    (h : Executes blake2b a s s' rest) (hinv : AllBuilt blake2b s) : AllBuilt blake2b s' := by
  cases Executes.network h with
  | quiet vars heq =>
      rw [heq]
      exact hinv
  | extended other ps entry body hps htip heq =>
      rw [heq]
      intro id
      have hid := hinv id
      dsimp only
      rcases eq_or_ne id other with rfl | hne
      · rw [PeerMap.insert_self]
        rw [hps] at hid
        exact hid.imp fun _ _ hb => hb.mono rfl rfl
      · rw [PeerMap.insert_ne _ _ hne]
        exact hid
  | advanced order old new horder hold hmoved hforward =>
      obtain ⟨⟨peers', events⟩, hc, rfl⟩ := Option.map_eq_some_iff.mp hmoved
      intro id
      have hid := hinv id
      dsimp only
      rw [eventsOf_append]
      cases hps : s.peers id with
      | none =>
          rw [hps] at hid
          obtain ⟨hnone, hevents⟩ := applyProductionRules_none horder hc hps
          rw [hnone, hevents]
          exact ⟨by rw [hid.1, List.append_nil], by rw [hid.2]; rfl⟩
      | some ps =>
          rw [hps] at hid
          obtain ⟨ps', evs, hp, hps', hevs⟩ := applyProductionRules_peer horder hc hps
          obtain ⟨hrule, entries, hchain, hbuilt⟩ := producePeer_built hp
          have happended : appended (some ps) (some ps') = entries := by
            rw [appended, hchain, List.drop_left]
          rw [hps', hevs, happended]
          dsimp only at hid ⊢
          rw [notSkipped, List.filter_append]
          exact List.rel_append (hid.imp fun _ _ hb => hb.mono hrule hchain) hbuilt

/-- **In every state reached** each block that was produced is accounted for. -/
theorem allBuilt_runs {start : Option UInt64} {peers : PeerMap} {vars : VarStore}
    {steps : List StepDef} {s : RunState}
    (h : RunsTo blake2b steps (RunState.initial start peers vars) s) : AllBuilt blake2b s := by
  obtain ⟨rest, hreach⟩ := h
  exact hreach.invariant (fun _ _ _ _ hs hi => allBuilt_step hs hi)
    (allBuilt_initial start peers vars)

end ConformanceHarness.Proof
