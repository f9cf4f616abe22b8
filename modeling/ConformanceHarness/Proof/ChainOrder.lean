import ConformanceHarness.Lib.Ascending
import ConformanceHarness.Proof.Clock

/-!
# Chains stay in chain order

Three operations append to a peer's chain, and all of them look at its tip first:
`peer_extends_chain` refuses a slot that is not past it, and production skips such a slot. So a
chain whose slots ascend goes on to do so, whatever the rule and the run, and nothing that is
on it ever leaves it. Together with a clock that does not go back this means that what a
client is served of a peer's headers only grows.
-/

namespace ConformanceHarness.Proof

open ConformanceHarness Lib

/-- The slots of a chain strictly increase. -/
abbrev InOrder (chain : List ChainEntry) : Prop := Ascending ChainEntry.slot chain

/-- A peer's chain is appended to, past its tip. -/
structure GrowsInOrder (ps ps' : PeerState) : Prop where
  keeps : ps.chainEntries <+: ps'.chainEntries
  inOrder : InOrder ps.chainEntries → InOrder ps'.chainEntries

theorem GrowsInOrder.refl (ps : PeerState) : GrowsInOrder ps ps := ⟨List.prefix_refl _, id⟩

theorem GrowsInOrder.trans {ps ps' ps'' : PeerState} (h : GrowsInOrder ps ps')
    (h' : GrowsInOrder ps' ps'') : GrowsInOrder ps ps'' :=
  ⟨h.keeps.trans h'.keeps, fun hin => h'.inOrder (h.inOrder hin)⟩

/-- Every peer's chain does. -/
def PeersGrow (peers peers' : PeerMap) : Prop :=
  ∀ id ps, peers id = some ps → ∃ ps', peers' id = some ps' ∧ GrowsInOrder ps ps'

theorem PeersGrow.refl (peers : PeerMap) : PeersGrow peers peers :=
  fun _ ps hps => ⟨ps, hps, .refl ps⟩

theorem PeersGrow.trans {peers peers' peers'' : PeerMap} (h : PeersGrow peers peers')
    (h' : PeersGrow peers' peers'') : PeersGrow peers peers'' := by
  intro id ps hps
  obtain ⟨ps', hps', hgrows⟩ := h id ps hps
  obtain ⟨ps'', hps'', hgrows'⟩ := h' id ps' hps'
  exact ⟨ps'', hps'', hgrows.trans hgrows'⟩

section

variable {blake2b : List UInt8 → List UInt8}

/-! ## What appends -/

/-- One entry more, past the tip. -/
theorem growsInOrder_snoc {ps ps' : PeerState} {entry : ChainEntry}
    (hchain : ps'.chainEntries = ps.chainEntries ++ [entry])
    (htip : ∀ tip, ps.chainTipSlot = some tip → tip < entry.slot) : GrowsInOrder ps ps' := by
  refine ⟨⟨[entry], hchain.symm⟩, fun hin => ?_⟩
  rw [hchain]
  refine hin.snoc fun last hlast => htip last.slot ?_
  rw [PeerState.chainTipSlot, hlast]
  rfl

/-- A slot the tip does not cover is past the tip. -/
theorem not_covers {ps : PeerState} {slot : UInt64} (h : ¬ ps.covers slot = true) :
    ∀ tip, ps.chainTipSlot = some tip → tip < slot := by
  intro tip htip
  rw [PeerState.covers, htip] at h
  exact UInt64.not_le.mp fun hle => h (decide_eq_true hle)

theorem produceSlot_growsInOrder {id kind : String} {ctx : RuleContext} {ps : PeerState}
    {slot : UInt64} :
    GrowsInOrder ps (produceSlot blake2b id kind ctx ps slot).1 := by
  unfold produceSlot
  split
  · exact .refl ps
  · rename_i hcovers
    exact growsInOrder_snoc rfl (not_covers hcovers)

theorem produceSlots_growsInOrder {id kind : String} {ctx : RuleContext} (ps : PeerState)
    (slots : List UInt64) : GrowsInOrder ps (produceSlots blake2b id kind ctx ps slots).1 := by
  induction slots generalizing ps with
  | nil => exact .refl ps
  | cons slot rest ih =>
      rw [produceSlots_cons]
      exact produceSlot_growsInOrder.trans (ih _)

theorem producePeer_growsInOrder {old new : UInt64} {id : String} {ps ps' : PeerState}
    {evs : List ProductionEvent} (h : producePeer blake2b old new id ps = some (ps', evs)) :
    GrowsInOrder ps ps' := by
  rcases producePeer_spec h with ⟨-, rfl, -⟩ | ⟨rule, l, ctx, -, -, -, -, heq⟩
  · exact .refl _
  · rw [(Prod.mk.inj heq).1]
    exact produceSlots_growsInOrder ps l

theorem applyProductionRules_grows {order : List String} {peers peers' : PeerMap}
    {old new : UInt64} {events : List ProductionEvent} (horder : peers.IterOrder order)
    (h : applyProductionRules blake2b order peers old new = some (peers', events)) :
    PeersGrow peers peers' := by
  intro id ps hps
  obtain ⟨ps', evs, hp, hps', -⟩ := applyProductionRules_peer horder h hps
  exact ⟨ps', hps', producePeer_growsInOrder hp⟩

theorem extend_grows {peers : PeerMap} {id : String} {ps : PeerState} {entry : ChainEntry}
    {body : Option (List UInt8)} (hps : peers id = some ps)
    (htip : ∀ tip, ps.chainTipSlot = some tip → tip < entry.slot) :
    PeersGrow peers (peers.insert id (ps.extend entry body)) := by
  intro other ps₀ hps₀
  by_cases hid : other = id
  · subst hid
    obtain rfl := Option.some.inj (hps.symm.trans hps₀)
    exact ⟨_, PeerMap.insert_self .., growsInOrder_snoc rfl htip⟩
  · exact ⟨ps₀, (PeerMap.insert_ne _ _ hid).trans hps₀, .refl ps₀⟩

/-! ## Runs -/

/-- **Preserved by every segment.** -/
theorem NetworkStep.grows {a : Segment} {s s' : RunState} (h : NetworkStep blake2b a s s') :
    PeersGrow s.peers s'.peers := by
  cases h with
  | quiet vars heq =>
      rw [heq]
      exact .refl s.peers
  | extended id ps entry body hps htip heq =>
      rw [heq]
      exact extend_grows hps htip
  | advanced order old new horder hold hmoved hforward =>
      obtain ⟨⟨peers', events⟩, hc, rfl⟩ := Option.map_eq_some_iff.mp hmoved
      exact applyProductionRules_grows horder hc

theorem reaches_grows {c c' : Code Segment} {s s' : RunState}
    (h : Reaches (Executes blake2b) (c, s) (c', s')) : PeersGrow s.peers s'.peers := by
  have hstep : ∀ a t t' rest, Executes blake2b a t t' rest →
      PeersGrow s.peers t.peers → PeersGrow s.peers t'.peers :=
    fun _ _ _ _ hexec ht => ht.trans (Executes.network hexec).grows
  exact h.invariant hstep (.refl s.peers)

/-- **A peer's chain is always in chain order.** At any two moments of a run its slots increase,
and what is on it at the first is on it at the second. -/
theorem chain_inOrder {start : Option UInt64} {peers : PeerMap} {vars : VarStore}
    {steps : List StepDef} {c₁ c₂ : Code Segment} {s₁ s₂ : RunState}
    (h₁ : Reaches (Executes blake2b) (runSteps steps, .initial start peers vars) (c₁, s₁))
    (h₂ : Reaches (Executes blake2b) (c₁, s₁) (c₂, s₂)) {id : String} {ps : PeerState}
    (hps : peers id = some ps) (hin : InOrder ps.chainEntries) :
    ∃ ps₁ ps₂, s₁.peers id = some ps₁ ∧ s₂.peers id = some ps₂ ∧
      InOrder ps₁.chainEntries ∧ InOrder ps₂.chainEntries ∧
      ps.chainEntries <+: ps₁.chainEntries ∧ ps₁.chainEntries <+: ps₂.chainEntries := by
  obtain ⟨ps₁, hps₁, hgrows₁⟩ := reaches_grows h₁ id ps hps
  obtain ⟨ps₂, hps₂, hgrows₂⟩ := reaches_grows h₂ id ps₁ hps₁
  have hin₁ := hgrows₁.inOrder hin
  exact ⟨ps₁, ps₂, hps₁, hps₂, hin₁, hgrows₂.inOrder hin₁, hgrows₁.keeps, hgrows₂.keeps⟩

/-! ## What a client can see -/

/-- The clock, if there is one, does not go back. -/
def ClockForward (current current' : Option UInt64) : Prop :=
  match current with
  | none => current' = none
  | some old => ∃ new, current' = some new ∧ old ≤ new

theorem ClockForward.refl (current : Option UInt64) : ClockForward current current := by
  cases current with
  | none => rfl
  | some old => exact ⟨old, rfl, UInt64.le_refl old⟩

theorem ClockForward.trans {a b c : Option UInt64} (h : ClockForward a b) (h' : ClockForward b c) :
    ClockForward a c := by
  cases a with
  | none =>
      obtain rfl : b = none := h
      exact h'
  | some old =>
      obtain ⟨mid, rfl, hle⟩ := h
      obtain ⟨new, rfl, hle'⟩ := h'
      exact ⟨new, rfl, UInt64.le_trans hle hle'⟩

theorem NetworkStep.clockForward {a : Segment} {s s' : RunState} (h : NetworkStep blake2b a s s')
    (hfit : NoOverflow a s) : ClockForward s.currentSlot s'.currentSlot := by
  cases h with
  | quiet vars heq =>
      rw [heq]
      exact .refl _
  | extended id ps entry body hps htip heq =>
      rw [heq]
      exact .refl _
  | advanced order old new horder hold hmoved hforward =>
      obtain ⟨r, hc, rfl⟩ := Option.map_eq_some_iff.mp hmoved
      rw [hold]
      exact ⟨new, rfl, (hforward hfit).1⟩

variable (blake2b) in
/-- A segment whose sums fit in a `u64`. -/
abbrev ExecutesFitting (a : Segment) (s s' : RunState) (rest : Code Segment) : Prop :=
  Executes blake2b a s s' rest ∧ NoOverflow a s

theorem reaches_clockForward {c c' : Code Segment} {s s' : RunState}
    (h : Reaches (ExecutesFitting blake2b) (c, s) (c', s')) :
    ClockForward s.currentSlot s'.currentSlot := by
  have hstep : ∀ a t t' rest, ExecutesFitting blake2b a t t' rest →
      ClockForward s.currentSlot t.currentSlot → ClockForward s.currentSlot t'.currentSlot :=
    fun _ _ _ _ hexec ht => ht.trans ((Executes.network hexec.1).clockForward hexec.2)
  exact h.invariant hstep (.refl s.currentSlot)

/-- Headers that are visible stay so, and none comes before them. -/
theorem filteredFixtureChain_prefix {ps ps' : PeerState} {current current' : Option UInt64}
    (hgrows : GrowsInOrder ps ps') (hin : InOrder ps.chainEntries)
    (hclock : ClockForward current current') :
    (ps.filteredFixtureChain current).entries <+: (ps'.filteredFixtureChain current').entries := by
  cases current with
  | none =>
      obtain rfl : current' = none := hclock
      exact (hgrows.keeps.filter _).map _
  | some old =>
      obtain ⟨new, rfl, hle⟩ := hclock
      exact (hin.filter_prefix_of_prefix hle hgrows.keeps).map _

/-- **What a client can see only ever grows.** At the later of two moments of a run the headers
of a peer begin with those of the earlier one. -/
theorem visible_grows {start : Option UInt64} {peers : PeerMap} {vars : VarStore}
    {steps : List StepDef} {c₁ c₂ : Code Segment} {s₁ s₂ : RunState}
    (h₁ : Reaches (ExecutesFitting blake2b) (runSteps steps, .initial start peers vars) (c₁, s₁))
    (h₂ : Reaches (ExecutesFitting blake2b) (c₁, s₁) (c₂, s₂)) {id : String} {ps : PeerState}
    (hps : peers id = some ps) (hin : InOrder ps.chainEntries) :
    ∃ ps₁ ps₂, s₁.peers id = some ps₁ ∧ s₂.peers id = some ps₂ ∧
      (ps₁.filteredFixtureChain s₁.currentSlot).anchor =
        (ps₂.filteredFixtureChain s₂.currentSlot).anchor ∧
      (ps₁.filteredFixtureChain s₁.currentSlot).entries <+:
        (ps₂.filteredFixtureChain s₂.currentSlot).entries := by
  obtain ⟨ps₁, hps₁, hgrows₁⟩ := reaches_grows (h₁.mono fun _ _ _ _ => And.left) id ps hps
  obtain ⟨ps₂, hps₂, hgrows₂⟩ := reaches_grows (h₂.mono fun _ _ _ _ => And.left) id ps₁ hps₁
  refine ⟨ps₁, ps₂, hps₁, hps₂, rfl, ?_⟩
  exact filteredFixtureChain_prefix hgrows₂ (hgrows₁.inOrder hin) (reaches_clockForward h₂)

end

/-! ## A tick past slot 5 -/

theorem chain_inOrder_tickSeven : ∃ (s : RunState) (ps₁ ps₂ : PeerState), s.currentSlot = some 7 ∧
    oneSlotPeers "p" = some ps₁ ∧ s.peers "p" = some ps₂ ∧
    InOrder ps₁.chainEntries ∧ InOrder ps₂.chainEntries ∧
    ([] : List ChainEntry) <+: ps₁.chainEntries ∧ ps₁.chainEntries <+: ps₂.chainEntries := by
  obtain ⟨s, -, hslot, c, hreach⟩ := oneSlotPeers_run
  obtain ⟨ps₁, ps₂, h⟩ := chain_inOrder .refl (hreach.mono fun _ _ _ _ => And.left) oneSlotPeers_p
    Ascending.nil
  exact ⟨s, ps₁, ps₂, hslot, h⟩

theorem visible_grows_tickSeven : ∃ (s : RunState) (ps₁ ps₂ : PeerState), s.currentSlot = some 7 ∧
    oneSlotPeers "p" = some ps₁ ∧ s.peers "p" = some ps₂ ∧
    (ps₁.filteredFixtureChain (some 0)).anchor =
      (ps₂.filteredFixtureChain s.currentSlot).anchor ∧
    (ps₁.filteredFixtureChain (some 0)).entries <+:
      (ps₂.filteredFixtureChain s.currentSlot).entries := by
  obtain ⟨s, -, hslot, c, hreach⟩ := oneSlotPeers_run
  obtain ⟨ps₁, ps₂, h⟩ := visible_grows .refl hreach oneSlotPeers_p Ascending.nil
  exact ⟨s, ps₁, ps₂, hslot, h⟩

end ConformanceHarness.Proof
