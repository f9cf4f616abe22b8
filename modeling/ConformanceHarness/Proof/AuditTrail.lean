import ConformanceHarness.Proof.Headers

/-!
# The trail of a call of `apply_production_rules`

The loop tests the chain it appends to, so which of the scheduled slots are skipped depends on
what was appended before. `AuditTrail` says of every event what the chain was at its turn: a
skipped event found a tip at or past its slot, and the others are the appended entries, one by
one. It is built up the way the loop runs, one slot at the front at a time.
-/

namespace ConformanceHarness.Proof

open ConformanceHarness

/-! ## Reading a header -/

/-- A reader of `array(2)[ array(2)[block_number, slot], null ]`. -/
def readHeader : List UInt8 → Option (Nat × Nat)
  | 0x82 :: 0x82 :: fields => do
    let (number, rest) ← readCborUint fields
    let (slot, signature) ← readCborUint rest
    if signature = [0xf6] then some (number, slot) else none
  | _ => none

/-- **A produced header reads back.** -/
theorem readHeader_synthetic {e : ChainEntry} (h : Synthetic e) :
    readHeader e.headerCbor = some (e.blockNumber.toNat, e.slot.toNat) := by
  rw [h.1]
  simp only [readHeader, syntheticHeaderCbor, List.cons_append, List.nil_append,
    List.append_assoc, readCborUint_cborUint, Option.bind_eq_bind, Option.bind_some, if_true]

/-! ## What a rule schedules, as a list -/

/-- `l` is what the rule schedules in `(old, new]`: each slot at which it fires, in order. A list
that was not validated is taken as it stands. -/
structure SchedulesIn (rule? : Option ProductionRule) (old new : UInt64) (l : List UInt64) :
    Prop where
  mem : ∀ x, x ∈ l ↔ old < x ∧ x ≤ new ∧ ∃ rule, rule? = some rule ∧ Fires rule x
  sorted : (∀ rule, rule? = some rule → Ordered rule) → l.Pairwise (· < ·)
  listed : ∀ slots, rule? = some (.atSlots slots) → l = slots.filter fun s => old < s ∧ s ≤ new

theorem schedulesIn_idle {rule? : Option ProductionRule} {old new : UInt64}
    (h : rule? = none ∨ rule? = some .none) : SchedulesIn rule? old new [] where
  mem x := by
    refine ⟨fun hx => absurd hx List.not_mem_nil, fun hx => ?_⟩
    obtain ⟨-, -, rule, hrule, hfires⟩ := hx
    rcases h with h | h
    · rw [h] at hrule
      simp at hrule
    · rw [h] at hrule
      rw [← Option.some.inj hrule] at hfires
      exact hfires.elim
  sorted _ := List.Pairwise.nil
  listed slots hslots := by rcases h with h | h <;> rw [h] at hslots <;> simp at hslots

/-- `old + 1` is the slot after `old`, if there is one. -/
theorem succ_le_iff {old x : UInt64} (h : old.toNat + 1 < 2 ^ 64) : old + 1 ≤ x ↔ old < x := by
  rw [UInt64.le_iff_toNat_le, UInt64.lt_iff_toNat_lt, UInt64.toNat_add, UInt64.toNat_one,
    Nat.mod_eq_of_lt h]
  exact Iff.rfl

theorem schedulesIn_atSlots {slots l : List UInt64} {old new : UInt64}
    (hold : old.toNat + 1 < 2 ^ 64)
    (hl : (ProductionRule.atSlots slots).slotsInRange (old + 1) new = some l) :
    l = slots.filter fun s => old < s ∧ s ≤ new := by
  unfold ProductionRule.slotsInRange at hl
  split at hl
  · rename_i hgt
    obtain rfl := Option.some.inj hl
    refine (List.filter_eq_nil_iff.mpr fun s _ hs => ?_).symm
    have hin := of_decide_eq_true hs
    exact UInt64.not_le.mpr hgt (UInt64.le_trans ((succ_le_iff hold).mpr hin.1) hin.2)
  · obtain rfl := Option.some.inj hl
    refine List.filter_congr fun s _ => ?_
    simp only [ge_iff_le, succ_le_iff hold, Bool.decide_and]

theorem schedulesIn_of_slotsInRange {rule : ProductionRule} {old new : UInt64} {l : List UInt64}
    (hold : old.toNat + 1 < 2 ^ 64) (hfit : old + 1 ≤ new → RuleFits rule (old + 1))
    (hl : rule.slotsInRange (old + 1) new = some l) : SchedulesIn (some rule) old new l where
  mem x := by
    have hfires : (∃ r, some rule = some r ∧ Fires r x) ↔ Fires rule x := by simp
    rw [hfires, ← succ_le_iff hold]
    by_cases hslots : ∃ slots, rule = .atSlots slots
    · obtain ⟨slots, rfl⟩ := hslots
      rw [schedulesIn_atSlots hold hl]
      simp only [List.mem_filter, decide_eq_true_eq, succ_le_iff hold, Fires]
      exact and_comm.trans and_assoc
    · have hord : Ordered rule := by
        cases rule with
        | atSlots slots => exact absurd ⟨slots, rfl⟩ hslots
        | _ => trivial
      exact (slotsInRange_spec hord hfit hl).2 x
  sorted hord := (slotsInRange_spec (hord rule rfl) hfit hl).1
  listed slots hslots := by
    obtain rfl := Option.some.inj hslots
    exact schedulesIn_atSlots hold hl

/-! ## The trail -/

/-- The tip of the chain lies at or past `slot`. -/
def TipCovers (chain : List ChainEntry) (slot : UInt64) : Prop :=
  ∃ tip, chain.getLast? = some tip ∧ slot ≤ tip.slot

/-- The block after the last one of `chain`, or block 0. -/
def Follows (chain : List ChainEntry) (e : ChainEntry) : Prop :=
  (chain = [] → e.blockNumber = 0) ∧
    ∀ last, chain.getLast? = some last → e.blockNumber = last.blockNumber + 1

/-- The event reports the entry. -/
def Reports (event : ProductionEvent) (e : ChainEntry) : Prop :=
  event.slot = e.slot ∧ event.blockNumber = e.blockNumber ∧
    event.blockHashHex = encodeHex e.blockHash

/-- The events that report an entry. -/
def notSkipped (events : List ProductionEvent) : List ProductionEvent :=
  events.filter fun event => !event.skipped

theorem notSkipped_cons_skipped {event : ProductionEvent} (events : List ProductionEvent)
    (h : event.skipped = true) : notSkipped (event :: events) = notSkipped events :=
  List.filter_cons_of_neg (by simp [h])

theorem notSkipped_cons_not {event : ProductionEvent} (events : List ProductionEvent)
    (h : event.skipped = false) : notSkipped (event :: events) = event :: notSkipped events :=
  List.filter_cons_of_pos (by simp [h])

/-- `events` tell how `ps` became `ps'` by appending `entries`. -/
structure AuditTrail (ps ps' : PeerState) (events : List ProductionEvent)
    (entries : List ChainEntry) : Prop where
  chain : ps'.chainEntries = ps.chainEntries ++ entries
  /-- An event that is not skipped is an appended entry, in order. -/
  reported : List.Forall₂ Reports (notSkipped events) entries
  /-- A skipped event found the chain, as it was then, at or past its slot. -/
  skipped : ∀ before event after, events = before ++ event :: after →
    (event.skipped = true ↔
      TipCovers (ps.chainEntries ++ entries.take (notSkipped before).length) event.slot)
  numbered : ∀ before e after, entries = before ++ e :: after →
    Follows (ps.chainEntries ++ before) e
  synthetic : ∀ e ∈ entries, Synthetic e
  bodies : ∀ e ∈ entries, ps'.blockStore[(e.slot, e.blockHash)]? = some [0xa0]

section

variable {ps ps₁ ps' : PeerState} {event : ProductionEvent} {events : List ProductionEvent}
  {entry : ChainEntry} {entries : List ChainEntry}

theorem AuditTrail.nil (ps : PeerState) : AuditTrail ps ps [] [] where
  chain := (List.append_nil _).symm
  reported := .nil
  skipped before event after h := by simp at h
  numbered before e after h := by simp at h
  synthetic e he := nomatch he
  bodies e he := nomatch he

/-- A skipped slot first. -/
theorem AuditTrail.cons_skipped (h : AuditTrail ps ps' events entries)
    (hskipped : event.skipped = true) (hcovers : TipCovers ps.chainEntries event.slot) :
    AuditTrail ps ps' (event :: events) entries where
  chain := h.chain
  reported := by
    rw [notSkipped_cons_skipped events hskipped]
    exact h.reported
  skipped before other after heq := by
    cases before with
    | nil =>
        obtain ⟨rfl, -⟩ := List.cons.inj heq
        refine iff_of_true hskipped ?_
        show TipCovers (ps.chainEntries ++ entries.take 0) _
        rw [List.take_zero, List.append_nil]
        exact hcovers
    | cons first before =>
        obtain ⟨rfl, hevents⟩ := List.cons.inj heq
        rw [notSkipped_cons_skipped before hskipped]
        exact h.skipped before other after hevents
  numbered := h.numbered
  synthetic := h.synthetic
  bodies := h.bodies

/-- A produced entry first. -/
theorem AuditTrail.cons_produced (h : AuditTrail ps₁ ps' events entries)
    (hchain : ps₁.chainEntries = ps.chainEntries ++ [entry]) (hskipped : event.skipped = false)
    (hcovers : ¬ TipCovers ps.chainEntries event.slot) (hreports : Reports event entry)
    (hfollows : Follows ps.chainEntries entry) (hsynthetic : Synthetic entry)
    (hbody : ps'.blockStore[(entry.slot, entry.blockHash)]? = some [0xa0]) :
    AuditTrail ps ps' (event :: events) (entry :: entries) where
  chain := by
    rw [h.chain, hchain, List.append_assoc]
    rfl
  reported := by
    rw [notSkipped_cons_not events hskipped]
    exact .cons hreports h.reported
  skipped before other after heq := by
    cases before with
    | nil =>
        obtain ⟨rfl, -⟩ := List.cons.inj heq
        refine iff_of_false (by simp [hskipped]) ?_
        show ¬ TipCovers (ps.chainEntries ++ (entry :: entries).take 0) _
        rw [List.take_zero, List.append_nil]
        exact hcovers
    | cons first before =>
        obtain ⟨rfl, hevents⟩ := List.cons.inj heq
        have hrest := h.skipped before other after hevents
        rw [hchain, List.append_assoc] at hrest
        rw [notSkipped_cons_not before hskipped]
        exact hrest
  numbered before e after heq := by
    cases before with
    | nil =>
        obtain ⟨rfl, -⟩ := List.cons.inj heq
        rw [List.append_nil]
        exact hfollows
    | cons first before =>
        obtain ⟨rfl, hentries⟩ := List.cons.inj heq
        have hrest := h.numbered before e after hentries
        rw [hchain, List.append_assoc] at hrest
        exact hrest
  synthetic e he := by
    rcases List.mem_cons.mp he with rfl | he
    · exact hsynthetic
    · exact h.synthetic e he
  bodies e he := by
    rcases List.mem_cons.mp he with rfl | he
    · exact hbody
    · exact h.bodies e he

end

/-! ## The loop leaves one -/

section

variable {blake2b : List UInt8 → List UInt8} {id kind : String} {ctx : RuleContext}
  {ps : PeerState} {slot : UInt64}

theorem covers_iff : ps.covers slot = true ↔ TipCovers ps.chainEntries slot := by
  unfold PeerState.covers PeerState.chainTipSlot TipCovers
  cases ps.chainEntries.getLast? with
  | none => simp
  | some tip => simp

theorem follows_next : Follows ps.chainEntries (producedEntry blake2b id ctx ps slot) := by
  constructor
  · intro hnil
    show ps.nextBlockNumber = 0
    rw [PeerState.nextBlockNumber, hnil]
    rfl
  · intro last hlast
    show ps.nextBlockNumber = last.blockNumber + 1
    rw [PeerState.nextBlockNumber, hlast]
    rfl

theorem produceSlot_skipped (h : ps.covers slot = true) :
    (produceSlot blake2b id kind ctx ps slot).1 = ps ∧
      (produceSlot blake2b id kind ctx ps slot).2.skipped = true := by
  rw [produceSlot, if_pos h]
  exact ⟨rfl, rfl⟩

/-- A body that is in the store stays there: what is put in its place is the same. -/
theorem produceSlot_keeps_body {key : UInt64 × List UInt8}
    (h : ps.blockStore[key]? = some [0xa0]) :
    (produceSlot blake2b id kind ctx ps slot).1.blockStore[key]? = some [0xa0] := by
  unfold produceSlot
  split
  · exact h
  · show (ps.blockStore.insert _ [0xa0])[key]? = _
    rw [Std.ExtTreeMap.getElem?_insert]
    split
    · rfl
    · exact h

theorem produceSlots_keeps_body {key : UInt64 × List UInt8} (slots : List UInt64)
    (h : ps.blockStore[key]? = some [0xa0]) :
    (produceSlots blake2b id kind ctx ps slots).1.blockStore[key]? = some [0xa0] := by
  induction slots generalizing ps with
  | nil => exact h
  | cons slot rest ih =>
      rw [produceSlots_cons]
      exact ih (produceSlot_keeps_body h)

/-- **The inner loop leaves a trail.** -/
theorem produceSlots_auditTrail (ps : PeerState) (slots : List UInt64) :
    ∃ entries, AuditTrail ps (produceSlots blake2b id kind ctx ps slots).1
      (produceSlots blake2b id kind ctx ps slots).2 entries := by
  induction slots generalizing ps with
  | nil => exact ⟨[], .nil ps⟩
  | cons slot rest ih =>
      obtain ⟨entries, htrail⟩ := ih (produceSlot blake2b id kind ctx ps slot).1
      rw [produceSlots_cons]
      by_cases hcovers : ps.covers slot = true
      · have hskip : (produceSlot blake2b id kind ctx ps slot).1 = ps ∧
            (produceSlot blake2b id kind ctx ps slot).2.skipped = true :=
              produceSlot_skipped hcovers
        obtain ⟨hsame, hskipped⟩ := hskip
        rw [hsame] at htrail ⊢
        refine ⟨entries, htrail.cons_skipped hskipped ?_⟩
        rw [produceSlot_event_slot]
        exact covers_iff.mp hcovers
      · have hslot : produceSlot blake2b id kind ctx ps slot =
            ({ ps with
                chainEntries := ps.chainEntries ++ [producedEntry blake2b id ctx ps slot]
                blockStore := ps.blockStore.insert
                  (slot, (producedEntry blake2b id ctx ps slot).blockHash) [0xa0] },
              (produceSlot blake2b id kind ctx ps slot).2) := by
          rw [produceSlot, if_neg hcovers]
        have hbody : (produceSlot blake2b id kind ctx ps slot).1.blockStore[(slot,
            (producedEntry blake2b id ctx ps slot).blockHash)]? = some [0xa0] := by
          rw [hslot]
          exact Std.ExtTreeMap.getElem?_insert_self
        refine ⟨producedEntry blake2b id ctx ps slot :: entries, htrail.cons_produced ?_ ?_ ?_ ?_
          follows_next ⟨rfl, rfl⟩ (produceSlots_keeps_body rest hbody)⟩
        · rw [hslot]
        · rw [produceSlot, if_neg hcovers]
        · rw [produceSlot_event_slot]
          exact mt covers_iff.mpr hcovers
        · rw [produceSlot, if_neg hcovers]
          exact ⟨rfl, rfl, rfl⟩

/-! ## The whole call -/

/-- What a call that returned says of one peer. -/
structure PeerAudited (ps ps' : PeerState) (old new : UInt64) (events : List ProductionEvent) :
    Prop where
  scheduled : SchedulesIn ps.productionRule old new (events.map (·.slot))
  trail : ∃ entries, AuditTrail ps ps' events entries
  /-- Without a scheduled slot nothing happens. -/
  idle : (∀ rule x, ps.productionRule = some rule → old < x → x ≤ new → ¬ Fires rule x) →
    ps' = ps ∧ events = []

theorem producePeer_auditTrail {old new : UInt64} {ps' : PeerState} {evs : List ProductionEvent}
    (h : producePeer blake2b old new id ps = some (ps', evs)) :
    ∃ entries, AuditTrail ps ps' evs entries := by
  rcases producePeer_spec h with ⟨-, rfl, rfl⟩ | ⟨rule, l, ctx, -, -, -, -, heq⟩
  · exact ⟨[], .nil ps'⟩
  · rw [(Prod.mk.inj heq).1, (Prod.mk.inj heq).2]
    exact produceSlots_auditTrail ps l

theorem producePeer_audited {old new : UInt64} {ps' : PeerState} {evs : List ProductionEvent}
    (hfit : ∀ rule, ps.productionRule = some rule → rule ≠ .none →
      old.toNat + 1 < 2 ^ 64 ∧ (old + 1 ≤ new → RuleFits rule (old + 1)))
    (h : producePeer blake2b old new id ps = some (ps', evs)) :
    PeerAudited ps ps' old new evs := by
  have htrail := producePeer_auditTrail h
  rcases producePeer_spec h with ⟨hidle, rfl, rfl⟩ | ⟨rule, l, ctx, hrule, hnone, hl, -, heq⟩
  · exact ⟨schedulesIn_idle hidle, htrail, fun _ => ⟨rfl, rfl⟩⟩
  · obtain ⟨hold, hsums⟩ := hfit rule hrule hnone
    have hsched : SchedulesIn (some rule) old new l := schedulesIn_of_slotsInRange hold hsums hl
    obtain ⟨rfl, rfl⟩ := Prod.mk.inj heq
    refine ⟨?_, htrail, fun hnever => ?_⟩
    · rw [produceSlots_event_slots, hrule]
      exact hsched
    · have hslots : l = [] := by
        refine List.eq_nil_iff_forall_not_mem.mpr fun x hx => ?_
        obtain ⟨hlt, hle, rule', hrule', hfires⟩ := (hsched.mem x).mp hx
        obtain rfl := Option.some.inj hrule'
        exact hnever rule x hrule hlt hle hfires
      rw [hslots]
      exact ⟨rfl, rfl⟩

theorem producePeer_returns {old new : UInt64}
    (hrules : ∀ rule, ps.productionRule = some rule →
      (ruleContext rule).isSome ∧ HasRoom rule new) :
    (producePeer blake2b old new id ps).isSome := by
  cases hrule : ps.productionRule with
  | none => rw [producePeer_idle (Or.inl hrule)]; rfl
  | some rule =>
      obtain ⟨hctx, hroom⟩ := hrules rule hrule
      obtain ⟨ctx, hctx⟩ := Option.isSome_iff_exists.mp hctx
      obtain ⟨l, hl⟩ := Option.isSome_iff_exists.mp (slotsInRange_returns (old + 1) hroom)
      rw [producePeer_rule hrule hl hctx]
      rfl

/-- **The trail of a call is exact.** With room above `new` a call returns, and when one returns
its events for a peer are what the peer's rule schedules in `(old, new]`, and say which of these
slots became which entry. -/
theorem production_audit {order : List String} {peers : PeerMap} {old new : UInt64}
    (horder : peers.IterOrder order) (hfit : RuleSumsFit peers old new) :
    ((∀ id ps rule, peers id = some ps → ps.productionRule = some rule →
        (ruleContext rule).isSome ∧ HasRoom rule new) →
      (applyProductionRules blake2b order peers old new).isSome) ∧
    ∀ peers' events, applyProductionRules blake2b order peers old new = some (peers', events) →
      (∀ id, peers id = none → peers' id = none ∧ eventsOf id events = []) ∧
      ∀ id ps, peers id = some ps → ∃ ps', peers' id = some ps' ∧
        PeerAudited ps ps' old new (eventsOf id events) := by
  refine ⟨fun hrules => ?_, fun peers' events h => ⟨fun id hid => ?_, fun id ps hps => ?_⟩⟩
  · refine (applyProductionRules_isSome horder).mpr fun id ps hps => ?_
    exact producePeer_returns (hrules id ps · hps)
  · exact applyProductionRules_none horder h hid
  · obtain ⟨ps', evs, hp, hps', rfl⟩ := applyProductionRules_peer horder h hps
    exact ⟨ps', hps', producePeer_audited (hfit id ps · hps) hp⟩

end

/-! ## A call from slot 0 to slot 7 -/

theorem production_audit_oneSlot :
    ((∀ id ps rule, oneSlotPeers id = some ps → ps.productionRule = some rule →
        (ruleContext rule).isSome ∧ HasRoom rule 7) →
      (applyProductionRules (fun _ => slotFiveDigest) ["p"] oneSlotPeers 0 7).isSome) ∧
    ∀ peers' events,
      applyProductionRules (fun _ => slotFiveDigest) ["p"] oneSlotPeers 0 7 =
        some (peers', events) →
      (∀ id, oneSlotPeers id = none → peers' id = none ∧ eventsOf id events = []) ∧
      ∀ id ps, oneSlotPeers id = some ps → ∃ ps', peers' id = some ps' ∧
        PeerAudited ps ps' 0 7 (eventsOf id events) :=
  production_audit oneSlotPeers_iterOrder oneSlotPeers_sumsFit

end ConformanceHarness.Proof
