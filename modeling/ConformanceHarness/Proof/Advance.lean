import ConformanceHarness.Proof.Production
import Mathlib.Data.List.Sort

/-!
# Splitting a time advance

`apply_production_rules(old, new)` evaluates every rule over `[old + 1, new]`.
When `old <= mid <= new`, the ranges `[old + 1, mid]` and `[mid + 1, new]` make
up `[old + 1, new]`, and the inner loop carries the chain tip across the split
like across any other two slots. So advancing in two steps is advancing in one.

There is one exception. `old_slot + 1` is not a saturating sum: at
`mid = u64::MAX` it wraps to 0, and the second call evaluates every rule over
the whole of `u64`. A rule with an interval is out of reach there, but an
`at_slots` rule fires all its slots once more.
-/

namespace ConformanceHarness.Proof

open ConformanceHarness

/-! ## Evaluating one rule -/

/-- A `wrong_hash` of 64 digits decodes. -/
theorem decodeHex_of_digits {wrong : String} (hlength : (strBytes wrong).length = 64)
    (hdigits : ∀ b ∈ strBytes wrong, (hexDigit b).isSome) :
    ∃ bytes, PeerState.decodeHex wrong = .ok bytes := by
  have hhex : ValidHex wrong := ⟨by rw [hlength], hdigits⟩
  obtain ⟨bytes, hbytes, -⟩ :=
    hhex.decode fun i => s!"invalid hex byte at offset {i}: {invalidDigit}"
  exact ⟨bytes, hbytes⟩

/-- A validated `wrong_hash` is 64 hex digits. -/
theorem Accepted.wrongHash {start : Option UInt64} {first interval brk : UInt64} {wrong : String}
    (h : (ProductionRule.brokenPrevHash first interval brk wrong).Accepted start) :
    (strBytes wrong).length = 64 ∧ ∀ b ∈ strBytes wrong, (hexDigit b).isSome := by
  have hv := h ""
  simp only [validateProductionRule, List.append_eq_nil_iff] at hv
  obtain ⟨⟨-, hwrong⟩, -⟩ := hv
  split at hwrong
  · simp at hwrong
  · rename_i hok
    obtain ⟨hlen, hall⟩ := not_or.mp hok
    refine ⟨not_not.mp hlen, fun b hb => ?_⟩
    by_contra hnone
    refine hall (List.any_eq_true.mpr ⟨b, hb, ?_⟩)
    simpa using hnone

/-- So no rule context fails. -/
theorem Accepted.ruleContext {start : Option UInt64} {rule : ProductionRule}
    (h : rule.Accepted start) : (ruleContext rule).isSome := by
  cases rule with
  | brokenPrevHash first interval brk wrong =>
      obtain ⟨hlength, hdigits⟩ := Accepted.wrongHash h
      obtain ⟨bytes, hdec⟩ := decodeHex_of_digits hlength hdigits
      simp [ConformanceHarness.ruleContext, hdec]
  | none => rfl
  | everyNSlots first interval => rfl
  | atSlots slots => rfl
  | forkedFromSlot first interval fork marker => rfl
  | skipsSlots first interval skipIndices => rfl

/-- No interval passes validation as 0. -/
theorem Accepted.interval_pos {start : Option UInt64} {rule : ProductionRule}
    (h : rule.Accepted start) {interval : UInt64} (hi : rule.interval? = some interval) :
    0 < interval.toNat := by
  rcases Nat.eq_zero_or_pos interval.toNat with h0 | h0
  · have hz : interval = 0 := UInt64.toNat_inj.mp h0
    have hv := h ""
    cases rule <;> simp [ProductionRule.interval?] at hi <;>
      simp [validateProductionRule, intervalErrors, hi, hz] at hv
  · exact h0

section

variable {blake2b : List UInt8 → List UInt8}

theorem producePeer_idle {old new : UInt64} {id : String} {ps : PeerState}
    (h : ps.productionRule = none ∨ ps.productionRule = some .none) :
    producePeer blake2b old new id ps = some (ps, []) := by
  rcases h with h | h <;> simp [producePeer, productionTask, h]

/-- A peer with a rule runs the inner loop over the slots that fire. -/
theorem producePeer_rule {old new : UInt64} {id : String} {ps : PeerState} {rule : ProductionRule}
    {ctx : RuleContext} {l : List UInt64} (hrule : ps.productionRule = some rule)
    (hl : rule.slotsInRange (old + 1) new = some l) (hctx : ruleContext rule = some ctx) :
    producePeer blake2b old new id ps = some (produceSlots blake2b id rule.kindStr ctx ps l) := by
  by_cases hnone : rule = .none
  · subst hnone
    obtain rfl : l = [] := by
      unfold ProductionRule.slotsInRange at hl
      split at hl <;> simpa using hl.symm
    rw [producePeer_idle (Or.inr hrule)]
    rfl
  · have htask : productionTask old new id ps =
        if l.isEmpty then some none else some (some ⟨id, rule.kindStr, l, ctx⟩) := by
      unfold productionTask
      rw [hrule]
      cases rule <;> simp_all
    rw [producePeer, htask]
    cases l with
    | nil => rfl
    | cons slot rest => rfl

/-! ## Two ranges that meet -/

/-- Slots are `u64`, and `mid + 1` is the slot after `mid` unless `mid` is the last one. -/
theorem succ_toNat {mid : UInt64} (h : mid ≠ u64Max) : (mid + 1).toNat = mid.toNat + 1 := by
  have hlt := mid.toNat_lt
  have hne : mid.toNat ≠ u64Max.toNat := fun he => h (UInt64.toNat_inj.mp he)
  have hmax : u64Max.toNat = 2 ^ 64 - 1 := rfl
  rw [UInt64.toNat_add, UInt64.toNat_one, Nat.mod_eq_of_lt (by omega)]

/-- **A schedule over a range is its schedule over the two halves.** -/
theorem slotsInRange_split {rule : ProductionRule} {old mid new : UInt64} (hord : Ordered rule)
    (hroom : HasRoom rule new) (h₁ : old ≤ mid) (h₂ : mid ≤ new) (hmax : mid ≠ u64Max) :
    ∃ l₁ l₂, rule.slotsInRange (old + 1) mid = some l₁ ∧
      rule.slotsInRange (mid + 1) new = some l₂ ∧
      rule.slotsInRange (old + 1) new = some (l₁ ++ l₂) := by
  rw [UInt64.le_iff_toNat_le] at h₁ h₂
  have hroom' : HasRoom rule mid := fun i hi => by
    have := hroom i hi
    omega
  obtain ⟨l₁, hl₁⟩ := Option.isSome_iff_exists.mp (slotsInRange_returns (old + 1) hroom')
  obtain ⟨l₂, hl₂⟩ := Option.isSome_iff_exists.mp (slotsInRange_returns (mid + 1) hroom)
  obtain ⟨l, hl⟩ := Option.isSome_iff_exists.mp (slotsInRange_returns (old + 1) hroom)
  obtain ⟨s₁, m₁⟩ := slotsInRange_spec hord (fun hle => ruleFits_of_room hle hroom') hl₁
  obtain ⟨s₂, m₂⟩ := slotsInRange_spec hord (fun hle => ruleFits_of_room hle hroom) hl₂
  obtain ⟨s, m⟩ := slotsInRange_spec hord (fun hle => ruleFits_of_room hle hroom) hl
  have hmid : (mid + 1).toNat = mid.toNat + 1 := succ_toNat hmax
  have hold : (old + 1).toNat = old.toNat + 1 := by
    refine succ_toNat fun he => ?_
    rw [he] at h₁
    have : u64Max.toNat = 2 ^ 64 - 1 := rfl
    have := mid.toNat_lt
    exact hmax (UInt64.toNat_inj.mp (by omega))
  -- both lists are strictly increasing, so it is enough that they have the same members
  have hsorted : (l₁ ++ l₂).Pairwise (· < ·) := by
    refine List.pairwise_append.mpr ⟨s₁, s₂, fun a ha b hb => ?_⟩
    have hle := ((m₁ a).mp ha).2.1
    have hge := ((m₂ b).mp hb).1
    rw [UInt64.le_iff_toNat_le] at hle hge
    rw [UInt64.lt_iff_toNat_lt]
    omega
  refine ⟨l₁, l₂, hl₁, hl₂, ?_⟩
  rw [hl]
  congr 1
  refine List.Pairwise.eq_of_mem_iff s hsorted fun x => ?_
  rw [List.mem_append, m, m₁, m₂]
  simp only [UInt64.le_iff_toNat_le, hmid, hold]
  constructor
  · rintro ⟨hlo, hhi, hf⟩
    rcases Nat.lt_or_ge mid.toNat x.toNat with hx | hx
    · exact Or.inr ⟨hx, hhi, hf⟩
    · exact Or.inl ⟨hlo, hx, hf⟩
  · rintro (⟨hlo, hhi, hf⟩ | ⟨hlo, hhi, hf⟩)
    · exact ⟨hlo, by omega, hf⟩
    · exact ⟨by omega, hhi, hf⟩

/-- Production of one peer over the two halves, run one after the other. -/
theorem producePeer_split {start : Option UInt64} {old mid new : UInt64} {id : String}
    {ps : PeerState} (hacc : ∀ rule, ps.productionRule = some rule → rule.Accepted start)
    (hroom : ∀ rule, ps.productionRule = some rule → HasRoom rule new) (h₁ : old ≤ mid)
    (h₂ : mid ≤ new) (hmax : mid = u64Max → ∀ slots, ps.productionRule ≠ some (.atSlots slots)) :
    ∃ ps₁ e₁ ps₂ e₂, producePeer blake2b old mid id ps = some (ps₁, e₁) ∧
      producePeer blake2b mid new id ps₁ = some (ps₂, e₂) ∧
      producePeer blake2b old new id ps = some (ps₂, e₁ ++ e₂) := by
  by_cases hidle : ps.productionRule = none ∨ ps.productionRule = some .none
  · exact ⟨ps, [], ps, [], producePeer_idle hidle, producePeer_idle hidle, producePeer_idle hidle⟩
  · obtain ⟨hne, hne'⟩ := not_or.mp hidle
    obtain ⟨rule, hrule⟩ := Option.ne_none_iff_exists'.mp hne
    obtain ⟨ctx, hctx⟩ := Option.isSome_iff_exists.mp (Accepted.ruleContext (hacc rule hrule))
    have hnotMax : mid ≠ u64Max := by
      intro he
      -- what is left at the last slot is a rule with an interval, and it has no room
      have hnew : new.toNat = 2 ^ 64 - 1 := by
        rw [he, UInt64.le_iff_toNat_le] at h₂
        have : u64Max.toNat = 2 ^ 64 - 1 := rfl
        have := new.toNat_lt
        omega
      have hno : ∀ i, rule.interval? ≠ some i := by
        intro i hi
        have := Accepted.interval_pos (hacc rule hrule) hi
        have := hroom rule hrule i hi
        omega
      cases rule with
      | none => exact hne' hrule
      | atSlots slots => exact hmax he slots hrule
      | everyNSlots first interval => exact hno _ rfl
      | forkedFromSlot first interval fork marker => exact hno _ rfl
      | skipsSlots first interval skipIndices => exact hno _ rfl
      | brokenPrevHash first interval brk wrong => exact hno _ rfl
    obtain ⟨l₁, l₂, hl₁, hl₂, hl⟩ :=
      slotsInRange_split (Accepted.ordered (hacc rule hrule)) (hroom rule hrule) h₁ h₂ hnotMax
    refine ⟨_, _, _, _, producePeer_rule hrule hl₁ hctx,
      producePeer_rule (by rw [produceSlots_rule, hrule]) hl₂ hctx, ?_⟩
    rw [producePeer_rule hrule hl hctx, produceSlots_append]

/-! ## The whole map -/

/-- What advancing is about: a peer's chain and its blocks. -/
def chainAndBlocks (ps : PeerState) : List ChainEntry × BlockStore :=
  (ps.chainEntries, ps.blockStore)

/-- Advancing from `old` to `mid` and on to `new` leaves the same chains and
blocks, and reports the same events of each peer, as advancing in one step. -/
def SplitAgrees (blake2b : List UInt8 → List UInt8) (order₁ order₂ order : List String)
    (peers : PeerMap) (old mid new : UInt64) : Prop :=
  ∃ peers₁ events₁ peers₂ events₂ peers' events,
    applyProductionRules blake2b order₁ peers old mid = some (peers₁, events₁) ∧
    applyProductionRules blake2b order₂ peers₁ mid new = some (peers₂, events₂) ∧
    applyProductionRules blake2b order peers old new = some (peers', events) ∧
    (∀ id, (peers₂ id).map chainAndBlocks = (peers' id).map chainAndBlocks) ∧
    ∀ id, eventsOf id events₁ ++ eventsOf id events₂ = eventsOf id events

/-- Every rule of the map passed validation, and has room above `new`. -/
structure Sound (peers : PeerMap) (start : Option UInt64) (new : UInt64) : Prop where
  accepted : ∀ id ps rule, peers id = some ps → ps.productionRule = some rule → rule.Accepted start
  room : ∀ id ps rule, peers id = some ps → ps.productionRule = some rule → HasRoom rule new

/-- A second call at the last slot reports the slots of an `at_slots` rule once more. -/
theorem not_splitAgrees_of_max {order₁ order₂ order : List String} {peers : PeerMap}
    {start : Option UInt64} {old : UInt64} (horder₁ : peers.IterOrder order₁)
    (horder₂ : peers.IterOrder order₂) (horder : peers.IterOrder order) {id : String}
    {ps : PeerState} {slots : List UInt64} (hps : peers id = some ps)
    (hrule : ps.productionRule = some (.atSlots slots))
    (hacc : (ProductionRule.atSlots slots).Accepted start) :
    ¬ SplitAgrees blake2b order₁ order₂ order peers old u64Max u64Max := by
  rintro ⟨peers₁, events₁, peers₂, events₂, peers', events, hc₁, hc₂, hc, -, hev⟩
  obtain ⟨ps₁, e₁, hp₁, hps₁, he₁⟩ := applyProductionRules_peer horder₁ hc₁ hps
  obtain ⟨ps₂, e₂, hp₂, -, he₂⟩ :=
    applyProductionRules_peer (IterOrder.after horder₁ hc₁ horder₂) hc₂ hps₁
  obtain ⟨ps', e, hp, -, he⟩ := applyProductionRules_peer horder hc hps
  -- the first call and the single call are one and the same for this peer
  rw [hp₁] at hp
  have hee : e₁ = e := (Prod.mk.inj (Option.some.inj hp)).2
  have hctx : ruleContext (.atSlots slots) = some .honest := rfl
  have hrule₁ : ps₁.productionRule = some (.atSlots slots) := by
    have hl : (ProductionRule.atSlots slots).slotsInRange (old + 1) u64Max
        = some (slots.filter fun s => s ≥ old + 1 && s ≤ u64Max) := by
      rw [ProductionRule.slotsInRange, if_neg]
      have : u64Max.toNat = 2 ^ 64 - 1 := rfl
      have := (old + 1).toNat_lt
      rw [gt_iff_lt, UInt64.lt_iff_toNat_lt]
      omega
    rw [producePeer_rule hrule hl hctx] at hp₁
    rw [← (Prod.mk.inj (Option.some.inj hp₁)).1, produceSlots_rule, hrule]
  have hall : (ProductionRule.atSlots slots).slotsInRange (u64Max + 1) u64Max = some slots := by
    have hzero : u64Max + 1 = 0 := rfl
    rw [hzero, ProductionRule.slotsInRange, if_neg (by decide)]
    refine congrArg some (List.filter_eq_self.mpr fun s _ => ?_)
    have : u64Max.toNat = 2 ^ 64 - 1 := rfl
    have := s.toNat_lt
    simp only [ge_iff_le, Bool.and_eq_true, decide_eq_true_eq, UInt64.le_iff_toNat_le]
    exact ⟨Nat.zero_le _, by omega⟩
  rw [producePeer_rule hrule₁ hall hctx] at hp₂
  have hslots : e₂.map (·.slot) = slots := by
    rw [← (Prod.mk.inj (Option.some.inj hp₂)).2, produceSlots_event_slots]
  have hnil : e₂ = [] := by
    have := hev id
    rw [he₁, he₂, he, ← hee] at this
    exact List.self_eq_append_right.mp this.symm
  exact Accepted.atSlots_ne_nil hacc (by rw [← hslots, hnil]; rfl)

/-- **Splitting a time advance changes nothing**, unless it splits at the last
slot of `u64` and some peer has an `at_slots` rule. -/
theorem splitAgrees_iff {order₁ order₂ order : List String} {peers : PeerMap}
    {start : Option UInt64} {old mid new : UInt64} (horder₁ : peers.IterOrder order₁)
    (horder₂ : peers.IterOrder order₂) (horder : peers.IterOrder order)
    (hsound : Sound peers start new) (h₁ : old ≤ mid) (h₂ : mid ≤ new) :
    SplitAgrees blake2b order₁ order₂ order peers old mid new ↔
      (mid = u64Max →
        ∀ id ps slots, peers id = some ps → ps.productionRule ≠ some (.atSlots slots)) := by
  constructor
  · rintro hagree rfl id ps slots hps hrule
    have hnew : new = u64Max := by
      rw [UInt64.le_iff_toNat_le] at h₂
      have : u64Max.toNat = 2 ^ 64 - 1 := rfl
      have := new.toNat_lt
      exact UInt64.toNat_inj.mp (by omega)
    subst hnew
    exact not_splitAgrees_of_max horder₁ horder₂ horder hps hrule
      (hsound.accepted id ps _ hps hrule) hagree
  · intro hmax
    have hsplit : ∀ id ps, peers id = some ps → ∃ ps₁ e₁ ps₂ e₂,
        producePeer blake2b old mid id ps = some (ps₁, e₁) ∧
        producePeer blake2b mid new id ps₁ = some (ps₂, e₂) ∧
        producePeer blake2b old new id ps = some (ps₂, e₁ ++ e₂) := fun id ps hps =>
      producePeer_split (hsound.accepted id ps · hps) (hsound.room id ps · hps) h₁ h₂
        fun he slots => hmax he id ps slots hps
    -- all three calls return
    obtain ⟨⟨peers₁, events₁⟩, hc₁⟩ :
        ∃ r, applyProductionRules blake2b order₁ peers old mid = some r := by
      refine Option.isSome_iff_exists.mp ((applyProductionRules_isSome horder₁).mpr ?_)
      intro id ps hps
      obtain ⟨_, _, _, _, hp, -⟩ := hsplit id ps hps
      rw [hp]
      rfl
    obtain ⟨⟨peers', events⟩, hc⟩ :
        ∃ r, applyProductionRules blake2b order peers old new = some r := by
      refine Option.isSome_iff_exists.mp ((applyProductionRules_isSome horder).mpr ?_)
      intro id ps hps
      obtain ⟨_, _, _, _, -, -, hp⟩ := hsplit id ps hps
      rw [hp]
      rfl
    have horder₂' := IterOrder.after horder₁ hc₁ horder₂
    obtain ⟨⟨peers₂, events₂⟩, hc₂⟩ :
        ∃ r, applyProductionRules blake2b order₂ peers₁ mid new = some r := by
      refine Option.isSome_iff_exists.mp ((applyProductionRules_isSome horder₂').mpr ?_)
      intro id ps₁ hps₁
      cases hps : peers id with
      | none =>
          rw [(applyProductionRules_none horder₁ hc₁ hps).1] at hps₁
          simp at hps₁
      | some ps =>
          obtain ⟨_, _, hp, hps₁', -⟩ := applyProductionRules_peer horder₁ hc₁ hps
          obtain ⟨_, _, _, _, hp₁, hp₂, -⟩ := hsplit id ps hps
          rw [hp₁] at hp
          obtain ⟨rfl, -⟩ := Prod.mk.inj (Option.some.inj hp)
          rw [hps₁] at hps₁'
          rw [Option.some.inj hps₁', hp₂]
          rfl
    refine ⟨peers₁, events₁, peers₂, events₂, peers', events, hc₁, hc₂, hc, ?_⟩
    -- and each peer ends up the same way
    suffices hpeer : ∀ id, peers₂ id = peers' id ∧
        eventsOf id events₁ ++ eventsOf id events₂ = eventsOf id events by
      exact ⟨fun id => by rw [(hpeer id).1], fun id => (hpeer id).2⟩
    intro id
    cases hps : peers id with
    | none =>
        obtain ⟨hn₁, he₁⟩ := applyProductionRules_none horder₁ hc₁ hps
        obtain ⟨hn₂, he₂⟩ := applyProductionRules_none horder₂' hc₂ hn₁
        obtain ⟨hn, he⟩ := applyProductionRules_none horder hc hps
        rw [hn₂, hn, he₁, he₂, he]
        exact ⟨rfl, rfl⟩
    | some ps =>
        obtain ⟨ps₁, e₁, ps₂, e₂, hp₁, hp₂, hp⟩ := hsplit id ps hps
        obtain ⟨_, _, hq₁, hs₁, he₁⟩ := applyProductionRules_peer horder₁ hc₁ hps
        rw [hp₁] at hq₁
        obtain ⟨rfl, rfl⟩ := Prod.mk.inj (Option.some.inj hq₁)
        obtain ⟨_, _, hq₂, hs₂, he₂⟩ := applyProductionRules_peer horder₂' hc₂ hs₁
        rw [hp₂] at hq₂
        obtain ⟨rfl, rfl⟩ := Prod.mk.inj (Option.some.inj hq₂)
        obtain ⟨_, _, hq, hs, he⟩ := applyProductionRules_peer horder hc hps
        rw [hp] at hq
        obtain ⟨rfl, rfl⟩ := Prod.mk.inj (Option.some.inj hq)
        rw [hs₂, hs, he₁, he₂, he]
        exact ⟨rfl, rfl⟩

end

/-! ## A peer that produces at slot 5 -/

/-- One declared peer, `p`, with an `at_slots` rule and an empty chain. -/
def oneSlotPeers : PeerMap :=
  PeerMap.insert (fun _ => none) "p" { PeerState.new with productionRule := some (.atSlots [5]) }

/-- Blake2b-256 of `p`, slot 5 and 32 zero bytes: the only input hashed below. -/
def slotFiveDigest : List UInt8 :=
  [194, 190, 48, 37, 0, 113, 131, 119, 57, 18, 101, 245, 143, 204, 183, 17, 79, 163, 27, 161, 51,
    195, 31, 199, 145, 211, 158, 17, 55, 5, 82, 77]

theorem oneSlotPeers_iterOrder : oneSlotPeers.IterOrder ["p"] := by
  refine ⟨List.nodup_singleton _, fun id => ?_⟩
  by_cases h : id = "p" <;> simp [oneSlotPeers, PeerMap.insert, h]

theorem oneSlotPeers_p :
    oneSlotPeers "p" = some { PeerState.new with productionRule := some (.atSlots [5]) } :=
  PeerMap.insert_self ..

theorem oneSlotPeers_rule {id : String} {ps : PeerState} {rule : ProductionRule}
    (hps : oneSlotPeers id = some ps) (hrule : ps.productionRule = some rule) :
    rule = .atSlots [5] := by
  by_cases h : id = "p"
  · simp only [oneSlotPeers, PeerMap.insert, if_pos h, Option.some.injEq] at hps
    rw [← hps] at hrule
    exact (Option.some.inj hrule).symm
  · simp [oneSlotPeers, PeerMap.insert, h] at hps

theorem oneSlotPeers_sound (new : UInt64) : Sound oneSlotPeers none new where
  accepted id ps rule hps hrule := by
    rw [oneSlotPeers_rule hps hrule]
    intro pos
    rfl
  room id ps rule hps hrule := by
    rw [oneSlotPeers_rule hps hrule]
    intro i hi
    simp [ProductionRule.interval?] at hi

theorem splitAgrees_iff_oneSlot :
    SplitAgrees (fun _ => slotFiveDigest) ["p"] ["p"] ["p"] oneSlotPeers 0 5 9 ↔
      ((5 : UInt64) = u64Max →
        ∀ id ps slots, oneSlotPeers id = some ps → ps.productionRule ≠ some (.atSlots slots)) :=
  splitAgrees_iff oneSlotPeers_iterOrder oneSlotPeers_iterOrder oneSlotPeers_iterOrder
    (oneSlotPeers_sound 9) (by decide) (by decide)

/-- The clock reaches the last slot and then ticks by 0: slot 5 fires, long after its time. -/
theorem split_fires_at_the_last_slot :
    oneSlotPeers.IterOrder ["p"] ∧ Sound oneSlotPeers none u64Max ∧ (10 : UInt64) ≤ u64Max ∧
      ¬ SplitAgrees (fun _ => slotFiveDigest) ["p"] ["p"] ["p"] oneSlotPeers 10 u64Max u64Max := by
  refine ⟨oneSlotPeers_iterOrder, oneSlotPeers_sound _, by decide, ?_⟩
  exact not_splitAgrees_of_max oneSlotPeers_iterOrder oneSlotPeers_iterOrder oneSlotPeers_iterOrder
    oneSlotPeers_p rfl ((oneSlotPeers_sound 0).accepted "p" _ _ oneSlotPeers_p rfl)

end ConformanceHarness.Proof
