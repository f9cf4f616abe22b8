import ConformanceHarness.Proof.Clock

/-!
# What a produced header shows

A Chain-Sync client sees a block as its header: an era variant and header bytes.
The bytes of a produced block encode its block number and its slot and nothing
else, while the defects of `forked_from_slot` and `broken_prev_hash` go into the
hash. So two produced headers are equal exactly when number and slot are, and a
defect shows in the hashes recorded, not in the headers served.

Within the chain of one peer a header does identify its block: slots increase
along a chain, so two produced entries with one header are one entry.
-/

namespace ConformanceHarness.Proof

open ConformanceHarness Lib

/-! ## The encoding of an unsigned integer can be read back -/

/-- Bytes as a big-endian number. -/
def bigEndian (bytes : List UInt8) : Nat := bytes.foldl (fun acc b => acc * 256 + b.toNat) 0

/-- How many bytes follow the initial byte of an unsigned integer. -/
def argumentBytes (initial : UInt8) : Nat :=
  if initial = 0x18 then 1 else if initial = 0x19 then 2 else if initial = 0x1a then 4 else 8

/-- A reader for CBOR unsigned integers. -/
def readCborUint : List UInt8 → Option (Nat × List UInt8)
  | [] => none
  | initial :: rest =>
    if initial ≤ 23 then some (initial.toNat, rest)
    else some (bigEndian (rest.take (argumentBytes initial)), rest.drop (argumentBytes initial))

/-- The byte of a number above `2 ^ k`, as the encoder cuts it out. -/
theorem shifted_byte_toNat (v k : UInt64) (hk : k.toNat < 64) :
    ((v >>> k) &&& 0xFF).toUInt8.toNat = v.toNat / 2 ^ k.toNat % 256 := by
  rw [UInt64.toNat_toUInt8, UInt64.toNat_and, UInt64.toNat_shiftRight, Nat.mod_eq_of_lt hk,
    Nat.shiftRight_eq_div_pow]
  have : (0xFF : UInt64).toNat = 2 ^ 8 - 1 := rfl
  rw [this, Nat.and_two_pow_sub_one_eq_mod]
  omega

theorem top_byte_toNat (v k : UInt64) (hk : k.toNat < 64) :
    (v >>> k).toUInt8.toNat = v.toNat / 2 ^ k.toNat % 256 := by
  rw [UInt64.toNat_toUInt8, UInt64.toNat_shiftRight, Nat.mod_eq_of_lt hk,
    Nat.shiftRight_eq_div_pow]

theorem low_byte_toNat (v : UInt64) : (v &&& 0xFF).toUInt8.toNat = v.toNat % 256 := by
  have h := shifted_byte_toNat v 0 (by decide)
  have hz : v >>> 0 = v := UInt64.shiftRight_zero
  rw [hz] at h
  simpa using h

/-- A byte below those that have been read. -/
theorem next_byte (n : Nat) {j k : Nat} (h : j = k + 8) :
    n / 2 ^ j * 256 + n / 2 ^ k % 256 = n / 2 ^ k := by
  subst h
  rw [Nat.pow_add, ← Nat.div_div_eq_div_mul]
  exact Nat.div_add_mod' (n / 2 ^ k) 256

/-- The lowest byte. -/
theorem last_byte (n : Nat) : n / 2 ^ 8 * 256 + n % 256 = n := Nat.div_add_mod' n 256

/-- **An encoded integer reads back**, whatever follows it. -/
theorem readCborUint_cborUint (v : UInt64) (rest : List UInt8) :
    readCborUint (cborUint v ++ rest) = some (v.toNat, rest) := by
  have hv := v.toNat_lt
  unfold cborUint
  split
  · rename_i h
    have h' : v.toNat ≤ 23 := UInt64.le_iff_toNat_le.mp h
    have hb : v.toUInt8.toNat = v.toNat := by
      rw [UInt64.toNat_toUInt8]
      omega
    have hle : v.toUInt8 ≤ 23 := by
      rw [UInt8.le_iff_toNat_le, hb]
      exact h'
    simp [readCborUint, hle, hb]
  · split
    · rename_i h
      have h' : v.toNat ≤ 0xFF := UInt64.le_iff_toNat_le.mp h
      have hb : v.toUInt8.toNat = v.toNat := by
        rw [UInt64.toNat_toUInt8]
        omega
      simp [readCborUint, argumentBytes, bigEndian, hb]
    · split
      · rename_i h
        have h' : v.toNat ≤ 0xFFFF := UInt64.le_iff_toNat_le.mp h
        have h1 := top_byte_toNat v 8 (by decide)
        have h0 := low_byte_toNat v
        have hval : (v >>> 8).toUInt8.toNat * 256 + (v &&& 0xFF).toUInt8.toNat = v.toNat := by
          rw [h1, h0]
          simp only [UInt64.reduceToNat]
          rw [Nat.mod_eq_of_lt (by omega), last_byte]
        simpa [readCborUint, argumentBytes, bigEndian] using hval
      · split
        · rename_i h
          have h' : v.toNat ≤ 0xFFFFFFFF := UInt64.le_iff_toNat_le.mp h
          have h3 := top_byte_toNat v 24 (by decide)
          have h2 := shifted_byte_toNat v 16 (by decide)
          have h1 := shifted_byte_toNat v 8 (by decide)
          have h0 := low_byte_toNat v
          have hval : (((v >>> 24).toUInt8.toNat * 256 +
              ((v >>> 16) &&& 0xFF).toUInt8.toNat) * 256 +
              ((v >>> 8) &&& 0xFF).toUInt8.toNat) * 256 + (v &&& 0xFF).toUInt8.toNat = v.toNat := by
            rw [h3, h2, h1, h0]
            simp only [UInt64.reduceToNat]
            have htop : v.toNat / 2 ^ 24 % 256 = v.toNat / 2 ^ 24 := Nat.mod_eq_of_lt (by omega)
            rw [htop, next_byte v.toNat rfl, next_byte v.toNat rfl, last_byte]
          simpa [readCborUint, argumentBytes, bigEndian] using hval
        · have h7 := top_byte_toNat v 56 (by decide)
          have h6 := shifted_byte_toNat v 48 (by decide)
          have h5 := shifted_byte_toNat v 40 (by decide)
          have h4 := shifted_byte_toNat v 32 (by decide)
          have h3 := shifted_byte_toNat v 24 (by decide)
          have h2 := shifted_byte_toNat v 16 (by decide)
          have h1 := shifted_byte_toNat v 8 (by decide)
          have h0 := low_byte_toNat v
          have hval : (((((((v >>> 56).toUInt8.toNat * 256 +
              ((v >>> 48) &&& 0xFF).toUInt8.toNat) * 256 +
              ((v >>> 40) &&& 0xFF).toUInt8.toNat) * 256 +
              ((v >>> 32) &&& 0xFF).toUInt8.toNat) * 256 +
              ((v >>> 24) &&& 0xFF).toUInt8.toNat) * 256 +
              ((v >>> 16) &&& 0xFF).toUInt8.toNat) * 256 +
              ((v >>> 8) &&& 0xFF).toUInt8.toNat) * 256 + (v &&& 0xFF).toUInt8.toNat = v.toNat := by
            rw [h7, h6, h5, h4, h3, h2, h1, h0]
            simp only [UInt64.reduceToNat]
            have htop : v.toNat / 2 ^ 56 % 256 = v.toNat / 2 ^ 56 := Nat.mod_eq_of_lt (by omega)
            rw [htop, next_byte v.toNat rfl, next_byte v.toNat rfl, next_byte v.toNat rfl,
              next_byte v.toNat rfl, next_byte v.toNat rfl, next_byte v.toNat rfl, last_byte]
          simpa [readCborUint, argumentBytes, bigEndian] using hval

/-- No encoded integer is a prefix of another. -/
theorem cborUint_append_inj {v w : UInt64} {r t : List UInt8}
    (h : cborUint v ++ r = cborUint w ++ t) : v = w ∧ r = t := by
  have hv := readCborUint_cborUint v r
  rw [h, readCborUint_cborUint] at hv
  obtain ⟨hn, hr⟩ := Prod.mk.inj (Option.some.inj hv)
  exact ⟨UInt64.toNat_inj.mp hn.symm, hr.symm⟩

/-- **A synthetic header says its block number and its slot.** -/
theorem syntheticHeaderCbor_inj {n n' slot slot' : UInt64} :
    syntheticHeaderCbor n slot = syntheticHeaderCbor n' slot' ↔ slot = slot' ∧ n = n' := by
  constructor
  · intro h
    simp only [syntheticHeaderCbor, List.append_assoc] at h
    obtain ⟨hn, hrest⟩ := cborUint_append_inj (List.append_cancel_left h)
    exact ⟨(cborUint_append_inj hrest).1, hn⟩
  · rintro ⟨rfl, rfl⟩
    rfl

/-! ## How production grows a chain -/

/-- The header is the one production writes. -/
def Synthetic (e : ChainEntry) : Prop :=
  e.headerCbor = syntheticHeaderCbor e.blockNumber e.slot ∧ e.variant = defaultHeaderVariant

/-- `ps'` is `ps` with synthetic entries past its tip, in slot order. -/
structure Grows (ps ps' : PeerState) (new : List ChainEntry) : Prop where
  chain : ps'.chainEntries = ps.chainEntries ++ new
  synthetic : ∀ e ∈ new, Synthetic e
  sorted : (ps.chainTipSlot.toList ++ new.map (·.slot)).Pairwise (· < ·)

theorem Grows.refl (ps : PeerState) : Grows ps ps [] where
  chain := (List.append_nil _).symm
  synthetic := by simp
  sorted := by cases ps.chainTipSlot <;> simp

theorem chainTipSlot_append {ps ps' : PeerState} {new : List ChainEntry} {last : ChainEntry}
    (h : ps'.chainEntries = ps.chainEntries ++ (new ++ [last])) :
    ps'.chainTipSlot = some last.slot := by
  rw [PeerState.chainTipSlot, h, ← List.append_assoc, List.getLast?_concat]
  rfl

/-- The tip a grown chain ends in: the last new entry, or the old tip. -/
theorem Grows.tip {ps ps' : PeerState} {new : List ChainEntry} (h : Grows ps ps' new) :
    ps'.chainTipSlot = ((ps.chainTipSlot.toList ++ new.map (·.slot)).getLast?) := by
  rcases List.eq_nil_or_concat' new with rfl | ⟨init, last, rfl⟩
  · rw [PeerState.chainTipSlot, h.chain, List.append_nil, List.map_nil, List.append_nil]
    show ps.chainTipSlot = _
    cases ps.chainTipSlot <;> rfl
  · rw [chainTipSlot_append h.chain, List.map_append, ← List.append_assoc, List.map_singleton,
      List.getLast?_concat]

/-- Everything a grown chain gained lies at or below its tip, and so does the old tip. -/
theorem Grows.le_tip {ps ps' : PeerState} {new : List ChainEntry} (h : Grows ps ps' new)
    {x : UInt64} (hx : x ∈ ps.chainTipSlot.toList ++ new.map (·.slot)) :
    ∃ tip, ps'.chainTipSlot = some tip ∧ x ≤ tip := by
  have hs := h.sorted
  rw [h.tip]
  rcases List.eq_nil_or_concat' (ps.chainTipSlot.toList ++ new.map (·.slot)) with
    hnil | ⟨init, last, heq⟩
  · rw [hnil] at hx
    simp at hx
  · rw [heq] at hx hs ⊢
    refine ⟨last, List.getLast?_concat, ?_⟩
    rcases List.mem_append.mp hx with hx | hx
    · exact UInt64.le_of_lt ((List.pairwise_append.mp hs).2.2 x hx last List.mem_cons_self)
    · rw [List.mem_singleton.mp hx]
      exact UInt64.le_refl _

section

variable {blake2b : List UInt8 → List UInt8}

theorem Grows.step {id kind : String} {ctx : RuleContext} {ps ps' : PeerState}
    {new : List ChainEntry} (h : Grows ps ps' new) (slot : UInt64) :
    ∃ new', Grows ps (produceSlot blake2b id kind ctx ps' slot).1 new' := by
  unfold produceSlot
  by_cases hcov : ps'.covers slot = true
  · rw [if_pos hcov]
    exact ⟨new, h⟩
  · rw [if_neg hcov]
    have habove : ∀ tip, ps'.chainTipSlot = some tip → tip < slot := by
      intro tip htip
      rw [PeerState.covers, htip] at hcov
      simpa using hcov
    refine ⟨new ++ [producedEntry blake2b id ctx ps' slot], ?_, ?_, ?_⟩
    · show ps'.chainEntries ++ _ = _
      rw [h.chain, List.append_assoc]
    · intro e he
      rcases List.mem_append.mp he with he | he
      · exact h.synthetic e he
      · rw [List.mem_singleton.mp he]
        exact ⟨rfl, rfl⟩
    · rw [List.map_append, ← List.append_assoc]
      refine List.pairwise_append.mpr ⟨h.sorted, List.pairwise_singleton _ _, ?_⟩
      intro x hx y hy
      obtain ⟨tip, htip, hle⟩ := h.le_tip hx
      rw [List.mem_singleton.mp hy]
      exact UInt64.lt_of_le_of_lt hle (habove tip htip)

theorem Grows.run {id kind : String} {ctx : RuleContext} {ps : PeerState}
    {l : List UInt64} :
    ∀ {ps' : PeerState} {new : List ChainEntry}, Grows ps ps' new →
      ∃ new', Grows ps (produceSlots blake2b id kind ctx ps' l).1 new' := by
  induction l with
  | nil =>
      intro ps' new h
      exact ⟨new, h⟩
  | cons slot rest ih =>
      intro ps' new h
      have hfirst : ∃ new', Grows ps (produceSlot blake2b id kind ctx ps' slot).1 new' :=
        h.step slot
      obtain ⟨new', h'⟩ := hfirst
      exact ih h'

/-- **What a call does to one peer's chain**: it grows. -/
theorem producePeer_grows {old new : UInt64} {id : String} {ps ps' : PeerState}
    {evs : List ProductionEvent} (h : producePeer blake2b old new id ps = some (ps', evs)) :
    ∃ entries, Grows ps ps' entries := by
  rcases producePeer_spec h with ⟨-, rfl, -⟩ | ⟨rule, l, ctx, -, -, -, -, heq⟩
  · exact ⟨[], Grows.refl _⟩
  · rw [(Prod.mk.inj heq).1]
    exact Grows.run (Grows.refl ps)

/-! ## Along a run -/

/-- What production has put on one peer's chain so far. -/
structure ProducedInv (s : RunState) (id : String) : Prop where
  synthetic : ∀ e ∈ s.produced id, Synthetic e
  sorted : (s.produced id).Pairwise fun e e' => e.slot < e'.slot
  below : ∀ ps, s.peers id = some ps → ∀ e ∈ s.produced id,
    ∃ tip, ps.chainTipSlot = some tip ∧ e.slot ≤ tip

theorem producedInv_initial (start : Option UInt64) (peers : PeerMap) (vars : VarStore)
    (id : String) : ProducedInv (RunState.initial start peers vars) id where
  synthetic := by simp [RunState.initial]
  sorted := List.Pairwise.nil
  below := by simp [RunState.initial]

/-- **Preserved by every segment**, overflow or not. -/
theorem producedInv_step {a : Segment} {s s' : RunState} {rest : Code Segment} {id : String}
    (h : Executes blake2b a s s' rest) (hinv : ProducedInv s id) : ProducedInv s' id := by
  cases Executes.network h with
  | quiet vars heq =>
      rw [heq]
      exact ⟨hinv.synthetic, hinv.sorted, hinv.below⟩
  | extended other ps entry body hps htip heq =>
      rw [heq]
      refine ⟨hinv.synthetic, hinv.sorted, fun ps' hps' e he => ?_⟩
      by_cases hid : id = other
      · -- the explicit entry is the new tip, above everything produced before
        rw [hid] at hps' he
        dsimp only at hps'
        rw [PeerMap.insert_self] at hps'
        obtain ⟨tip, ht, hle⟩ := hinv.below ps (by rw [hid, hps]) e (by rw [hid]; exact he)
        refine ⟨entry.slot, ?_, UInt64.le_trans hle (UInt64.le_of_lt (htip tip ht))⟩
        rw [← Option.some.inj hps']
        show (ps.chainEntries ++ [entry]).getLast?.map (·.slot) = some entry.slot
        rw [List.getLast?_concat]
        rfl
      · dsimp only at hps'
        rw [PeerMap.insert_ne _ _ hid] at hps'
        exact hinv.below ps' hps' e he
  | advanced order old new horder hold hmoved hforward =>
      obtain ⟨⟨peers', events⟩, hc, heq⟩ := Option.map_eq_some_iff.mp hmoved
      have hproduced : s'.produced id = s.produced id ++ appended (s.peers id) (peers' id) := by
        rw [← heq]
      have hpeers : s'.peers = peers' := by rw [← heq]
      cases hps : s.peers id with
      | none =>
          have hnone := (applyProductionRules_none horder hc hps).1
          have hsame : s'.produced id = s.produced id := by
            rw [hproduced, hps, hnone]
            exact List.append_nil _
          refine ⟨by rw [hsame]; exact hinv.synthetic, by rw [hsame]; exact hinv.sorted, ?_⟩
          intro ps' hps'
          rw [hpeers, hnone] at hps'
          simp at hps'
      | some ps =>
          obtain ⟨ps', evs, hp, hps', -⟩ := applyProductionRules_peer horder hc hps
          obtain ⟨entries, hgrows⟩ := producePeer_grows hp
          have hall : s'.produced id = s.produced id ++ entries := by
            rw [hproduced, hps, hps', appended, hgrows.chain, List.drop_left]
          have hsplit := List.pairwise_append.mp hgrows.sorted
          refine ⟨?_, ?_, ?_⟩
          · intro e he
            rw [hall] at he
            rcases List.mem_append.mp he with he | he
            · exact hinv.synthetic e he
            · exact hgrows.synthetic e he
          · rw [hall]
            refine List.pairwise_append.mpr ⟨hinv.sorted, List.pairwise_map.mp hsplit.2.1, ?_⟩
            intro e he e' he'
            obtain ⟨tip, htip, hle⟩ := hinv.below ps hps e he
            have hlt := hsplit.2.2 tip (by rw [htip]; exact List.mem_singleton_self tip) e'.slot
              (List.mem_map_of_mem he')
            exact UInt64.lt_of_le_of_lt hle hlt
          · intro ps'' hps'' e he
            rw [hpeers, hps'] at hps''
            rw [← Option.some.inj hps'']
            rw [hall] at he
            rcases List.mem_append.mp he with he | he
            · obtain ⟨tip, htip, hle⟩ := hinv.below ps hps e he
              obtain ⟨tip', htip', hle'⟩ := hgrows.le_tip
                (List.mem_append_left _ (by rw [htip]; exact List.mem_singleton_self tip))
              exact ⟨tip', htip', UInt64.le_trans hle hle'⟩
            · exact hgrows.le_tip (List.mem_append_right _ (List.mem_map_of_mem he))

theorem producedInv_runs {start : Option UInt64} {peers : PeerMap} {vars : VarStore}
    {steps : List StepDef} {s : RunState}
    (h : RunsTo blake2b steps (RunState.initial start peers vars) s) (id : String) :
    ProducedInv s id := by
  obtain ⟨rest, hreach⟩ := h
  exact hreach.invariant (fun a s s' rest hs hi => producedInv_step hs hi)
    (producedInv_initial start peers vars id)

/-! ## Two peers, two networks -/

/-- When a rule fires, for the rules that are one schedule with different defects. -/
def timing? : ProductionRule → Option (UInt64 × UInt64)
  | .everyNSlots firstSlot interval => some (firstSlot, interval)
  | .forkedFromSlot firstSlot interval _ _ => some (firstSlot, interval)
  | .brokenPrevHash firstSlot interval _ _ => some (firstSlot, interval)
  | _ => none

theorem slotsInRange_of_timing {rule rule' : ProductionRule} {t : UInt64 × UInt64}
    (h : timing? rule = some t) (h' : timing? rule' = some t) (fromSlot toSlot : UInt64) :
    rule.slotsInRange fromSlot toSlot = rule'.slotsInRange fromSlot toSlot := by
  have key : ∀ r : ProductionRule, timing? r = some t → r.slotsInRange fromSlot toSlot =
      if fromSlot > toSlot then some [] else everyNSlotsRange t.1 t.2 fromSlot toSlot := by
    intro r hr
    cases r <;> simp [timing?] at hr <;> subst hr <;> rfl
  rw [key rule h, key rule' h']

/-- What Chain-Sync serves of an entry, and what orders it: everything but the hash. -/
def servedPart (e : ChainEntry) : UInt64 × UInt64 × List UInt8 × UInt8 :=
  (e.slot, e.blockNumber, e.headerCbor, e.variant)

/-- Two chains with the same headers. -/
def SameHeaders (ps ps' : PeerState) : Prop :=
  ps.chainEntries.map servedPart = ps'.chainEntries.map servedPart

theorem SameHeaders.last {ps ps' : PeerState} (h : SameHeaders ps ps') :
    ps.chainEntries.getLast?.map servedPart = ps'.chainEntries.getLast?.map servedPart := by
  rw [← List.getLast?_map, h, List.getLast?_map]

theorem SameHeaders.nextBlockNumber {ps ps' : PeerState} (h : SameHeaders ps ps') :
    ps.nextBlockNumber = ps'.nextBlockNumber := by
  have hlast := congrArg (Option.map fun p => p.2.1 + 1) h.last
  unfold PeerState.nextBlockNumber
  rw [show ps.chainEntries.getLast?.map (·.blockNumber + 1)
    = ps'.chainEntries.getLast?.map (·.blockNumber + 1) by
      simpa [servedPart, Function.comp_def] using hlast]

theorem SameHeaders.covers {ps ps' : PeerState} (h : SameHeaders ps ps') (slot : UInt64) :
    ps.covers slot = ps'.covers slot := by
  have htip : ps.chainTipSlot = ps'.chainTipSlot := by
    have hlast := congrArg (Option.map Prod.fst) h.last
    simpa [PeerState.chainTipSlot, servedPart, Function.comp_def] using hlast
  unfold PeerState.covers
  rw [htip]

theorem SameHeaders.step {ps ps' : PeerState} (h : SameHeaders ps ps')
    {id id' kind kind' : String} {ctx ctx' : RuleContext} {slot : UInt64} :
    SameHeaders (produceSlot blake2b id kind ctx ps slot).1
      (produceSlot blake2b id' kind' ctx' ps' slot).1 := by
  have hnumber := h.nextBlockNumber
  unfold produceSlot
  rw [h.covers slot]
  by_cases hcov : ps'.covers slot = true
  · rw [if_pos hcov, if_pos hcov]
    exact h
  · rw [if_neg hcov, if_neg hcov]
    show (ps.chainEntries ++ _).map servedPart = (ps'.chainEntries ++ _).map servedPart
    rw [List.map_append, List.map_append, show ps.chainEntries.map servedPart = _ from h]
    simp [servedPart, producedEntry, hnumber]

theorem SameHeaders.run {id id' kind kind' : String} {ctx ctx' : RuleContext} {l : List UInt64} :
    ∀ {ps ps' : PeerState}, SameHeaders ps ps' →
      SameHeaders (produceSlots blake2b id kind ctx ps l).1
        (produceSlots blake2b id' kind' ctx' ps' l).1 := by
  induction l with
  | nil =>
      intro ps ps' h
      exact h
  | cons slot rest ih =>
      intro ps ps' h
      exact ih h.step

/-- The peers have rules that differ in their defect only, and the same headers so far. -/
def Alike (ps ps' : PeerState) : Prop :=
  SameHeaders ps ps' ∧ ∃ rule rule' t, ps.productionRule = some rule ∧
    ps'.productionRule = some rule' ∧ timing? rule = some t ∧ timing? rule' = some t

theorem Alike.producePeer {old new : UInt64} {id id' : String} {ps ps' qs qs' : PeerState}
    {evs evs' : List ProductionEvent} (h : Alike ps qs)
    (hp : producePeer blake2b old new id ps = some (ps', evs))
    (hq : ConformanceHarness.Proof.producePeer blake2b old new id' qs = some (qs', evs')) :
    Alike ps' qs' := by
  obtain ⟨hsame, rule, rule', t, hrule, hrule', ht, ht'⟩ := h
  refine ⟨?_, rule, rule', t, by rw [producePeer_rule_eq hp, hrule],
    by rw [producePeer_rule_eq hq, hrule'], ht, ht'⟩
  rcases producePeer_spec hp with ⟨hidle, -, -⟩ | ⟨r, l, ctx, hr, -, hl, -, heq⟩
  · rw [hrule] at hidle
    rcases hidle with hidle | hidle <;> simp at hidle
    rw [hidle] at ht
    simp [timing?] at ht
  · rcases producePeer_spec hq with ⟨hidle, -, -⟩ | ⟨r', l', ctx', hr', -, hl', -, heq'⟩
    · rw [hrule'] at hidle
      rcases hidle with hidle | hidle <;> simp at hidle
      rw [hidle] at ht'
      simp [timing?] at ht'
    · rw [hrule] at hr
      rw [hrule'] at hr'
      obtain rfl := Option.some.inj hr
      obtain rfl := Option.some.inj hr'
      rw [slotsInRange_of_timing ht ht', hl'] at hl
      obtain rfl := Option.some.inj hl
      rw [(Prod.mk.inj heq).1, (Prod.mk.inj heq').1]
      exact hsame.run

/-- Calls of `apply_production_rules` on one map, one after the other. -/
inductive Advances (blake2b : List UInt8 → List UInt8) :
    PeerMap → List (UInt64 × UInt64) → PeerMap → Prop where
  | nil {peers : PeerMap} : Advances blake2b peers [] peers
  | cons {peers peers' peers'' : PeerMap} {order : List String} {old new : UInt64}
      {events : List ProductionEvent} {rest : List (UInt64 × UInt64)}
      (horder : peers.IterOrder order)
      (h : applyProductionRules blake2b order peers old new = some (peers', events))
      (hrest : Advances blake2b peers' rest peers'') :
      Advances blake2b peers ((old, new) :: rest) peers''

/-- **Peers that differ in their defect only serve the same headers**, in one
network or in two. -/
theorem Alike.advances {is : List (UInt64 × UInt64)} :
    ∀ {A A' B B' : PeerMap} {i j : String} {ps qs : PeerState}, Advances blake2b A is A' →
      Advances blake2b B is B' → A i = some ps → B j = some qs → Alike ps qs →
      ∃ ps' qs', A' i = some ps' ∧ B' j = some qs' ∧ Alike ps' qs' := by
  induction is with
  | nil =>
      intro A A' B B' i j ps qs hA hB hps hqs h
      cases hA
      cases hB
      exact ⟨ps, qs, hps, hqs, h⟩
  | cons interval rest ih =>
      intro A A' B B' i j ps qs hA hB hps hqs h
      cases hA with
      | cons hoA hcA hrestA =>
          cases hB with
          | cons hoB hcB hrestB =>
              obtain ⟨ps', _, hp, hps', -⟩ := applyProductionRules_peer hoA hcA hps
              obtain ⟨qs', _, hq, hqs', -⟩ := applyProductionRules_peer hoB hcB hqs
              exact ih hrestA hrestB hps' hqs' (h.producePeer hp hq)

/-! ## What headers identify -/

/-- What a client receives of two entries is the same. -/
def SameHeader (e e' : ChainEntry) : Prop := e.variant = e'.variant ∧ e.headerCbor = e'.headerCbor

/-- **What the header of a produced block shows.** In every reachable state, two
produced entries have one header exactly if they have one slot and one block
number; of one peer they then have one hash. And peers with the same timing
serve the same headers, whatever their defects. -/
theorem produced_headers {start : Option UInt64} {peers : PeerMap} {vars : VarStore}
    {steps : List StepDef} {s : RunState}
    (h : RunsTo blake2b steps (RunState.initial start peers vars) s) :
    (∀ id id' e e', e ∈ s.produced id → e' ∈ s.produced id' →
      (SameHeader e e' ↔ e.slot = e'.slot ∧ e.blockNumber = e'.blockNumber) ∧
      (id = id' → SameHeader e e' → e.blockHash = e'.blockHash)) ∧
    ∀ A A' B B' is i j ps qs, Advances blake2b A is A' → Advances blake2b B is B' →
      A i = some ps → B j = some qs → Alike ps qs →
      ∃ ps' qs', A' i = some ps' ∧ B' j = some qs' ∧ SameHeaders ps' qs' := by
  refine ⟨fun id id' e e' he he' => ?_, ?_⟩
  · obtain ⟨hcbor, hvar⟩ := (producedInv_runs h id).synthetic e he
    obtain ⟨hcbor', hvar'⟩ := (producedInv_runs h id').synthetic e' he'
    have hiff : SameHeader e e' ↔ e.slot = e'.slot ∧ e.blockNumber = e'.blockNumber := by
      rw [SameHeader, hvar, hvar', hcbor, hcbor', syntheticHeaderCbor_inj]
      simp
    refine ⟨hiff, ?_⟩
    rintro rfl hsame
    have hslot := (hiff.mp hsame).1
    -- a chain does not visit a slot twice
    have hsorted := (producedInv_runs h id).sorted
    exact List.Pairwise.forall_of_forall_of_flip
      (R := fun x y : ChainEntry => x.slot = y.slot → x.blockHash = y.blockHash)
      (fun _ _ _ => rfl) (hsorted.imp fun hlt heq => absurd heq (UInt64.ne_of_lt hlt))
      (hsorted.imp fun hlt heq => absurd heq.symm (UInt64.ne_of_lt hlt)) he he' hslot
  · intro A A' B B' is i j ps qs hA hB hps hqs halike
    obtain ⟨ps', qs', hps', hqs', halike'⟩ := halike.advances hA hB hps hqs
    exact ⟨ps', qs', hps', hqs', halike'.1⟩

/-- A run without overflow is a run. -/
theorem RunsWithoutOverflow.runsTo {steps : List StepDef} {s s' : RunState}
    (h : RunsWithoutOverflow blake2b steps s s') : RunsTo blake2b steps s s' := by
  obtain ⟨rest, hreach⟩ := h
  exact ⟨rest, hreach.mono fun _ _ _ _ hexec => hexec.1⟩

end

/-! ## Two forked peers -/

/-- A rule that forks at its first slot. -/
def forkedAtFive (marker : String) : PeerState :=
  { PeerState.new with productionRule := some (.forkedFromSlot 5 100 5 marker) }

/-- Two peers that differ in their fork marker. -/
def forkedPeers : PeerMap :=
  PeerMap.insert (PeerMap.insert (fun _ => none) "a" (forkedAtFive "x")) "b" (forkedAtFive "y")

/-- Blake2b-256 of a zero byte, `x` or `y`, slot 5 and 32 zero bytes: all that is hashed below. -/
def forkDigest (input : List UInt8) : List UInt8 :=
  if input.take 2 = [0, 120] then
    [7, 105, 81, 211, 86, 59, 233, 240, 81, 137, 87, 90, 30, 37, 20, 90, 105, 186, 199, 65, 190,
      143, 109, 162, 224, 191, 253, 229, 102, 210, 120, 91]
  else
    [170, 150, 166, 35, 147, 85, 237, 69, 67, 57, 161, 196, 143, 216, 23, 191, 155, 217, 90, 129,
      247, 110, 152, 60, 238, 174, 116, 154, 127, 203, 132, 42]

theorem forkedPeers_eq {id : String} {ps : PeerState} (h : forkedPeers id = some ps) :
    ps = forkedAtFive "x" ∨ ps = forkedAtFive "y" := by
  by_cases hb : id = "b"
  · exact Or.inr (by simpa [forkedPeers, PeerMap.insert, hb] using h.symm)
  · by_cases ha : id = "a"
    · exact Or.inl (by simpa [forkedPeers, PeerMap.insert, ha] using h.symm)
    · simp [forkedPeers, PeerMap.insert, ha, hb] at h

theorem forkedPeers_iterOrder : forkedPeers.IterOrder ["a", "b"] := by
  refine ⟨by decide, fun id => ?_⟩
  by_cases hb : id = "b" <;> by_cases ha : id = "a" <;>
    simp [forkedPeers, PeerMap.insert, ha, hb]

theorem forkedPeers_sumsFit : RuleSumsFit forkedPeers 0 7 := by
  intro id ps rule hps hrule _
  refine ⟨by decide, fun hle => ruleFits_of_room hle fun interval hi => ?_⟩
  rcases forkedPeers_eq hps with rfl | rfl <;>
    · obtain rfl := Option.some.inj hrule
      obtain rfl := Option.some.inj hi
      decide

/-- Both peers after a tick to slot 7. -/
theorem forkedPeers_run : ∃ s, applyLocked forkDigest ["a", "b"]
      (RunState.initial (some 7) forkedPeers fun _ => none) 0 7 = some s ∧
    RunsTo forkDigest [tickSeven] (RunState.initial (some 0) forkedPeers fun _ => none) s := by
  obtain ⟨s, hs⟩ := Option.isSome_iff_exists.mp (show (applyLocked forkDigest ["a", "b"]
    (RunState.initial (some 7) forkedPeers fun _ => none) 0 7).isSome by rfl)
  exact ⟨s, hs, (tickSeven_runs forkedPeers_iterOrder hs forkedPeers_sumsFit).runsTo⟩

theorem produced_headers_forked : ∃ s : RunState,
    (∀ id id' e e', e ∈ s.produced id → e' ∈ s.produced id' →
      (SameHeader e e' ↔ e.slot = e'.slot ∧ e.blockNumber = e'.blockNumber) ∧
      (id = id' → SameHeader e e' → e.blockHash = e'.blockHash)) ∧
    ∀ A A' B B' is i j ps qs, Advances forkDigest A is A' → Advances forkDigest B is B' →
      A i = some ps → B j = some qs → Alike ps qs →
      ∃ ps' qs', A' i = some ps' ∧ B' j = some qs' ∧ SameHeaders ps' qs' := by
  obtain ⟨s, -, hrun⟩ := forkedPeers_run
  exact ⟨s, produced_headers hrun⟩

/-- The two peers fork at slot 5, record different hashes there, and serve one header. -/
theorem forked_peers_serve_one_header : AllAccepted forkedPeers (some 0) ∧
    ∃ s, RunsTo forkDigest [tickSeven] (RunState.initial (some 0) forkedPeers fun _ => none) s ∧
      ∃ e ∈ s.produced "a", ∃ e' ∈ s.produced "b", e.variant = e'.variant ∧
        e.headerCbor = e'.headerCbor ∧ e.blockHash ≠ e'.blockHash := by
  constructor
  · intro id ps rule hps hrule pos
    rcases forkedPeers_eq hps with rfl | rfl <;>
      · obtain rfl := Option.some.inj hrule
        rfl
  · obtain ⟨s, hs, hrun⟩ := forkedPeers_run
    refine ⟨s, hrun, ?_⟩
    let e := producedEntry forkDigest "a" (.forked 5 "x" "5:100:5") (forkedAtFive "x") 5
    let e' := producedEntry forkDigest "b" (.forked 5 "y" "5:100:5") (forkedAtFive "y") 5
    have hval : (applyLocked forkDigest ["a", "b"] (RunState.initial (some 7) forkedPeers
        fun _ => none) 0 7).map (fun s => (s.produced "a", s.produced "b")) = some ([e], [e']) :=
          rfl
    rw [hs] at hval
    obtain ⟨ha, hb⟩ := Prod.mk.inj (Option.some.inj hval)
    refine ⟨e, ?_, e', ?_, rfl, rfl, by decide⟩
    · rw [ha]
      exact List.mem_singleton_self e
    · rw [hb]
      exact List.mem_singleton_self e'

end ConformanceHarness.Proof
