import ConformanceHarness.Scenario.ProductionRule
import Mathlib.Data.List.Pairwise
import Mathlib.Tactic.Ring

/-!
# What a production rule schedules

A rule is a set of slots; `slots_in_range` is supposed to list the part of that
set that lies in a closed interval, in order and without repetition. That is the
content of `slotsInRange_spec`, and everything later about *when* a peer
produces is read off it: two lists that are strictly increasing and have the
same members are equal, so nobody has to look at the loop again.

The specification holds whenever the call returns and its additions fit in a
`u64`. That it does return is a separate statement, `slotsInRange_returns`.
-/

namespace ConformanceHarness.Proof

open ConformanceHarness

/-! ## The abstract schedule -/

/-- `s` is `first + k * interval` for some `k`, and the interval is not degenerate. -/
def OnSchedule (first interval s : UInt64) : Prop :=
  0 < interval.toNat ∧ ∃ k : Nat, s.toNat = first.toNat + k * interval.toNat

/-- The slots at which a rule fires, as the scenario author thinks of them. -/
def Fires : ProductionRule → UInt64 → Prop
  | .none, _ => False
  | .everyNSlots first interval, s => OnSchedule first interval s
  | .atSlots slots, s => s ∈ slots
  | .forkedFromSlot first interval _ _, s => OnSchedule first interval s
  | .brokenPrevHash first interval _ _, s => OnSchedule first interval s
  | .skipsSlots first interval skipIndices, s =>
    0 < interval.toNat ∧ ∃ k : Nat, s.toNat = first.toNat + k * interval.toNat ∧
      ∀ j ∈ skipIndices, j.toNat ≠ k

/-- A listed schedule is strictly increasing. -/
def Ordered : ProductionRule → Prop
  | .atSlots slots => slots.Pairwise (· < ·)
  | _ => True

/-- The two sums in `every_n_slots_range` that could wrap do not. -/
def StartFits (first interval fromSlot : UInt64) : Prop :=
  first < fromSlot →
    fromSlot.toNat - first.toNat + interval.toNat < 2 ^ 64 ∧
      first.toNat + (fromSlot.toNat - first.toNat + interval.toNat - 1) / interval.toNat *
        interval.toNat < 2 ^ 64

/-- The same, for whatever rule the peer has. -/
def RuleFits (rule : ProductionRule) (fromSlot : UInt64) : Prop :=
  match rule with
  | .everyNSlots first interval => StartFits first interval fromSlot
  | .forkedFromSlot first interval _ _ => StartFits first interval fromSlot
  | .brokenPrevHash first interval _ _ => StartFits first interval fromSlot
  | .skipsSlots first interval _ => StartFits first interval fromSlot
  | .none => True
  | .atSlots _ => True

/-- `toSlot + interval` fits, for the rules that have an interval. -/
def HasRoom (rule : ProductionRule) (toSlot : UInt64) : Prop :=
  ∀ interval, rule.interval? = some interval → toSlot.toNat + interval.toNat < 2 ^ 64

/-! ## The loop -/

theorem saturatingAdd_toNat (a b : UInt64) :
    (saturatingAdd a b).toNat = min (a.toNat + b.toNat) (2 ^ 64 - 1) := by
  unfold saturatingAdd
  split
  · rename_i h
    rw [UInt64.toNat_add, Nat.mod_eq_of_lt h]
    omega
  · rename_i h
    have : u64Max.toNat = 2 ^ 64 - 1 := rfl
    rw [this]
    omega

/-- At `to = u64::MAX` the loop never ends: no `u64` is past the bound. -/
theorem everyNSlotsLoop_max {interval toSlot : UInt64} (hto : toSlot.toNat = 2 ^ 64 - 1) :
    ∀ (fuel : Nat) (s : UInt64), everyNSlotsLoop interval toSlot fuel s = none := by
  have hle : ∀ s : UInt64, s ≤ toSlot := fun s => by
    rw [UInt64.le_iff_toNat_le, hto]
    have := s.toNat_lt
    omega
  intro fuel
  induction fuel with
  | zero => intro s; rw [everyNSlotsLoop, if_pos (hle s)]
  | succ fuel ih => intro s; rw [everyNSlotsLoop, if_pos (hle s), ih]; rfl

/-- What the loop returns, if it returns: the schedule from `s` on, in order. -/
theorem everyNSlotsLoop_spec {interval toSlot : UInt64} (hpos : 0 < interval.toNat) :
    ∀ (fuel : Nat) (s : UInt64) (l : List UInt64),
      everyNSlotsLoop interval toSlot fuel s = some l →
      l.Pairwise (· < ·) ∧
        ∀ x, x ∈ l ↔ x ≤ toSlot ∧ ∃ k : Nat, x.toNat = s.toNat + k * interval.toNat := by
  intro fuel
  induction fuel with
  | zero =>
      intro s l h
      rw [everyNSlotsLoop] at h
      split at h
      · simp at h
      · rename_i hs
        rw [UInt64.le_iff_toNat_le] at hs
        obtain rfl : l = [] := by simpa using h.symm
        refine ⟨List.Pairwise.nil, fun x => ⟨by simp, ?_⟩⟩
        rintro ⟨hx, k, hk⟩
        rw [UInt64.le_iff_toNat_le] at hx
        exfalso
        have := Nat.zero_le (k * interval.toNat)
        omega
  | succ fuel ih =>
      intro s l h
      rw [everyNSlotsLoop] at h
      split at h
      · rename_i hs
        obtain ⟨rest, hrest, rfl⟩ := Option.map_eq_some_iff.mp h
        have hs' := UInt64.le_iff_toNat_le.mp hs
        obtain ⟨hsorted, hmem⟩ := ih _ _ hrest
        have hnext := saturatingAdd_toNat s interval
        -- the next round either continues the progression or starts past the end
        have hstep : ∀ x, x ∈ rest ↔
            x ≤ toSlot ∧ ∃ k : Nat, x.toNat = s.toNat + (k + 1) * interval.toNat := by
          intro x
          rw [hmem]
          by_cases hfit : s.toNat + interval.toNat < 2 ^ 64
          · have heq : (saturatingAdd s interval).toNat = s.toNat + interval.toNat := by omega
            refine and_congr_right fun _ => exists_congr fun k => ?_
            rw [heq, Nat.add_mul, Nat.one_mul]
            omega
          · have hmax : (saturatingAdd s interval).toNat = 2 ^ 64 - 1 := by omega
            have hto : toSlot.toNat < 2 ^ 64 - 1 := by
              rcases Nat.lt_or_ge toSlot.toNat (2 ^ 64 - 1) with hlt | hge
              · exact hlt
              · have := toSlot.toNat_lt
                rw [everyNSlotsLoop_max (by omega) fuel] at hrest
                simp at hrest
            constructor
            · rintro ⟨hx, k, hk⟩
              rw [UInt64.le_iff_toNat_le] at hx
              have := Nat.zero_le (k * interval.toNat)
              omega
            · rintro ⟨hx, k, hk⟩
              rw [UInt64.le_iff_toNat_le] at hx
              rw [Nat.add_mul, Nat.one_mul] at hk
              have := Nat.zero_le (k * interval.toNat)
              omega
        refine ⟨List.pairwise_cons.mpr ⟨?_, hsorted⟩, ?_⟩
        · intro x hx
          obtain ⟨-, k, hk⟩ := (hstep x).mp hx
          rw [UInt64.lt_iff_toNat_lt, hk, Nat.add_mul, Nat.one_mul]
          have := Nat.zero_le (k * interval.toNat)
          omega
        · intro x
          rw [List.mem_cons, hstep]
          constructor
          · rintro (rfl | ⟨hx, k, hk⟩)
            · exact ⟨hs, 0, by simp⟩
            · exact ⟨hx, k + 1, hk⟩
          · rintro ⟨hx, k, hk⟩
            cases k with
            | zero => exact Or.inl (UInt64.toNat_inj.mp (by omega))
            | succ k => exact Or.inr ⟨hx, k, hk⟩
      · rename_i hs
        rw [UInt64.le_iff_toNat_le] at hs
        obtain rfl : l = [] := by simpa using h.symm
        refine ⟨List.Pairwise.nil, fun x => ⟨by simp, ?_⟩⟩
        rintro ⟨hx, k, hk⟩
        rw [UInt64.le_iff_toNat_le] at hx
        exfalso
        have := Nat.zero_le (k * interval.toNat)
        omega

/-- Below `u64::MAX` the loop ends within one round a slot: the sum may saturate, and is then past
the bound. -/
theorem everyNSlotsLoop_returns {interval toSlot : UInt64} (hpos : 0 < interval.toNat)
    (hto : toSlot.toNat < 2 ^ 64 - 1) :
    ∀ (fuel : Nat) (s : UInt64), toSlot.toNat < s.toNat + fuel →
      (everyNSlotsLoop interval toSlot fuel s).isSome := by
  intro fuel
  induction fuel with
  | zero =>
      intro s hs
      rw [everyNSlotsLoop, if_neg (by rw [UInt64.le_iff_toNat_le]; omega)]
      rfl
  | succ fuel ih =>
      intro s hs
      rw [everyNSlotsLoop]
      split
      · rename_i hle
        rw [UInt64.le_iff_toNat_le] at hle
        rw [Option.isSome_map]
        exact ih _ (by rw [saturatingAdd_toNat]; omega)
      · rfl

/-! ## From the loop to the range -/

theorem toNat_pos_of_ne_zero {a : UInt64} (h : a ≠ 0) : 0 < a.toNat := by
  rcases Nat.eq_zero_or_pos a.toNat with h0 | h0
  · exact absurd (UInt64.toNat_inj.mp (by simpa using h0)) h
  · exact h0

/-- Rounding `d` up to a multiple of `i`: the least one at or above it. -/
theorem ceil_mul_spec {d i : Nat} (hi : 0 < i) :
    d ≤ (d + i - 1) / i * i ∧ ∀ k, d ≤ k * i → (d + i - 1) / i ≤ k := by
  constructor
  · have h := Nat.div_add_mod (d + i - 1) i
    have hlt := Nat.mod_lt (d + i - 1) hi
    rw [Nat.mul_comm] at h
    omega
  · intro k hk
    apply Nat.le_of_lt_succ
    rw [Nat.div_lt_iff_lt_mul hi, Nat.succ_mul]
    omega

theorem everyNSlotsStart_toNat {first interval fromSlot : UInt64}
    (hfit : StartFits first interval fromSlot) (hlt : first < fromSlot) :
    (everyNSlotsStart first interval fromSlot).toNat =
      first.toNat + (fromSlot.toNat - first.toNat + interval.toNat - 1) / interval.toNat *
        interval.toNat := by
  obtain ⟨h1, h2⟩ := hfit hlt
  have hlt' := UInt64.lt_iff_toNat_lt.mp hlt
  have hsub : (fromSlot - first).toNat = fromSlot.toNat - first.toNat := by
    rw [UInt64.toNat_sub_of_le _ _ (UInt64.le_iff_toNat_le.mpr (by omega))]
  have hadd : (fromSlot - first + interval).toNat
      = fromSlot.toNat - first.toNat + interval.toNat := by
    rw [UInt64.toNat_add, hsub, Nat.mod_eq_of_lt h1]
  have hpred : (fromSlot - first + interval - 1).toNat
      = fromSlot.toNat - first.toNat + interval.toNat - 1 := by
    rw [UInt64.toNat_sub_of_le _ _ (UInt64.le_iff_toNat_le.mpr ?_), hadd]
    · rfl
    · rw [hadd]
      show 1 ≤ _
      omega
  have hge : ¬ first ≥ fromSlot := by
    rw [ge_iff_le, UInt64.le_iff_toNat_le]
    omega
  rw [everyNSlotsStart, if_neg hge]
  simp only [UInt64.toNat_add, UInt64.toNat_mul, UInt64.toNat_div, hpred]
  rw [Nat.mod_eq_of_lt (a := _ / _ * _) (by omega), Nat.mod_eq_of_lt h2]

/-- **`every_n_slots_range` lists the schedule** between its bounds. -/
theorem everyNSlotsRange_spec {first interval fromSlot toSlot : UInt64} {l : List UInt64}
    (hfit : fromSlot ≤ toSlot → StartFits first interval fromSlot)
    (h : everyNSlotsRange first interval fromSlot toSlot = some l) :
    l.Pairwise (· < ·) ∧
      ∀ x, x ∈ l ↔ fromSlot ≤ x ∧ x ≤ toSlot ∧ OnSchedule first interval x := by
  unfold everyNSlotsRange at h
  split at h
  · rename_i hz
    obtain rfl : l = [] := by simpa using h.symm
    refine ⟨List.Pairwise.nil, fun x => ⟨by simp, ?_⟩⟩
    rintro ⟨h1, h2, hpos, -⟩
    rcases hz with rfl | hz
    · exact absurd hpos (by simp)
    · exact absurd (UInt64.le_trans h1 h2) (UInt64.not_le.mpr hz)
  · rename_i hz
    obtain ⟨hne, hle⟩ := not_or.mp hz
    have hle : fromSlot ≤ toSlot := UInt64.not_lt.mp hle
    have hpos := toNat_pos_of_ne_zero hne
    obtain ⟨hsorted, hmem⟩ := everyNSlotsLoop_spec hpos _ _ _ h
    refine ⟨hsorted, fun x => ?_⟩
    rw [hmem]
    by_cases hlt : first < fromSlot
    · have hstart := everyNSlotsStart_toNat (hfit hle) hlt
      obtain ⟨hup, hleast⟩ := ceil_mul_spec (d := fromSlot.toNat - first.toNat) hpos
      rw [hstart]
      generalize (fromSlot.toNat - first.toNat + interval.toNat - 1) / interval.toNat = c at *
      constructor
      · rintro ⟨hx, k, hk⟩
        refine ⟨UInt64.le_iff_toNat_le.mpr ?_, hx, hpos, c + k, by rw [hk, Nat.add_mul]; omega⟩
        have := Nat.zero_le (k * interval.toNat)
        omega
      · rintro ⟨hge, hx, -, k, hk⟩
        rw [UInt64.le_iff_toNat_le] at hge
        have hck := hleast k (by omega)
        refine ⟨hx, k - c, ?_⟩
        rw [hk, Nat.sub_mul]
        have := Nat.mul_le_mul_right interval.toNat hck
        omega
    · have hge : fromSlot ≤ first := UInt64.not_lt.mp hlt
      rw [everyNSlotsStart, if_pos hge]
      constructor
      · rintro ⟨hx, k, hk⟩
        refine ⟨UInt64.le_iff_toNat_le.mpr ?_, hx, hpos, k, hk⟩
        rw [UInt64.le_iff_toNat_le] at hge
        have := Nat.zero_le (k * interval.toNat)
        omega
      · rintro ⟨-, hx, -, k, hk⟩
        exact ⟨hx, k, hk⟩

/-- **When `every_n_slots_range` returns.** -/
theorem everyNSlotsRange_isSome {first interval fromSlot toSlot : UInt64} :
    (everyNSlotsRange first interval fromSlot toSlot).isSome ↔
      interval = 0 ∨ toSlot < fromSlot ∨ toSlot ≠ u64Max := by
  unfold everyNSlotsRange
  split
  · rename_i hz
    exact ⟨fun _ => hz.imp_right Or.inl, fun _ => rfl⟩
  · rename_i hz
    obtain ⟨hne, hle⟩ := not_or.mp hz
    have hmax : u64Max.toNat = 2 ^ 64 - 1 := rfl
    constructor
    · rintro h
      refine Or.inr (Or.inr fun hto => ?_)
      rw [everyNSlotsLoop_max (by rw [hto, hmax])] at h
      exact nomatch h
    · rintro (h | h | h)
      · exact absurd h hne
      · exact absurd h hle
      · have hlt : toSlot.toNat < 2 ^ 64 - 1 := by
          have := toSlot.toNat_lt
          have := mt UInt64.toNat_inj.mp h
          omega
        exact everyNSlotsLoop_returns (toNat_pos_of_ne_zero hne) hlt _ _ (by omega)

/-- Room above `to` is room for the sums that find the first slot. -/
theorem startFits_of_room {first interval fromSlot toSlot : UInt64} (hle : fromSlot ≤ toSlot)
    (hroom : toSlot.toNat + interval.toNat < 2 ^ 64) : StartFits first interval fromSlot := by
  intro hlt
  rw [UInt64.lt_iff_toNat_lt] at hlt
  rw [UInt64.le_iff_toNat_le] at hle
  have := Nat.div_mul_le_self (fromSlot.toNat - first.toNat + interval.toNat - 1) interval.toNat
  constructor <;> omega

/-! ## Every rule -/

/-- A scheduled slot's position in the sequence is its `global_idx`. -/
theorem index_of_scheduled {first interval x : UInt64} {k : Nat} (hpos : 0 < interval.toNat)
    (hk : x.toNat = first.toNat + k * interval.toNat) :
    ((x - first) / interval).toNat = k := by
  rw [UInt64.toNat_div, UInt64.toNat_sub_of_le _ _ (UInt64.le_iff_toNat_le.mpr (by omega)), hk,
    Nat.add_sub_cancel_left, Nat.mul_div_cancel k hpos]

/-- **`slots_in_range` lists exactly the slots of `[from, to]` at which the rule fires**, in
order. -/
theorem slotsInRange_spec {rule : ProductionRule} {fromSlot toSlot : UInt64} {l : List UInt64}
    (hord : Ordered rule) (hfit : fromSlot ≤ toSlot → RuleFits rule fromSlot)
    (h : rule.slotsInRange fromSlot toSlot = some l) :
    l.Pairwise (· < ·) ∧ ∀ x, x ∈ l ↔ fromSlot ≤ x ∧ x ≤ toSlot ∧ Fires rule x := by
  unfold ProductionRule.slotsInRange at h
  split at h
  · rename_i hgt
    obtain rfl : l = [] := by simpa using h.symm
    refine ⟨List.Pairwise.nil, fun x => ⟨by simp, ?_⟩⟩
    rintro ⟨h1, h2, -⟩
    exact absurd (UInt64.le_trans h1 h2) (UInt64.not_le.mpr hgt)
  · cases rule with
    | none =>
        obtain rfl : l = [] := by simpa using h.symm
        exact ⟨List.Pairwise.nil, by simp [Fires]⟩
    | everyNSlots first interval => exact everyNSlotsRange_spec hfit h
    | forkedFromSlot first interval fork marker => exact everyNSlotsRange_spec hfit h
    | brokenPrevHash first interval brk wrong => exact everyNSlotsRange_spec hfit h
    | atSlots slots =>
        obtain rfl := Option.some.inj h
        refine ⟨List.Pairwise.filter _ hord, fun x => ?_⟩
        simp only [List.mem_filter, Bool.and_eq_true, decide_eq_true_eq, ge_iff_le, Fires]
        grind
    | skipsSlots first interval skipIndices =>
        obtain ⟨all, hall, rfl⟩ := Option.map_eq_some_iff.mp h
        obtain ⟨hsorted, hmem⟩ := everyNSlotsRange_spec hfit hall
        refine ⟨List.Pairwise.filter _ hsorted, fun x => ?_⟩
        simp only [List.mem_filter, hmem, Bool.not_eq_true', List.contains_eq_mem,
          decide_eq_false_iff_not, Fires]
        constructor
        · rintro ⟨⟨h1, h2, hpos, k, hk⟩, hskip⟩
          refine ⟨h1, h2, hpos, k, hk, fun j hj he => hskip ?_⟩
          rwa [UInt64.toNat_inj.mp ((index_of_scheduled hpos hk).trans he.symm)]
        · rintro ⟨h1, h2, hpos, k, hk, hskip⟩
          exact ⟨⟨h1, h2, hpos, k, hk⟩, fun hj => hskip _ hj (index_of_scheduled hpos hk)⟩

/-- **When `slots_in_range` returns**: unless a rule with an interval is asked up to `u64::MAX`. -/
theorem slotsInRange_isSome {rule : ProductionRule} {fromSlot toSlot : UInt64} :
    (rule.slotsInRange fromSlot toSlot).isSome ↔
      toSlot < fromSlot ∨ toSlot ≠ u64Max ∨ ∀ i, rule.interval? = some i → i = 0 := by
  unfold ProductionRule.slotsInRange
  split
  · rename_i hgt
    exact ⟨fun _ => Or.inl hgt, fun _ => rfl⟩
  · cases rule <;>
      simp only [ProductionRule.interval?, Option.isSome_map, Option.isSome_some,
        everyNSlotsRange_isSome, Option.some.injEq, forall_eq', reduceCtorEq, false_implies,
        implies_true, or_true] <;>
      tauto

/-- With room above `to`, the call returns. -/
theorem slotsInRange_returns {rule : ProductionRule} {toSlot : UInt64} (fromSlot : UInt64)
    (hroom : HasRoom rule toSlot) : (rule.slotsInRange fromSlot toSlot).isSome := by
  refine slotsInRange_isSome.mpr (Or.inr ?_)
  rcases eq_or_ne toSlot u64Max with rfl | hmax
  · -- above `u64::MAX` there is room for an interval of zero only
    refine Or.inr fun i hi => UInt64.toNat_inj.mp ?_
    have hroom' := hroom i hi
    have : u64Max.toNat = 2 ^ 64 - 1 := rfl
    show i.toNat = 0
    omega
  · exact Or.inl hmax

theorem ruleFits_of_room {rule : ProductionRule} {fromSlot toSlot : UInt64}
    (hle : fromSlot ≤ toSlot) (hroom : HasRoom rule toSlot) : RuleFits rule fromSlot := by
  cases rule with
  | none => trivial
  | atSlots slots => trivial
  | everyNSlots first interval => exact startFits_of_room hle (hroom _ rfl)
  | forkedFromSlot first interval fork marker => exact startFits_of_room hle (hroom _ rfl)
  | brokenPrevHash first interval brk wrong => exact startFits_of_room hle (hroom _ rfl)
  | skipsSlots first interval skipIndices => exact startFits_of_room hle (hroom _ rfl)

/-! ## Rules the validator accepts -/

theorem pairwise_of_firstNonIncreasing {l : List UInt64} :
    ∀ {i : Nat}, firstNonIncreasing i l = none → l.Pairwise (· < ·) := by
  induction l with
  | nil => intro i _; exact List.Pairwise.nil
  | cons a rest ih =>
      intro i h
      cases rest with
      | nil => exact List.pairwise_singleton _ _
      | cons b rest =>
          rw [firstNonIncreasing] at h
          split at h
          · simp at h
          · rename_i hab
            have hlt : a < b := UInt64.not_le.mp hab
            have hrest := ih h
            refine List.pairwise_cons.mpr ⟨?_, hrest⟩
            intro x hx
            rcases List.mem_cons.mp hx with rfl | hx
            · exact hlt
            · exact UInt64.lt_trans hlt ((List.pairwise_cons.mp hrest).1 x hx)

/-- A validated `at_slots` list is not empty. -/
theorem Accepted.atSlots_ne_nil {start : Option UInt64} {slots : List UInt64}
    (h : (ProductionRule.atSlots slots).Accepted start) : slots ≠ [] := by
  rintro rfl
  simpa [validateProductionRule] using h ""

/-- Validated schedules are strictly increasing. -/
theorem Accepted.ordered {start : Option UInt64} {rule : ProductionRule}
    (h : rule.Accepted start) : Ordered rule := by
  cases rule with
  | atSlots slots =>
      have hv := h ""
      simp only [validateProductionRule] at hv
      split at hv
      · simp at hv
      · split at hv
        · rename_i hnone
          exact pairwise_of_firstNonIncreasing hnone
        · simp at hv
  | none => trivial
  | everyNSlots first interval => trivial
  | forkedFromSlot first interval fork marker => trivial
  | brokenPrevHash first interval brk wrong => trivial
  | skipsSlots first interval skipIndices => trivial

end ConformanceHarness.Proof
