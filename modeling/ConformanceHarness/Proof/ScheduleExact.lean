import ConformanceHarness.Proof.Schedule

/-!
# Where slot schedules are exact

`slotsInRange_spec` says what a call lists that returns and whose sums fit. Here are the calls
that do. The rounded-up division needs room for one interval above `from`, and the loop, whose
sum saturates, needs a bound below `u64::MAX`; with both the listing is the part of the
arithmetic progression in `[from, to]`, and without one of them there is no listing at all.
-/

namespace ConformanceHarness.Proof

open ConformanceHarness

variable {first interval fromSlot toSlot : UInt64}

/-! ## The arithmetic of the start -/

theorem checkedAdd_eq_some {a b c : UInt64} :
    checkedAdd a b = some c ↔ c.toNat = a.toNat + b.toNat := by
  unfold checkedAdd
  split
  · rename_i h
    have hsum : (a + b).toNat = a.toNat + b.toNat := by rw [UInt64.toNat_add, Nat.mod_eq_of_lt h]
    rw [Option.some.injEq, ← hsum, UInt64.toNat_inj]
    exact eq_comm
  · rename_i h
    have := c.toNat_lt
    exact ⟨fun hc => (nomatch hc), fun hc => absurd (hc ▸ this) h⟩

theorem checkedSub_eq_some {a b c : UInt64} :
    checkedSub a b = some c ↔ c.toNat + b.toNat = a.toNat := by
  unfold checkedSub
  split
  · rename_i h
    have hdiff : (a - b).toNat = a.toNat - b.toNat :=
      UInt64.toNat_sub_of_le _ _ (UInt64.le_iff_toNat_le.mpr h)
    rw [Option.some.injEq, ← UInt64.toNat_inj, hdiff]
    omega
  · rename_i h
    exact ⟨fun hc => (nomatch hc), fun hc => absurd (hc ▸ Nat.le_add_left _ _) h⟩

theorem checkedMul_eq_some {a b c : UInt64} :
    checkedMul a b = some c ↔ c.toNat = a.toNat * b.toNat := by
  unfold checkedMul
  split
  · rename_i h
    have hprod : (a * b).toNat = a.toNat * b.toNat := by rw [UInt64.toNat_mul, Nat.mod_eq_of_lt h]
    rw [Option.some.injEq, ← hprod, UInt64.toNat_inj]
    exact eq_comm
  · rename_i h
    have := c.toNat_lt
    exact ⟨fun hc => (nomatch hc), fun hc => absurd (hc ▸ this) h⟩

theorem exists_toNat {n : Nat} (h : n < 2 ^ 64) : ∃ a : UInt64, a.toNat = n :=
  ⟨UInt64.ofNat n, UInt64.toNat_ofNat_of_lt' h⟩

/-- **The arithmetic of the start stays in `u64` exactly when its two sums do**: the difference is
of ordered numbers, and the product is at most the first sum. -/
theorem everyNSlotsStartChecked_isSome (hpos : 0 < interval.toNat) :
    (everyNSlotsStartChecked first interval fromSlot).isSome ↔
      StartFits first interval fromSlot := by
  unfold everyNSlotsStartChecked
  split
  · rename_i hge
    exact ⟨fun _ hlt => absurd hlt (UInt64.not_lt.mpr hge), fun _ => rfl⟩
  · rename_i hge
    have hlt : first < fromSlot := UInt64.not_le.mp hge
    have hlt' := UInt64.lt_iff_toNat_lt.mp hlt
    have hone : (1 : UInt64).toNat = 1 := rfl
    simp only [Option.isSome_iff_exists, Option.bind_eq_bind, Option.bind_eq_some_iff,
      checkedAdd_eq_some, checkedSub_eq_some, checkedMul_eq_some, UInt64.toNat_div, hone]
    constructor
    · rintro ⟨start, missing, hmissing, raised, hraised, top, htop, span, hspan, hstart⟩ -
      have hr := raised.toNat_lt
      have hs := start.toNat_lt
      have hmissing' : missing.toNat = fromSlot.toNat - first.toNat := by omega
      have htop' : top.toNat = fromSlot.toNat - first.toNat + interval.toNat - 1 := by omega
      rw [hspan, htop'] at hstart
      exact ⟨by omega, hstart ▸ hs⟩
    · intro hfits
      obtain ⟨hsum, hstart⟩ := hfits hlt
      have hspan := Nat.div_mul_le_self (fromSlot.toNat - first.toNat + interval.toNat - 1)
        interval.toNat
      obtain ⟨missing, hmissing⟩ :=
        exists_toNat (n := fromSlot.toNat - first.toNat) (by omega)
      obtain ⟨raised, hraised⟩ :=
        exists_toNat (n := fromSlot.toNat - first.toNat + interval.toNat) hsum
      obtain ⟨top, htop⟩ :=
        exists_toNat (n := fromSlot.toNat - first.toNat + interval.toNat - 1) (by omega)
      obtain ⟨span, hspan'⟩ := exists_toNat
        (n := (fromSlot.toNat - first.toNat + interval.toNat - 1) / interval.toNat *
          interval.toNat) (by omega)
      obtain ⟨start, hstart'⟩ := exists_toNat hstart
      exact ⟨start, missing, by omega, raised, by omega, top, by omega, span, by rw [hspan', htop],
        by omega⟩

/-- What the checked operations give is what the unchecked ones do. -/
theorem everyNSlotsStart_of_checked {start : UInt64}
    (h : everyNSlotsStartChecked first interval fromSlot = some start) :
    everyNSlotsStart first interval fromSlot = start := by
  unfold everyNSlotsStartChecked at h
  unfold everyNSlotsStart
  split at h
  · rename_i hge
    rw [if_pos hge]
    exact Option.some.inj h
  · rename_i hge
    rw [if_neg hge]
    simp only [checkedSub, checkedAdd, checkedMul, Option.bind_eq_bind, Option.bind_eq_some_iff,
      Option.ite_none_right_eq_some, Option.some.injEq] at h
    obtain ⟨_, ⟨-, rfl⟩, _, ⟨-, rfl⟩, _, ⟨-, rfl⟩, _, ⟨-, rfl⟩, -, rfl⟩ := h
    rfl

theorem everyNSlotsStartChecked_eq (hpos : 0 < interval.toNat) :
    everyNSlotsStartChecked first interval fromSlot = some (everyNSlotsStart first interval fromSlot)
      ↔ StartFits first interval fromSlot := by
  rw [← everyNSlotsStartChecked_isSome hpos, Option.isSome_iff_exists]
  exact ⟨fun h => ⟨_, h⟩, fun ⟨_, h⟩ => by rw [everyNSlotsStart_of_checked h, h]⟩

/-- The second sum of the start is the least scheduled number from `from` on. -/
theorem startFits_iff (hpos : 0 < interval.toNat) :
    StartFits first interval fromSlot ↔
      (first < fromSlot →
        fromSlot.toNat - first.toNat + interval.toNat < 2 ^ 64 ∧
          ∃ k : Nat, fromSlot.toNat ≤ first.toNat + k * interval.toNat ∧
            first.toNat + k * interval.toNat < 2 ^ 64) := by
  refine forall_congr' fun _ => and_congr_right fun _ => ?_
  obtain ⟨hup, hleast⟩ := ceil_mul_spec (d := fromSlot.toNat - first.toNat) hpos
  constructor
  · intro hfit
    exact ⟨_, by omega, hfit⟩
  · rintro ⟨k, hk, hfit⟩
    have hle := Nat.mul_le_mul_right interval.toNat (hleast k (by omega))
    omega

/-! ## Exact listings -/

/-- `s` is the scheduled number of one of the skipped indices. -/
def SkippedAt (first interval : UInt64) (skipIndices : List UInt64) (s : UInt64) : Prop :=
  ∃ k ∈ skipIndices, s.toNat = first.toNat + k.toNat * interval.toNat

instance (first interval : UInt64) (skipIndices : List UInt64) (s : UInt64) :
    Decidable (SkippedAt first interval skipIndices s) :=
  inferInstanceAs (Decidable (∃ k ∈ skipIndices, s.toNat = first.toNat + k.toNat * interval.toNat))

/-- **An exact schedule**: no operation of the start leaves `u64`, the loop ends, what it lists
are the scheduled numbers of `[from, to]` in order, and the rules list these. -/
def SchedulesExactly (first interval fromSlot toSlot : UInt64) : Prop :=
  (fromSlot ≤ toSlot → everyNSlotsStartChecked first interval fromSlot =
    some (everyNSlotsStart first interval fromSlot)) ∧
  ∃ slots : List UInt64,
    everyNSlotsRange first interval fromSlot toSlot = some slots ∧
    slots.Pairwise (· < ·) ∧
    (∀ x : UInt64, x ∈ slots ↔ fromSlot ≤ x ∧ x ≤ toSlot ∧
      ∃ k : Nat, x.toNat = first.toNat + k * interval.toNat) ∧
    (ProductionRule.everyNSlots first interval).slotsInRange fromSlot toSlot = some slots ∧
    (∀ forkSlot forkMarker,
      (ProductionRule.forkedFromSlot first interval forkSlot forkMarker).slotsInRange fromSlot
        toSlot = some slots) ∧
    (∀ breakAtSlot wrongHash,
      (ProductionRule.brokenPrevHash first interval breakAtSlot wrongHash).slotsInRange fromSlot
        toSlot = some slots) ∧
    ∀ skipIndices,
      (ProductionRule.skipsSlots first interval skipIndices).slotsInRange fromSlot toSlot =
        some (slots.filter fun s => !decide (SkippedAt first interval skipIndices s))

/-- On a scheduled slot the filter of `skips_slots` is the test by index. -/
theorem contains_index_iff {skipIndices : List UInt64} {x : UInt64} {k : Nat}
    (hpos : 0 < interval.toNat) (hk : x.toNat = first.toNat + k * interval.toNat) :
    skipIndices.contains ((x - first) / interval) = decide (SkippedAt first interval skipIndices x)
    := by
  have hindex := index_of_scheduled hpos hk
  rw [List.contains_eq_mem, decide_eq_decide]
  constructor
  · intro hmem
    exact ⟨_, hmem, by rw [hindex, hk]⟩
  · rintro ⟨j, hj, hx⟩
    have hjk : j.toNat * interval.toNat = k * interval.toNat := by omega
    have : (x - first) / interval = j :=
      UInt64.toNat_inj.mp (hindex.trans (Nat.eq_of_mul_eq_mul_right hpos hjk).symm)
    exact this ▸ hj

/-- What the rules make of a listing. -/
theorem slotsInRange_of_range {slots : List UInt64} (hpos : 0 < interval.toNat)
    (hle : fromSlot ≤ toSlot) (h : everyNSlotsRange first interval fromSlot toSlot = some slots)
    (hmem : ∀ x ∈ slots, ∃ k : Nat, x.toNat = first.toNat + k * interval.toNat) :
    (ProductionRule.everyNSlots first interval).slotsInRange fromSlot toSlot = some slots ∧
    (∀ forkSlot forkMarker,
      (ProductionRule.forkedFromSlot first interval forkSlot forkMarker).slotsInRange fromSlot
        toSlot = some slots) ∧
    (∀ breakAtSlot wrongHash,
      (ProductionRule.brokenPrevHash first interval breakAtSlot wrongHash).slotsInRange fromSlot
        toSlot = some slots) ∧
    ∀ skipIndices,
      (ProductionRule.skipsSlots first interval skipIndices).slotsInRange fromSlot toSlot =
        some (slots.filter fun s => !decide (SkippedAt first interval skipIndices s)) := by
  have hnot : ¬ fromSlot > toSlot := UInt64.not_lt.mpr hle
  simp only [ProductionRule.slotsInRange, if_neg hnot, h, Option.map_some, implies_true, true_and,
    Option.some.injEq]
  intro skipIndices
  refine List.filter_congr fun x hx => ?_
  obtain ⟨k, hk⟩ := hmem x hx
  rw [contains_index_iff hpos hk]

theorem schedulesExactly_of_lt (hlt : toSlot < fromSlot) :
    SchedulesExactly first interval fromSlot toSlot := by
  refine ⟨fun hle => absurd hle (UInt64.not_le.mpr hlt), [], ?_, List.Pairwise.nil, ?_, ?_⟩
  · rw [everyNSlotsRange, if_pos (Or.inr hlt)]
  · refine fun x => ⟨nofun, ?_⟩
    rintro ⟨h1, h2, -⟩
    exact absurd (UInt64.le_trans h1 h2) (UInt64.not_le.mpr hlt)
  · simp only [ProductionRule.slotsInRange, if_pos hlt, implies_true, List.filter_nil, and_self]

/-- **Schedules are exact exactly when** the interval is empty, or it ends below `u64::MAX` and
the first scheduled number from `from` on can be computed. -/
theorem schedulesExactly_iff (first interval fromSlot toSlot : UInt64) (hpos : 1 ≤ interval) :
    SchedulesExactly first interval fromSlot toSlot ↔
      toSlot < fromSlot ∨
      (toSlot ≠ u64Max ∧
        (first < fromSlot →
          fromSlot.toNat - first.toNat + interval.toNat < 2 ^ 64 ∧
            ∃ k : Nat, fromSlot.toNat ≤ first.toNat + k * interval.toNat ∧
              first.toNat + k * interval.toNat < 2 ^ 64)) := by
  have hpos : 0 < interval.toNat := UInt64.le_iff_toNat_le.mp hpos
  have hne : interval ≠ 0 := by rintro rfl; exact nomatch hpos
  rw [← startFits_iff hpos]
  rcases Nat.lt_or_ge toSlot.toNat fromSlot.toNat with hlt | hge
  · have hlt : toSlot < fromSlot := UInt64.lt_iff_toNat_lt.mpr hlt
    exact ⟨fun _ => Or.inl hlt, fun _ => schedulesExactly_of_lt hlt⟩
  have hle : fromSlot ≤ toSlot := UInt64.le_iff_toNat_le.mpr hge
  have hnot : ¬ toSlot < fromSlot := UInt64.not_lt.mpr hle
  constructor
  · rintro ⟨hchecked, slots, hslots, -⟩
    refine Or.inr ⟨?_, (everyNSlotsStartChecked_eq hpos).mp (hchecked hle)⟩
    have hreturns := everyNSlotsRange_isSome.mp (Option.isSome_of_eq_some hslots)
    exact (hreturns.resolve_left hne).resolve_left hnot
  · intro h
    obtain ⟨hmax, hfits⟩ := h.resolve_left hnot
    have hreturns : (everyNSlotsRange first interval fromSlot toSlot).isSome :=
      everyNSlotsRange_isSome.mpr (Or.inr (Or.inr hmax))
    obtain ⟨slots, hslots⟩ := Option.isSome_iff_exists.mp hreturns
    obtain ⟨hsorted, hmem⟩ := everyNSlotsRange_spec (fun _ => hfits) hslots
    refine ⟨fun _ => (everyNSlotsStartChecked_eq hpos).mpr hfits, slots, hslots, hsorted,
      fun x => ?_, slotsInRange_of_range hpos hle hslots fun x hx => ((hmem x).mp hx).2.2.2⟩
    rw [hmem, OnSchedule, and_iff_right hpos]

theorem schedulesExactly_iff_ten :
    SchedulesExactly 4 3 5 10 ↔
      (10 : UInt64) < 5 ∨
      ((10 : UInt64) ≠ u64Max ∧
        ((4 : UInt64) < 5 →
          (5 : UInt64).toNat - (4 : UInt64).toNat + (3 : UInt64).toNat < 2 ^ 64 ∧
            ∃ k : Nat, (5 : UInt64).toNat ≤ (4 : UInt64).toNat + k * (3 : UInt64).toNat ∧
              (4 : UInt64).toNat + k * (3 : UInt64).toNat < 2 ^ 64)) :=
  schedulesExactly_iff 4 3 5 10 (by decide)

/-- A rule that fires at every slot, asked for `u64::MAX` alone: the loop does not end. -/
theorem every_slot_at_max_hangs : ¬ SchedulesExactly 0 1 u64Max u64Max := by
  rintro ⟨-, slots, hslots, -⟩
  have hreturns := everyNSlotsRange_isSome.mp (Option.isSome_of_eq_some hslots)
  exact absurd hreturns (by decide)

end ConformanceHarness.Proof
