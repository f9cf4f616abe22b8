/-!
# Consecutive half-open intervals

A list of intervals `(lo, hi]` that starts at `a`, ends at `b` and in which each
begins where the one before it ended. Such a list covers `(a, b]` exactly: every
point of it lies in one interval and no other point lies in any. The empty
intervals `(x, x]` are allowed and contain nothing.
-/

namespace ConformanceHarness.Lib

section

variable {α : Type} [LE α]

/-- The intervals lead from `a` to `b` without a gap. -/
def Consecutive : α → List (α × α) → α → Prop
  | a, [], b => a = b
  | a, (lo, hi) :: rest, b => lo = a ∧ lo ≤ hi ∧ Consecutive hi rest b

theorem Consecutive.le [Std.IsLinearOrder α] {a b : α} {is : List (α × α)}
    (h : Consecutive a is b) : a ≤ b := by
  induction is generalizing a with
  | nil => exact h ▸ Std.le_refl a
  | cons i rest ih =>
      obtain ⟨rfl, hle, hrest⟩ := h
      exact Std.le_trans hle (ih hrest)

/-- One more interval at the end. -/
theorem Consecutive.snoc {a b c : α} {is : List (α × α)} (h : Consecutive a is b) (hbc : b ≤ c) :
    Consecutive a (is ++ [(b, c)]) c := by
  induction is generalizing a with
  | nil =>
      obtain rfl : a = b := h
      exact ⟨rfl, hbc, rfl⟩
  | cons i rest ih =>
      obtain ⟨rfl, hle, hrest⟩ := h
      exact ⟨rfl, hle, ih hrest⟩

end

section

variable {α : Type} [LE α] [LT α] [DecidableLE α] [DecidableLT α]

/-- `x` lies in the interval. -/
def InInterval (x : α) (i : α × α) : Prop := i.1 < x ∧ x ≤ i.2

instance (x : α) (i : α × α) : Decidable (InInterval x i) := inferInstanceAs (Decidable (_ ∧ _))

/-- **Consecutive intervals cover their span exactly once.** -/
theorem Consecutive.countP_eq [Std.IsLinearOrder α] [Std.LawfulOrderLT α] {a b : α}
    {is : List (α × α)} (h : Consecutive a is b) (x : α) :
    is.countP (fun i => InInterval x i) = if a < x ∧ x ≤ b then 1 else 0 := by
  induction is generalizing a with
  | nil =>
      obtain rfl : a = b := h
      rw [List.countP_nil, if_neg fun hx => absurd hx.1 (Std.not_lt.mpr hx.2)]
  | cons i rest ih =>
      obtain ⟨lo, hi⟩ := i
      obtain ⟨rfl, hle, hrest⟩ := h
      rw [List.countP_cons, ih hrest]
      have hend := hrest.le
      by_cases hx : x ≤ hi
      · -- then only the first interval can contain it
        have hlt : ¬ hi < x := Std.not_lt.mpr hx
        have hb : x ≤ b := Std.le_trans hx hend
        by_cases hlo : lo < x
        · simp [InInterval, hlt, hb, hlo, hx]
        · simp [InInterval, hlt, hlo]
      · have hgt : hi < x := Std.not_le.mp hx
        have hlo : lo < x := Std.lt_of_le_of_lt hle hgt
        simp [InInterval, hx, hgt, hlo]

end

end ConformanceHarness.Lib
