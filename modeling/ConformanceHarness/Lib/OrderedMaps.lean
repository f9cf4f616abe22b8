import Mathlib.Data.List.Sort
import Std.Data.ExtTreeMap

/-!
# Ordered maps, filled in order

A map that is given its entries in the order of their keys lists them in that order: what goes
in past the last key comes out last.
-/

namespace ConformanceHarness.Lib

section

variable {α β : Type} {cmp : α → α → Ordering} [Std.TransCmp cmp]

/-- Entries in the order of their keys. -/
def KeysAscend (cmp : α → α → Ordering) (entries : List (α × β)) : Prop :=
  entries.Pairwise fun x y => cmp x.1 y.1 = .lt

theorem asymm_of_cmp : Std.Asymm fun x y : α × β => cmp x.1 y.1 = .lt where
  asymm x y hxy hyx := by
    have hswap : cmp x.1 y.1 = (cmp y.1 x.1).swap := Std.OrientedCmp.eq_swap
    rw [hxy, hyx] at hswap
    exact nomatch hswap

variable [Std.LawfulEqCmp cmp] {m : Std.ExtTreeMap α β cmp}

/-- **An entry past the last key** is the last one. -/
theorem toList_insert_last {a : α} {b : β} (hlast : ∀ entry ∈ m.toList, cmp entry.1 a = .lt) :
    (m.insert a b).toList = m.toList ++ [(a, b)] := by
  have hfresh : ∀ v, m[a]? ≠ some v := by
    intro v hget
    have hself : cmp a a = .lt :=
      hlast _ (Std.ExtTreeMap.mem_toList_iff_getElem?_eq_some.mpr hget)
    exact nomatch hself.symm.trans Std.ReflCmp.compare_self
  have hasymm : Std.Asymm fun x y : α × β => cmp x.1 y.1 = .lt := asymm_of_cmp
  -- both sides are sorted, so it is enough that they have the same entries
  refine List.Pairwise.eq_of_mem_iff Std.ExtTreeMap.ordered_keys_toList ?_ fun entry => ?_
  · refine List.pairwise_append.mpr ⟨Std.ExtTreeMap.ordered_keys_toList,
      List.pairwise_singleton _ _, ?_⟩
    intro x hx y hy
    rw [List.mem_singleton.mp hy]
    exact hlast x hx
  · obtain ⟨k, v⟩ := entry
    simp only [Std.ExtTreeMap.mem_toList_iff_getElem?_eq_some, Std.ExtTreeMap.getElem?_insert,
      Std.LawfulEqCmp.compare_eq_iff_eq, List.mem_append, List.mem_singleton]
    by_cases hk : a = k
    · subst hk
      simp only [Std.ReflCmp.compare_self, if_true, Option.some.injEq, Prod.mk.injEq, true_and,
        hfresh v, false_or]
      exact eq_comm
    · simp [hk, Ne.symm hk]

/-- Entries inserted one after the other. -/
def insertAll (m : Std.ExtTreeMap α β cmp) (entries : List (α × β)) : Std.ExtTreeMap α β cmp :=
  entries.foldl (fun m entry => m.insert entry.1 entry.2) m

/-- **Entries in order** are listed as they were inserted. -/
theorem toList_insertAll {entries : List (α × β)} (h : KeysAscend cmp (m.toList ++ entries)) :
    (insertAll m entries).toList = m.toList ++ entries := by
  induction entries generalizing m with
  | nil => exact (List.append_nil _).symm
  | cons entry rest ih =>
    have hlast : ∀ x ∈ m.toList, cmp x.1 entry.1 = .lt :=
      fun x hx => (List.pairwise_append.mp h).2.2 x hx entry List.mem_cons_self
    have hinsert : (m.insert entry.1 entry.2).toList = m.toList ++ [entry] :=
      toList_insert_last hlast
    have hsplit : m.toList ++ entry :: rest = (m.insert entry.1 entry.2).toList ++ rest := by
      rw [hinsert, List.append_assoc]
      rfl
    rw [hsplit] at h ⊢
    exact ih h

theorem toList_insertAll_empty {entries : List (α × β)} (h : KeysAscend cmp entries) :
    (insertAll (∅ : Std.ExtTreeMap α β cmp) entries).toList = entries := by
  have hnil : (∅ : Std.ExtTreeMap α β cmp).toList = [] :=
    Std.ExtTreeMap.toList_eq_nil_iff.mpr rfl
  have hall : KeysAscend cmp ((∅ : Std.ExtTreeMap α β cmp).toList ++ entries) := by
    rw [hnil]
    exact h
  rw [toList_insertAll hall, hnil]
  rfl

end

end ConformanceHarness.Lib
