import Mathlib.Logic.Relation

/-!
# Forests

A forest is given by its roots and by which nodes are the children of which. A law about pairs
of nodes that holds of the roots holds of the whole forest if no node below a root breaks it.
-/

namespace ConformanceHarness.Lib

variable {α : Type} {child : α → α → Prop} {roots : List α} {a b : α}

/-- A node of the forest. -/
def Within (child : α → α → Prop) (roots : List α) (a : α) : Prop :=
  ∃ root ∈ roots, Relation.ReflTransGen child root a

/-- A node of the forest that is the child of one. -/
def Below (child : α → α → Prop) (roots : List α) (a : α) : Prop :=
  ∃ root ∈ roots, Relation.TransGen child root a

theorem Within.of_root (h : a ∈ roots) : Within child roots a := ⟨a, h, .refl⟩

theorem Below.within (h : Below child roots a) : Within child roots a := by
  obtain ⟨root, hroot, hpath⟩ := h
  exact ⟨root, hroot, hpath.to_reflTransGen⟩

theorem Within.below (h : Within child roots a) (hchild : child a b) : Below child roots b := by
  obtain ⟨root, hroot, hpath⟩ := h
  exact ⟨root, hroot, .tail' hpath hchild⟩

/-- What holds of the roots, and of the children of every node it holds of, holds of the forest. -/
theorem Within.induction {P : α → Prop} (h : Within child roots a) (hroots : ∀ root ∈ roots, P root)
    (hchild : ∀ a b, P a → child a b → P b) : P a := by
  obtain ⟨root, hroot, hpath⟩ := h
  induction hpath with
  | refl => exact hroots root hroot
  | tail _ hlast ih => exact hchild _ _ ih hlast

/-- A node is a root, or below one. -/
theorem within_iff : Within child roots a ↔ a ∈ roots ∨ Below child roots a := by
  constructor
  · intro h
    obtain ⟨root, hroot, hpath⟩ := h
    rcases Relation.reflTransGen_iff_eq_or_transGen.mp hpath with rfl | hpath
    · exact Or.inl hroot
    · exact Or.inr ⟨root, hroot, hpath⟩
  · intro h
    rcases h with h | h
    · exact .of_root h
    · exact h.within

/-- **A law about pairs, on the whole forest**: between the roots, between a root and a node below
one, and between two nodes below. -/
theorem within_pairs_iff {R : α → α → Prop} (hsymm : ∀ a b, R a b → R b a) :
    (∀ a b, Within child roots a → Within child roots b → R a b) ↔
      (∀ a ∈ roots, ∀ b ∈ roots, R a b) ∧ (∀ a ∈ roots, ∀ b, Below child roots b → R a b) ∧
        ∀ a b, Below child roots a → Below child roots b → R a b := by
  constructor
  · intro h
    exact ⟨fun a ha b hb => h a b (.of_root ha) (.of_root hb),
      fun a ha b hb => h a b (.of_root ha) hb.within, fun a b ha hb => h a b ha.within hb.within⟩
  · intro h a b ha hb
    obtain ⟨hroots, hmixed, hbelow⟩ := h
    rcases within_iff.mp ha with ha | ha
    · rcases within_iff.mp hb with hb | hb
      · exact hroots a ha b hb
      · exact hmixed a ha b hb
    · rcases within_iff.mp hb with hb | hb
      · exact hsymm b a (hmixed b hb a ha)
      · exact hbelow a b ha hb

end ConformanceHarness.Lib
