/-!
# Runs of actions

A machine takes actions, some of which it cannot take in the state it is in. A run takes one
after the other. What every action preserves, a run preserves; and what every action preserves
exactly if it is taken in a state that suits it, a run preserves exactly if all of its actions
are.
-/

namespace ConformanceHarness.Lib

variable {σ α : Type}

/-- Every action of a run is taken in a state that suits it. -/
def Throughout (act : σ → α → Option σ) (P : σ → α → Prop) : σ → List α → Prop
  | _, [] => True
  | s, a :: rest => P s a ∧ ∀ s' ∈ act s a, Throughout act P s' rest

instance Throughout.decide (act : σ → α → Option σ) (P : σ → α → Prop) [∀ s a, Decidable (P s a)] :
    ∀ s actions, Decidable (Throughout act P s actions)
  | _, [] => .isTrue trivial
  | s, a :: rest =>
    haveI := fun s' => Throughout.decide act P s' rest
    inferInstanceAs (Decidable (P s a ∧ ∀ s' ∈ act s a, Throughout act P s' rest))

section

variable {act : σ → α → Option σ} {s s' : σ} {actions : List α}

/-- A run of an action and more takes the action first. -/
theorem foldlM_cons_some {a : α} {rest : List α} (h : (a :: rest).foldlM act s = some s') :
    ∃ s₁, act s a = some s₁ ∧ rest.foldlM act s₁ = some s' := by
  rw [List.foldlM_cons] at h
  exact Option.bind_eq_some_iff.mp h

/-- **What every action preserves, a run preserves.** -/
theorem foldlM_invariant {I : σ → Prop} (hstep : ∀ s a s', act s a = some s' → I s → I s')
    (h : actions.foldlM act s = some s') (hs : I s) : I s' := by
  induction actions generalizing s with
  | nil =>
      obtain rfl := Option.some.inj h
      exact hs
  | cons a rest ih =>
      obtain ⟨s₁, ha, hrest⟩ := foldlM_cons_some h
      exact ih hrest (hstep s a s₁ ha hs)

/-- **A run preserves what its actions do, if each is taken where it does, and only then.** -/
theorem foldlM_preserves_iff {I : σ → Prop} {P : σ → α → Prop}
    (hstep : ∀ s a s', act s a = some s' → (I s' ↔ I s ∧ P s a))
    (h : actions.foldlM act s = some s') : I s' ↔ I s ∧ Throughout act P s actions := by
  induction actions generalizing s with
  | nil =>
      obtain rfl := Option.some.inj h
      exact ⟨fun hs => ⟨hs, trivial⟩, And.left⟩
  | cons a rest ih =>
      obtain ⟨s₁, ha, hrest⟩ := foldlM_cons_some h
      rw [ih hrest, hstep s a s₁ ha, and_assoc]
      have hthrough : Throughout act P s (a :: rest) ↔ P s a ∧ Throughout act P s₁ rest := by
        constructor
        · exact fun ⟨hP, hall⟩ => ⟨hP, hall s₁ ha⟩
        · intro ⟨hP, hall⟩
          refine ⟨hP, fun s₂ ha₂ => ?_⟩
          obtain rfl := Option.some.inj (ha.symm.trans ha₂)
          exact hall
      rw [hthrough]

end

end ConformanceHarness.Lib
