import Mathlib.Data.List.Chain

/-!
# Labelled paths

A path from one state to another, carrying exactly its labels. Two labels that
follow each other meet in a state, so a relation between neighbours can be read
off a single pair of steps.
-/

namespace ConformanceHarness.Lib

variable {σ ℓ : Type} {step step' : σ → ℓ → σ → Prop}

/-- A path carrying exactly its labels. -/
inductive Path (step : σ → ℓ → σ → Prop) : σ → List ℓ → σ → Prop where
  | nil (s : σ) : Path step s [] s
  | cons {s m t : σ} {l : ℓ} {ls : List ℓ} (first : step s l m) (rest : Path step m ls t) :
      Path step s (l :: ls) t

namespace Path

theorem single {s t : σ} {l : ℓ} (h : step s l t) : Path step s [l] t := .cons h (.nil t)

/-- Paths compose where they meet. -/
theorem append {s m t : σ} {ls ls' : List ℓ} (h : Path step s ls m) (h' : Path step m ls' t) :
    Path step s (ls ++ ls') t := by
  induction h with
  | nil s => exact h'
  | cons first _ ih => exact .cons first (ih h')

/-- The same path, for steps that say more about the labels on it. -/
theorem imp_of_mem {s t : σ} {ls : List ℓ} (h : Path step s ls t)
    (himp : ∀ a l b, l ∈ ls → step a l b → step' a l b) : Path step' s ls t := by
  induction h with
  | nil s => exact .nil s
  | @cons s m t l ls first _ ih =>
    refine .cons (himp s l m (by simp) first) (ih ?_)
    intro a l' b hl' hstep
    exact himp a l' b (List.mem_cons_of_mem l hl') hstep

/-- **Neighbours on a path.** Two relations that agree on any two steps that meet hold
along the same paths. -/
theorem isChain_iff {R S : ℓ → ℓ → Prop}
    (hRS : ∀ a l b l' c, step a l b → step b l' c → (R l l' ↔ S l l'))
    {s t : σ} {ls : List ℓ} (h : Path step s ls t) : ls.IsChain R ↔ ls.IsChain S := by
  induction h with
  | nil s => simp
  | @cons s m t l ls first rest ih =>
    cases rest with
    | nil s => simp
    | @cons _ m' _ l' ls second rest =>
      rw [List.isChain_cons_cons, List.isChain_cons_cons, ih, hRS s l m l' m' first second]

/-- A relation that any two steps that meet are in holds along every path. -/
theorem isChain {R : ℓ → ℓ → Prop}
    (hR : ∀ a l b l' c, step a l b → step b l' c → R l l')
    {s t : σ} {ls : List ℓ} (h : Path step s ls t) : ls.IsChain R := by
  induction h with
  | nil s => simp
  | @cons s m t l ls first rest ih =>
    cases rest with
    | nil s => simp
    | @cons _ m' _ l' ls second rest =>
      rw [List.isChain_cons_cons]
      exact ⟨hR s l m l' m' first second, ih⟩

end Path

/-- A chain whose relation splits into a condition on each side. -/
theorem isChain_and_iff {P Q : ℓ → Prop} (ls : List ℓ) :
    ls.IsChain (fun l l' => P l ∧ Q l') ↔ (∀ l ∈ ls.dropLast, P l) ∧ ∀ l ∈ ls.tail, Q l := by
  induction ls with
  | nil => simp
  | cons l ls ih =>
    cases ls with
    | nil => simp
    | cons l' ls =>
      rw [List.isChain_cons_cons, ih]
      simp only [List.dropLast_cons_cons, List.tail_cons, List.forall_mem_cons]
      tauto

end ConformanceHarness.Lib
