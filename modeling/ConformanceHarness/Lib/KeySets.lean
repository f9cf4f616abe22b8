import Mathlib.Data.Finset.Basic
import Mathlib.Logic.Function.Basic

/-!
# Maps, and the set of their keys

What an abstract interpreter knows of a map is which keys it has. Inserting and removing keep
set and map together, and so does taking an entry out and putting one back.
-/

namespace ConformanceHarness.Lib

variable {κ α : Type} {keys : Finset κ} {m : κ → Option α} {k : κ} {a : α}

/-- The map has these keys. -/
def HasKeys (keys : Finset κ) (m : κ → Option α) : Prop := ∀ k, k ∈ keys ↔ (m k).isSome

theorem HasKeys.empty : HasKeys ∅ (fun _ : κ => (none : Option α)) := by
  intro k
  simp

theorem HasKeys.exists_of_mem (h : HasKeys keys m) (hk : k ∈ keys) : ∃ a, m k = some a :=
  Option.isSome_iff_exists.mp ((h k).mp hk)

theorem HasKeys.eq_none (h : HasKeys keys m) (hk : k ∉ keys) : m k = none := by
  cases hm : m k with
  | none => rfl
  | some a => exact absurd ((h k).mpr (by simp [hm])) hk

variable [DecidableEq κ]

theorem HasKeys.insert (h : HasKeys keys m) (k : κ) (a : α) :
    HasKeys (Insert.insert k keys) (Function.update m k (some a)) := by
  intro k'
  rw [Finset.mem_insert]
  by_cases heq : k' = k
  · simp [heq]
  · simp [heq, h k']

theorem HasKeys.erase (h : HasKeys keys m) (k : κ) :
    HasKeys (keys.erase k) (Function.update m k none) := by
  intro k'
  rw [Finset.mem_erase]
  by_cases heq : k' = k
  · simp [heq]
  · simp [heq, h k']

/-- An entry is taken out, and another put in its place. -/
theorem HasKeys.replace (h : HasKeys keys m) (hk : k ∈ keys) (a : α) :
    HasKeys keys (Function.update (Function.update m k none) k (some a)) := by
  have hback := (h.erase k).insert k a
  rwa [Finset.insert_erase hk] at hback

/-- The entries do not matter. -/
theorem HasKeys.change (h : HasKeys keys (Function.update m k (some a))) (b : α) :
    HasKeys keys (Function.update m k (some b)) := by
  intro k'
  rw [h k']
  by_cases heq : k' = k
  · simp [heq]
  · simp [heq]

end ConformanceHarness.Lib
