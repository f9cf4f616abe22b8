import Mathlib.Data.List.Defs

/-!
# Chunks of a list

`toChunks n` fills an array and starts another when it is full. What it makes is said here by its
recursion: the first `n` elements, and the chunks of the rest. So the chunks are the list again
when they are put together and none is empty; and if they are to be of more than one element, the
last is a single element exactly if one is left over.
-/

namespace ConformanceHarness.Lib

variable {α : Type}

theorem toChunks_nil (n : Nat) : ([] : List α).toChunks n = [] := by cases n <;> rfl

theorem toChunks_cons {n : Nat} (hn : 0 < n) (a : α) (rest : List α) :
    (a :: rest).toChunks n = List.toChunks.go n rest #[a] #[] := by
  obtain ⟨m, rfl⟩ := Nat.exists_eq_add_one.mpr hn
  rfl

/-- The loop that fills the chunks, when the one it fills is `current`. -/
theorem toChunks_go {n : Nat} (hn : 0 < n) (l : List α) (current : Array α)
    (full : Array (List α)) (hsize : current.size ≤ n) :
    List.toChunks.go n l current full = full.toList ++
      ((current.toList ++ l).take n :: ((current.toList ++ l).drop n).toChunks n) := by
  induction l generalizing current full with
  | nil =>
    have hlength : current.toList.length ≤ n := by rwa [Array.length_toList]
    rw [List.toChunks.go, List.append_nil, List.take_of_length_le hlength,
      List.drop_of_length_le hlength, toChunks_nil, Array.toList_push]
  | cons a rest ih =>
    have hone : (#[a] : Array α).size ≤ n := hn
    rw [List.toChunks.go]
    by_cases hfull : current.size = n
    · have hlength : current.toList.length = n := by rwa [Array.length_toList]
      rw [if_pos (beq_iff_eq.mpr hfull), List.take_left' hlength, List.drop_left' hlength,
        toChunks_cons hn, ih #[a] #[] hone]
      refine (ih #[a] _ hone).trans ?_
      rw [Array.toList_push, List.append_assoc]
      rfl
    · have hle : (current.push a).size ≤ n := by
        rw [Array.size_push]
        omega
      rw [if_neg fun h => hfull (beq_iff_eq.mp h), ih _ _ hle, Array.toList_push,
        List.append_assoc, List.singleton_append]

/-- **The first chunk, and the chunks of the rest.** -/
theorem toChunks_of_ne_nil {n : Nat} (hn : 0 < n) {l : List α} (h : l ≠ []) :
    l.toChunks n = l.take n :: (l.drop n).toChunks n := by
  obtain ⟨a, rest, rfl⟩ := List.exists_cons_of_ne_nil h
  rw [toChunks_cons hn, toChunks_go hn rest #[a] #[] hn]
  rfl

/-- **The chunks put together are the list.** -/
theorem flatten_toChunks {n : Nat} (hn : 0 < n) (l : List α) : (l.toChunks n).flatten = l := by
  induction hlength : l.length using Nat.strongRecOn generalizing l with
  | ind length ih =>
    by_cases hempty : l = []
    · rw [hempty, toChunks_nil]
      rfl
    · have hpos := List.length_pos_iff.mpr hempty
      have hshorter : (l.drop n).length < length := by
        rw [List.length_drop]
        omega
      rw [toChunks_of_ne_nil hn hempty, List.flatten_cons, ih _ hshorter (l.drop n) rfl,
        List.take_append_drop]

theorem toChunks_map {β : Type} {n : Nat} (hn : 0 < n) (f : α → β) (l : List α) :
    (l.map f).toChunks n = (l.toChunks n).map (List.map f) := by
  induction hlength : l.length using Nat.strongRecOn generalizing l with
  | ind length ih =>
    rcases l with _ | ⟨a, rest⟩
    · rw [List.map_nil, toChunks_nil, toChunks_nil]
      rfl
    · have hne : a :: rest ≠ [] := List.cons_ne_nil a rest
      have hshorter : ((a :: rest).drop n).length < length := by
        rw [List.length_drop, ← hlength, List.length_cons]
        omega
      rw [toChunks_of_ne_nil hn hne, toChunks_of_ne_nil hn (mt List.map_eq_nil_iff.mp hne),
        ← List.map_take, ← List.map_drop, ih _ hshorter _ rfl, List.map_cons]

/-- Every element is in a chunk of its own. -/
theorem toChunks_one (l : List α) : l.toChunks 1 = l.map fun a => [a] := by
  induction l with
  | nil => rfl
  | cons a rest ih =>
    rw [toChunks_of_ne_nil Nat.one_pos (List.cons_ne_nil a rest), List.map_cons, ← ih]
    rfl

/-- **The chunks, by their places.** -/
theorem getElem?_toChunks {n : Nat} (hn : 0 < n) {l chunk : List α} {k : Nat} :
    (l.toChunks n)[k]? = some chunk ↔ chunk = (l.drop (k * n)).take n ∧ chunk ≠ [] := by
  induction k generalizing l with
  | zero =>
    rw [Nat.zero_mul, List.drop_zero]
    rcases l with _ | ⟨a, rest⟩
    · rw [toChunks_nil, List.take_nil]
      exact ⟨fun h => absurd h (Option.some_ne_none chunk).symm, fun h => absurd h.1 h.2⟩
    · have hne : (a :: rest).take n ≠ [] := by
        obtain ⟨m, rfl⟩ := Nat.exists_eq_add_one.mpr hn
        exact List.cons_ne_nil a _
      rw [toChunks_of_ne_nil hn (List.cons_ne_nil a rest), List.getElem?_cons_zero]
      constructor
      · intro h
        obtain rfl := Option.some.inj h
        exact ⟨rfl, hne⟩
      · rintro ⟨rfl, -⟩
        rfl
  | succ k ih =>
    rcases l with _ | ⟨a, rest⟩
    · rw [toChunks_nil, List.drop_nil, List.take_nil]
      exact ⟨fun h => absurd h (Option.some_ne_none chunk).symm, fun h => absurd h.1 h.2⟩
    · rw [toChunks_of_ne_nil hn (List.cons_ne_nil a rest), List.getElem?_cons_succ, ih,
        List.drop_drop, Nat.succ_mul, Nat.add_comm n]

theorem toChunks_ne_nil {n : Nat} {l : List α} : ∀ chunk ∈ l.toChunks n, chunk ≠ [] := by
  intro chunk hmem
  rcases n.eq_zero_or_pos with rfl | hn
  · cases l with
    | nil => exact absurd hmem List.not_mem_nil
    | cons a rest =>
      rw [List.mem_singleton.mp hmem]
      exact List.cons_ne_nil a rest
  · obtain ⟨k, hk⟩ := List.mem_iff_getElem?.mp hmem
    exact ((getElem?_toChunks hn).mp hk).2

/-- **A chunk of one element**, where chunks are larger, is what is left over at the end. -/
theorem getElem?_toChunks_singleton {n : Nat} (hn : 1 < n) {l : List α} {a : α} {k : Nat} :
    (l.toChunks n)[k]? = some [a] ↔ l.length % n = 1 ∧ k = l.length / n ∧ l.getLast? = some a := by
  have hpos : 0 < n := Nat.lt_of_succ_lt hn
  rw [getElem?_toChunks hpos]
  constructor
  · rintro ⟨hchunk, -⟩
    -- more elements would be in the chunk
    have hdrop : l.drop (k * n) = [a] := by
      rcases hrest : l.drop (k * n) with _ | ⟨b, _ | ⟨c, rest⟩⟩
      · rw [hrest, List.take_nil] at hchunk
        cases hchunk
      · rw [hrest, List.take_of_length_le (Nat.le_of_lt hn)] at hchunk
        exact hchunk.symm
      · obtain ⟨m, rfl⟩ := Nat.exists_eq_add_of_lt hn
        rw [hrest, show 1 + m + 1 = (m + 1) + 1 from by omega, List.take_succ_cons,
          List.take_succ_cons] at hchunk
        cases hchunk
    have hlength : l.length = k * n + 1 := by
      have hcount := congrArg List.length hdrop
      rw [List.length_drop, List.length_singleton] at hcount
      omega
    refine ⟨?_, ?_, ?_⟩
    · rw [hlength, Nat.mul_add_mod_self_right, Nat.mod_eq_of_lt hn]
    · rw [hlength, Nat.mul_comm, Nat.mul_add_div hpos, Nat.div_eq_of_lt hn, Nat.add_zero]
    · rw [← List.take_append_drop (k * n) l, hdrop, List.getLast?_concat]
  · rintro ⟨hmod, rfl, hlast⟩
    have hlength : l.length / n * n + 1 = l.length := by
      have hdiv := Nat.div_add_mod' l.length n
      rw [hmod] at hdiv
      exact hdiv
    obtain ⟨init, rfl⟩ := List.getLast?_eq_some_iff.mp hlast
    have hinit : init.length = (init ++ [a]).length / n * n := by
      rw [List.length_append, List.length_singleton] at hlength ⊢
      omega
    rw [List.drop_left' hinit, List.take_of_length_le (Nat.le_of_lt hn)]
    exact ⟨rfl, List.cons_ne_nil a []⟩

end ConformanceHarness.Lib
