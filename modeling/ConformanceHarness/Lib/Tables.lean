import Mathlib.Data.List.AList

/-!
# What a map holds

The values of a map, as a list without an order. What `insert` puts in is there afterwards, what
was under the key is not, and `erase` takes out one value.
-/

namespace ConformanceHarness.Lib

variable {κ α : Type} [DecidableEq κ]

/-- The values of a map. -/
def valuesOf (m : AList fun _ : κ => α) : List α := m.entries.map Sigma.snd

theorem mem_valuesOf {m : AList fun _ : κ => α} {a : α} :
    a ∈ valuesOf m ↔ ∃ k, m.lookup k = some a := by
  constructor
  · intro ha
    obtain ⟨⟨k, b⟩, hmem, rfl⟩ := List.mem_map.mp ha
    exact ⟨k, AList.mem_lookup_iff.mpr hmem⟩
  · rintro ⟨k, hk⟩
    exact List.mem_map.mpr ⟨⟨k, a⟩, AList.mem_lookup_iff.mp hk, rfl⟩

/-- An entry that is taken out. -/
theorem valuesOf_erase {m : AList fun _ : κ => α} {k : κ} {a : α} (h : m.lookup k = some a) :
    (valuesOf m).Perm (a :: valuesOf (m.erase k)) := by
  have hkey : k ∈ m.entries.keys := AList.lookup_isSome.mp (Option.isSome_of_eq_some h)
  obtain ⟨b, before, after, hbefore, hentries, herase⟩ := List.exists_of_kerase hkey
  have hmem : ⟨k, b⟩ ∈ m.entries := by
    rw [hentries]
    exact List.mem_append_cons_self
  obtain rfl : b = a := Option.some.inj ((AList.mem_lookup_iff.mpr hmem).symm.trans h)
  have hleft : (m.erase k).entries = before ++ after := herase
  rw [valuesOf, valuesOf, hentries, hleft, List.map_append, List.map_append, List.map_cons]
  exact List.perm_middle

theorem erase_of_lookup_none {m : AList fun _ : κ => α} {k : κ} (h : m.lookup k = none) :
    (m.erase k).entries = m.entries :=
  List.kerase_of_notMem_keys (AList.lookup_eq_none.mp h)

/-- An entry that is put in, and what was there. -/
theorem valuesOf_insert (m : AList fun _ : κ => α) (k : κ) (a : α) :
    (valuesOf (m.insert k a) ++ (m.lookup k).toList).Perm (a :: valuesOf m) := by
  have hinsert : valuesOf (m.insert k a) = a :: valuesOf (m.erase k) := by
    rw [valuesOf, AList.entries_insert]
    rfl
  rw [hinsert, List.cons_append]
  refine List.Perm.cons a ?_
  cases h : m.lookup k with
  | none =>
    rw [Option.toList_none, List.append_nil, valuesOf, erase_of_lookup_none h]
    rfl
  | some b => exact List.perm_append_comm.trans (valuesOf_erase h).symm

end ConformanceHarness.Lib
