import Mathlib.Data.Nat.Find
import ConformanceHarness.Lib.Search
import ConformanceHarness.Scenario.BlockFixture

/-!
# Looking for a point

Both kinds of fixture are searched for a point by slot and hash, and the hash of an entry is
decoded only if its slot is the one looked for. The test of such a search passes at the
point, and fails on a hash that cannot be read.

`find_entry_idx` finds the first block at a point in this way, and `find_range` the blocks
from one such point to another.
-/

namespace ConformanceHarness

open Lib

namespace BlockFixtureChain

/-- Block `k` is the first at `p`. -/
structure FirstBlock (chain : BlockFixtureChain) (p : Point) (k : Nat) : Prop where
  here : ∃ e, chain.entries[k]? = some e ∧ e.point = .ok p
  first : ∀ e ∈ chain.entries.take k, e.point ≠ .ok p

/-- `p` is the point of a block. -/
def HasBlock (chain : BlockFixtureChain) (p : Point) : Prop := ∃ e ∈ chain.entries, e.point = .ok p

/-- The hashes at the slot of `p`, up to its first block, can be read. -/
def Legible (chain : BlockFixtureChain) : Point → Prop
  | .origin => True
  | .specific slot hash => ∀ k e, chain.entries[k]? = some e → e.slot = slot →
      (∀ b ∈ chain.entries.take k, b.point ≠ .ok (.specific slot hash)) →
      ∃ h, BlockFixtureEntry.decodeHexUnchecked e.blockHash = .ok h

/-- The blocks from `i` to `j`, both included. -/
def blocksBetween (chain : BlockFixtureChain) (i j : Nat) : List BlockFixtureEntry :=
  (chain.entries.take (j + 1)).drop i

/-- An endpoint is not a block, or the last block comes before the first. -/
def Unsatisfiable (chain : BlockFixtureChain) (fromPoint toPoint : Point) : Prop :=
  ¬ chain.HasBlock fromPoint ∨ ¬ chain.HasBlock toPoint ∨
    ∃ i j, chain.FirstBlock fromPoint i ∧ chain.FirstBlock toPoint j ∧ j < i

variable {chain : BlockFixtureChain} {p : Point} {k k' : Nat}

theorem FirstBlock.hasBlock (h : chain.FirstBlock p k) : chain.HasBlock p := by
  obtain ⟨e, hget, he⟩ := h.here
  exact ⟨e, List.mem_of_getElem? hget, he⟩

theorem FirstBlock.lt_length (h : chain.FirstBlock p k) : k < chain.entries.length := by
  obtain ⟨e, hget, -⟩ := h.here
  exact (List.getElem?_eq_some_iff.mp hget).1

theorem FirstBlock.unique (h : chain.FirstBlock p k) (h' : chain.FirstBlock p k') : k = k' := by
  obtain ⟨e, hk, he⟩ := h.here
  obtain ⟨e', hk', he'⟩ := h'.here
  rcases Nat.lt_trichotomy k k' with hlt | heq | hlt
  · exact absurd he (h'.first e (mem_take_of_lt hk hlt))
  · exact heq
  · exact absurd he' (h.first e' (mem_take_of_lt hk' hlt))

/-- A point that occurs occurs first somewhere. -/
theorem HasBlock.first (h : chain.HasBlock p) : ∃ k, chain.FirstBlock p k := by
  classical
  obtain ⟨e, he, hp⟩ := h
  obtain ⟨i, hi⟩ := List.getElem?_of_mem he
  have hex : ∃ k, ∃ b : BlockFixtureEntry, chain.entries[k]? = some b ∧ b.point = .ok p :=
    ⟨i, e, hi, hp⟩
  refine ⟨Nat.find hex, Nat.find_spec hex, fun b hb hpb => ?_⟩
  obtain ⟨j, hj⟩ := List.getElem?_of_mem hb
  have hlt : j < Nat.find hex := by
    have hlen := (List.getElem?_eq_some_iff.mp hj).1
    rw [List.length_take] at hlen
    omega
  exact Nat.find_min hex hlt ⟨b, (List.getElem?_take_of_lt hlt).symm.trans hj, hpb⟩

end BlockFixtureChain

namespace Proof

/-! ## The test -/

section Test

variable {slot entrySlot : UInt64} {hash : List UInt8} {decoded : Except Fault (List UInt8)}

/-- The test of a search for a point, at an entry with this slot, whose hash decodes to this. -/
def isAt (slot : UInt64) (hash : List UInt8) (entrySlot : UInt64)
    (decoded : Except Fault (List UInt8)) : Except Fault Bool :=
  if entrySlot = slot then decoded.map fun h => decide (h = hash) else .ok false

/-- It passes at the point. -/
theorem isAt_true : isAt slot hash entrySlot decoded = .ok true ↔
    decoded.map (Point.specific entrySlot) = .ok (.specific slot hash) := by
  rw [isAt]
  by_cases hs : entrySlot = slot
  · rw [if_pos hs]
    rcases decoded with f | h
    · exact iff_of_false (fun h => nomatch h) (fun h => nomatch h)
    · simp [Except.map, hs]
  · rw [if_neg hs]
    rcases decoded with f | h
    · exact iff_of_false (fun h => nomatch h) (fun h => nomatch h)
    · simp [Except.map, hs]

theorem isAt_false (h : isAt slot hash entrySlot decoded = .ok false) :
    decoded.map (Point.specific entrySlot) ≠ .ok (.specific slot hash) :=
  fun hp => nomatch h.symm.trans (isAt_true.mpr hp)

/-- It fails on a hash that cannot be read. -/
theorem isAt_error {f : Fault} :
    isAt slot hash entrySlot decoded = .error f ↔ entrySlot = slot ∧ decoded = .error f := by
  rw [isAt]
  by_cases hs : entrySlot = slot
  · rw [if_pos hs, and_iff_right hs]
    rcases decoded with f' | h
    · show Except.error f' = Except.error f ↔ _
      rw [Except.error.injEq, Except.error.injEq]
    · exact iff_of_false (fun h => nomatch h) (fun h => nomatch h)
  · rw [if_neg hs]
    exact iff_of_false (fun h => nomatch h) fun h => hs h.1

/-- A hash that has been tested can be read. -/
theorem readable_of_isAt {b : Bool} (h : isAt slot hash entrySlot decoded = .ok b)
    (hs : entrySlot = slot) : ∃ h, decoded = .ok h := by
  rcases hh : decoded with f | bytes
  · exact nomatch h.symm.trans (isAt_error.mpr ⟨hs, hh⟩)
  · exact ⟨bytes, rfl⟩

end Test

/-! ## The first block -/

open BlockFixtureChain

variable {chain : BlockFixtureChain} {fromPoint toPoint p : Point} {i j k : Nat}

/-- The test of the search. -/
def blockIsAt (slot : UInt64) (hash : List UInt8) (e : BlockFixtureEntry) : Except Fault Bool :=
  isAt slot hash e.slot (BlockFixtureEntry.decodeHexUnchecked e.blockHash)

theorem entryIdx_eq (slot : UInt64) (hash : List UInt8) (entries : List BlockFixtureEntry) :
    ∀ n, entryIdx slot hash n entries =
      (search (blockIsAt slot hash) entries).map (Option.map (n + ·)) := by
  refine loop_eq_search (entryIdx slot hash) (fun n => n) (fun _ => rfl) (fun n e rest => ?_) entries
  rw [entryIdx, blockIsAt, isAt]
  by_cases hs : e.slot = slot
  · rw [if_pos hs, if_pos hs]
    rcases BlockFixtureEntry.decodeHexUnchecked e.blockHash with f | h
    · rfl
    · by_cases hh : h = hash
      · simp [Except.map, hh]
      · simp [Except.map, hh]
  · rw [if_neg hs, if_neg hs]

theorem findEntryIdx_specific (chain : BlockFixtureChain) (slot : UInt64) (hash : List UInt8) :
    chain.findEntryIdx (.specific slot hash) = search (blockIsAt slot hash) chain.entries := by
  rw [findEntryIdx, entryIdx_eq]
  rcases search (blockIsAt slot hash) chain.entries with f | _ | i
  · rfl
  · rfl
  · exact congrArg (fun i => Except.ok (some i)) (Nat.zero_add i)

theorem point_eq_specific {e : BlockFixtureEntry} {slot : UInt64} {hash : List UInt8} :
    e.point = .ok (.specific slot hash) ↔
      e.slot = slot ∧ BlockFixtureEntry.decodeHexUnchecked e.blockHash = .ok hash := by
  rw [BlockFixtureEntry.point]
  rcases BlockFixtureEntry.decodeHexUnchecked e.blockHash with f | h
  · exact iff_of_false (fun h => nomatch h) fun h => nomatch h.2
  · simp [Except.map]

/-- The point of a block is never the origin. -/
theorem point_ne_origin_block (e : BlockFixtureEntry) : e.point ≠ .ok .origin := by
  rw [BlockFixtureEntry.point]
  rcases BlockFixtureEntry.decodeHexUnchecked e.blockHash with f | h <;> exact fun h => nomatch h

/-- **What a lookup gives**: nothing where there is no block, else the first one; or it stops, and
then at a hash that cannot be read. -/
theorem findEntryIdx_cases (chain : BlockFixtureChain) (p : Point) :
    (chain.findEntryIdx p = .ok none ∧ chain.Legible p ∧ ¬ chain.HasBlock p) ∨
    (∃ k, chain.findEntryIdx p = .ok (some k) ∧ chain.Legible p ∧ chain.FirstBlock p k) ∨
    ∃ f, chain.findEntryIdx p = .error f ∧ ¬ chain.Legible p := by
  cases p with
  | origin => exact .inl ⟨rfl, trivial, fun ⟨e, _, he⟩ => point_ne_origin_block e he⟩
  | specific slot hash =>
    rw [findEntryIdx_specific]
    rcases search_cases (blockIsAt slot hash) chain.entries with
      ⟨hnone, hall⟩ | ⟨k, a, hsome, hreach, ha⟩ | ⟨k, a, f, herror, hreach, ha⟩
    · refine .inl ⟨hnone, fun k e hget hs _ => ?_, fun ⟨e, he, hp⟩ => isAt_false (hall e he) hp⟩
      exact readable_of_isAt (hall e (List.mem_of_getElem? hget)) hs
    · refine .inr (.inl ⟨k, hsome, fun k' e hget hs hbefore => ?_, ⟨a, hreach.here, isAt_true.mp ha⟩,
        fun b hb => isAt_false (hreach.before b hb)⟩)
      rcases Nat.lt_trichotomy k' k with hlt | rfl | hlt
      · exact readable_of_isAt (hreach.before e (mem_take_of_lt hget hlt)) hs
      · obtain rfl := Option.some.inj (hget.symm.trans hreach.here)
        exact readable_of_isAt ha hs
      · -- the lookup does not go past the block
        exact absurd (isAt_true.mp ha) (hbefore a (mem_take_of_lt hreach.here hlt))
    · refine .inr (.inr ⟨f, herror, fun hlegible => ?_⟩)
      obtain ⟨hs, hh⟩ := isAt_error.mp ha
      obtain ⟨h, hread⟩ := hlegible k a hreach.here hs fun b hb => isAt_false (hreach.before b hb)
      exact nomatch hh.symm.trans hread

/-- Where every hash can be read, every point can be looked for. -/
theorem legible_of_readable
    (h : ∀ e ∈ chain.entries, ∃ h, BlockFixtureEntry.decodeHexUnchecked e.blockHash = .ok h)
    (p : Point) : chain.Legible p := by
  cases p with
  | origin => trivial
  | specific slot hash => exact fun k e hget _ _ => h e (List.mem_of_getElem? hget)

theorem findEntryIdx_first (hlegible : chain.Legible p) (h : chain.FirstBlock p k) :
    chain.findEntryIdx p = .ok (some k) := by
  rcases findEntryIdx_cases chain p with ⟨-, -, hnone⟩ | ⟨k', hsome, -, hfirst⟩ | ⟨f, -, hnot⟩
  · exact absurd h.hasBlock hnone
  · rw [hsome, h.unique hfirst]
  · exact absurd hlegible hnot

/-! ## A range -/

/-- A request names a range, or it is unsatisfiable. -/
theorem unsatisfiable_or_range (chain : BlockFixtureChain) (fromPoint toPoint : Point) :
    chain.Unsatisfiable fromPoint toPoint ∨
      ∃ i j, chain.FirstBlock fromPoint i ∧ chain.FirstBlock toPoint j ∧ i ≤ j := by
  by_cases hfrom : chain.HasBlock fromPoint
  · by_cases hto : chain.HasBlock toPoint
    · obtain ⟨i, hi⟩ := hfrom.first
      obtain ⟨j, hj⟩ := hto.first
      rcases Nat.lt_or_ge j i with hlt | hle
      · exact .inl (.inr (.inr ⟨i, j, hi, hj, hlt⟩))
      · exact .inr ⟨i, j, hi, hj, hle⟩
    · exact .inl (.inr (.inl hto))
  · exact .inl (.inl hfrom)

/-- Not both. -/
theorem satisfiable (hi : chain.FirstBlock fromPoint i)
    (hj : chain.FirstBlock toPoint j) (hle : i ≤ j) : ¬ chain.Unsatisfiable fromPoint toPoint := by
  rintro (hfrom | hto | ⟨i', j', hi', hj', hlt⟩)
  · exact hfrom hi.hasBlock
  · exact hto hj.hasBlock
  · rw [hi.unique hi', hj.unique hj'] at hle
    omega

/-- The range that is found. -/
theorem findRange_found (hfrom : chain.findEntryIdx fromPoint = .ok (some i))
    (hto : chain.findEntryIdx toPoint = .ok (some j)) (hle : i ≤ j) :
    chain.findRange fromPoint toPoint = .ok (some (chain.blocksBetween i j)) := by
  rw [findRange, hfrom]
  dsimp only
  rw [hto]
  exact if_neg (Nat.not_lt.mpr hle)

/-- A range whose endpoints can be looked for is found, or is unsatisfiable. -/
theorem findRange_legible (hfirst : chain.Legible fromPoint)
    (hlast : chain.HasBlock fromPoint → chain.Legible toPoint) :
    (chain.Unsatisfiable fromPoint toPoint ∧ chain.findRange fromPoint toPoint = .ok none) ∨
    ∃ i j, chain.FirstBlock fromPoint i ∧ chain.FirstBlock toPoint j ∧ i ≤ j ∧
      chain.findRange fromPoint toPoint = .ok (some (chain.blocksBetween i j)) := by
  rcases findEntryIdx_cases chain fromPoint with
    ⟨hfrom, -, hnone⟩ | ⟨i, hfrom, -, hi⟩ | ⟨f, -, hillegible⟩
  · exact .inl ⟨.inl hnone, by rw [findRange, hfrom]⟩
  · rcases findEntryIdx_cases chain toPoint with
      ⟨hto, -, hnone⟩ | ⟨j, hto, -, hj⟩ | ⟨f, -, hillegible⟩
    · refine .inl ⟨.inr (.inl hnone), ?_⟩
      rw [findRange, hfrom]
      dsimp only
      rw [hto]
    · rcases Nat.lt_or_ge j i with hlt | hle
      · refine .inl ⟨.inr (.inr ⟨i, j, hi, hj, hlt⟩), ?_⟩
        rw [findRange, hfrom]
        dsimp only
        rw [hto]
        exact if_pos hlt
      · exact .inr ⟨i, j, hi, hj, hle, findRange_found hfrom hto hle⟩
    · exact absurd (hlast hi.hasBlock) hillegible
  · exact absurd hfirst hillegible

end Proof

end ConformanceHarness
