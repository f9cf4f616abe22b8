import ConformanceHarness.Proof.CursorSpec

/-!
# What a cursor has left

`remaining` documents itself as the number of entries past the current position. It
subtracts the position after the current one, so inside the chain the entry that the next
`advance` returns is not counted. Before the anchor the count is right, because the next
`advance` only moves there; at the tip it is 0 on both sides.
-/

namespace ConformanceHarness

namespace Cursor

/-- A cursor that `new` makes, `advance` moves and `set_pos` puts where `find_intersect` says. -/
inductive Reachable (chain : FixtureChain) : Cursor → Prop
  | new : Reachable chain (Cursor.new chain)
  | setPos {c d : Cursor} {points : List Point} {pos : Int} (hc : Reachable chain c)
      (hd : Reachable chain d) (found : d.findIntersect points = .ok (some pos)) :
      Reachable chain (c.setPos pos)
  | advance {c next : Cursor} {entry : Option FixtureEntry} (hc : Reachable chain c)
      (moved : c.advance = .ok (next, entry)) : Reachable chain next

/-- The entries that `n` calls of `advance` return. -/
def returned : Nat → Cursor → Except Fault (List FixtureEntry)
  | 0, _ => .ok []
  | n + 1, c =>
    match c.advance with
    | .error f => .error f
    | .ok (next, entry) => (returned n next).map (entry.toList ++ ·)

/-- However often `advance` is called, `entries` are returned in the end, and nothing else. -/
def StillReturns (c : Cursor) (entries : List FixtureEntry) : Prop :=
  ∃ calls, ∀ n ≥ calls, c.returned n = .ok entries

/-- `remaining` is the number of the entries that `advance` still returns. -/
def RemainingCounts (c : Cursor) : Prop :=
  ∃ entries, c.StillReturns entries ∧ c.remaining = entries.length

theorem StillReturns.unique {c : Cursor} {entries entries' : List FixtureEntry}
    (h : c.StillReturns entries) (h' : c.StillReturns entries') : entries = entries' := by
  obtain ⟨calls, hcalls⟩ := h
  obtain ⟨calls', hcalls'⟩ := h'
  have hn := hcalls (max calls calls') (le_max_left _ _)
  rw [hcalls' (max calls calls') (le_max_right _ _)] at hn
  exact (Except.ok.inj hn).symm

end Cursor

namespace Proof

open Cursor

/-- **A reachable cursor is on its chain.** -/
theorem onChain_reachable {chain : FixtureChain} {c : Cursor} (h : Reachable chain c) :
    OnChain chain c := by
  induction h with
  | new => exact onChain_new chain
  | @setPos c d points pos _ _ found hc hd =>
    obtain ⟨rfl, -, -⟩ := hd
    obtain ⟨k, p, rfl, hfirst⟩ := findIntersect_some found
    obtain ⟨-, hlow, hhigh⟩ := onChain_at hfirst.here
    exact ⟨hc.1, hlow, hhigh⟩
  | advance _ moved hc =>
    obtain ⟨next, entry, hnext, hon, -⟩ := advance_onChain hc
    obtain ⟨rfl, -⟩ := Prod.mk.inj (Except.ok.inj (moved.symm.trans hnext))
    exact hon

/-- From position `k` on, the entries after it in chain order. -/
theorem returned_at (chain : FixtureChain) (n k : Nat) :
    returned n ⟨chain, k⟩ = .ok ((chain.entries.drop k).take n) := by
  induction n generalizing k with
  | zero => rw [returned, List.take_zero]
  | succ n ih =>
    rw [returned]
    rcases hget : chain.entries[k]? with _ | e
    · have hlen := List.getElem?_eq_none_iff.mp hget
      have htip := ih k
      rw [List.drop_eq_nil_of_le hlen, List.take_nil] at htip ⊢
      simp only [advance_last hlen, htip]
      rfl
    · obtain ⟨hlt, rfl⟩ := List.getElem?_eq_some_iff.mp hget
      simp only [advance_next hget, ih (k + 1)]
      rw [List.drop_eq_getElem_cons hlt, List.take_succ_cons]
      rfl

/-- Before the anchor, the first call returns nothing. -/
theorem returned_start (chain : FixtureChain) (n : Nat) :
    returned (n + 1) (Cursor.new chain) = .ok (chain.entries.take n) := by
  have hanchor : advance (Cursor.new chain) = .ok (⟨chain, (0 : Nat)⟩, none) := rfl
  simp only [returned, hanchor, returned_at chain n 0, List.drop_zero]
  rfl

/-- **What a cursor on its chain still returns: every entry past its position.** -/
theorem stillReturns_onChain {chain : FixtureChain} {c : Cursor} (hc : OnChain chain c) :
    c.StillReturns (chain.entries.drop c.pos.toNat) := by
  obtain ⟨chain', pos⟩ := c
  obtain ⟨rfl, hlow, hhigh⟩ := hc
  dsimp only at hlow hhigh ⊢
  refine ⟨chain'.entries.length + 1, fun n hn => ?_⟩
  obtain ⟨n, rfl⟩ := Nat.exists_eq_add_of_le' (Nat.le_of_add_left_le hn)
  by_cases hstart : pos = -1
  · subst hstart
    rw [show (⟨chain', -1⟩ : Cursor) = Cursor.new chain' from rfl, returned_start,
      List.take_of_length_le (by omega)]
    rfl
  · obtain ⟨k, rfl⟩ : ∃ k : Nat, pos = k := ⟨pos.toNat, by omega⟩
    rw [returned_at, Int.toNat_natCast,
      List.take_of_length_le (by rw [List.length_drop]; omega)]

/-- What `remaining` says before the anchor: every entry. -/
theorem remaining_start (chain : FixtureChain) :
    (Cursor.new chain).remaining = chain.entries.length := rfl

/-- What it says at a position: one entry fewer than follow. -/
theorem remaining_at (chain : FixtureChain) (k : Nat) :
    remaining ⟨chain, k⟩ = chain.entries.length - (k + 1) := by
  have hnext : max ((k : Int) + 1) 0 = ((k + 1 : Nat) : Int) := by omega
  simp only [remaining, hnext, asUsize]
  rw [if_pos (by omega), Int.toNat_natCast]

/-- **`remaining` counts what is left exactly before the anchor and at the tip.** At every
other position of the chain it leaves out the entry that `advance` returns next. -/
theorem remainingCounts_iff {chain : FixtureChain} {c : Cursor} (h : Reachable chain c) :
    c.RemainingCounts ↔ c.pos = -1 ∨ c.pos = chain.entries.length := by
  have hc := onChain_reachable h
  have hleft := stillReturns_onChain hc
  have hcounts : c.RemainingCounts ↔ c.remaining = (chain.entries.drop c.pos.toNat).length :=
    ⟨fun ⟨entries, hentries, hcount⟩ => hleft.unique hentries ▸ hcount,
      fun hcount => ⟨_, hleft, hcount⟩⟩
  rw [hcounts, List.length_drop]
  obtain ⟨chain', pos⟩ := c
  obtain ⟨rfl, hlow, hhigh⟩ := hc
  dsimp only at hlow hhigh ⊢
  by_cases hstart : pos = -1
  · subst hstart
    exact iff_of_true (remaining_start chain') (.inl rfl)
  · obtain ⟨k, rfl⟩ : ∃ k : Nat, pos = k := ⟨pos.toNat, by omega⟩
    rw [remaining_at, Int.toNat_natCast]
    omega

/-- A chain of one entry, which a cursor at the anchor has before it. -/
def oneEntryChain : FixtureChain where
  anchor := .origin
  entries := [⟨10, "aa", 1, "", defaultHeaderVariant⟩]

theorem remainingCounts_oneEntry :
    (Cursor.new oneEntryChain).RemainingCounts ∧ ¬ RemainingCounts ⟨oneEntryChain, 0⟩ := by
  have hnew : Reachable oneEntryChain (Cursor.new oneEntryChain) := .new
  have hanchor : Reachable oneEntryChain ⟨oneEntryChain, 0⟩ := .advance hnew rfl
  exact ⟨(remainingCounts_iff hnew).mpr (.inl rfl),
    fun h => absurd ((remainingCounts_iff hanchor).mp h) (by decide)⟩

/-- At the anchor of that chain nothing is said to remain, and one entry does. -/
theorem remaining_misses_next :
    ¬ ∀ (chain : FixtureChain) (c : Cursor), Reachable chain c → c.RemainingCounts := by
  intro hall
  have hanchor : Reachable oneEntryChain ⟨oneEntryChain, 0⟩ := .advance .new rfl
  obtain ⟨entries, hentries, hcount⟩ := hall _ _ hanchor
  have hone : StillReturns ⟨oneEntryChain, 0⟩ oneEntryChain.entries :=
    stillReturns_onChain (onChain_reachable hanchor)
  rw [hone.unique hentries |>.symm] at hcount
  exact absurd hcount (by decide)

end Proof

end ConformanceHarness
