import Mathlib.Data.Finset.Basic
import Mathlib.Data.Fintype.EquivFin
import ConformanceHarness.Lib.Search
import ConformanceHarness.Miniprotocols.ChainSyncServer
import ConformanceHarness.Proof.PointLookup

/-!
# The cursor over a chain of positions

A chain has its anchor at position 0 and entry `k` at position `k`. The cursor finds
the first position at which a client's first known point occurs, and advances through
the positions after it, provided the hex text it meets on the way decodes.
-/

namespace ConformanceHarness

/-- `p` is the point at position `k` of the chain. -/
def PointAt (chain : FixtureChain) (k : Nat) (p : Point) : Prop :=
  match k with
  | 0 => chain.anchor = p
  | i + 1 => ∃ e, chain.entries[i]? = some e ∧ e.point = .ok p

/-- `k` is the first position at which `p` occurs. -/
structure FirstPosition (chain : FixtureChain) (p : Point) (k : Nat) : Prop where
  here : PointAt chain k p
  first : ∀ j < k, ¬ PointAt chain j p

/-- `p` is the first point of a client's list that occurs, and `k` its first position. -/
def FirstOccurrence (chain : FixtureChain) (points : List Point) (p : Point) (k : Nat) : Prop :=
  ∃ before after, points = before ++ p :: after ∧ (∀ q ∈ before, ∀ j, ¬ PointAt chain j q) ∧
    FirstPosition chain p k

/-- No point of a client's list occurs. -/
def NoOccurrence (chain : FixtureChain) (points : List Point) : Prop :=
  ∀ p ∈ points, ∀ k, ¬ PointAt chain k p

/-- Reading the hash of an entry does not panic, and its header is hex. -/
structure FixtureEntry.Decodes (e : FixtureEntry) : Prop where
  hash : ∃ hash, Fixture.decodeHexUnchecked e.blockHash = .ok hash
  header : ∃ cbor, Fixture.decodeHex e.cborHex = .ok cbor

/-- So for every entry of a chain. -/
def FixtureChain.Decodes (chain : FixtureChain) : Prop := ∀ e ∈ chain.entries, e.Decodes

theorem FirstOccurrence.here {chain : FixtureChain} {points : List Point} {p : Point} {k : Nat}
    (h : FirstOccurrence chain points p k) : PointAt chain k p := by
  obtain ⟨_, _, _, _, hfirst⟩ := h
  exact hfirst.here

theorem FirstPosition.unique {chain : FixtureChain} {p : Point} {k k' : Nat}
    (h : FirstPosition chain p k) (h' : FirstPosition chain p k') : k = k' := by
  rcases Nat.lt_trichotomy k k' with hlt | heq | hlt
  · exact absurd h.here (h'.first k hlt)
  · exact heq
  · exact absurd h'.here (h.first k' hlt)

namespace Proof

open Cursor
open ConformanceHarness.Lib (search search_cases loop_eq_search mem_take_of_lt)

theorem point_of_hash {e : FixtureEntry} {hash : List UInt8}
    (h : Fixture.decodeHexUnchecked e.blockHash = .ok hash) :
      e.point = .ok (.specific e.slot hash) := by
  rw [FixtureEntry.point, h]
  rfl

/-- The point of an entry is never the origin. -/
theorem point_ne_origin (e : FixtureEntry) : e.point ≠ .ok .origin := by
  rw [FixtureEntry.point]
  rcases Fixture.decodeHexUnchecked e.blockHash with f | hash <;> exact fun h => nomatch h

/-- A client that offers the anchor is served from position 0 on. -/
theorem firstOccurrence_anchor (chain : FixtureChain) :
    FirstOccurrence chain [chain.anchor] chain.anchor 0 :=
  ⟨[], [], rfl, fun _ hq => absurd hq List.not_mem_nil, rfl,
    fun j hj => absurd hj (Nat.not_lt_zero j)⟩

/-! ## Finding a point -/

/-- What the loop over `entries`, numbered from `i`, finds: a hash that does not decode stops it,
or it finds the first entry at the point, or none. -/
def LooksUp (slot : UInt64) (hash : List UInt8) (i : Nat) (entries : List FixtureEntry)
    (found : Except Fault (Option Int)) : Prop :=
  (∃ f, found = .error f) ∨
  (found = .ok none ∧ ∀ (j : Nat) (e : FixtureEntry), entries[j]? = some e →
    e.point ≠ .ok (.specific slot hash)) ∨
  ∃ j e, found = .ok (some ((i + j + 1 : Nat) : Int)) ∧ entries[j]? = some e ∧
    e.point = .ok (.specific slot hash) ∧
    ∀ j' < j, ∀ e', entries[j']? = some e' → e'.point ≠ .ok (.specific slot hash)

/-- The test of the loop. -/
def entryIsAt (slot : UInt64) (hash : List UInt8) (e : FixtureEntry) : Except Fault Bool :=
  isAt slot hash e.slot (Fixture.decodeHexUnchecked e.blockHash)

theorem entryPos_eq (slot : UInt64) (hash : List UInt8) (entries : List FixtureEntry) :
    ∀ n, entryPos slot hash n entries = (search (entryIsAt slot hash) entries).map
      (Option.map fun k => ((n + k + 1 : Nat) : Int)) := by
  refine loop_eq_search (entryPos slot hash) (fun n => ((n + 1 : Nat) : Int)) (fun _ => rfl)
    (fun n e rest => ?_) entries
  rw [entryPos, entryIsAt, isAt]
  by_cases hs : slot = e.slot
  · rw [if_pos hs, if_pos hs.symm]
    rcases Fixture.decodeHexUnchecked e.blockHash with f | h
    · rfl
    · by_cases hh : hash = h
      · simp [Except.map, hh]
      · simp [Except.map, hh, Ne.symm hh]
  · rw [if_neg hs, if_neg (Ne.symm hs)]

theorem entryPos_looksUp (slot : UInt64) (hash : List UInt8) (i : Nat)
    (entries : List FixtureEntry) :
    LooksUp slot hash i entries (entryPos slot hash i entries) := by
  rw [entryPos_eq]
  rcases search_cases (entryIsAt slot hash) entries with
    ⟨hnone, hall⟩ | ⟨k, a, hsome, hreach, ha⟩ | ⟨k, a, f, herror, -, -⟩
  · rw [hnone]
    exact .inr (.inl ⟨rfl, fun j e he => isAt_false (hall e (List.mem_of_getElem? he))⟩)
  · rw [hsome]
    exact .inr (.inr ⟨k, a, rfl, hreach.here, isAt_true.mp ha, fun j hj e he =>
      isAt_false (hreach.before e (mem_take_of_lt he hj))⟩)
  · rw [herror]
    exact .inl ⟨f, rfl⟩

/-- Where every hash decodes, the loop returns. -/
theorem entryPos_returns (slot : UInt64) (hash : List UInt8) (i : Nat)
    (entries : List FixtureEntry) (hdec : ∀ e ∈ entries, e.Decodes) (f : Fault) :
    entryPos slot hash i entries ≠ .error f := by
  rw [entryPos_eq]
  rcases search_cases (entryIsAt slot hash) entries with
    ⟨hnone, -⟩ | ⟨k, a, hsome, -, -⟩ | ⟨k, a, f', -, hreach, ha⟩
  · rw [hnone]
    exact fun h => nomatch h
  · rw [hsome]
    exact fun h => nomatch h
  · obtain ⟨h, hh⟩ := (hdec a (List.mem_of_getElem? hreach.here)).hash
    exact nomatch hh.symm.trans (isAt_error.mp ha).2

/-- The position of a point: the lookup stops at a hash, or it is the first one, or none. -/
theorem pointToPos_cases (chain : FixtureChain) (pos : Int) (p : Point) :
    (∃ f, pointToPos ⟨chain, pos⟩ p = .error f) ∨
    (pointToPos ⟨chain, pos⟩ p = .ok none ∧ ∀ k, ¬ PointAt chain k p) ∨
    ∃ k : Nat, pointToPos ⟨chain, pos⟩ p = .ok (some (k : Int)) ∧ FirstPosition chain p k := by
  by_cases hanchor : chain.anchor = p
  · refine .inr (.inr ⟨0, ?_, hanchor, fun j hj => absurd hj (Nat.not_lt_zero j)⟩)
    cases p with
    | origin => simp [pointToPos, hanchor]
    | specific slot hash => simp [pointToPos, hanchor]
  · cases p with
    | origin =>
      refine .inr (.inl ⟨by simp [pointToPos, hanchor], fun k hk => ?_⟩)
      cases k with
      | zero => exact hanchor hk
      | succ i =>
        obtain ⟨e, -, hpoint⟩ := hk
        exact absurd hpoint (point_ne_origin e)
    | specific slot hash =>
      have hloop : pointToPos ⟨chain, pos⟩ (.specific slot hash) =
          entryPos slot hash 0 chain.entries := if_neg hanchor
      rw [hloop]
      rcases entryPos_looksUp slot hash 0 chain.entries with
        hstop | ⟨hnone, hall⟩ | ⟨j, e, hidx, hget, hp, hfirst⟩
      · exact .inl hstop
      · refine .inr (.inl ⟨hnone, fun k hk => ?_⟩)
        cases k with
        | zero => exact hanchor hk
        | succ i =>
          obtain ⟨e, hget, hpoint⟩ := hk
          exact hall i e hget hpoint
      · refine .inr (.inr ⟨j + 1, ?_, ⟨e, hget, hp⟩, fun k hk hat => ?_⟩)
        · rw [hidx, Nat.zero_add]
        · cases k with
          | zero => exact hanchor hat
          | succ i =>
            obtain ⟨e', hget', hp'⟩ := hat
            exact hfirst i (Nat.lt_of_succ_lt_succ hk) e' hget' hp'

/-- On a chain that decodes, the lookup does not stop. -/
theorem pointToPos_spec {chain : FixtureChain} (hdec : chain.Decodes) (pos : Int) (p : Point) :
    (pointToPos ⟨chain, pos⟩ p = .ok none ∧ ∀ k, ¬ PointAt chain k p) ∨
    ∃ k : Nat, pointToPos ⟨chain, pos⟩ p = .ok (some (k : Int)) ∧ FirstPosition chain p k := by
  rcases pointToPos_cases chain pos p with ⟨f, hstop⟩ | hfound
  · cases p with
    | origin => exact nomatch hstop
    | specific slot hash =>
      rw [pointToPos] at hstop
      split at hstop
      · exact nomatch hstop
      · exact absurd hstop (entryPos_returns slot hash 0 chain.entries hdec f)
  · exact hfound

/-- What is found is the first position of a point. -/
theorem findIntersect_some {chain : FixtureChain} {pos q : Int} {points : List Point}
    (h : findIntersect ⟨chain, pos⟩ points = .ok (some q)) :
    ∃ (k : Nat) (p : Point), q = k ∧ FirstPosition chain p k := by
  induction points with
  | nil => exact nomatch h
  | cons p points ih =>
    rw [findIntersect] at h
    rcases pointToPos_cases chain pos p with ⟨f, hp⟩ | ⟨hp, -⟩ | ⟨k, hp, hfirst⟩ <;> rw [hp] at h
    · exact nomatch h
    · exact ih h
    · exact ⟨k, p, (Option.some.inj (Except.ok.inj h)).symm, hfirst⟩

/-- **The first known point of a client's list is found at its first position.** -/
theorem findIntersect_found {chain : FixtureChain} (hdec : chain.Decodes) (pos : Int)
    {points : List Point} {p : Point} {k : Nat} (h : FirstOccurrence chain points p k) :
    findIntersect ⟨chain, pos⟩ points = .ok (some (k : Int)) := by
  obtain ⟨before, after, rfl, hbefore, hfirst⟩ := h
  induction before with
  | nil =>
    rw [List.nil_append, findIntersect]
    rcases pointToPos_spec hdec pos p with ⟨-, hnone⟩ | ⟨k', hpos, hfirst'⟩
    · exact absurd hfirst.here (hnone k)
    · rw [hpos, hfirst.unique hfirst']
  | cons q before ih =>
    rw [List.cons_append, findIntersect]
    rcases pointToPos_spec hdec pos q with ⟨hpos, -⟩ | ⟨k', -, hfirst'⟩
    · rw [hpos]
      exact ih fun q' hq' => hbefore q' (List.mem_cons_of_mem q hq')
    · exact absurd hfirst'.here (hbefore q List.mem_cons_self k')

/-- If no point is known, none is found. -/
theorem findIntersect_none {chain : FixtureChain} (hdec : chain.Decodes) (pos : Int)
    {points : List Point} (h : NoOccurrence chain points) :
    findIntersect ⟨chain, pos⟩ points = .ok none := by
  induction points with
  | nil => rfl
  | cons q points ih =>
    rw [findIntersect]
    rcases pointToPos_spec hdec pos q with ⟨hpos, -⟩ | ⟨k, -, hfirst⟩
    · rw [hpos]
      exact ih fun q' hq' => h q' (List.mem_cons_of_mem q hq')
    · exact absurd hfirst.here (h q List.mem_cons_self k)

/-- Every list of points is in one of the two cases. -/
theorem firstOccurrence_or_none {chain : FixtureChain} (hdec : chain.Decodes)
    (points : List Point) :
    (∃ p k, FirstOccurrence chain points p k) ∨ NoOccurrence chain points := by
  induction points with
  | nil => exact .inr fun p hp => absurd hp List.not_mem_nil
  | cons q points ih =>
    rcases pointToPos_spec hdec 0 q with ⟨-, hnone⟩ | ⟨k, -, hfirst⟩
    · rcases ih with ⟨p, k, before, after, rfl, hbefore, hfirst⟩ | hno
      · refine .inl ⟨p, k, q :: before, after, rfl, fun q' hq' => ?_, hfirst⟩
        rcases List.mem_cons.mp hq' with rfl | hq'
        · exact hnone
        · exact hbefore q' hq'
      · refine .inr fun p hp => ?_
        rcases List.mem_cons.mp hp with rfl | hp
        · exact hnone
        · exact hno p hp
    · exact .inl ⟨q, k, [], points, rfl, fun q' hq' => absurd hq' List.not_mem_nil, hfirst⟩

/-! ## Hashes that do not decode -/

/-- A cursor on its chain: before the anchor, at it, or at an entry. -/
def OnChain (chain : FixtureChain) (c : Cursor) : Prop :=
  c.chain = chain ∧ -1 ≤ c.pos ∧ c.pos ≤ chain.entries.length

theorem onChain_new (chain : FixtureChain) : OnChain chain (Cursor.new chain) :=
  ⟨rfl, le_refl _, by simp [Cursor.new]⟩

/-- The positions of a chain end with its last entry. -/
theorem pointAt_le {chain : FixtureChain} {k : Nat} {p : Point} (h : PointAt chain k p) :
    k ≤ chain.entries.length := by
  cases k with
  | zero => exact Nat.zero_le _
  | succ i =>
    obtain ⟨e, hget, -⟩ := h
    exact (List.getElem?_eq_some_iff.mp hget).1

theorem onChain_at {chain : FixtureChain} {k : Nat} {p : Point} (h : PointAt chain k p) :
    OnChain chain ⟨chain, k⟩ := by
  have hk := pointAt_le h
  refine ⟨rfl, ?_, ?_⟩
  · show (-1 : Int) ≤ (k : Int)
    omega
  · show (k : Int) ≤ (chain.entries.length : Int)
    omega

theorem currentPoint_at {chain : FixtureChain} {k : Nat} {p : Point} (h : PointAt chain k p) :
    currentPoint ⟨chain, k⟩ = .ok p := by
  cases k with
  | zero =>
    have hanchor : chain.anchor = p := h
    rw [currentPoint, if_pos (by simp), hanchor]
  | succ i =>
    obtain ⟨e, hget, hpoint⟩ := h
    have hindex : asUsize (((i + 1 : Nat) : Int) - 1) = i := by
      rw [asUsize, if_pos (by omega)]
      omega
    have hpos : ¬ ((i + 1 : Nat) : Int) ≤ 0 := by omega
    rw [currentPoint, if_neg hpos, entryAt, hindex, hget]
    exact hpoint

/-- The tip of a chain that decodes. -/
theorem tip_ok {chain : FixtureChain} (hdec : chain.Decodes) : ∃ tip, chain.tip = .ok tip := by
  rw [FixtureChain.tip]
  rcases hlast : chain.entries.getLast? with _ | e
  · exact ⟨_, rfl⟩
  · obtain ⟨h, hh⟩ := (hdec e (List.mem_of_getLast? hlast)).hash
    refine ⟨⟨.specific e.slot h, e.blockNumber⟩, ?_⟩
    dsimp only
    rw [point_of_hash hh]
    rfl

/-- Before the last entry, the next one. -/
theorem advance_next {chain : FixtureChain} {k : Nat} {e : FixtureEntry}
    (h : chain.entries[k]? = some e) :
    advance ⟨chain, k⟩ = .ok (⟨chain, (k + 1 : Nat)⟩, some e) := by
  have hlt := (List.getElem?_eq_some_iff.mp h).1
  have hnext : asUsize ((k : Int) + 1) = k + 1 := by
    rw [asUsize, if_pos (by omega)]
    omega
  have hindex : asUsize ((k : Int) + 1 - 1) = k := by
    rw [asUsize, if_pos (by omega)]
    omega
  simp only [advance, hnext, hindex, entryAt, h, setPos]
  rw [if_neg (by omega), if_neg (by omega)]
  rfl

/-- At the last entry, none. -/
theorem advance_last {chain : FixtureChain} {k : Nat} (h : chain.entries.length ≤ k) :
    advance ⟨chain, k⟩ = .ok (⟨chain, k⟩, none) := by
  have hnext : asUsize ((k : Int) + 1) = k + 1 := by
    rw [asUsize, if_pos (by omega)]
    omega
  simp only [advance, hnext]
  rw [if_pos (by omega)]

/-- Wherever the cursor is on its chain, it stays on it. -/
theorem advance_onChain {chain : FixtureChain} {c : Cursor} (hc : OnChain chain c) :
    ∃ next entry, advance c = .ok (next, entry) ∧ OnChain chain next ∧
      ∀ e, entry = some e → e ∈ chain.entries := by
  obtain ⟨chain', pos⟩ := c
  obtain ⟨rfl, hlow, hhigh⟩ := hc
  dsimp only at hlow hhigh
  by_cases hstart : pos = -1
  · subst hstart
    refine ⟨⟨chain', 0⟩, none, rfl, ⟨rfl, by simp, by simp⟩, fun e he => nomatch he⟩
  · obtain ⟨k, rfl⟩ : ∃ k : Nat, pos = k := ⟨pos.toNat, by omega⟩
    rcases hget : chain'.entries[k]? with _ | e
    · have hlen := List.getElem?_eq_none_iff.mp hget
      exact ⟨⟨chain', k⟩, none, advance_last hlen, ⟨rfl, hlow, hhigh⟩, fun e he => nomatch he⟩
    · have hlt := (List.getElem?_eq_some_iff.mp hget).1
      refine ⟨_, _, advance_next hget, ⟨rfl, ?_, ?_⟩, fun e' he' => ?_⟩
      · show (-1 : Int) ≤ ((k + 1 : Nat) : Int)
        omega
      · show ((k + 1 : Nat) : Int) ≤ (chain'.entries.length : Int)
        omega
      · obtain rfl := Option.some.inj he'
        exact List.mem_of_getElem? hget

end Proof

end ConformanceHarness
