import ConformanceHarness.Lib.OrderedMaps
import ConformanceHarness.Proof.BodyRanges

/-!
# Serving a block fixture through a peer

A declared peer takes the blocks of its fixture into a map, as bytes, and writes them out again
when it serves them. The map iterates by slot, so blocks whose slots increase come out as they
went in; and lower-case hex is written as it was read. So the peer's fixture *is* the fixture.
-/

namespace ConformanceHarness

open Lib

/-- A Block-Fetch fixture as a capture writes it: in chain order, and in lower-case hex. -/
structure BlockFixtureChain.WellFormed (chain : BlockFixtureChain) : Prop where
  increasing : chain.entries.Pairwise (·.slot < ·.slot)
  hashes : ∀ e ∈ chain.entries, LowerHex e.blockHash
  bodies : ∀ e ∈ chain.entries, LowerHex e.blockCborHex

/-- What an entry is stored as. -/
def BlockFixtureEntry.StoredAs (e : BlockFixtureEntry)
    (stored : (UInt64 × List UInt8) × List UInt8) : Prop :=
  e.slot = stored.1.1 ∧ PeerState.decodeHexUnchecked e.blockHash = .ok stored.1.2 ∧
    e.bodyBytes = .ok stored.2

namespace Proof

variable {chain : BlockFixtureChain} {entries : List BlockFixtureEntry}
  {blocks : List ((UInt64 × List UInt8) × List UInt8)} {ps : PeerState}

/-- Valid hex can be stored. -/
theorem exists_storedAs {e : BlockFixtureEntry} (hhash : LowerHex e.blockHash)
    (hbody : LowerHex e.blockCborHex) : ∃ stored, e.StoredAs stored := by
  obtain ⟨hash, -, hhash'⟩ := hhash.valid.decode fun _ => ""
  obtain ⟨body, -, hbody'⟩ := hbody.valid.decode fun _ => ""
  exact ⟨((e.slot, hash), body), rfl, hhash', hbody'⟩

/-- The loop inserts the blocks one after the other. -/
theorem extendFromBlocks_eq (h : List.Forall₂ BlockFixtureEntry.StoredAs entries blocks) :
    ps.extendFromBlocks entries =
      .ok { ps with blockStore := insertAll ps.blockStore blocks } := by
  induction h generalizing ps with
  | nil => rfl
  | @cons e stored rest blocks hstored _ ih =>
    obtain ⟨⟨slot, hash⟩, body⟩ := stored
    obtain ⟨hslot, hhash, hbody⟩ := hstored
    rw [PeerState.extendFromBlocks, hhash]
    dsimp only
    rw [hbody]
    dsimp only
    rw [ih, hslot]
    rfl

theorem storedSlots (h : List.Forall₂ BlockFixtureEntry.StoredAs entries blocks) :
    blocks.map (fun stored => stored.1.1) = entries.map (·.slot) := by
  induction h with
  | nil => rfl
  | cons hstored _ ih => rw [List.map_cons, List.map_cons, ih, hstored.1]

/-- Slots that increase are keys in order. -/
theorem keysAscend_of_slots (h : List.Forall₂ BlockFixtureEntry.StoredAs entries blocks)
    (hincreasing : entries.Pairwise (·.slot < ·.slot)) : KeysAscend blockKeyCmp blocks := by
  have hslots : (blocks.map fun stored => stored.1.1).Pairwise (· < ·) := by
    rw [storedSlots h]
    exact List.pairwise_map.mpr hincreasing
  exact (List.pairwise_map.mp hslots).imp blockKeyCmp_of_slot_lt

/-- A block is written out as it was read. -/
theorem writtenOut (h : List.Forall₂ BlockFixtureEntry.StoredAs entries blocks)
    (hhashes : ∀ e ∈ entries, LowerHex e.blockHash)
    (hbodies : ∀ e ∈ entries, LowerHex e.blockCborHex) :
    (blocks.map fun ((slot, hash), body) => ({
      slot, blockHash := encodeHex hash, blockCborHex := encodeHex body } : BlockFixtureEntry)) =
      entries := by
  induction h with
  | nil => rfl
  | @cons e stored rest blocks hstored _ ih =>
    obtain ⟨⟨slot, hash⟩, body⟩ := stored
    obtain ⟨hslot, hhash, hbody⟩ := hstored
    have hhash' := (hhashes e List.mem_cons_self).encode hhash
    have hbody' := (hbodies e List.mem_cons_self).encode hbody
    dsimp only at hslot hhash' hbody'
    rw [List.map_cons, ih (fun e he => hhashes e (List.mem_cons_of_mem _ he))
      fun e he => hbodies e (List.mem_cons_of_mem _ he)]
    dsimp only
    rw [hhash', hbody', ← hslot]

/-- What a peer that had no blocks makes of a fixture has the entries of the fixture. -/
theorem entries_through_peer (h : chain.WellFormed) (hempty : ps.blockStore = ∅) :
    ∃ ps', ps.extendFromBlockFixtureChain chain = .ok ps' ∧
      ps'.toBlockFixtureChain.entries = chain.entries := by
  obtain ⟨blocks, hblocks⟩ :=
    exists_forall₂ fun e he => exists_storedAs (h.hashes e he) (h.bodies e he)
  refine ⟨_, extendFromBlocks_eq hblocks, ?_⟩
  have hascend := keysAscend_of_slots hblocks h.increasing
  have hlist : (insertAll ps.blockStore blocks).toList = blocks := by
    rw [hempty]
    exact toList_insertAll_empty hascend
  show ((insertAll ps.blockStore blocks).toList.map _) = _
  rw [hlist]
  exact writtenOut hblocks h.hashes h.bodies

/-- In a fixture whose hex is valid every point can be looked for. -/
theorem legible_of_wellFormed (h : chain.WellFormed) (p : Point) : chain.Legible p := by
  refine legible_of_readable (fun e he => ?_) p
  obtain ⟨hash, -, hread⟩ := (h.hashes e he).valid.decode fun _ => ""
  exact ⟨hash, hread⟩

theorem findRange_isOk (h : chain.WellFormed) (fromPoint toPoint : Point) :
    ∃ found, chain.findRange fromPoint toPoint = .ok found := by
  rcases findRange_legible (legible_of_wellFormed h fromPoint)
    (fun _ => legible_of_wellFormed h toPoint) with ⟨-, hfind⟩ | ⟨i, j, -, -, -, hfind⟩
  · exact ⟨_, hfind⟩
  · exact ⟨_, hfind⟩

/-- A range depends on the entries alone. -/
theorem findRange_congr {chain' : BlockFixtureChain} (h : chain'.entries = chain.entries)
    (fromPoint toPoint : Point) :
    chain'.findRange fromPoint toPoint = chain.findRange fromPoint toPoint := by
  have hidx : ∀ point, chain'.findEntryIdx point = chain.findEntryIdx point := by
    intro point
    cases point with
    | origin => rfl
    | specific slot hash => rw [BlockFixtureChain.findEntryIdx, BlockFixtureChain.findEntryIdx, h]
  rw [BlockFixtureChain.findRange, BlockFixtureChain.findRange, hidx, hidx, h]

/-- **Serving a block fixture through a peer is serving the file.** A range is the same entries,
with the same slots, hashes and bodies, or there is none in either. -/
theorem findRange_through_peer (h : chain.WellFormed) (hempty : ps.blockStore = ∅) :
    ∃ ps', ps.extendFromBlockFixtureChain chain = .ok ps' ∧ ∀ fromPoint toPoint, ∃ found,
      ps'.toBlockFixtureChain.findRange fromPoint toPoint = .ok found ∧
        chain.findRange fromPoint toPoint = .ok found := by
  obtain ⟨ps', hextend, hentries⟩ := entries_through_peer h hempty
  refine ⟨ps', hextend, fun fromPoint toPoint => ?_⟩
  obtain ⟨found, hfound⟩ := findRange_isOk h fromPoint toPoint
  exact ⟨found, (findRange_congr hentries fromPoint toPoint).trans hfound, hfound⟩

/-- Two blocks. -/
def twoBlocks : BlockFixtureChain where
  anchor := .origin
  entries := [⟨62, "5a3d", "820a"⟩, ⟨63, "1405", "820b"⟩]

theorem findRange_through_peer_twoBlocks : ∃ ps',
    PeerState.new.extendFromBlockFixtureChain twoBlocks = .ok ps' ∧
      ∀ fromPoint toPoint, ∃ found,
        ps'.toBlockFixtureChain.findRange fromPoint toPoint = .ok found ∧
          twoBlocks.findRange fromPoint toPoint = .ok found :=
  findRange_through_peer ⟨by decide, by decide, by decide⟩ rfl

end Proof

end ConformanceHarness
