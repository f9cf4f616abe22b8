import ConformanceHarness.Proof.BlockFetchLinked
import ConformanceHarness.Proof.ChainSyncLinked
import ConformanceHarness.Proof.FixtureRoundTrip
import ConformanceHarness.Runner.ConcurrentCapture

/-!
# Recording a fixture again

A fixture that was captured is served to a client that captures it. The second recording is the
first: the same anchor and the same entries, line by line, whatever is delivered first, as long as
the client wants them all and the library reads a header again as it has read it before. So it is
with the blocks of a fixture that a client asks for one by one.
-/

namespace ConformanceHarness

open ConformanceHarness.Lib.Duplex
open ChainSyncClient
open BlockFetchClient (batchesOf)

namespace Proof

section

variable {lib : ChainSyncLibrary} {headers : List CapturedHeader}

end

section

variable {captured : List CapturedBlock} {b : CapturedBlock} {p q : Point}

/-- The point of a block. -/
def pointOfBlock (b : CapturedBlock) : Point := .specific b.slot b.blockHash

/-- The blocks that were recorded. -/
def recordedBlocks (captured : List CapturedBlock) : BlockFixtureChain :=
  ⟨.origin, captured.map CapturedBlock.entry⟩

/-- Blocks as a chain has them: of one point there is one body, and on the wire it stays what it
is. -/
structure OfOneChain (captured : List CapturedBlock) : Prop where
  sized : ∀ b ∈ captured, WireSized (pointOfBlock b)
  sameBody : ∀ b ∈ captured, ∀ b' ∈ captured, pointOfBlock b = pointOfBlock b' → b = b'

theorem point_blockEntry (b : CapturedBlock) : b.entry.point = .ok (pointOfBlock b) :=
  congrArg (Except.map (Point.specific b.slot)) (decodePairsLenient_encodeHex b.blockHash)

theorem hasBody_blockEntry (b : CapturedBlock) : b.entry.HasBody b.cbor :=
  decodeHexWith_encodeHex ..

theorem recordedBlocks_legible (captured : List CapturedBlock) (p q : Point) :
    (recordedBlocks captured).RangeLegible p q := by
  have hread : ∀ e ∈ (recordedBlocks captured).entries,
      ∃ h, BlockFixtureEntry.decodeHexUnchecked e.blockHash = .ok h := by
    intro e he
    obtain ⟨b, -, rfl⟩ := List.mem_map.mp he
    exact ⟨_, decodePairsLenient_encodeHex _⟩
  refine ⟨legible_of_readable hread _, fun _ => legible_of_readable hread _,
    fun i j _ _ _ e he => ?_⟩
  obtain ⟨b, -, rfl⟩ := List.mem_map.mp (List.mem_of_mem_take (List.mem_of_mem_drop he))
  exact ⟨_, hasBody_blockEntry b⟩

/-- What is captured again of some of the blocks are these blocks. -/
theorem recaptured (h : OfOneChain captured) {blocks fetched : List CapturedBlock}
    (hsubset : blocks ⊆ captured)
    (hat : BlocksAt (recordedBlocks captured) (blocks.map pointOfBlock) fetched) :
    fetched = blocks := by
  induction blocks generalizing fetched with
  | nil =>
    cases hat
    rfl
  | cons b blocks ih =>
    obtain ⟨hb, hblocks⟩ := List.cons_subset.mp hsubset
    have hpoint : wirePoint (pointOfBlock b) = pointOfBlock b :=
      fromNcPoint_toNcPoint_iff.mpr (h.sized b hb)
    rw [List.map_cons] at hat
    cases hat with
    | noBlock hno hrest =>
      rw [hpoint] at hno
      exact absurd ⟨b.entry, List.mem_map_of_mem hb, point_blockEntry b⟩ hno
    | @block _ _ body k e _ _ hfirst hget hbody hrest =>
      -- the block that is found has the point of `b`, so it is `b`
      obtain ⟨b', hb', rfl⟩ := List.mem_map.mp (List.mem_of_getElem? hget)
      obtain ⟨e', hget', he'⟩ := hfirst.here
      obtain rfl := Option.some.inj (hget.symm.trans hget')
      rw [show Point.specific b.slot b.blockHash = pointOfBlock b from rfl, hpoint,
        point_blockEntry] at he'
      obtain rfl := h.sameBody b' hb' b hb (Except.ok.inj he')
      obtain rfl := Except.ok.inj (hbody.symm.trans (hasBody_blockEntry b'))
      rw [ih hblocks hrest]

end

/-- **Blocks that are recorded, served and recorded again stay the same.** -/
theorem rerecorded_blocks {lib : BlockFetchLibrary} {serde : FixtureSerde}
    (blockText : BlockFixtureEntry → String) (path silence : String) (previous previous' : FileBytes)
    {captured : List CapturedBlock} {batchSize n : Nat} (hlib : lib.Reads)
    (hanchor : serde.fromStr (anchorLine .origin) = some (anchorValue .origin))
    (hprinted : ∀ b ∈ captured,
      Printed serde.fromStr blockText BlockFixtureEntry.toValue b.entry)
    (hchain : OfOneChain captured) (hsize : batchSize ≤ 1) (hrules : captured.length ≤ n) :
    ∃ chain q fetched,
      BlockFixture.loadFile serde.fromStr path (FixtureFile.appended blockText
        (captured.map CapturedBlock.entry) (BlockFixture.writeAnchor previous)) = .ok chain ∧
      ComesTo (fetchClientParty lib silence (captured.map pointOfBlock) batchSize)
        (fetchServerParty (streamScript n) (some chain)) q ∧
      (fetchedBy lib silence (captured.map pointOfBlock) batchSize q.toLeft).1 = .ok fetched ∧
      FixtureFile.appended blockText (fetched.capturedBlocks.map CapturedBlock.entry)
          (BlockFixture.writeAnchor previous') =
        FixtureFile.appended blockText (captured.map CapturedBlock.entry)
          (BlockFixture.writeAnchor previous) := by
  have hprintedAll : ∀ e ∈ captured.map CapturedBlock.entry,
      Printed serde.fromStr blockText BlockFixtureEntry.toValue e := by
    intro e he
    obtain ⟨b, hb, rfl⟩ := List.mem_map.mp he
    exact hprinted b hb
  have hbatches : batchesOf (captured.map pointOfBlock) batchSize =
      (captured.map pointOfBlock).map fun p => [p] := by
    rw [batchesOf, Nat.max_eq_right hsize, Lib.toChunks_one]
  obtain ⟨replies, hanswers⟩ : ∃ replies, StreamsAll (recordedBlocks captured)
      ((batchesOf (captured.map pointOfBlock) batchSize).take n) replies :=
    exists_answers n fun _ _ => recordedBlocks_legible captured _ _
  obtain ⟨fetched, -, hfetched, -, -, -, -, -, -, -, hblocks⟩ :=
    (conversed_fetches silence hlib hanswers).completes
      (by rwa [hbatches, List.length_map, List.length_map])
  refine ⟨recordedBlocks captured, _, fetched, ?_, conversed_comesTo silence hlib hanswers,
    hfetched, ?_⟩
  · rw [BlockFixture.loadFile, BlockFixture.writeAnchor, appended_writeAnchor,
      load_textBytes (oneLine_written hprintedAll)]
    exact blockLoad_written hanchor hprintedAll
  · rw [recaptured hchain (fun _ h => h) (hblocks hsize), BlockFixture.writeAnchor,
      BlockFixture.writeAnchor, appended_writeAnchor, appended_writeAnchor]

/-- A block at slot 7. -/
def capturedSeven : CapturedBlock := ⟨7, List.replicate 32 7, [0x82, 7]⟩

/-- `serde_json` on the texts of an anchor and of this block. -/
def sevenSerde : FixtureSerde where
  fromStr line :=
    if line = anchorLine .origin then some (anchorValue .origin)
    else if line = blockText capturedSeven.entry then some capturedSeven.entry.toValue
    else none
  entryToString := entryText

theorem printed_seven :
    Printed sevenSerde.fromStr blockText BlockFixtureEntry.toValue capturedSeven.entry := by
  have hopening : Printable "\x7b\"slot\":" := printable_of_all (by decide)
  have hhash : Printable ",\"block_hash\":\"" := printable_of_all (by decide)
  have hcbor : Printable "\",\"block_cbor_hex\":\"" := printable_of_all (by decide)
  have hclosing : Printable "\"\x7d" := printable_of_all (by decide)
  have hline : Printable (blockText capturedSeven.entry) :=
    (((((hopening.append (printable_repr 7)).append hhash).append (printable_encodeHex _)).append
      hcbor).append (printable_encodeHex _)).append hclosing
  have hfirst : "\x7b\"slot\":".toList.all Fixture.isWhiteSpace = false := by decide
  refine ⟨hline.oneLine, ?_, ?_⟩
  · unfold blockText
    simp only [String.toList_append, List.all_append]
    rw [hfirst]
    rfl
  · have hne : blockText capturedSeven.entry ≠ anchorLine .origin := by
      intro h
      have hstart := congrArg (fun text => text.toList.take 3) h
      unfold blockText anchorLine at hstart
      simp [String.toList_append] at hstart
    unfold sevenSerde
    dsimp only
    rw [if_neg hne, if_pos rfl]

/-- One block, in a file that had another in it. -/
theorem rerecorded_seven : ∃ chain q fetched,
    BlockFixture.loadFile sevenSerde.fromStr "blocks.jsonl" (FixtureFile.appended blockText
      ([capturedSeven].map CapturedBlock.entry) (BlockFixture.writeAnchor none)) = .ok chain ∧
    ComesTo (fetchClientParty plainFetchLibrary "closed" ([capturedSeven].map pointOfBlock) 1)
      (fetchServerParty (streamScript 1) (some chain)) q ∧
    (fetchedBy plainFetchLibrary "closed" ([capturedSeven].map pointOfBlock) 1 q.toLeft).1 =
      .ok fetched ∧
    FixtureFile.appended blockText (fetched.capturedBlocks.map CapturedBlock.entry)
        (BlockFixture.writeAnchor (some [0xff, 10])) =
      FixtureFile.appended blockText ([capturedSeven].map CapturedBlock.entry)
        (BlockFixture.writeAnchor none) :=
  rerecorded_blocks blockText "blocks.jsonl" "closed" none (some [0xff, 10])
    plainFetchLibrary_reads rfl (List.forall_mem_singleton.mpr printed_seven)
    ⟨List.forall_mem_singleton.mpr (by rfl), List.forall_mem_singleton.mpr
      (List.forall_mem_singleton.mpr fun _ => rfl)⟩ (Nat.le_refl 1) (Nat.le_refl 1)

end Proof

end ConformanceHarness
