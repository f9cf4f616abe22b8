import ConformanceHarness.Proof.FixtureServing
import ConformanceHarness.Proof.SameReading

/-!
# Serving a file through a peer

A declared peer keeps the entries of its fixture as bytes, and writes them as hex again
when it is served. Entries survive that. The anchor does not: `PeerState` has no place
for it, and `filtered_fixture_chain` puts the origin in its stead. Nor does a fixture
without entries, which is served as no fixture at all.
-/

namespace ConformanceHarness.Proof

open ConformanceHarness.Lib.Prog (SameEnd)
open Session ChainSync

namespace PeerServing

open FixtureServing

/-- Every client is sent the same, whether the peer is served or the file. -/
def PeerServesFile (env : ServeEnv) (id path : String) : Prop :=
  ∀ rawPeer rawFile (params : StepParams) incoming,
    rawPeer.getField "responses" = rawFile.getField "responses" →
    (ServeChainSync.run env rawPeer { params with asPeer := some id, fixturePath := none }
      incoming).2.sent =
    (ServeChainSync.run env rawFile { params with asPeer := none, fixturePath := some path }
      incoming).2.sent

/-- The peer is declared with the file at `path` for its fixture, and is as it was
declared; the file holds `chain`, and only valid hex; no slots are tracked. -/
structure Declared (env : ServeEnv) (id path : String) (chain : FixtureChain) : Prop where
  loads : env.files.loadFixture path = .ok chain
  hex : ∀ e ∈ chain.entries, ValidHex e.blockHash ∧ ValidHex e.cborHex
  untracked : env.currentSlot = none
  peer : ∃ peer ps, env.lookupPeer id = .ok peer ∧ peer.chainSyncFixture = some path ∧
    peer.initialState env.files = .ok ps ∧ env.peers id = some ps

/-! ## From the file to the peer -/

theorem extendFromBlocks_chainEntries {ps ps' : PeerState} {entries : List BlockFixtureEntry}
    (h : ps.extendFromBlocks entries = .ok ps') : ps'.chainEntries = ps.chainEntries := by
  induction entries generalizing ps with
  | nil => exact congrArg PeerState.chainEntries (Except.ok.inj h).symm
  | cons e rest ih =>
    rw [PeerState.extendFromBlocks] at h
    rcases hhash : PeerState.decodeHexUnchecked e.blockHash with f | hash <;> rw [hhash] at h
    · exact nomatch h
    · rcases hbody : e.bodyBytes with f | body <;> rw [hbody] at h
      · exact nomatch h
      · exact (ih h : _)

/-- The entries a peer is declared with. -/
theorem initialState_chainEntries {files : Files} {peer : Peer} {path : String}
    {chain : FixtureChain} {ps : PeerState} (hpath : peer.chainSyncFixture = some path)
    (hload : files.loadFixture path = .ok chain) (h : peer.initialState files = .ok ps) :
    mapEntries ChainEntry.fromFixtureEntry chain.entries = .ok ps.chainEntries := by
  simp only [Peer.initialState, hpath, hload, withContext_ok, PeerState.fromFixtureChain] at h
  rcases hentries : mapEntries ChainEntry.fromFixtureEntry chain.entries with f | entries <;>
    rw [hentries] at h
  · exact nomatch h
  · rcases hblocks : peer.blockFetchFixture with _ | blocksPath <;> rw [hblocks] at h
    · obtain rfl := Except.ok.inj h
      rfl
    · -- the blocks go to the store, and leave the chain alone
      simp only [Except.map, bind, Except.bind] at h
      rcases hload' : files.loadBlockFixture blocksPath with (_ | _) | blocks <;> rw [hload'] at h
      · exact nomatch h
      · exact nomatch h
      · exact congrArg Except.ok (extendFromBlocks_chainEntries h).symm

/-- An entry reads the same after the detour. -/
theorem sameEntry_of_fromFixtureEntry {e : FixtureEntry} {entry : ChainEntry}
    (hhash : ValidHex e.blockHash) (hheader : ValidHex e.cborHex)
    (h : ChainEntry.fromFixtureEntry e = .ok entry) : SameEntry e entry.toFixtureEntry := by
  obtain ⟨hash, hstrict, hlenient⟩ := hhash.decode fun _ => invalidDigit
  obtain ⟨cbor, -, hcbor⟩ := hheader.decode fun _ => invalidDigit
  rw [ChainEntry.fromFixtureEntry, PeerState.decodeHexUnchecked, PeerState.decodeHexUnchecked,
    hlenient, hcbor] at h
  obtain rfl := Except.ok.inj h
  refine ⟨rfl, rfl, rfl, ?_, ?_⟩
  · simp [Fixture.decodeHexUnchecked, Fixture.decodeHex, hstrict, ChainEntry.toFixtureEntry]
  · simp [ChainSync.decodeHexStr, hcbor, ChainEntry.toFixtureEntry]

/-- **Every entry of a file reads the same after the detour.** -/
theorem sameEntries {entries : List FixtureEntry} {chainEntries : List ChainEntry}
    (hhex : ∀ e ∈ entries, ValidHex e.blockHash ∧ ValidHex e.cborHex)
    (h : mapEntries ChainEntry.fromFixtureEntry entries = .ok chainEntries) :
    List.Forall₂ SameEntry entries (chainEntries.map ChainEntry.toFixtureEntry) := by
  induction entries generalizing chainEntries with
  | nil =>
    obtain rfl := Except.ok.inj h
    exact .nil
  | cons e rest ih =>
    rw [mapEntries] at h
    rcases hentry : ChainEntry.fromFixtureEntry e with f | entry <;> rw [hentry] at h
    · exact nomatch h
    · rcases hrest : mapEntries ChainEntry.fromFixtureEntry rest with f | others <;>
        rw [hrest] at h
      · exact nomatch h
      · obtain rfl := Except.ok.inj h
        obtain ⟨hhash, hheader⟩ := hhex e List.mem_cons_self
        exact .cons (sameEntry_of_fromFixtureEntry hhash hheader hentry)
          (ih (fun e he => hhex e (List.mem_cons_of_mem _ he)) hrest)

theorem decodes_of_validHex {chain : FixtureChain}
    (hhex : ∀ e ∈ chain.entries, ValidHex e.blockHash ∧ ValidHex e.cborHex) : chain.Decodes := by
  intro e he
  obtain ⟨hhash, hheader⟩ := hhex e he
  obtain ⟨hash, hstrict, -⟩ := hhash.decode fun _ => invalidDigit
  obtain ⟨cbor, hcbor, -⟩ := hheader.decode fun _ => invalidDigit
  refine ⟨⟨hash, ?_⟩, cbor, hcbor⟩
  rw [Fixture.decodeHexUnchecked, Fixture.decodeHex, hstrict]

theorem decodes_filtered (ps : PeerState) : (ps.filteredFixtureChain none).Decodes := by
  refine decodes_of_validHex fun e he => ?_
  obtain ⟨entry, -, rfl⟩ := List.mem_map.mp he
  exact ⟨validHex_encodeHex _, validHex_encodeHex _⟩

/-! ## What the two steps serve -/

section Steps

variable {env : ServeEnv} {id path : String} {chain : FixtureChain} {params : StepParams}
  {rawParams : Value}

/-- The step that serves the file. -/
theorem fixture_file (params : StepParams) (hload : env.files.loadFixture path = .ok chain) :
    ServeChainSync.fixture env { params with asPeer := none, fixturePath := some path } =
      .ok (some chain) := by
  simp [ServeChainSync.fixture, hload, Except.map]

/-- The step that serves the peer, if it has entries. -/
theorem fixture_peer (params : StepParams) {peer : Peer} {ps : PeerState}
    (hpeer : env.lookupPeer id = .ok peer) (hps : env.peers id = some ps)
    (huntracked : env.currentSlot = none) :
    ServeChainSync.fixture env { params with asPeer := some id, fixturePath := none } =
      .ok (if ps.chainEntries = [] then none else some (ps.filteredFixtureChain none)) := by
  rcases hentries : ps.chainEntries with _ | ⟨entry, rest⟩ <;>
    simp [ServeChainSync.fixture, hpeer, ServeEnv.peerState, hps, huntracked, hentries,
      PeerState.chainTipSlot]

/-- The generated script, where there is no other. -/
theorem run_generated {incoming : List ReceivedRequest}
    (hfixture : ServeChainSync.fixture env params = .ok (some chain))
    (hresponses : rawParams.getField "responses" = none) :
    (ServeChainSync.run env rawParams params incoming).2.sent =
      (serveFixture chain (ServeChainSync.awaitSecs params) incoming).2.sent := by
  simp only [ServeChainSync.run, hfixture, hresponses, ServeChainSync.script]
  rfl

/-- Without a fixture there is none, and the step fails before it serves. -/
theorem run_nothing {incoming : List ReceivedRequest}
    (hfixture : ServeChainSync.fixture env params = .ok none)
    (hresponses : rawParams.getField "responses" = none) :
    (ServeChainSync.run env rawParams params incoming).2.sent = [] := by
  simp only [ServeChainSync.run, hfixture, hresponses, ServeChainSync.script]
  rfl

end Steps

/-- The generated script depends on the number of entries. -/
theorem generated_rel {chain chain' : FixtureChain} (h : SameChain chain chain')
    (awaitSecs : UInt64) :
    List.Forall₂ (RuleRel SameEntry fun _ _ => True) (generateFromFixture chain awaitSecs)
      (generateFromFixture chain' awaitSecs) := by
  have hsame : generateFromFixture chain awaitSecs = generateFromFixture chain' awaitSecs := by
    simp [generateFromFixture, h.entries.length_eq]
  rw [hsame, List.forall₂_same]
  intro rule hrule
  refine ⟨rfl, rfl, .single (.plain _ ?_)⟩
  simp only [generateFromFixture, List.mem_append, List.mem_map, List.mem_cons,
    List.not_mem_nil, or_false] at hrule
  rcases hrule with (rfl | ⟨_, _, rfl⟩) | rfl | rfl <;> trivial

/-- Scripts for fixtures that read the same. -/
theorem script_rel {chain chain' : FixtureChain} (h : SameChain chain chain') (awaitSecs : UInt64)
    (responses : Option Value) :
    SameEnd (List.Forall₂ (RuleRel SameEntry fun _ _ => True))
      (ServeChainSync.script (some chain) awaitSecs responses)
      (ServeChainSync.script (some chain') awaitSecs responses) := by
  cases responses with
  | none => exact generated_rel h awaitSecs
  | some responses => exact explicitScript_rel (.some h.entries) .none ServeChainSync.step responses

/-- **Steps whose fixtures read the same send the same.** -/
theorem run_same {env : ServeEnv} {params params' : StepParams} {raw raw' : Value}
    {chain chain' : FixtureChain} (h : SameChain chain chain')
    (hfixture : ServeChainSync.fixture env params = .ok (some chain))
    (hfixture' : ServeChainSync.fixture env params' = .ok (some chain'))
    (hawait : ServeChainSync.awaitSecs params = ServeChainSync.awaitSecs params')
    (hresponses : raw.getField "responses" = raw'.getField "responses")
    (incoming : List ReceivedRequest) :
    (ServeChainSync.run env raw params incoming).2.sent =
      (ServeChainSync.run env raw' params' incoming).2.sent := by
  have hscript := script_rel h (ServeChainSync.awaitSecs params') (raw'.getField "responses")
  simp only [ServeChainSync.run, hfixture, hfixture', hawait, hresponses]
  generalize ServeChainSync.script (some chain) _ _ = r at hscript
  generalize ServeChainSync.script (some chain') _ _ = r' at hscript
  rcases r with _ | rules <;> rcases r' with _ | rules'
  · rfl
  · exact hscript.elim
  · exact hscript.elim
  · exact executeResponseScript_same (.some h) hscript incoming

/-! ## The exact condition -/

section Condition

variable {env : ServeEnv} {id path : String} {chain : FixtureChain}

/-- What the step that serves the peer has for its fixture. -/
theorem Declared.fixture_peer (h : Declared env id path chain) (params : StepParams) :
    ∃ chain' : FixtureChain, chain'.anchor = .origin ∧ chain'.Decodes ∧
      List.Forall₂ SameEntry chain.entries chain'.entries ∧
      ServeChainSync.fixture env { params with asPeer := some id, fixturePath := none } =
        .ok (if chain.entries = [] then none else some chain') := by
  obtain ⟨peer, ps, hpeer, hpath, hinit, hps⟩ := h.peer
  have hentries := sameEntries h.hex (initialState_chainEntries hpath h.loads hinit)
  have hempty : ps.chainEntries = [] ↔ chain.entries = [] := by
    rw [← List.length_eq_zero_iff, ← List.length_eq_zero_iff, hentries.length_eq, List.length_map]
  refine ⟨ps.filteredFixtureChain none, rfl, decodes_filtered ps, ?_, ?_⟩
  · rw [PeerState.filteredFixtureChain, List.filter_true]
    exact hentries
  · rw [PeerServing.fixture_peer params hpeer hps h.untracked]
    by_cases hnil : chain.entries = []
    · rw [if_pos hnil, if_pos (hempty.mpr hnil)]
    · rw [if_neg hnil, if_neg fun h => hnil (hempty.mp h)]

/-- Anchored at the origin, with entries: the peer serves the file. -/
theorem peerServesFile (h : Declared env id path chain) (hanchor : chain.anchor = .origin)
    (hne : chain.entries ≠ []) : PeerServesFile env id path := by
  intro rawPeer rawFile params incoming hresponses
  obtain ⟨chain', hanchor', -, hentries, hfixture⟩ := h.fixture_peer params
  rw [if_neg hne] at hfixture
  exact (run_same ⟨hanchor.trans hanchor'.symm, hentries⟩ (fixture_file params h.loads) hfixture rfl
    hresponses.symm incoming).symm

/-- The origin is not on a chain with another anchor. -/
theorem noOccurrence_origin (hanchor : chain.anchor ≠ .origin) : NoOccurrence chain [.origin] := by
  intro p hp k hk
  obtain rfl := List.mem_singleton.mp hp
  cases k with
  | zero => exact hanchor hk
  | succ i =>
    obtain ⟨e, -, hpoint⟩ := hk
    exact point_ne_origin e hpoint

/-- **A peer serves its file exactly if the file is anchored at the origin and has
entries.** -/
theorem peerServesFile_iff (h : Declared env id path chain) :
    PeerServesFile env id path ↔ chain.anchor = .origin ∧ chain.entries ≠ [] := by
  refine ⟨fun hserves => ?_, fun hc => peerServesFile h hc.1 hc.2⟩
  obtain ⟨chain', hanchor', hdec', -, hfixture⟩ := h.fixture_peer default
  -- a client that looks for the origin tells the two apart
  have hdec := decodes_of_validHex h.hex
  have hsame := hserves (.object []) (.object []) default (clientRequests [.origin] 0) rfl
  rw [run_generated (fixture_file default h.loads) rfl] at hsame
  by_cases hnil : chain.entries = []
  · rw [if_pos hnil] at hfixture
    rw [run_nothing hfixture rfl] at hsame
    exact absurd hsame.symm (sent_ne_nil hdec _ [.origin])
  · refine ⟨?_, hnil⟩
    by_contra hanchor
    rw [if_neg hnil] at hfixture
    rw [run_generated hfixture rfl] at hsame
    obtain ⟨tip, contents, -, -, hfound⟩ := (decodes_serves hdec' 30 [.origin] 0).found .origin 0
      (hanchor' ▸ firstOccurrence_anchor chain') (Nat.zero_le _)
    obtain ⟨tip', rest, -, hnotFound, -⟩ :=
      (decodes_serves hdec 30 [.origin] 0).notFound (noOccurrence_origin hanchor)
    exact nomatch (hfound.symm.trans hsame).trans hnotFound

end Condition

/-! ## Two files -/

/-- A file's first line, for a chain that starts at the origin. -/
def genesisLine : String := "\x7b\"anchor\":true\x7d"

/-- A file's first line, for a chain that does not. -/
def anchorLine : String := "\x7b\"anchor\":true,\"slot\":5,\"block_hash\":\"bb\"\x7d"

/-- A line with a header. -/
def entryLine : String :=
  "\x7b\"slot\":10,\"block_hash\":\"aa\",\"block_number\":1,\"cbor_hex\":\"a0\"\x7d"

/-- The three lines, parsed. -/
def parseLine (line : String) : Option Value :=
  if line = genesisLine then some (.object [("anchor", .bool true)])
  else if line = anchorLine then
    some (.object [("anchor", .bool true), ("block_hash", .string "bb"),
      ("slot", .number (.unsigned 5))])
  else if line = entryLine then
    some (.object [("block_hash", .string "aa"), ("block_number", .number (.unsigned 1)),
      ("cbor_hex", .string "a0"), ("slot", .number (.unsigned 10))])
  else none

/-- A network of one peer, declared with a file of one header. -/
def oneHeaderEnv (firstLine : String) : ServeEnv where
  files := ⟨fun _ => some [firstLine, entryLine], parseLine⟩
  network := some [⟨"p", some "chain.jsonl", none, none, none⟩]
  peers := PeerMap.insert (fun _ => none) "p"
    { PeerState.new with chainEntries := [⟨10, [0xaa], 1, [0xa0], defaultHeaderVariant⟩] }
  currentSlot := none

/-- What the file holds. -/
def oneHeader (anchor : Point) : FixtureChain where
  anchor := anchor
  entries := [⟨10, "aa", 1, "a0", defaultHeaderVariant⟩]

theorem declared_oneHeader (firstLine : String) (anchor : Point)
    (h : (oneHeaderEnv firstLine).files.loadFixture "chain.jsonl" = .ok (oneHeader anchor)) :
    Declared (oneHeaderEnv firstLine) "p" "chain.jsonl" (oneHeader anchor) where
  loads := h
  hex := by
    intro e he
    obtain rfl := List.mem_singleton.mp he
    decide +kernel
  untracked := rfl
  peer := by
    refine ⟨_, _, rfl, rfl, ?_, rfl⟩
    simp only [Peer.initialState, h]
    rfl

/-- Anchored at the origin, the peer serves the file. -/
theorem peerServesFile_iff_genesis : PeerServesFile (oneHeaderEnv genesisLine) "p" "chain.jsonl" :=
  (peerServesFile_iff (declared_oneHeader _ .origin rfl)).mpr
    ⟨rfl, List.cons_ne_nil _ _⟩

/-- Anchored elsewhere, it does not. -/
theorem anchored_file_misserved :
    Declared (oneHeaderEnv anchorLine) "p" "chain.jsonl" (oneHeader (.specific 5 [0xbb])) ∧
      ¬ PeerServesFile (oneHeaderEnv anchorLine) "p" "chain.jsonl" := by
  refine ⟨declared_oneHeader _ _ rfl, fun h => ?_⟩
  have hsame := h (.object []) (.object []) default [.findIntersect [.origin]] rfl
  revert hsame
  decide

end PeerServing

end ConformanceHarness.Proof
