import ConformanceHarness.Proof.Delivery
import ConformanceHarness.Proof.PointLookup

/-!
# The slot filter

`serve_chain_sync` gives a client the headers of a peer up to the imaginary clock:
`filtered_fixture_chain` drops the later ones. `serve_block_fetch` reads the peer's whole
block store. So it keeps to the clock exactly if the store does: a block beyond the
clock is delivered to a client that asks for it by its point.
-/

namespace ConformanceHarness.Proof

open ConformanceHarness.Lib (Prog)
open Session

namespace SlotFilter

/-- Parameters that say which peer to serve. -/
def asPeerParams (id : String) : StepParams := { (default : StepParams) with asPeer := some id }

/-- No block a `serve_block_fetch` step with `as_peer` delivers is beyond `slot`. -/
def BlocksKeepToClock (env : ServeEnv) (id : String) (slot : UInt64) : Prop :=
  ∀ rawParams params incoming, params.asPeer = some id →
    BlocksFrom (·.slot ≤ slot) (ServeBlockFetch.run env rawParams params incoming).2

/-- No header a `serve_chain_sync` step with `as_peer` delivers is beyond `slot`. -/
def HeadersKeepToClock (env : ServeEnv) (id : String) (slot : UInt64) : Prop :=
  ∀ rawParams params incoming, params.asPeer = some id →
    ∀ e, .fixtureEntry e ∈ (ServeChainSync.run env rawParams params incoming).2.delivered →
      e.slot ≤ slot

variable {env : ServeEnv} {id : String} {peer : Peer} {ps : PeerState} {slot : UInt64}

/-! ## The two conversions of a peer -/

theorem mem_filteredFixtureChain {e : FixtureEntry}
    (h : e ∈ (ps.filteredFixtureChain (some slot)).entries) : e.slot ≤ slot := by
  obtain ⟨c, hc, rfl⟩ := List.mem_map.mp h
  exact of_decide_eq_true (List.mem_filter.mp hc).2

/-- The entries of a peer's block fixture are the blocks of its store. -/
theorem mem_toBlockFixtureChain {e : BlockFixtureEntry} :
    e ∈ ps.toBlockFixtureChain.entries ↔
      ∃ hash body, ps.blockStore[(e.slot, hash)]? = some body ∧
        e = ⟨e.slot, encodeHex hash, encodeHex body⟩ := by
  rw [PeerState.toBlockFixtureChain, BlockFixtureChain.fromBlockStore, List.mem_map]
  constructor
  · intro h
    obtain ⟨⟨⟨s, hash⟩, body⟩, hmem, rfl⟩ := h
    exact ⟨hash, body, Std.ExtTreeMap.mem_toList_iff_getElem?_eq_some.mp hmem, rfl⟩
  · intro h
    obtain ⟨hash, body, hget, heq⟩ := h
    exact ⟨((e.slot, hash), body), Std.ExtTreeMap.mem_toList_iff_getElem?_eq_some.mpr hget,
      heq.symm⟩

/-- What a client of the peer's headers is given. -/
theorem headersKeepToClock (hpeer : env.lookupPeer id = .ok peer) (hps : env.peers id = some ps)
    (hslot : env.currentSlot = some slot) : HeadersKeepToClock env id slot := by
  intro rawParams params incoming hid
  refine (serveChainSync_headersFrom ?_ rawParams incoming).delivered
  intro chain hchain e he
  simp only [ServeChainSync.fixture, hid, hpeer, ServeEnv.peerState, hps, hslot] at hchain
  split at hchain
  · exact nomatch hchain
  · obtain rfl := Option.some.inj (Except.ok.inj hchain)
    exact mem_filteredFixtureChain he

/-- What a client of the peer's blocks is given, if the store keeps to the clock. -/
theorem blocksKeepToClock (hpeer : env.lookupPeer id = .ok peer) (hps : env.peers id = some ps)
    (hstore : ∀ key ∈ ps.blockStore, key.1 ≤ slot) : BlocksKeepToClock env id slot := by
  intro rawParams params incoming hid
  refine serveBlockFetch_blocksFrom ?_ rawParams incoming
  intro chain hchain e he
  simp only [ServeBlockFetch.fixture, hid, hpeer, ServeEnv.peerState, hps] at hchain
  split at hchain
  · exact nomatch hchain
  · obtain rfl := Option.some.inj (Except.ok.inj hchain)
    obtain ⟨hash, body, hget, -⟩ := mem_toBlockFixtureChain.mp he
    exact hstore (e.slot, hash) (Std.ExtTreeMap.mem_iff_isSome_getElem?.mpr (by rw [hget]; rfl))

/-! ## A block beyond the clock -/

/-- A response that streams whatever is requested. -/
def streamRequested : Value :=
  .object [("responses", .array [.object [("on", .string "request_range"),
    ("send", .object
      [("block_count_from_request", .bool true), ("kind", .string "stream_batch")])]])]

/-- The script of that response. -/
theorem script_streamRequested (fixture : Option BlockFixtureChain) (noBlocks : Option Bool) :
    ServeBlockFetch.script fixture noBlocks (streamRequested.getField "responses") =
      .ok [⟨.requestRange, .streamBatch .fromRequest, false⟩] := by
  rfl

/-- A range request is answered by the blocks of its range. -/
theorem execute_streamRequested (fixture : Option BlockFixtureChain) {fromPoint toPoint : Point}
    {entries : Option (List (BlockSource × List UInt8))}
    (h : BlockFetch.streamEntries (.requestRange fromPoint toPoint) fixture .fromRequest =
      .ok entries) :
    ((BlockFetch.executeBlockFetchScript [⟨.requestRange, .streamBatch .fromRequest, false⟩] fixture
      [.requestRange fromPoint toPoint]).run BlockFetch.session).2.delivered =
      (entries.getD []).map Prod.fst := by
  have hsend : ∀ s : BlockFetchSession, ∃ s', (BlockFetch.executeSend (.streamBatch .fromRequest)
      (.requestRange fromPoint toPoint) fixture s.state).run s = (.ok false, s') ∧
      s'.delivered = s.delivered ++ (entries.getD []).map Prod.fst := by
    intro s
    obtain ⟨s', hrun, hdel⟩ := sendStream_delivered s.state entries
      ((noteSend (.streamBatch .fromRequest) : BlockFetchServer Unit).run s).2
    refine ⟨s', ?_, hdel⟩
    rw [BlockFetch.executeSend, BlockFetch.executeSingleSend, h]
    · exact Prog.run_bind_ok hrun
    · intro _ h
      cases h
  have hloop : ∀ s : BlockFetchSession, ∃ s', (BlockFetch.serveLoop
      [⟨.requestRange, .streamBatch .fromRequest, false⟩] fixture 0
      [.requestRange fromPoint toPoint]).run s = (.ok (), s') ∧
      s'.delivered = s.delivered ++ (entries.getD []).map Prod.fst := by
    intro s
    have hrequest : BlockFetchRequest.requestRange fromPoint toPoint ≠ .clientDone := by
      intro h
      cases h
    rw [BlockFetch.serveLoop, Prog.run_bind_ok (x := BlockFetch.receive _) (a := ()) rfl,
      if_neg hrequest, Prog.run_bind_ok (x := Session.update _) (a := ()) rfl]
    have hnext : nextRule (BlockFetchRequest.requestRange fromPoint toPoint).matchesOn 0
      (List.drop 0 [⟨.requestRange, .streamBatch .fromRequest, false⟩]) =
      some (0, ⟨.requestRange, .streamBatch .fromRequest, false⟩) := rfl
    rw [hnext]
    dsimp only
    rw [Prog.run_bind_ok (x := BlockFetch.applyRule _ _) (a := ()) rfl, Prog.run_get_bind]
    obtain ⟨s', hrun, hdel⟩ := hsend _
    rw [Prog.run_bind_ok hrun]
    exact ⟨s', rfl, hdel⟩
  obtain ⟨s', hrun, hdel⟩ := hloop _
  rw [BlockFetch.executeBlockFetchScript, Prog.run_bind_ok (x := emit _) (a := ()) rfl,
    Prog.run_bind_ok hrun]
  exact hdel

/-- The range from a block of the store to itself. -/
theorem findRange_self {hash body : List UInt8} (hget : ps.blockStore[(slot, hash)]? = some body) :
    ∃ e, ps.toBlockFixtureChain.findRange (.specific slot hash) (.specific slot hash) =
      .ok (some [e]) ∧ e ∈ ps.toBlockFixtureChain.entries ∧ e.slot = slot := by
  have hdecode : ∀ e ∈ ps.toBlockFixtureChain.entries,
      ∃ h, BlockFixtureEntry.decodeHexUnchecked e.blockHash = .ok h := by
    intro e he
    obtain ⟨h, _, -, heq⟩ := mem_toBlockFixtureChain.mp he
    rw [heq]
    exact ⟨h, decodePairsLenient_encodeHex h⟩
  have hmem : (⟨slot, encodeHex hash, encodeHex body⟩ : BlockFixtureEntry) ∈
      ps.toBlockFixtureChain.entries := mem_toBlockFixtureChain.mpr ⟨hash, body, hget, rfl⟩
  have hblock : ps.toBlockFixtureChain.HasBlock (.specific slot hash) :=
    ⟨_, hmem, point_eq_specific.mpr ⟨rfl, decodePairsLenient_encodeHex hash⟩⟩
  obtain ⟨i, hfirst⟩ := hblock.first
  have hidx := findEntryIdx_first (legible_of_readable hdecode _) hfirst
  obtain ⟨e, hentry, hpoint⟩ := hfirst.here
  have hslice : ps.toBlockFixtureChain.blocksBetween i i = [e] := by
    have hlt := hfirst.lt_length
    rw [BlockFixtureChain.blocksBetween, List.take_add_one, hentry,
      List.drop_append_of_le_length (by simp; omega)]
    simp
  refine ⟨e, ?_, List.mem_of_getElem? hentry, (point_eq_specific.mp hpoint).1⟩
  rw [findRange_found hidx hidx (Nat.le_refl i), hslice]

/-- **A block beyond the clock is delivered.** -/
theorem not_blocksKeepToClock (hpeer : env.lookupPeer id = .ok peer)
    (hps : env.peers id = some ps) (key : UInt64 × List UInt8) (hkey : key ∈ ps.blockStore)
    (hbeyond : ¬ key.1 ≤ slot) : ¬ BlocksKeepToClock env id slot := by
  obtain ⟨keySlot, hash⟩ := key
  obtain ⟨body, hget⟩ := Option.isSome_iff_exists.mp
    (Std.ExtTreeMap.mem_iff_isSome_getElem?.mp hkey)
  obtain ⟨e, hrange, hmem, hs⟩ := findRange_self hget
  obtain ⟨eHash, eBody, -, heq⟩ := mem_toBlockFixtureChain.mp hmem
  have hbytes : e.bodyBytes = .ok eBody := by
    rw [heq]
    exact decodePairsLenient_encodeHex eBody
  have hfixture : ServeBlockFetch.fixture env (asPeerParams id) =
      .ok (some ps.toBlockFixtureChain) := by
    have hne : ps.toBlockFixtureChain.entries.isEmpty = false := by
      rw [List.isEmpty_eq_false_iff]
      exact List.ne_nil_of_mem hmem
    simp [ServeBlockFetch.fixture, asPeerParams, hpeer, ServeEnv.peerState, hps, hne]
  have hentries : BlockFetch.streamEntries (.requestRange (.specific keySlot hash)
      (.specific keySlot hash)) (some ps.toBlockFixtureChain) .fromRequest =
      .ok (some [(.fixtureEntry e, eBody)]) := by
    simp [BlockFetch.streamEntries, hrange, mapEntries, hbytes, Except.map]
  intro hkeeps
  have hclock := hkeeps streamRequested (asPeerParams id)
    [.requestRange (.specific keySlot hash) (.specific keySlot hash)] rfl
  simp only [ServeBlockFetch.run, hfixture, script_streamRequested] at hclock
  have hle : e.slot ≤ slot := by
    refine hclock e ?_
    rw [execute_streamRequested _ hentries]
    exact List.mem_singleton.mpr rfl
  rw [hs] at hle
  exact hbeyond hle

/-- **Serving a peer keeps to the clock exactly if its block store does.** Its headers are
never beyond the clock. -/
theorem keepToClock_iff (hpeer : env.lookupPeer id = .ok peer) (hps : env.peers id = some ps)
    (hslot : env.currentSlot = some slot) :
    BlocksKeepToClock env id slot ∧ HeadersKeepToClock env id slot ↔
      ∀ key ∈ ps.blockStore, key.1 ≤ slot := by
  constructor
  · intro h key hkey
    by_contra hbeyond
    exact not_blocksKeepToClock hpeer hps key hkey hbeyond h.1
  · intro hstore
    exact ⟨blocksKeepToClock hpeer hps hstore, headersKeepToClock hpeer hps hslot⟩

/-- A network of one peer, with one block at slot 10. -/
def oneBlockEnv (currentSlot : UInt64) : ServeEnv where
  files := ⟨fun _ => none, fun _ => none⟩
  network := some [⟨"p", none, none, none, none⟩]
  peers := PeerMap.insert (fun _ => none) "p"
    { PeerState.new with blockStore := Std.ExtTreeMap.insert ∅ (10, [0xaa]) [0xa0] }
  currentSlot := some currentSlot

/-- At slot 10 the block is served. -/
theorem keepToClock_iff_oneBlock :
    BlocksKeepToClock (oneBlockEnv 10) "p" 10 ∧ HeadersKeepToClock (oneBlockEnv 10) "p" 10 := by
  refine (keepToClock_iff rfl rfl rfl).mpr ?_
  intro key hkey
  rcases Std.ExtTreeMap.mem_insert.mp hkey with hkey | hkey
  · rw [← Std.LawfulEqCmp.eq_of_compare hkey]
    decide
  · exact absurd hkey Std.ExtTreeMap.not_mem_empty

/-- At slot 5 it is served too. -/
theorem block_beyond_clock_delivered : ¬ BlocksKeepToClock (oneBlockEnv 5) "p" 5 := by
  refine not_blocksKeepToClock rfl rfl (10, [0xaa]) ?_ (by decide)
  exact Std.ExtTreeMap.mem_insert_self

end SlotFilter

end ConformanceHarness.Proof
