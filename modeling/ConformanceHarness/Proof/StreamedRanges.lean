import ConformanceHarness.Proof.PointLookup
import ConformanceHarness.Proof.SessionRules

/-!
# Streaming the range of a request

A `stream_batch` from the request sends the blocks from the first to the last that the
request names, each once and in the order of the fixture, or `NoBlocks` if there is no such
range.

Nothing checks the hex of a fixture when it is loaded. The lookups decode hashes and the
stream decodes bodies, and both panic on text of an odd length; a pair that is not hex is
dropped. That is all that can go wrong.
-/

namespace ConformanceHarness

open Session
open ConformanceHarness.Lib (Prog exists_forall₂)

/-- The bytes a block's text spells. -/
def BlockFixtureEntry.HasBody (e : BlockFixtureEntry) (body : List UInt8) : Prop :=
  Fixture.decodeHex e.blockCborHex = .ok body

namespace BlockFixtureChain

/-- The text that a request makes the server decode is hex: the hashes of the lookups, and the
bodies of the range. -/
structure RangeLegible (chain : BlockFixtureChain) (fromPoint toPoint : Point) : Prop where
  first : chain.Legible fromPoint
  last : chain.HasBlock fromPoint → chain.Legible toPoint
  bodies : ∀ i j, chain.FirstBlock fromPoint i → chain.FirstBlock toPoint j → i ≤ j →
    ∀ e ∈ chain.blocksBetween i j, ∃ body, e.HasBody body

end BlockFixtureChain

/-- The server goes on, idle, having sent `msgs`, of which `blocks` are blocks. -/
structure AnswersWith (x : BlockFetchServer Bool) (s : BlockFetchSession)
    (msgs : List BlockFetchMessage) (blocks : Nat) : Prop where
  returns : (x.run s).1 = .ok false
  sent : (x.run s).2.sent = s.sent ++ msgs.map .message
  idle : (x.run s).2.state = .idle
  served : (x.run s).2.locals.blocksServed = s.locals.blocksServed + UInt64.ofNat blocks

/-- **A stream from the request serves exactly its range.** -/
structure StreamsRange (chain : BlockFixtureChain) (fromPoint toPoint : Point)
    (stateBefore : ServerBfState) (s : BlockFetchSession) : Prop where
  noBlocks : chain.Unsatisfiable fromPoint toPoint →
    AnswersWith (BlockFetch.executeSingleSend (.streamBatch .fromRequest)
      (.requestRange fromPoint toPoint) (some chain) stateBefore) s [.noBlocks] 0
  blocks : ∀ i j, chain.FirstBlock fromPoint i → chain.FirstBlock toPoint j → i ≤ j →
    ∃ bodies, List.Forall₂ BlockFixtureEntry.HasBody (chain.blocksBetween i j) bodies ∧
      AnswersWith (BlockFetch.executeSingleSend (.streamBatch .fromRequest)
        (.requestRange fromPoint toPoint) (some chain) stateBefore) s
        (.startBatch :: bodies.map .block ++ [.batchDone]) bodies.length
  inRange : ∀ p k, chain.findEntryIdx p = .ok (some k) → k < chain.entries.length

namespace Proof

open BlockFetch BlockFixtureChain

variable {chain : BlockFixtureChain} {fromPoint toPoint p : Point} {stateBefore : ServerBfState}
  {s : BlockFetchSession} {i j k : Nat}

/-! ## What the server decodes -/

/-- Both lookups of a range that is served have returned. -/
theorem legible_of_findRange {found : Option (List BlockFixtureEntry)}
    (h : chain.findRange fromPoint toPoint = .ok found) :
    chain.Legible fromPoint ∧ (chain.HasBlock fromPoint → chain.Legible toPoint) := by
  rcases findEntryIdx_cases chain fromPoint with
    ⟨-, hlegible, hnone⟩ | ⟨i, hfrom, hlegible, -⟩ | ⟨f, hfrom, -⟩
  · exact ⟨hlegible, fun hblock => absurd hblock hnone⟩
  · refine ⟨hlegible, fun _ => ?_⟩
    rcases findEntryIdx_cases chain toPoint with
      ⟨-, hlegible', -⟩ | ⟨j, -, hlegible', -⟩ | ⟨f, hto, -⟩
    · exact hlegible'
    · exact hlegible'
    · rw [findRange, hfrom] at h
      dsimp only at h
      rw [hto] at h
      cases h
  · rw [findRange, hfrom] at h
    cases h

/-- The blocks of a range, decoded. -/
theorem mapEntries_bodies {entries : List BlockFixtureEntry} {bodies : List (List UInt8)}
    (h : List.Forall₂ BlockFixtureEntry.HasBody entries bodies) :
    ∃ decoded : List (BlockSource × List UInt8),
      mapEntries (fun e => e.bodyBytes.map fun body => (.fixtureEntry e, body)) entries =
        .ok decoded ∧ decoded.map Prod.snd = bodies := by
  induction h with
  | nil => exact ⟨[], rfl, rfl⟩
  | @cons e body rest bodies hbody _ ih =>
    obtain ⟨decoded, hmap, hbodies⟩ := ih
    have hbytes : e.bodyBytes = .ok body := decodePairsLenient_of_decodeHexWith hbody
    refine ⟨(.fixtureEntry e, body) :: decoded, ?_, congrArg _ hbodies⟩
    rw [mapEntries, hbytes, hmap]
    rfl

/-! ## What the server sends -/

/-- The stream, once its blocks are decoded. -/
theorem executeSingleSend_stream {decoded : Option (List (BlockSource × List UInt8))}
    (h : streamEntries (.requestRange fromPoint toPoint) (some chain) .fromRequest = .ok decoded)
    {stateBefore : ServerBfState} {s t s' : BlockFetchSession}
    (ht : (noteSend (.streamBatch .fromRequest) : BlockFetchServer Unit).run s = (.ok (), t))
    (hrun : (sendStream stateBefore decoded).run t = (.ok (), s')) :
    (executeSingleSend (.streamBatch .fromRequest) (.requestRange fromPoint toPoint) (some chain)
      stateBefore).run s = (.ok false, s') := by
  rw [executeSingleSend, h, Prog.run_ofExcept_ok_bind, Prog.run_bind_ok ht, Prog.run_bind_ok hrun]
  rfl

theorem answersWith_noBlocks
    (h : streamEntries (.requestRange fromPoint toPoint) (some chain) .fromRequest = .ok none) :
    AnswersWith (executeSingleSend (.streamBatch .fromRequest) (.requestRange fromPoint toPoint)
      (some chain) stateBefore) s [.noBlocks] 0 := by
  let noted := ((noteSend (.streamBatch .fromRequest) : BlockFetchServer Unit).run s).2
  let s' := ((sendNoBlocks stateBefore).run noted).2
  have hstream : (sendStream stateBefore none).run noted = (.ok (), s') := rfl
  have hrun := executeSingleSend_stream h (s := s) rfl hstream
  refine ⟨?_, ?_, ?_, ?_⟩
  · rw [hrun]
  · rw [hrun]
    rfl
  · rw [hrun]
    rfl
  · rw [hrun]
    exact (UInt64.add_zero _).symm

theorem answersWith_blocks {decoded : List (BlockSource × List UInt8)} (hne : decoded ≠ [])
    (h : streamEntries (.requestRange fromPoint toPoint) (some chain) .fromRequest =
      .ok (some decoded)) :
    AnswersWith (executeSingleSend (.streamBatch .fromRequest) (.requestRange fromPoint toPoint)
      (some chain) stateBefore) s
      (.startBatch :: (decoded.map Prod.snd).map .block ++ [.batchDone])
      (decoded.map Prod.snd).length := by
  let noted := ((noteSend (.streamBatch .fromRequest) : BlockFetchServer Unit).run s).2
  obtain ⟨s', hstream, hsent, -, hidle, hserved⟩ := sendStream_run stateBefore hne noted
  have hrun := executeSingleSend_stream h (s := s) rfl hstream
  refine ⟨?_, ?_, ?_, ?_⟩
  · rw [hrun]
  · rw [hrun, hsent, List.map_append, List.map_cons, List.map_map, List.map_map]
    rfl
  · rw [hrun, hidle]
  · rw [hrun, List.length_map]
    exact hserved

/-! ## When the range is served -/

/-- Whatever the request, the server is to go on. -/
theorem streams_returns (h : StreamsRange chain fromPoint toPoint stateBefore s) :
    ((executeSingleSend (.streamBatch .fromRequest) (.requestRange fromPoint toPoint) (some chain)
      stateBefore).run s).1 = .ok false := by
  rcases unsatisfiable_or_range chain fromPoint toPoint with hno | ⟨i, j, hi, hj, hle⟩
  · exact (h.noBlocks hno).returns
  · obtain ⟨bodies, -, hanswers⟩ := h.blocks i j hi hj hle
    exact hanswers.returns

theorem legible_of_streams (h : StreamsRange chain fromPoint toPoint stateBefore s) :
    chain.RangeLegible fromPoint toPoint := by
  obtain ⟨found, hfound⟩ : ∃ found, chain.findRange fromPoint toPoint = .ok found := by
    rcases hfound : chain.findRange fromPoint toPoint with f | found
    · have hreturns := streams_returns h
      rw [executeSingleSend, streamEntries, hfound] at hreturns
      exact nomatch hreturns
    · exact ⟨found, rfl⟩
  obtain ⟨hfirst, hlast⟩ := legible_of_findRange hfound
  refine ⟨hfirst, hlast, fun i j hi hj hle e he => ?_⟩
  obtain ⟨bodies, hall, -⟩ := h.blocks i j hi hj hle
  obtain ⟨n, hn, rfl⟩ := List.getElem_of_mem he
  exact ⟨_, hall.get hn (hall.length_eq ▸ hn)⟩

theorem streams_of_legible (h : chain.RangeLegible fromPoint toPoint)
    (stateBefore : ServerBfState) (s : BlockFetchSession) :
    StreamsRange chain fromPoint toPoint stateBefore s where
  noBlocks hno := by
    rcases findRange_legible h.first h.last with ⟨-, hfind⟩ | ⟨i, j, hi, hj, hle, -⟩
    · exact answersWith_noBlocks (by rw [streamEntries, hfind])
    · exact absurd hno (satisfiable hi hj hle)
  blocks i j hi hj hle := by
    rcases findRange_legible h.first h.last with ⟨hno, -⟩ | ⟨i', j', hi', hj', -, hfind⟩
    · exact absurd hno (satisfiable hi hj hle)
    · obtain rfl := hi.unique hi'
      obtain rfl := hj.unique hj'
      obtain ⟨bodies, hall⟩ := exists_forall₂ (h.bodies i j hi hj hle)
      obtain ⟨decoded, hmap, rfl⟩ := mapEntries_bodies hall
      refine ⟨decoded.map Prod.snd, hall, answersWith_blocks ?_ ?_⟩
      · -- the range holds its first block
        rintro rfl
        have hlen : (chain.blocksBetween i j).length = 0 := hall.length_eq
        have := hj.lt_length
        rw [blocksBetween, List.length_drop, List.length_take] at hlen
        omega
      · rw [streamEntries, hfind]
        dsimp only
        rw [hmap]
        rfl
  inRange p k hk := by
    rcases findEntryIdx_cases chain p with ⟨hnone, -⟩ | ⟨k', hsome, -, hfirst⟩ | ⟨f, herror, -⟩
    · exact nomatch hk.symm.trans hnone
    · obtain rfl := Option.some.inj (Except.ok.inj (hk.symm.trans hsome))
      exact hfirst.lt_length
    · exact nomatch hk.symm.trans herror

/-- **The range of a request is served exactly if the text it makes the server decode is hex.** -/
theorem streamsRange_iff (chain : BlockFixtureChain) (fromPoint toPoint : Point)
    (stateBefore : ServerBfState) (s : BlockFetchSession) :
    StreamsRange chain fromPoint toPoint stateBefore s ↔ chain.RangeLegible fromPoint toPoint :=
  ⟨legible_of_streams, fun h => streams_of_legible h stateBefore s⟩

/-- A block whose body has an odd number of digits. -/
def oddBody : BlockFixtureChain where
  anchor := .origin
  entries := [⟨62, "5a3d", "820"⟩]

/-- Asked for that block, the server panics before it sends anything. -/
theorem odd_body_panics :
    ¬ StreamsRange oddBody (.specific 62 [0x5a, 0x3d]) (.specific 62 [0x5a, 0x3d]) .busy
      { BlockFetch.session with state := .busy } := by
  intro h
  have hstops : ¬ ((executeSingleSend (.streamBatch .fromRequest)
      (.requestRange (.specific 62 [0x5a, 0x3d]) (.specific 62 [0x5a, 0x3d])) (some oddBody)
      .busy).run { BlockFetch.session with state := .busy }).1.isOk := by
    decide
  rw [streams_returns h] at hstops
  exact hstops rfl

end Proof

end ConformanceHarness
