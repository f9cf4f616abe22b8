import ConformanceHarness.Proof.BodyRanges
import ConformanceHarness.Proof.FollowedPeer
import ConformanceHarness.Proof.HeadersAndBodies

/-!
# The bodies of a peer that is followed

A client that has followed a declared peer asks for the bodies of what it has collected, or of a
part of it, in batches of any size. The peer keeps its bodies in a map, apart from its headers. As
long as the extensions of its chain carry bodies, each batch is the range of its headers, at every
moment of the run: the bodies come in the order of the headers, one for each.
-/

namespace ConformanceHarness

open ConformanceHarness.Lib
open ConformanceHarness.Lib.Duplex

/-- The peer has this body for a point. -/
def PeerState.Stores (ps : PeerState) (p : Point) (body : List UInt8) : Prop :=
  ∃ slot hash, p = .specific slot hash ∧ ps.blockStore[(slot, hash)]? = some body

/-- The bodies that a client has heard. -/
def bodiesHeard (heard : List (Wire BlockFetchMessage)) : List (List UInt8) :=
  heard.filterMap fun message =>
    match message with
    | .message (.block body) => some body
    | _ => none

/-- A step `serve_block_fetch` that streams ranges of a declared peer, for `n` requests. -/
structure StreamsPeer (env : ServeEnv) (id : String) (raw : Value) (params : StepParams) (n : Nat) :
    Prop where
  asPeer : params.asPeer = some id
  declared : ∃ peer, env.lookupPeer id = .ok peer
  streams : ∀ blocks, ServeBlockFetch.script blocks params.noBlocksDefault
    (raw.getField "responses") = .ok (streamScript n)

namespace Proof

open BlockFetchClient

section

variable (env : ServeEnv) (raw : Value) (params : StepParams)

/-- A step `serve_block_fetch`. -/
def fetchServingParty : Party BlockFetchClientMessage (Wire BlockFetchMessage) where
  tells heard :=
    (ServeBlockFetch.run env raw params (heard.map BlockFetchClientMessage.received)).2.sent
  takesNothingBack := by
    intro heard more h
    rw [ServeBlockFetch.run, ServeBlockFetch.run]
    rcases ServeBlockFetch.fixture env params with f | chain
    · exact List.prefix_rfl
    · dsimp only
      rcases ServeBlockFetch.script chain params.noBlocksDefault
        (raw.getField "responses") with f | rules
      · exact List.prefix_rfl
      · exact (fetchServerParty rules chain).takesNothingBack h

end

/-! ## A range of the peer's chain -/

section

variable {ps : PeerState} {reply : RangeReply}

/-- The block that is found at a point is the one that the peer has for it. -/
theorem BodiesAgree.stores (h : BodiesAgree ps) {p : Point} {k : Nat} {e : BlockFixtureEntry}
    {body : List UInt8} (hpoint : e.point = .ok p)
    (hget : ps.toBlockFixtureChain.entries[k]? = some e) (hbody : e.HasBody body) :
    ps.Stores p body := by
  obtain ⟨hlt, rfl⟩ := List.getElem?_eq_some_iff.mp hget
  have hlt' : k < ps.chainEntries.length := h.blocks.length_eq ▸ hlt
  rw [h.point hlt' hlt] at hpoint
  obtain rfl := Except.ok.inj hpoint
  obtain ⟨stored, hstored, -, heq⟩ := h.blocks.get hlt' hlt
  rw [List.get_eq_getElem, List.get_eq_getElem] at heq
  rw [heq] at hbody
  obtain rfl := Except.ok.inj ((decodeHexWith_encodeHex ..).symm.trans hbody)
  exact ⟨_, _, rfl, hstored⟩

/-- The blocks of a part of the chain, and their bodies. -/
theorem BodiesAgree.storesAll (h : BodiesAgree ps) {i : Nat} {part : List ChainEntry}
    {blocks : List BlockFixtureEntry} {bodies : List (List UInt8)}
    (hpart : part <+: ps.chainEntries.drop i)
    (hblocks : blocks <+: ps.toBlockFixtureChain.entries.drop i)
    (hlength : part.length = blocks.length)
    (hbodies : List.Forall₂ BlockFixtureEntry.HasBody blocks bodies) :
    List.Forall₂ ps.Stores (part.map ChainEntry.point) bodies := by
  rw [List.forall₂_map_left_iff]
  refine List.forall₂_iff_get.mpr ⟨hlength.trans hbodies.length_eq, fun k hk hk' => ?_⟩
  have hkb : k < blocks.length := hlength ▸ hk
  have hblock := (List.forall₂_iff_get.mp hbodies).2 k hkb hk'
  have hgetPart := hpart.getElem hk
  have hgetBlock := hblocks.getElem hkb
  rw [List.getElem_drop] at hgetPart hgetBlock
  have hlt : i + k < ps.toBlockFixtureChain.entries.length := by
    have hle := hblocks.length_le
    rw [List.length_drop] at hle
    omega
  rw [List.get_eq_getElem] at hblock ⊢
  rw [hgetBlock] at hblock
  rw [hgetPart]
  exact h.stores (h.point (h.blocks.length_eq ▸ hlt) hlt) (List.getElem?_eq_getElem hlt) hblock

/-- A part of the chain that is asked for is answered with its bodies. -/
theorem BodiesAgree.answered (h : BodiesAgree ps) {before part after : List ChainEntry}
    (hpart : ps.chainEntries = before ++ (part ++ after)) (hne : part ≠ [])
    (hanswer : RangeAnswer ps.toBlockFixtureChain (part.head hne).point (part.getLast hne).point
      reply) :
    ∃ bodies, reply = .batch bodies none ∧
      List.Forall₂ ps.Stores (part.map ChainEntry.point) bodies := by
  have hpos : 0 < part.length := List.length_pos_iff.mpr hne
  have hfirst : ps.chainEntries[before.length]? = some (part.head hne) := by
    rw [hpart, List.getElem?_append_right (Nat.le_refl _), Nat.sub_self,
      List.getElem?_append_left hpos, List.head_eq_getElem, List.getElem?_eq_getElem hpos]
  have hlast : ps.chainEntries[before.length + (part.length - 1)]? = some (part.getLast hne) := by
    rw [hpart, List.getElem?_append_right (Nat.le_add_right _ _), Nat.add_sub_cancel_left,
      List.getElem?_append_left (Nat.sub_lt hpos Nat.one_pos), List.getLast_eq_getElem,
      List.getElem?_eq_getElem]
  have hi := h.firstBlock hfirst
  have hj := h.firstBlock hlast
  cases hanswer with
  | noBlocks hno => exact absurd hno (satisfiable hi hj (Nat.le_add_right _ _))
  | blocks hfrom hto hle hbodies =>
    obtain rfl := hi.unique hfrom
    obtain rfl := hj.unique hto
    refine ⟨_, rfl, h.storesAll (i := before.length) ?_ ?_ ?_ hbodies⟩
    · rw [hpart, List.drop_left]
      exact List.prefix_append ..
    · exact (List.take_prefix _ _).drop _
    · have hlt := hj.lt_length
      rw [BlockFixtureChain.blocksBetween, List.length_drop, List.length_take]
      omega

/-- So are several parts of the chain, one after the other. -/
theorem BodiesAgree.answeredAll (h : BodiesAgree ps) {before after : List ChainEntry}
    {parts : List (List ChainEntry)} {replies : List RangeReply}
    (hparts : ps.chainEntries = before ++ (parts.flatten ++ after))
    (hne : ∀ part ∈ parts, part ≠ []) (hsized : ∀ part ∈ parts, ∀ e ∈ part, WireSized e.point)
    (hanswers : List.Forall₂ (AnswersBatch ps.toBlockFixtureChain)
      (parts.map (List.map ChainEntry.point)) replies) :
    ∃ bodies, replies = bodies.map (RangeReply.batch · none) ∧
      List.Forall₂ (List.Forall₂ ps.Stores) (parts.map (List.map ChainEntry.point)) bodies := by
  induction parts generalizing before replies with
  | nil =>
    cases hanswers
    exact ⟨[], rfl, .nil⟩
  | cons part parts ih =>
    obtain ⟨hpart, hrest⟩ := List.forall_mem_cons.mp hne
    obtain ⟨hsize, hsizes⟩ := List.forall_mem_cons.mp hsized
    rw [List.map_cons] at hanswers
    cases hanswers with
    | cons hanswer hanswers =>
      rw [List.flatten_cons, List.append_assoc] at hparts
      have hhead : wirePoint ((part.map ChainEntry.point).headD .origin) =
          (part.head hpart).point := by
        rw [List.headD_eq_head?_getD, List.head?_map, List.head?_eq_some_head hpart]
        exact wirePoint_sized (hsize _ (List.head_mem hpart))
      have hlast : wirePoint ((part.map ChainEntry.point).getLastD .origin) =
          (part.getLast hpart).point := by
        rw [List.getLastD_eq_getLast?, List.getLast?_map, List.getLast?_eq_some_getLast hpart]
        exact wirePoint_sized (hsize _ (List.getLast_mem hpart))
      rw [AnswersBatch, hhead, hlast] at hanswer
      obtain ⟨found, rfl, hfound⟩ := h.answered hparts hpart hanswer
      rw [← List.append_assoc] at hparts
      obtain ⟨bodies, rfl, hbodies⟩ := ih hparts hrest hsizes hanswers
      exact ⟨found :: bodies, rfl, .cons hfound hbodies⟩

end

/-! ## A session with the peer -/

theorem bodiesHeard_append (heard more : List (Wire BlockFetchMessage)) :
    bodiesHeard (heard ++ more) = bodiesHeard heard ++ bodiesHeard more := List.filterMap_append

theorem bodiesHeard_batches (bodies : List (List (List UInt8))) :
    bodiesHeard (((bodies.map (RangeReply.batch · none)).flatMap RangeReply.messages).map
      Wire.message) = bodies.flatten := by
  induction bodies with
  | nil => rfl
  | cons found bodies ih =>
    have hblocks : bodiesHeard ((found.map BlockFetchMessage.block).map Wire.message) = found := by
      rw [bodiesHeard, List.map_map, List.filterMap_map]
      exact List.filterMap_some
    have hfound :
        bodiesHeard ((RangeReply.batch found none).messages.map Wire.message) = found := by
      rw [RangeReply.messages, List.map_cons, List.map_append]
      show bodiesHeard (_ ++ _) = found
      rw [bodiesHeard_append, hblocks]
      exact List.append_nil found
    rw [List.map_cons, List.flatMap_cons, List.map_append, bodiesHeard_append, hfound, ih,
      List.flatten_cons]

theorem replyCounts_batches (bodies : List (List (List UInt8))) :
    let counted := ((bodies.map (RangeReply.batch · none)).map replyCounts).sum
    counted.blocksReceived = UInt64.ofNat bodies.flatten.length ∧
      counted.noBlocksResponses = 0 := by
  induction bodies with
  | nil => exact ⟨rfl, rfl⟩
  | cons found bodies ih =>
    obtain ⟨hblocks, hnone⟩ := ih
    rw [List.map_cons, List.map_cons, List.sum_cons]
    refine ⟨?_, ?_⟩
    · show (0 + UInt64.ofNat found.length) + _ = _
      rw [hblocks, UInt64.zero_add, List.flatten_cons, List.length_append, UInt64.ofNat_add]
    · show (0 + 0) + _ = _
      rw [hnone]
      rfl

/-- A client has fetched what the peer stores at these points. -/
structure Fetched (ps : PeerState) (points : List Point) (batchSize : Nat)
    (heard : List (Wire BlockFetchMessage)) (summary : BlockFetchSummary) : Prop where
  /-- The bodies come in the order of the points, one for each. -/
  bodies : List.Forall₂ ps.Stores points (bodiesHeard heard)
  exitReason : summary.exitReason = "completed"
  blocksReceived : summary.blocksReceived = UInt64.ofNat points.length
  noBlocksResponses : summary.noBlocksResponses = 0
  /-- In batches of one point they are captured, under their points. -/
  captured : batchSize ≤ 1 → List.Forall₂
    (fun p b => p = .specific b.slot b.blockHash ∧ ps.Stores p b.cbor) points
    summary.capturedBlocks

section

variable {env : ServeEnv} {id : String} {raw : Value} {params : StepParams} {n : Nat}
  {ps : PeerState} {lib : BlockFetchLibrary}

/-- A peer with blocks is served as a fixture is. -/
theorem fetchServingParty_eq (h : StreamsPeer env id raw params n) (hps : env.peers id = some ps)
    (hne : ps.toBlockFixtureChain.entries ≠ []) : fetchServingParty env raw params =
      fetchServerParty (streamScript n) (some ps.toBlockFixtureChain) := by
  obtain ⟨peer, hpeer⟩ := h.declared
  have hempty : ps.toBlockFixtureChain.entries.isEmpty = false := by
    rw [List.isEmpty_eq_false_iff]
    exact hne
  have hfixture : ServeBlockFetch.fixture env params = .ok (some ps.toBlockFixtureChain) := by
    simp [ServeBlockFetch.fixture, h.asPeer, hpeer, ServeEnv.peerState, hps, hempty]
  ext1
  funext heard
  show (ServeBlockFetch.run env raw params _).2.sent = _
  rw [ServeBlockFetch.run, hfixture]
  dsimp only
  rw [h.streams]
  rfl

theorem BodiesAgree.rangeLegible (h : BodiesAgree ps) (fromPoint toPoint : Point) :
    ps.toBlockFixtureChain.RangeLegible fromPoint toPoint := by
  refine ⟨h.legible _, fun _ => h.legible _, fun i j _ _ _ e he => ?_⟩
  have hmem : e ∈ ps.toBlockFixtureChain.entries :=
    List.mem_of_mem_take (List.mem_of_mem_drop he)
  obtain ⟨k, hlt, rfl⟩ := List.getElem_of_mem hmem
  obtain ⟨body, -, -, heq⟩ := h.blocks.get (h.blocks.length_eq ▸ hlt) hlt
  rw [List.get_eq_getElem, List.get_eq_getElem] at heq
  rw [heq]
  exact ⟨body, decodeHexWith_encodeHex ..⟩

/-- What is captured where each point is asked for by itself. -/
theorem BodiesAgree.captured (h : BodiesAgree ps) {points : List Point}
    {blocks : List CapturedBlock} (hsized : ∀ p ∈ points, WireSized p)
    (hhere : ∀ p ∈ points, ps.toBlockFixtureChain.HasBlock p)
    (hblocks : BlocksAt ps.toBlockFixtureChain points blocks) :
    List.Forall₂ (fun p b => p = .specific b.slot b.blockHash ∧ ps.Stores p b.cbor) points
      blocks := by
  induction hblocks with
  | nil => exact .nil
  | noBlock hno hrest ih =>
    rw [wirePoint_sized (hsized _ List.mem_cons_self)] at hno
    exact absurd (hhere _ List.mem_cons_self) hno
  | block hfirst hget hbody hrest ih =>
    rw [wirePoint_sized (hsized _ List.mem_cons_self)] at hfirst
    obtain ⟨e, hget', hpoint⟩ := hfirst.here
    obtain rfl := Option.some.inj (hget.symm.trans hget')
    refine .cons ⟨rfl, h.stores hpoint hget hbody⟩ (ih ?_ ?_)
    · exact fun p hp => hsized p (List.mem_cons_of_mem _ hp)
    · exact fun p hp => hhere p (List.mem_cons_of_mem _ hp)

/-- **The bodies of a part of the peer's chain are fetched**, whatever is delivered first. -/
theorem BodiesAgree.fetched (h : BodiesAgree ps) (silence : String) (hlib : lib.Reads)
    (hps : env.peers id = some ps) (hserves : StreamsPeer env id raw params n)
    {points : List Point} (hpoints : points <:+: ps.chainEntries.map ChainEntry.point)
    (hne : points ≠ []) (hsized : ∀ p ∈ points, WireSized p) {batchSize : Nat}
    (henough : (batchesOf points batchSize).length ≤ n) :
    ∃ q summary, ComesTo (fetchClientParty lib silence points batchSize)
        (fetchServingParty env raw params) q ∧
      (fetchedBy lib silence points batchSize q.toLeft).1 = .ok summary ∧
      Fetched ps points batchSize q.toLeft summary := by
  obtain ⟨before, after, hchain⟩ := hpoints
  obtain ⟨init, rest, hsplit, hinit, rfl⟩ := List.map_eq_append_iff.mp hchain.symm
  obtain ⟨begin, part, rfl, rfl, rfl⟩ := List.map_eq_append_iff.mp hinit
  have hpartNe : part ≠ [] := mt List.map_eq_nil_iff.mpr hne
  have hentries : ps.toBlockFixtureChain.entries ≠ [] := by
    intro hnil
    have hlength := h.blocks.length_eq
    rw [hnil, hsplit, List.length_append, List.length_append, List.length_nil] at hlength
    exact hpartNe (List.length_eq_zero_iff.mp (by omega))
  have hlegible : ∀ batch ∈ batchesOf (part.map ChainEntry.point) batchSize,
      ps.toBlockFixtureChain.RangeLegible (wirePoint (batch.headD .origin))
        (wirePoint (batch.getLastD .origin)) := fun _ _ => h.rangeLegible _ _
  obtain ⟨replies, hanswers⟩ := exists_answers n hlegible
  have hfetches := conversed_fetches silence hlib hanswers
  have hpos : 0 < max batchSize 1 := by omega
  have hanswered := hfetches.answered
  rw [List.take_of_length_le henough, batchesOf, toChunks_map hpos] at hanswered
  rw [← flatten_toChunks hpos part, List.append_assoc] at hsplit
  have hsizes : ∀ chunk ∈ part.toChunks (max batchSize 1), ∀ e ∈ chunk, WireSized e.point := by
    intro chunk hchunk e he
    have hmem := List.mem_flatten_of_mem hchunk he
    rw [flatten_toChunks hpos] at hmem
    exact hsized _ (List.mem_map_of_mem hmem)
  obtain ⟨bodies, rfl, hbodies⟩ := h.answeredAll hsplit toChunks_ne_nil hsizes hanswered
  obtain ⟨summary, served, hok, -, hreason, -, hcounts, -, -, -, hcaptured⟩ :=
    hfetches.completes henough
  obtain ⟨hreceived, hnone⟩ := replyCounts_batches bodies
  rw [← hcounts] at hreceived hnone
  have hall : List.Forall₂ ps.Stores (part.map ChainEntry.point) bodies.flatten := by
    have hflat := List.rel_flatten hbodies
    rwa [← List.map_flatten, flatten_toChunks hpos] at hflat
  refine ⟨_, summary, ?_, hok, ?_, hreason, ?_, hnone, fun hsize => ?_⟩
  · rw [fetchServingParty_eq hserves hps hentries]
    exact conversed_comesTo silence hlib hanswers
  · rw [hfetches.heard, bodiesHeard_batches]
    exact hall
  · rw [hall.length_eq]
    exact hreceived
  · refine h.captured hsized (fun p hp => ?_) (hcaptured hsize)
    obtain ⟨e, he, rfl⟩ := List.mem_map.mp hp
    obtain ⟨k, hget⟩ := List.getElem?_of_mem (show e ∈ ps.chainEntries by
      rw [hsplit, flatten_toChunks hpos]
      exact List.mem_append_right _ (List.mem_append_left _ he))
    exact (h.firstBlock hget).hasBlock

end

/-! ## At a moment of a run -/

/-- What is captured of a header has a hash of 32 bytes. -/
theorem capturedFrom_sized (events : List ChainSyncEvent) :
    ∀ h ∈ capturedFrom events, WireSized h.point := by
  intro h hmem
  obtain ⟨header, -, hcaptured⟩ := List.mem_filterMap.mp hmem
  unfold capturedOf at hcaptured
  split at hcaptured
  · next hash _ _ =>
    obtain rfl := Option.some.inj hcaptured
    exact hash.property
  · cases hcaptured

section

variable {lib : ChainSyncLibrary} {silence : Silence} {files : Files}
  {network : Option (List Peer)} {id : String} {s : RunState} {got : List CapturedHeader}
  {ps : PeerState} {Runs : Segment → RunState → RunState → Code Segment → Prop}
  {origin y : Code Segment × RunState}

theorem Followed.sized (h : Followed lib silence files network id Runs origin y got) :
    ∀ header ∈ got, WireSized header.point := by
  induction h with
  | start => exact fun _ hmem => nomatch hmem
  | goesOn _ _ ih => exact ih
  | sitting _ _ _ _ _ hok ih =>
    obtain ⟨events, taken, hsums⟩ := heardBy_sums lib silence hok
    rw [hsums.capturedHeaders]
    exact fun header hmem => (List.mem_append.mp hmem).elim (ih header)
      (capturedFrom_sized taken header)

/-- The run goes on, whether the client syncs or not. -/
theorem Followed.reaches (h : Followed lib silence files network id Runs origin y got) :
    Reaches Runs origin y := by
  induction h with
  | start => exact .refl
  | goesOn _ hrun ih => exact ih.trans hrun
  | sitting _ _ _ _ _ _ ih => exact ih

theorem capturedAs_point {e : ChainEntry} {header : CapturedHeader}
    (h : CapturedAs e.toFixtureEntry header) : header.point = e.point := by
  have hhash : Fixture.decodeHexUnchecked e.toFixtureEntry.blockHash = .ok e.blockHash := by
    show Fixture.decodeHexUnchecked (encodeHex e.blockHash) = _
    rw [Fixture.decodeHexUnchecked, Fixture.decodeHex, decodeHexWith_encodeHex]
  rw [CapturedHeader.point, h.slot, Except.ok.inj (h.hash.symm.trans hhash)]
  rfl

theorem capturedAs_points {entries : List ChainEntry} {headers : List CapturedHeader}
    (h : List.Forall₂ CapturedAs (entries.map ChainEntry.toFixtureEntry) headers) :
    headers.map CapturedHeader.point = entries.map ChainEntry.point := by
  induction entries generalizing headers with
  | nil =>
    cases h
    rfl
  | cons e entries ih =>
    cases h with
    | cons hof hrest => rw [List.map_cons, List.map_cons, capturedAs_point hof, ih hrest]

/-- The points that the client has are the first of the peer's chain. -/
theorem Following.points (h : Following id s got ps) :
    got.map CapturedHeader.point <+: ps.chainEntries.map ChainEntry.point := by
  have hvisible : (ps.filteredFixtureChain s.currentSlot).entries <+:
      ps.chainEntries.map ChainEntry.toFixtureEntry := by
    refine List.IsPrefix.map _ ?_
    rcases s.currentSlot with _ | bound
    · rw [List.filter_true]
    · exact h.inOrder.filter_begins bound
  obtain ⟨rest, hrest⟩ := (List.take_prefix got.length _).trans hvisible
  obtain ⟨first, last, hchain, hfirst, -⟩ := List.map_eq_append_iff.mp hrest.symm
  have hgot := h.got
  rw [← hfirst] at hgot
  rw [capturedAs_points hgot, hchain, List.map_append]
  exact List.prefix_append ..

end

/-! ## A peer with two bodies -/

end Proof

end ConformanceHarness
