import ConformanceHarness.Proof.ChainOrder
import ConformanceHarness.Proof.ChainSyncLinked
import ConformanceHarness.Proof.PeerIndependence
import ConformanceHarness.Runner.Serve

/-!
# Following a peer through a run

A client that syncs with a declared peer at some moments of a run, while time advances, blocks are
produced and the peer's chain is extended. It starts from the last point that it has collected, or
from the origin. Each sitting can be cut short: a client that waits no longer keeps what it has.

What it has collected is always a beginning of the chain that the peer shows, with nothing left
out and nothing twice, however many sittings there were.
-/

namespace ConformanceHarness

open ConformanceHarness.Lib
open ConformanceHarness.Lib.Duplex

/-- What a serve step reads, at a moment of a run. -/
def RunState.serveEnv (s : RunState) (files : Files) (network : Option (List Peer)) : ServeEnv where
  files := files
  network := network
  peers := s.peers
  currentSlot := s.currentSlot

/-- The points a client starts from that has collected these headers: `$tips[..]` and `origin`. -/
def resumePoints (got : List CapturedHeader) : List Point :=
  (got.getLast?.map CapturedHeader.point).toList ++ [.origin]

/-- A step `serve_chain_sync` that serves a declared peer, with no responses of its own. -/
structure ServesPeer (env : ServeEnv) (id : String) (raw : Value) (params : StepParams) : Prop where
  asPeer : params.asPeer = some id
  declared : ∃ peer, env.lookupPeer id = .ok peer
  generated : raw.getField "responses" = none

namespace Proof

section

variable (env : ServeEnv) (raw : Value) (params : StepParams)

/-- A step `serve_chain_sync`. -/
def servingParty : Party ChainSyncRequest (Wire ChainSyncMessage) where
  tells heard :=
    (ServeChainSync.run env raw params (heard.map ChainSyncRequest.received)).2.sent
  takesNothingBack := by
    intro heard more h
    rw [ServeChainSync.run, ServeChainSync.run]
    rcases ServeChainSync.fixture env params with f | chain
    · exact List.prefix_rfl
    · dsimp only
      rcases ServeChainSync.script chain (ServeChainSync.awaitSecs params)
        (raw.getField "responses") with f | rules
      · exact List.prefix_rfl
      · exact (serverParty rules chain).takesNothingBack h

end

section

variable {env : ServeEnv} {id : String} {raw : Value} {params : StepParams} {ps : PeerState}

/-- A peer with a chain is served as a fixture is. -/
theorem servingParty_eq (h : ServesPeer env id raw params) (hps : env.peers id = some ps)
    (hne : ps.chainEntries ≠ []) :
    servingParty env raw params = serverParty
      (generateFromFixture (ps.filteredFixtureChain env.currentSlot)
        (ServeChainSync.awaitSecs params)) (some (ps.filteredFixtureChain env.currentSlot)) := by
  obtain ⟨peer, hpeer⟩ := h.declared
  have hempty : ps.chainEntries.isEmpty = false := by
    rw [List.isEmpty_eq_false_iff]
    exact hne
  have hfixture : ServeChainSync.fixture env params =
      .ok (some (ps.filteredFixtureChain env.currentSlot)) := by
    simp [ServeChainSync.fixture, h.asPeer, hpeer, ServeEnv.peerState, hps, hempty]
  ext1
  funext heard
  show (ServeChainSync.run env raw params _).2.sent = _
  rw [ServeChainSync.run, hfixture]
  dsimp only
  rw [h.generated]
  rfl

/-- A peer without a chain is not served. -/
theorem servingParty_empty (h : ServesPeer env id raw params) (hps : env.peers id = some ps)
    (hempty : ps.chainEntries = []) (heard : List ChainSyncRequest) :
    (servingParty env raw params).tells heard = [] := by
  obtain ⟨peer, hpeer⟩ := h.declared
  have hfixture : ServeChainSync.fixture env params = .ok none := by
    simp [ServeChainSync.fixture, h.asPeer, hpeer, ServeEnv.peerState, hps, hempty,
      PeerState.chainTipSlot]
  show (ServeChainSync.run env raw params _).2.sent = _
  rw [ServeChainSync.run, hfixture]
  dsimp only
  rw [h.generated]
  rfl

end

/-! ## Where a client goes on -/

section

variable {lib : ChainSyncLibrary} {chain : FixtureChain} {got : List CapturedHeader}

theorem specific_of_point {e : FixtureEntry} {p : Point} (h : e.point = .ok p) :
    ∃ hash, p = .specific e.slot hash := by
  rcases hhash : Fixture.decodeHexUnchecked e.blockHash with f | hash
  · rw [FixtureEntry.point, hhash] at h
    cases h
  · exact ⟨hash, Except.ok.inj (h.symm.trans (point_of_hash hhash))⟩

/-- The points of a fixture in chain order are distinct. -/
theorem firstPosition_entry (hanchor : chain.anchor = .origin)
    (hin : Ascending FixtureEntry.slot chain.entries) {i : Nat} {e : FixtureEntry} {p : Point}
    (hget : chain.entries[i]? = some e) (hpoint : e.point = .ok p) :
    FirstPosition chain p (i + 1) := by
  refine ⟨⟨e, hget, hpoint⟩, fun j hj hat => ?_⟩
  obtain ⟨hash, rfl⟩ := specific_of_point hpoint
  cases j with
  | zero => exact nomatch hanchor.symm.trans hat
  | succ j =>
    obtain ⟨e', hget', hpoint'⟩ := hat
    obtain ⟨hash', hsame⟩ := specific_of_point hpoint'
    obtain ⟨hlt, rfl⟩ := List.getElem?_eq_some_iff.mp hget
    obtain ⟨hlt', rfl⟩ := List.getElem?_eq_some_iff.mp hget'
    -- the slots of two entries differ
    have hslots := List.pairwise_iff_getElem.mp hin j i hlt' hlt (Nat.lt_of_succ_lt_succ hj)
    rw [(Point.specific.inj hsame).1] at hslots
    exact absurd hslots (UInt64.lt_irrefl _)

/-- A client that has the first headers of a fixture is offered the rest. -/
theorem resume_joined (h : lib.Replays chain) (hanchor : chain.anchor = .origin)
    (hin : Ascending FixtureEntry.slot chain.entries)
    (hgot : List.Forall₂ CapturedAs (chain.entries.take got.length) got) :
    ∃ p, Joined chain (((resumePoints got).map toNcPoint).map fromNcPoint) (some p)
      (chain.entries.drop got.length) := by
  rcases List.eq_nil_or_concat got with rfl | ⟨first, last, hlast⟩
  · refine ⟨.origin, .found ⟨[], [], rfl, fun _ hq => absurd hq List.not_mem_nil, hanchor, ?_⟩⟩
    exact fun j hj => absurd hj (Nat.not_lt_zero j)
  · rw [List.concat_eq_append] at hlast
    subst hlast
    have hlength := hgot.length_eq
    rw [List.length_take, List.length_append, List.length_singleton] at hlength
    have hlt : first.length < chain.entries.length := by omega
    have hlastOf : CapturedAs chain.entries[first.length] last := by
      have hget := (List.forall₂_iff_get.mp hgot).2 first.length
        (by rw [List.length_take, List.length_append, List.length_singleton]; omega)
        (by rw [List.length_append, List.length_singleton]; omega)
      simpa using hget
    have hget : chain.entries[first.length]? = some chain.entries[first.length] :=
      List.getElem?_eq_getElem hlt
    have hpoint : chain.entries[first.length].point = .ok last.point := by
      rw [point_of_hash hlastOf.hash, CapturedHeader.point, hlastOf.slot]
    have hsized := wireSized_entry h (List.getElem_mem hlt) hpoint
    have hpoints : ((resumePoints (first ++ [last])).map toNcPoint).map fromNcPoint =
        [last.point, .origin] := by
      rw [resumePoints, List.getLast?_append]
      exact congrArg (· :: [Point.origin]) (fromNcPoint_toNcPoint_iff.mpr hsized)
    have hfirst := firstPosition_entry hanchor hin hget hpoint
    refine ⟨last.point, ?_⟩
    rw [hpoints, List.length_append, List.length_singleton]
    exact .found ⟨[], [.origin], rfl, fun _ hq => absurd hq List.not_mem_nil, hfirst⟩

end

/-! ## One sitting after the other -/

/-- The client has the first headers that the peer shows at a moment of a run. -/
structure Following (id : String) (s : RunState) (got : List CapturedHeader) (ps : PeerState) :
    Prop where
  here : s.peers id = some ps
  inOrder : InOrder ps.chainEntries
  got : List.Forall₂ CapturedAs
    ((ps.filteredFixtureChain s.currentSlot).entries.take got.length) got

section

variable {lib : ChainSyncLibrary} {silence : Silence} {files : Files}
  {network : Option (List Peer)} {id : String} {s : RunState} {got : List CapturedHeader}
  {ps : PeerState} {raw : Value} {params : StepParams} {count : UInt64}

theorem Following.length_le (h : Following id s got ps) :
    got.length ≤ (ps.filteredFixtureChain s.currentSlot).entries.length := by
  have hlength := h.got.length_eq
  rw [List.length_take] at hlength
  omega

theorem visible_ascending (h : InOrder ps.chainEntries) (current : Option UInt64) :
    Ascending FixtureEntry.slot (ps.filteredFixtureChain current).entries :=
  List.pairwise_map.mpr (h.filter _)

/-- What a sitting comes to, from where the client is. -/
theorem Following.offers (h : Following id s got ps) (silence : Silence) (hlib : lib.Reads)
    (hreplays : lib.Replays (ps.filteredFixtureChain s.currentSlot)) (count : UInt64)
    (hserves : ServesPeer (s.serveEnv files network) id raw params) (hne : ps.chainEntries ≠ []) :
    ∃ q, ComesTo (clientParty lib silence (resumePoints got) count)
        (servingParty (s.serveEnv files network) raw params) q ∧
      Collects lib silence (resumePoints got) count
        (generateFromFixture (ps.filteredFixtureChain s.currentSlot)
          (ServeChainSync.awaitSecs params)) (ps.filteredFixtureChain s.currentSlot)
        ((ps.filteredFixtureChain s.currentSlot).entries.drop got.length) q := by
  obtain ⟨tip, htip⟩ := tip_ok hreplays.decodes
  obtain ⟨p, hjoined⟩ := resume_joined hreplays rfl (visible_ascending h.inOrder _) h.got
  rw [servingParty_eq hserves h.here hne]
  exact ⟨_, delivered_comesTo silence count _ hlib hreplays htip hjoined,
    delivered_collects silence count _ hlib hreplays htip hjoined⟩

/-- More headers, from where the client is. -/
theorem Following.append (h : Following id s got ps) {more : List CapturedHeader}
    (hmore : List.Forall₂ CapturedAs
      (((ps.filteredFixtureChain s.currentSlot).entries.drop got.length).take more.length) more) :
    Following id s (got ++ more) ps where
  here := h.here
  inOrder := h.inOrder
  got := by
    rw [List.length_append, List.take_add]
    exact List.rel_append h.got hmore

/-- **A sitting keeps the client on the chain**, wherever it is cut short. -/
theorem Following.sitting (h : Following id s got ps) (hlib : lib.Reads)
    (hreplays : lib.Replays (ps.filteredFixtureChain s.currentSlot))
    (hserves : ServesPeer (s.serveEnv files network) id raw params)
    {x : State ChainSyncRequest (Wire ChainSyncMessage)}
    (hreach : Reachable (clientParty lib silence (resumePoints got) count)
      (servingParty (s.serveEnv files network) raw params) x)
    {summary : ChainSyncSummary}
    (hok : (heardBy lib silence (resumePoints got) count x.toLeft).1 = .ok summary) :
    Following id s (got ++ summary.capturedHeaders) ps := by
  by_cases hempty : ps.chainEntries = []
  · -- nothing is heard, and the question for an intersection stays without an answer
    have hheard := (sound_of_reachable hreach).toLeft
    rw [servingParty_empty hserves h.here hempty] at hheard
    obtain ⟨_, hrun, -⟩ := runChainSync_failed (resumePoints got) count
      (show (lib.replies silence (.ok ()) []).intersect = .error silence.intersect from rfl)
    rw [List.prefix_nil.mp hheard, heardBy, hrun] at hok
    cases hok
  · obtain ⟨q, -, hcollects⟩ := h.offers silence hlib hreplays count hserves hempty
    rw [servingParty_eq hserves h.here hempty] at hreach
    have hunderway := hcollects.underway x hreach
    rw [← heardBy_reported lib silence hok] at hunderway
    have htaken := List.forall₂_take summary.capturedHeaders.length hcollects.captured
    rw [← List.prefix_iff_eq_take.mp hunderway, List.take_take] at htaken
    have hcount : summary.capturedHeaders.length ≤ count.toNat := by
      have hle := hunderway.length_le
      rw [← hcollects.captured.length_eq, List.length_take] at hle
      omega
    rw [Nat.min_eq_left hcount] at htaken
    exact h.append htaken

/-- While the run goes on, what the client has stays on the chain. -/
theorem Following.goesOn {blake2b : List UInt8 → List UInt8} {c c' : Code Segment} {s' : RunState}
    (h : Following id s got ps) (hrun : Reaches (ExecutesFitting blake2b) (c, s) (c', s')) :
    ∃ ps', Following id s' got ps' := by
  obtain ⟨ps', hps', hgrows⟩ := reaches_grows (hrun.mono fun _ _ _ _ => And.left) id ps h.here
  obtain ⟨more, hmore⟩ := filteredFixtureChain_prefix hgrows h.inOrder (reaches_clockForward hrun)
  refine ⟨ps', hps', hgrows.inOrder h.inOrder, ?_⟩
  rw [← hmore, List.take_append_of_le_length h.length_le]
  exact h.got

/-- A run that goes on from `origin` by segments of one kind, and a client that syncs with a peer
when it likes: what it has collected, at a moment of the run. -/
inductive Followed (lib : ChainSyncLibrary) (silence : Silence) (files : Files)
    (network : Option (List Peer)) (id : String)
    (Runs : Segment → RunState → RunState → Code Segment → Prop)
    (origin : Code Segment × RunState) : Code Segment × RunState → List CapturedHeader → Prop where
  | start : Followed lib silence files network id Runs origin origin []
  /-- The run goes on. -/
  | goesOn {x y : Code Segment × RunState} {got : List CapturedHeader}
      (h : Followed lib silence files network id Runs origin x got) (hrun : Reaches Runs x y) :
      Followed lib silence files network id Runs origin y got
  /-- The client syncs, until it has enough or waits no longer. -/
  | sitting {c : Code Segment} {s : RunState} {got : List CapturedHeader} {ps : PeerState}
      {raw : Value} {params : StepParams} {count : UInt64}
      {x : State ChainSyncRequest (Wire ChainSyncMessage)} {summary : ChainSyncSummary}
      (h : Followed lib silence files network id Runs origin (c, s) got)
      (hps : s.peers id = some ps)
      (hreplays : lib.Replays (ps.filteredFixtureChain s.currentSlot))
      (hserves : ServesPeer (s.serveEnv files network) id raw params)
      (hreach : Reachable (clientParty lib silence (resumePoints got) count)
        (servingParty (s.serveEnv files network) raw params) x)
      (hok : (heardBy lib silence (resumePoints got) count x.toLeft).1 = .ok summary) :
      Followed lib silence files network id Runs origin (c, s) (got ++ summary.capturedHeaders)

end

/-! ## A peer whose second header comes at slot 7 -/

end Proof

end ConformanceHarness
