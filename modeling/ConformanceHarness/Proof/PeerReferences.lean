import ConformanceHarness.Proof.ChainOrder
import ConformanceHarness.Proof.References
import ConformanceHarness.Proof.StepEffects
import ConformanceHarness.Proof.StepTree
import ConformanceHarness.Proof.Substitution
import ConformanceHarness.Proof.Unhindered

/-!
# References to peers

A serve step with `as_peer` looks its peer up twice, in the declaration and among the peers' states.
`validate` walks the steps for references, `run` initialises the peers that are declared before the
first step, and no step takes a peer away.
-/

namespace ConformanceHarness.Concurrent

open ConformanceHarness.Lib
open ConformanceHarness.Lib.Scope (All ReachesIn Triple live seq)
open ConformanceHarness.Proof
open ConformanceHarness.Runner (LeafKind)

variable {S : Setting} {frame : Bool} {steps : List Loader.StepDef} {id : String}

/-! ## The states of the peers -/

/-- The peer has a state. -/
def Present (id : String) (net : RunState) : Prop := (net.peers id).isSome = true

theorem PeersGrow.present {net net' : RunState} (h : PeersGrow net.peers net'.peers)
    (hid : Present id net) : Present id net' := by
  obtain ⟨ps, hps⟩ := Option.isSome_iff_exists.mp hid
  obtain ⟨ps', hps', -⟩ := h id ps hps
  exact Option.isSome_iff_exists.mpr ⟨ps', hps'⟩

theorem present_insert {peers : PeerMap} {other : String} {ps : PeerState}
    (h : (peers id).isSome = true) : (peers.insert other ps id).isSome = true := by
  by_cases hid : id = other
  · subst hid
    rw [PeerMap.insert_self]
    rfl
  · rwa [PeerMap.insert_ne _ _ hid]

/-- No action takes a peer's state away. -/
theorem NetEffect.present {held : List Action} {a : Action} {s s' : State}
    (h : NetEffect S held a s s') (hid : Present id s.net) : Present id s'.net := by
  cases h with
  | vars vars hnet _ =>
    rw [hnet]
    exact hid
  | begins vars _ hnet _ =>
    rw [hnet]
    exact hid
  | inits peer ps _ _ hnet _ =>
    rw [hnet]
    exact present_insert hid
  | appends l _ hnet _ =>
    have hstep : NetworkStep S.blake2b (.peerExtendsChain l.params) s.net s'.net :=
      peerExtendsChain_step hnet
    exact PeersGrow.present hstep.grows hid
  | advances l order _ horder hnet _ =>
    exact PeersGrow.present (advanceToSlot_step horder hnet).grows hid
  | ticks l order _ horder hnet _ =>
    exact PeersGrow.present (tickSlots_step horder hnet).grows hid
  | dials l _ hnet _ _ =>
    rw [hnet]
    exact hid
  | fetches l token outer _ _ _ hnet _ _ =>
    rw [hnet]
    exact hid

/-- Each of the peers has a state. -/
def AllPresent (peers : List Peer) (s : State) : Prop := ∀ peer ∈ peers, Present peer.id s.net

theorem allPresent_preserves (peers : List Peer) :
    Preserves (machine S) (Genuine S frame steps) (AllPresent peers) :=
  @preserves_net S frame steps (fun net => ∀ peer ∈ peers, Present peer.id net)
    fun _ _ _ _ h _ hall peer hpeer => h.present (hall peer hpeer)

theorem allPresent_stable (peers : List Peer) : (machine S).Stable (AllPresent peers) := by
  intro s s' h hall
  unfold AllPresent
  rwa [ambient_net h]

/-! ## Before the first step -/

/-- Where nothing is expected of a program that fails. -/
abbrev Whatever {ε : Type} : ε → State → Prop := fun _ _ => True

theorem triple_trivial {held : List Action} {P : State → Prop} {c : Prog} :
    Triple (machine S) held P c (fun _ => True) Whatever :=
  fun _ _ _ _ => ⟨fun _ => trivial, fun _ _ => trivial⟩

/-- The initialisation leaves each peer with a state. -/
theorem initPeers_present (before rest : List Peer) :
    Triple (machine S) [] (AllPresent before) (initPeers rest) (AllPresent (before ++ rest))
      Whatever := by
  induction rest generalizing before with
  | nil =>
    rw [List.append_nil]
    exact Triple.done (allPresent_stable before)
  | cons peer rest ih =>
    refine Triple.seq (R := AllPresent (before ++ [peer])) (fun _ _ _ _ h => h) ?_ ?_
    · refine Triple.act (allPresent_stable before) ?_
      intro s s' c hs h
      dsimp only [machine, exec] at h
      split at h
      · obtain ⟨-, rfl⟩ := h
        exact ⟨fun _ => True, trivial, Triple.failed (E := Whatever) fun _ _ _ h => h⟩
      · next ps hps =>
        obtain ⟨rfl, rfl⟩ := h
        refine ⟨AllPresent (before ++ [peer]), ?_, ?_⟩
        · intro other hother
          rcases List.mem_append.mp hother with hother | hother
          · exact present_insert (hs other hother)
          · rw [List.mem_singleton.mp hother]
            show (PeerMap.insert _ _ _ _).isSome = true
            rw [PeerMap.insert_self]
            rfl
        · -- waiting for the lock changes no peer
          have hwait : (State.wait s (.emit .opened (Runner.peerStateInitialized peer ps))).All
              (Genuine S true []) := .act trivial
          exact ((allPresent_preserves _).triple hwait).weaken (fun _ h => h) (fun _ h => h)
            fun _ _ _ => trivial
    · have hrest := ih (before ++ [peer])
      rwa [List.append_assoc, List.singleton_append] at hrest

theorem prelude_present {network : Loader.Network} (hnetwork : S.scenario.network = some network) :
    Triple (machine S) [] (fun _ => True) (prelude S) (AllPresent network.peers) Whatever := by
  have hstable : ∀ e : Runner.RunError, (machine S).Stable (Whatever e) := fun _ _ _ _ h => h
  refine Triple.seq hstable triple_trivial (Triple.seq hstable triple_trivial ?_)
  rw [hnetwork]
  refine Triple.seq (R := AllPresent []) hstable ?_ (initPeers_present [] network.peers)
  exact triple_trivial.weaken (fun _ h => h) (fun _ _ _ h => nomatch h) fun _ _ h => h

/-- What is done before the first step. -/
def Preparing : Action → Prop
  | .request (.emit _ _) => True
  | .waiting _ (.emit _ _) => True
  | .begin => True
  | .initPeer _ => True
  | _ => False

theorem initPeers_preparing (peers : List Peer) : (initPeers peers).All Preparing := by
  induction peers with
  | nil => exact .done
  | cons peer rest ih => exact All.seq (.act trivial) ih

theorem prelude_preparing : (prelude S).All Preparing := by
  refine All.seq (.act trivial) (All.seq (.act trivial) ?_)
  split
  · exact .done
  · exact All.seq (.act trivial) (initPeers_preparing _)

theorem preparing_preserves : Preserves (machine S) Preparing fun _ => True where
  exec := by
    intro held a s s' rest h ha _
    refine ⟨trivial, ?_⟩
    cases a with
    | request job =>
      cases job with
      | emit tracer event =>
        obtain ⟨-, rfl⟩ := h
        exact .act trivial
      | _ => exact ha.elim
    | waiting ticket job =>
      cases job with
      | emit tracer event =>
        obtain ⟨w, queue, written, -, -, -, ⟨-, rfl⟩ | ⟨e, rfl⟩⟩ := h
        · exact .done
        · exact .failed e
      | _ => exact ha.elim
    | begin =>
      obtain ⟨rfl, -⟩ := h
      exact .done
    | initPeer peer =>
      dsimp only [machine, exec] at h
      split at h
      · obtain ⟨-, rfl⟩ := h
        exact .failed _
      · obtain ⟨-, rfl⟩ := h
        exact .act trivial
    | _ => exact ha.elim
  drop := fun _ => trivial
  ambient := fun _ _ => trivial

/-- **Once the steps run, every declared peer has a state.** -/
theorem run_present {network : Loader.Network} (hnetwork : S.scenario.network = some network)
    {c : Prog} {s : State} (h : Scope.Reaches (machine S) (run S, .initial) (c, s)) {a : Action}
    (ha : a ∈ live c) (hsteps : ¬ Preparing a) : AllPresent network.peers s := by
  rcases h.bind_cases with ⟨c', hc, hreach⟩ | ⟨s', hreach, hafter⟩ | ⟨e, s', -, hafter⟩
  · -- no step runs yet
    obtain rfl : c = _ := hc
    have hall := (preparing_preserves.reachesIn hreach prelude_preparing trivial).1
    exact absurd (hall.live a ha) hsteps
  · have hs' := (prelude_present hnetwork _ _ trivial hreach).1 rfl
    have hcode : (runSteps 0 S.scenario.steps).All (Code S true S.scenario.steps) :=
      runSteps_code fun _ hstep => Within.of_root hstep
    exact ((allPresent_preserves network.peers).reachesIn hafter (Code.genuine hcode) hs').2
  · obtain ⟨hc, -⟩ := hafter.finished_cases (.failed e)
    obtain rfl : c = _ := hc
    exact nomatch ha

/-! ## The parameter -/

/-- A text that substitution leaves alone. -/
theorem substituted_unchanged {vars : VarStore} (hliteral : Unchanged id) {v' : Value}
    (h : Substituted vars (.string id) v') : v' = .string id := by
  obtain ⟨refs, hsame⟩ := hliteral vars
  obtain ⟨refs', hsub⟩ := h
  rw [substituteInValue, hsub] at hsame
  exact (Prod.mk.inj (Except.ok.inj hsame)).1

/-- A literal `as_peer` is what the step under way has. -/
theorem IsStep.asPeer {kind : LeafKind} {l : Leaf} (h : IsStep steps kind l)
    (hget : l.step.get "as_peer" = some (.string id)) (hliteral : Unchanged id) :
    l.params.asPeer = some id := by
  obtain ⟨vars, refs, hsub⟩ := h.substituted
  have hparams := h.params
  unfold Loader.StepDef.get at hget
  cases hraw : l.step.rawParams with
  | object fields =>
    rw [hraw] at hget hsub
    obtain ⟨fields', hfields', hall⟩ := substituted_object ⟨refs, hsub⟩
    rw [hfields'] at hparams
    have hread := StepParams.fromValue_asPeer hparams
    have hlookup := lookup_substituted hall "as_peer"
    rw [show fields.lookup "as_peer" = some (.string id) from hget] at hlookup
    cases hfound : fields'.lookup "as_peer" with
    | none =>
      rw [hfound] at hlookup
      exact nomatch hlookup
    | some v' =>
      rw [hfound] at hlookup hread
      cases hlookup with
      | some hv =>
        obtain rfl := substituted_unchanged hliteral hv
        exact (Option.some.inj hread).symm
  | _ =>
    rw [hraw] at hget
    exact nomatch hget

/-! ## The lookups -/

/-- **A literal reference to a peer resolves**: the step has it, the network is declared with the
peer in it, and the peer has a state; so the step comes to its fixture. -/
theorem as_peer_resolves {serdeError : Value → String} (haccepted : Loader.Accepted serdeError S.scenario)
    {c : Prog} {s : State} (h : Scope.Reaches (machine S) (run S, .initial) (c, s)) {l : Leaf}
    {kind : LeafKind} (hlive : .serveFixture l kind ∈ live c)
    (hget : l.step.get "as_peer" = some (.string id)) (hliteral : Unchanged id) :
    l.params.asPeer = some id ∧
    (∃ peer, (serveEnv S s).lookupPeer id = .ok peer) ∧
    (∃ ps, ∀ step, (serveEnv S s).peerState step id = .ok ps) ∧
    (∃ chain, ServeChainSync.fixture (serveEnv S s) l.params = .ok chain) ∧
    ∃ blocks, ServeBlockFetch.fixture (serveEnv S s) l.params = .ok blocks := by
  have hstep : IsStep S.scenario.steps kind l := (run_genuine h).live _ hlive
  have hasPeer := hstep.asPeer hget hliteral
  -- the walk of `validate` has come to the step
  obtain ⟨pos, hclean⟩ := reachable_asPeer (Loader.accepted_iff.mp haccepted).2.2.2.2.2
    hstep.reachable
  unfold Loader.asPeerErrors at hclean
  rw [hget] at hclean
  cases hnetwork : S.scenario.network with
  | none =>
    rw [hnetwork] at hclean
    exact nomatch hclean
  | some network =>
    rw [hnetwork] at hclean
    have hdeclared := Loader.errorIf_eq_nil.mp hclean
    rw [Bool.not_eq_false', List.any_eq_true] at hdeclared
    obtain ⟨declared, hmem, hid⟩ := hdeclared
    obtain rfl : declared.id = id := of_decide_eq_true hid
    have hpeer : ∃ peer, (serveEnv S s).lookupPeer declared.id = .ok peer := by
      have hfound : (network.peers.find? fun p => p.id = declared.id).isSome = true :=
        List.find?_isSome.mpr ⟨declared, hmem, hid⟩
      obtain ⟨peer, hpeer⟩ := Option.isSome_iff_exists.mp hfound
      refine ⟨peer, ?_⟩
      simp only [ServeEnv.lookupPeer, serveEnv, hnetwork, Option.map_some, hpeer]
    have hstate : ∃ ps, s.net.peers declared.id = some ps :=
      Option.isSome_iff_exists.mp (run_present hnetwork h hlive (fun h => h) declared hmem)
    obtain ⟨peer, hlookup⟩ := hpeer
    obtain ⟨ps, hps⟩ := hstate
    have hpeerState : ∀ step, (serveEnv S s).peerState step declared.id = .ok ps := by
      intro step
      simp only [ServeEnv.peerState, serveEnv, hps]
    refine ⟨hasPeer, ⟨peer, hlookup⟩, ⟨ps, hpeerState⟩, ?_, ?_⟩
    · simp only [ServeChainSync.fixture, hasPeer, hlookup, hpeerState]
      split
      · exact ⟨_, rfl⟩
      · exact ⟨_, rfl⟩
    · simp only [ServeBlockFetch.fixture, hasPeer, hlookup, hpeerState]
      split
      · exact ⟨_, rfl⟩
      · exact ⟨_, rfl⟩

/-! ## A server that serves a peer -/

/-- A scenario in surroundings without files, and nothing else. -/
def bareSetting (scenario : Loader.Scenario) : Setting where
  blake2b := fun _ => []
  files := ⟨fun _ => none, fun _ => none⟩
  scenario := scenario
  description := none
  networkMagic := 0
  expectedOutcome := none
  sutGenesisTimeUnix := none

/-- A peer that produces a block in every slot. -/
def everySlot : Peer where
  id := "p"
  chainSyncFixture := none
  blockFetchFixture := none
  productionRule := some (.everyNSlots 0 1)
  description := none

/-- It is served. -/
def servePeer : Loader.StepDef := plainStep (.leaf .serveChainSync) [("as_peer", .string "p")]

def servingScenario : Loader.Scenario where
  name := "t"
  targetAddress := some "localhost:3001"
  network := some ⟨[everySlot], none⟩
  steps := [listenStep, plainStep (.leaf .acceptHandshake) [], servePeer]

theorem servingScenario_accepted : Loader.Accepted (fun _ => "") servingScenario := by
  have hsteps : Loader.validateSteps (fun _ => "") 0 servingScenario.steps false =
      .ok ([], false) := by
    refine validateSteps_leaf rfl (by decide) rfl rfl (validateSteps_leaf rfl (by decide) rfl rfl
      (validateSteps_leaf rfl (by decide) rfl rfl ?_))
    rw [Loader.validateSteps]
  have hpeers : Loader.walkAsPeerRefs servingScenario.network 0 servingScenario.steps = [] := by
    rw [servingScenario, walkAsPeerRefs_plain rfl, walkAsPeerRefs_plain rfl, Loader.walkAsPeerRefs]
    have hbody : servePeer.bodySteps = [] := rfl
    have hbranches : servePeer.branchSteps = [] := rfl
    rw [hbody, hbranches, Loader.walkAsPeerRefs, Loader.walkAsPeerBranches, Loader.walkAsPeerRefs]
    rfl
  exact Loader.accepted_iff.mpr ⟨rfl, ⟨false, hsteps⟩, by decide,
    Loader.errorIf_eq_nil.mpr (Bool.and_false _), by decide, hpeers⟩

/-- The step under way. -/
def servedLeaf : Leaf where
  step := servePeer
  params := { (default : StepParams) with asPeer := some "p" }
  resolved := servePeer.rawParams

theorem serving_run : ∃ c s, Scope.Reaches (machine (bareSetting servingScenario))
    (run (bareSetting servingScenario), .initial) (c, s) ∧
      .serveFixture servedLeaf .serveChainSync ∈ live c := by
  have hlisten : Literal listenStep .listen default := ⟨rfl, rfl, rfl, fun _ => rfl⟩
  have haccept : Literal (plainStep (.leaf .acceptHandshake) []) .acceptHandshake default :=
    ⟨rfl, rfl, rfl, fun _ => rfl⟩
  have hserve : Literal servePeer .serveChainSync servedLeaf.params :=
    ⟨rfl, rfl, rfl, fun _ => rfl⟩
  have hinit : everySlot.initialState (bareSetting servingScenario).files =
      .ok { PeerState.new with productionRule := some (.everyNSlots 0 1) } := rfl
  have hprelude := @prelude_network_comesTo (bareSetting servingScenario) [] .initial _ _ rfl rfl
    (.bind (initPeer_comesTo hinit) .refl)
  have hopen : ∀ net : RunState, ∃ c s, ComesTo (bareSetting servingScenario) []
      (runSteps 0 servingScenario.steps) { State.initial with net } c s ∧
        .serveFixture servedLeaf .serveChainSync ∈ live c := by
    intro net
    refine ⟨_, _, runSteps_comesTo (hlisten.comesTo listen_comesTo)
      (runSteps_comesTo (haccept.comesTo (accept_comesTo (Finset.mem_insert_self _ _)))
        (runSteps_inside (hserve.inside (take_inside rfl
          (.bind (takeChannel_comesTo rfl) .refl))))), ?_⟩
    exact List.mem_cons_of_mem _ List.mem_cons_self
  obtain ⟨c, s, hsteps, hlive⟩ := hopen _
  obtain ⟨t, -, hreach⟩ := (hprelude.bind hsteps).reaches
  exact ⟨_, _, hreach, hlive⟩

theorem as_peer_resolves_served : ∃ c s, Scope.Reaches (machine (bareSetting servingScenario))
    (run (bareSetting servingScenario), .initial) (c, s) ∧
      ∃ peer, (serveEnv (bareSetting servingScenario) s).lookupPeer "p" = .ok peer := by
  obtain ⟨c, s, hreach, hlive⟩ := serving_run
  have hliteral : Unchanged "p" := unchanged_iff.mpr ⟨by decide, by decide⟩
  have hresolves := as_peer_resolves (S := bareSetting servingScenario) servingScenario_accepted
    hreach hlive rfl hliteral
  exact ⟨c, s, hreach, hresolves.2.1⟩

end ConformanceHarness.Concurrent
