import ConformanceHarness.Runner.Serve
import Mathlib.Tactic.ByContra

/-!
# Entries beyond the clock

What a `serve_chain_sync` step with `as_peer` serves is filtered by the clock, so a
client should not be able to tell two states of a peer apart that differ beyond it. The
step looks at the unfiltered chain once, to see whether it is empty, and a peer without
entries is served as no fixture. That is all a client can learn.
-/

namespace ConformanceHarness

/-- The entries up to `slot`. -/
def PeerState.visible (ps : PeerState) (slot : UInt64) : List ChainEntry :=
  ps.chainEntries.filter fun e => e.slot ≤ slot

/-- The script of a `serve_chain_sync` step without explicit responses. -/
def ServeChainSync.generated (env : ServeEnv) (params : StepParams) :
    Except Fault (List ScriptRule) :=
  match ServeChainSync.fixture env params with
  | .error f => .error f
  | .ok chain => ServeChainSync.script chain (ServeChainSync.awaitSecs params) none

/-- A step that serves the peer without explicit responses does the same in both. -/
structure ServedAlike (env env' : ServeEnv) (id : String) : Prop where
  fixture : ∀ params : StepParams, params.asPeer = some id →
    ServeChainSync.fixture env params = ServeChainSync.fixture env' params
  script : ∀ params : StepParams, params.asPeer = some id →
    ServeChainSync.generated env params = ServeChainSync.generated env' params
  /-- Every client is served the same, and the step ends the same way. -/
  outcome : ∀ (params : StepParams) (rawParams : Value) (incoming : List ReceivedRequest),
    params.asPeer = some id → rawParams.getField "responses" = none →
    ServeChainSync.run env rawParams params incoming =
      ServeChainSync.run env' rawParams params incoming

/-- The environment with another state of the peer. -/
def ServeEnv.withPeer (env : ServeEnv) (id : String) (ps : PeerState) : ServeEnv :=
  { env with peers := env.peers.insert id ps }

namespace Proof

section HiddenEntries

variable {env : ServeEnv} {id : String} {peer : Peer} {ps ps' : PeerState} {slot : UInt64}

/-- The filtered chain is made of the visible entries. -/
theorem filteredFixtureChain_visible (ps : PeerState) (slot : UInt64) :
    ps.filteredFixtureChain (some slot) =
      ⟨.origin, (ps.visible slot).map ChainEntry.toFixtureEntry⟩ := rfl

/-- What the step has for its fixture. -/
theorem fixture_asPeer (hpeer : env.lookupPeer id = .ok peer) (hps : env.peers id = some ps)
    (hslot : env.currentSlot = some slot) {params : StepParams} (hid : params.asPeer = some id) :
    ServeChainSync.fixture env params =
      .ok (if ps.chainEntries = [] then none else some (ps.filteredFixtureChain (some slot))) := by
  rcases hentries : ps.chainEntries with _ | ⟨entry, rest⟩ <;>
    simp [ServeChainSync.fixture, hid, hpeer, ServeEnv.peerState, hps, hslot, hentries,
      PeerState.chainTipSlot]

/-- A step does what its fixture makes it do. -/
theorem servedAlike_of_fixture {env' : ServeEnv}
    (h : ∀ params : StepParams, params.asPeer = some id →
      ServeChainSync.fixture env params = ServeChainSync.fixture env' params) :
    ServedAlike env env' id where
  fixture := h
  script params hid := by rw [ServeChainSync.generated, ServeChainSync.generated, h params hid]
  outcome params rawParams incoming hid _ := by
    rw [ServeChainSync.run, ServeChainSync.run, h params hid]

/-- A peer without entries cannot be served by the generated script. -/
theorem empty_fails (hpeer : env.lookupPeer id = .ok peer) (hps : env.peers id = some ps)
    (hslot : env.currentSlot = some slot) {params : StepParams} (hid : params.asPeer = some id)
    (hempty : ps.chainEntries = []) :
    (ServeChainSync.run env (.object []) params []).1.isOk = false := by
  have hfixture := fixture_asPeer hpeer hps hslot hid
  rw [if_pos hempty] at hfixture
  simp only [ServeChainSync.run, hfixture]
  rfl

/-- A peer with an entry can, wherever the clock stands. -/
theorem nonempty_returns (hpeer : env.lookupPeer id = .ok peer) (hps : env.peers id = some ps)
    (hslot : env.currentSlot = some slot) {params : StepParams} (hid : params.asPeer = some id)
    (hne : ps.chainEntries ≠ []) :
    (ServeChainSync.run env (.object []) params []).1.isOk = true := by
  have hfixture := fixture_asPeer hpeer hps hslot hid
  rw [if_neg hne] at hfixture
  simp only [ServeChainSync.run, hfixture]
  rfl

/-- **A client learns whether the peer has an entry at all, and no more.** -/
theorem servedAlike_iff (hpeer : env.lookupPeer id = .ok peer) (hps : env.peers id = some ps)
    (hslot : env.currentSlot = some slot) (hvisible : ps.visible slot = ps'.visible slot) :
    ServedAlike env (env.withPeer id ps') id ↔ (ps.chainEntries = [] ↔ ps'.chainEntries = []) := by
  have hps' : (env.withPeer id ps').peers id = some ps' := PeerMap.insert_self _ _ _
  have hpeer' : (env.withPeer id ps').lookupPeer id = .ok peer := hpeer
  have hslot' : (env.withPeer id ps').currentSlot = some slot := hslot
  constructor
  · intro h
    let params : StepParams := { (default : StepParams) with asPeer := some id }
    have hsame := congrArg (fun r => r.1.isOk) (h.outcome params (.object []) [] rfl rfl)
    -- with an entry the step returns, without one it fails
    constructor
    · intro hempty
      by_contra hne
      rw [empty_fails hpeer hps hslot rfl hempty,
        nonempty_returns hpeer' hps' hslot' rfl hne] at hsame
      exact nomatch hsame
    · intro hempty
      by_contra hne
      rw [nonempty_returns hpeer hps hslot rfl hne,
        empty_fails hpeer' hps' hslot' rfl hempty] at hsame
      exact nomatch hsame
  · intro hempty
    refine servedAlike_of_fixture fun params hid => ?_
    rw [fixture_asPeer hpeer hps hslot hid, fixture_asPeer hpeer' hps' hslot' hid,
      filteredFixtureChain_visible, filteredFixtureChain_visible, hvisible]
    by_cases hnil : ps.chainEntries = []
    · rw [if_pos hnil, if_pos (hempty.mp hnil)]
    · rw [if_neg hnil, if_neg fun h => hnil (hempty.mpr h)]

/-- A network of one peer with these entries, at slot 5. -/
def futureEnv (chainEntries : List ChainEntry) : ServeEnv where
  files := ⟨fun _ => none, fun _ => none⟩
  network := some [⟨"p", none, none, none, none⟩]
  peers := PeerMap.insert (fun _ => none) "p" { PeerState.new with chainEntries }
  currentSlot := some 5

/-- An entry at slot 10. -/
def futureEntry (hash : List UInt8) : ChainEntry := ⟨10, hash, 1, [0xa0], defaultHeaderVariant⟩

/-- Two hidden entries are served alike. -/
theorem servedAlike_iff_future :
    ServedAlike (futureEnv [futureEntry [0xaa]]) ((futureEnv [futureEntry [0xaa]]).withPeer "p"
      { PeerState.new with chainEntries := [futureEntry [0xbb]] }) "p" := by
  have hvisible : PeerState.visible { PeerState.new with chainEntries := [futureEntry [0xaa]] } 5 =
      PeerState.visible { PeerState.new with chainEntries := [futureEntry [0xbb]] } 5 := rfl
  exact (servedAlike_iff rfl rfl rfl hvisible).mpr (by simp)

/-- A hidden entry and none are not: without one the step fails. -/
theorem hidden_entry_leaks :
    ¬ ServedAlike (futureEnv [futureEntry [0xaa]]) ((futureEnv [futureEntry [0xaa]]).withPeer "p"
      PeerState.new) "p" := by
  intro h
  have hsame := h.outcome { (default : StepParams) with asPeer := some "p" } (.object [])
    [.findIntersect [.origin]] rfl rfl
  have hends := congrArg (fun r => r.1.isOk) hsame
  revert hends
  decide

end HiddenEntries

end Proof

end ConformanceHarness
