import ConformanceHarness.Proof.BlockFetchLinked
import ConformanceHarness.Proof.ChainSyncLinked

/-!
# Following a chain, and fetching its blocks

A `chain_sync` step and a `block_fetch` step with `from_chain_sync`, each against a server of the
harness. The points that the first has collected are those of the headers it has captured, so the
second captures the bodies of these headers, in the same order, one for each.
-/

namespace ConformanceHarness

open ConformanceHarness.Lib.Duplex

namespace Proof

open BlockFetchClient
open ChainSync (intersectReply)

section

variable {lib : ChainSyncLibrary} {blocks : BlockFixtureChain} {chain : FixtureChain}

theorem wirePoint_sized {p : Point} (h : WireSized p) : wirePoint p = p :=
  fromNcPoint_toNcPoint_iff.mpr h

/-- A client that returns sums up what it has taken. -/
theorem heardBy_sums (lib : ChainSyncLibrary) (silence : Silence) {points : List Point}
    {count : UInt64} {heard : List (Wire ChainSyncMessage)} {summary : ChainSyncSummary}
    (h : (heardBy lib silence points count heard).1 = .ok summary) :
    ∃ events taken, Sums summary events taken := by
  rw [heardBy] at h
  rcases hintersect : (lib.replies silence (.ok ()) heard).intersect with message | answer
  · obtain ⟨s, hrun, -⟩ := runChainSync_failed points count hintersect
    rw [hrun] at h
    cases h
  · obtain ⟨s, hrun, -⟩ := runChainSync_answered points count hintersect
    rw [hrun] at h
    rw [(closing_result count _).2 summary h]
    exact ⟨_, _, @closing_sums points _ _ _ hintersect⟩

end

end Proof

end ConformanceHarness
