import Mathlib.Algebra.Group.Defs
import ConformanceHarness.Proof.SessionRules

/-!
# Summaries and traces

A server counts by hand what it writes to its trace. Every event that has a counter comes
with one step of that counter, so the summary of a session that returns agrees with its
trace: each counter is the number of its events, as a `u64`. A session that stops has no
summary, and its counters may be ahead: an intersection is counted before it is looked up.
-/

namespace ConformanceHarness

open ConformanceHarness.Lib (Prog)
open ConformanceHarness.Lib.Prog (Within Returns)
open Session

/-- How many events of a kind, in a direction, a trace holds. -/
def occurrences {τ : Type} (kind : EventKind) (direction : Direction)
    (trace : List (Stamped τ)) : Nat :=
  trace.countP fun e => decide (e.event.kind = kind ∧ e.event.direction = direction)

/-! Counters add up field by field. -/

instance : Zero ChainSyncCounters := ⟨⟨0, 0, false, 0⟩⟩

instance : Add ChainSyncCounters where
  add c d := ⟨c.headersServed + d.headersServed, c.intersectsHandled + d.intersectsHandled,
    c.awaitTriggered || d.awaitTriggered, c.rulesApplied + d.rulesApplied⟩

instance : AddMonoid ChainSyncCounters where
  add_assoc _ _ _ := ChainSyncCounters.mk.injEq .. ▸
    ⟨UInt64.add_assoc .., UInt64.add_assoc .., Bool.or_assoc .., UInt64.add_assoc ..⟩
  zero_add _ := ChainSyncCounters.mk.injEq .. ▸
    ⟨UInt64.zero_add _, UInt64.zero_add _, Bool.false_or _, UInt64.zero_add _⟩
  add_zero _ := ChainSyncCounters.mk.injEq .. ▸
    ⟨UInt64.add_zero _, UInt64.add_zero _, Bool.or_false _, UInt64.add_zero _⟩
  nsmul := nsmulRec

instance : Zero BlockFetchCounters := ⟨⟨0, 0, 0, 0⟩⟩

instance : Add BlockFetchCounters where
  add c d := ⟨c.rangeRequests + d.rangeRequests, c.blocksServed + d.blocksServed,
    c.noBlocksResponses + d.noBlocksResponses, c.rulesApplied + d.rulesApplied⟩

instance : AddMonoid BlockFetchCounters where
  add_assoc _ _ _ := BlockFetchCounters.mk.injEq .. ▸
    ⟨UInt64.add_assoc .., UInt64.add_assoc .., UInt64.add_assoc .., UInt64.add_assoc ..⟩
  zero_add _ := BlockFetchCounters.mk.injEq .. ▸
    ⟨UInt64.zero_add _, UInt64.zero_add _, UInt64.zero_add _, UInt64.zero_add _⟩
  add_zero _ := BlockFetchCounters.mk.injEq .. ▸
    ⟨UInt64.add_zero _, UInt64.add_zero _, UInt64.add_zero _, UInt64.add_zero _⟩
  nsmul := nsmulRec

/-- The counters that the events of a Chain-Sync server amount to. -/
def ChainSync.tally (events : List (Stamped ServerCsState)) : ChainSyncCounters where
  headersServed := UInt64.ofNat (occurrences .chainSyncRollForward .sent events)
  intersectsHandled := UInt64.ofNat (occurrences .chainSyncIntersectFound .sent events +
    occurrences .chainSyncIntersectNotFound .sent events)
  awaitTriggered := decide (0 < occurrences .chainSyncAwaitReply .sent events)
  rulesApplied := UInt64.ofNat (occurrences .responseRuleApplied .internal events)

/-- The counters that the events of a Block-Fetch server amount to. -/
def BlockFetch.tally (events : List (Stamped ServerBfState)) : BlockFetchCounters where
  rangeRequests := UInt64.ofNat (occurrences .blockFetchRequestRange .received events)
  blocksServed := UInt64.ofNat (occurrences .blockFetchBlock .sent events)
  noBlocksResponses := UInt64.ofNat (occurrences .blockFetchNoBlocks .sent events)
  rulesApplied := UInt64.ofNat (occurrences .responseRuleApplied .internal events)

namespace Proof

section

variable {τ ρ μ κ γ : Type} [AddMonoid γ]

/-- What lists of events amount to adds up. -/
structure IsTally (tally : List (Stamped τ) → γ) : Prop where
  nil : tally [] = 0
  append : ∀ events events', tally (events ++ events') = tally events + tally events'

/-- From `s` to `s'` events are written, and each is counted. -/
def Tallies (counters : ρ → γ) (tally : List (Stamped τ) → γ) (s s' : Session τ ρ μ κ) : Prop :=
  ∃ events, s'.trace = s.trace ++ events ∧ counters s'.locals = counters s.locals + tally events

variable {counters : ρ → γ} {tally : List (Stamped τ) → γ}

theorem Tallies.trans (h : IsTally tally) (a b c : Session τ ρ μ κ)
    (hab : Tallies counters tally a b) (hbc : Tallies counters tally b c) :
    Tallies counters tally a c := by
  obtain ⟨events, htrace, hcounters⟩ := hab
  obtain ⟨events', htrace', hcounters'⟩ := hbc
  refine ⟨events ++ events', ?_, ?_⟩
  · rw [htrace', htrace, List.append_assoc]
  · rw [hcounters', hcounters, h.append, add_assoc]

end

/-! ## Chain-Sync -/

section

open ChainSync

variable {α β : Type}

end

/-! ## Block-Fetch -/

section

open BlockFetch

variable {α β : Type}

end

/-! ## Whole sessions -/

end Proof

end ConformanceHarness
