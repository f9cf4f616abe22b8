import ConformanceHarness.Lib.Path
import ConformanceHarness.Proof.BlockFetchParties
import ConformanceHarness.Proof.ChainSyncAccounts

/-!
# The clients' traces follow the mini-protocols

Every wire event of a client names a state before and a state after. Whatever the peer does, these
are the states of a path through the mini-protocol's state machine that begins in `Idle`: each event
goes on where the one before it ended, and is one that the client may send there, or receive. Where
the path ends is where the session was left: in `Done` if the last message could be sent, and in the
state in which the client waited if no answer came.
-/

namespace ConformanceHarness

open ConformanceHarness.Lib (Path Prog)

/-- The events of messages. -/
def wireEvents (events : List TraceEvent) : List TraceEvent := events.filter TraceEvent.isWire

/-- A state machine in which an event moves, by its kind and direction. -/
structure EventMachine (τ : Type) where
  asStr : τ → String
  Moves : τ → EventKind → Direction → τ → Prop

/-- An event that moves so, and that says so. -/
def EventMachine.Step {τ : Type} (M : EventMachine τ) (a : τ) (event : TraceEvent) (b : τ) : Prop :=
  event.stateBefore = some (M.asStr a) ∧ event.stateAfter = some (M.asStr b) ∧
    M.Moves a event.kind event.direction b

/-- The Chain-Sync mini-protocol, as a client sees it that is not told of `AwaitReply`. -/
inductive ChainSyncMove : ServerCsState → EventKind → Direction → ServerCsState → Prop where
  | findIntersect : ChainSyncMove .idle .chainSyncFindIntersect .sent .intersect
  | intersectFound : ChainSyncMove .intersect .chainSyncIntersectFound .received .idle
  | intersectNotFound : ChainSyncMove .intersect .chainSyncIntersectNotFound .received .idle
  | requestNext : ChainSyncMove .idle .chainSyncRequestNext .sent .canAwait
  | rollForward : ChainSyncMove .canAwait .chainSyncRollForward .received .idle
  | rollBackward : ChainSyncMove .canAwait .chainSyncRollBackward .received .idle
  | done : ChainSyncMove .idle .chainSyncDone .sent .done

/-- The Block-Fetch mini-protocol, as a client sees it. -/
inductive BlockFetchMove : ServerBfState → EventKind → Direction → ServerBfState → Prop where
  | requestRange : BlockFetchMove .idle .blockFetchRequestRange .sent .busy
  | noBlocks : BlockFetchMove .busy .blockFetchNoBlocks .received .idle
  | startBatch : BlockFetchMove .busy .blockFetchStartBatch .received .streaming
  | block : BlockFetchMove .streaming .blockFetchBlock .received .streaming
  | batchDone : BlockFetchMove .streaming .blockFetchBatchDone .received .idle
  | clientDone : BlockFetchMove .idle .blockFetchClientDone .sent .done

/-- Chain-Sync. -/
def chainSyncMachine : EventMachine ServerCsState := ⟨ServerCsState.asStr, ChainSyncMove⟩

/-- Block-Fetch. -/
def blockFetchMachine : EventMachine ServerBfState := ⟨ServerBfState.asStr, BlockFetchMove⟩

namespace ChainSyncClient

/-- Where a session is left. -/
def leftIn (count : UInt64) (replies : ChainSyncReplies) : ServerCsState :=
  match replies.intersect with
  | .error _ => .intersect
  | .ok _ =>
    if RunsShort count replies.incoming then .canAwait
    else match replies.done with
      | .ok () => .done
      | .error _ => .idle

end ChainSyncClient

/-- Where a reply leaves the session. -/
def RangeReply.leavesIn : RangeReply → ServerBfState
  | .noBlocks => .idle
  | .batch _ none => .idle
  | .batch _ (some _) => .streaming
  | .error _ => .busy

namespace BlockFetchClient

/-- Where the last of some exchanges leaves the session. -/
def lastLeavesIn (made : List Exchange) : ServerBfState :=
  ((made.getLast?).map fun exchange => exchange.reply.leavesIn).getD .idle

/-- Where a session is left. -/
def leftIn (points : List Point) (batchSize : Nat) (replies : BlockFetchReplies) : ServerBfState :=
  let made := exchanges replies.range 0 (batchesOf points batchSize)
  if allComplete made then
    match replies.done with
    | .ok () => .done
    | .error _ => .idle
  else lastLeavesIn made

end BlockFetchClient

namespace Proof

open Session

/-! ## Events and paths -/

section

variable {τ : Type} {M : EventMachine τ} {a b c : τ} {events events' : List TraceEvent}

/-- The wire events of a list lead from one state to another. -/
abbrev Leads (M : EventMachine τ) (a : τ) (events : List TraceEvent) (b : τ) : Prop :=
  Path M.Step a (wireEvents events) b

theorem Leads.append (h : Leads M a events b) (h' : Leads M b events' c) :
    Leads M a (events ++ events') c := by
  rw [Leads, wireEvents, List.filter_append]
  exact Path.append h h'

/-- An event of a message, and what comes after it. -/
theorem Leads.wire {event : TraceEvent} (hwire : event.isWire = true) (hstep : M.Step a event b)
    (h : Leads M b events c) : Leads M a (event :: events) c := by
  rw [Leads, wireEvents, List.filter_cons_of_pos hwire]
  exact .cons hstep h

/-- An internal event leads nowhere. -/
theorem Leads.internal {event : TraceEvent} (hinternal : event.isWire = false)
    (h : Leads M a events b) : Leads M a (event :: events) b := by
  rw [Leads, wireEvents, List.filter_cons_of_neg (by rw [hinternal]; exact Bool.false_ne_true)]
  exact h

theorem Leads.nil (a : τ) : Leads M a [] a := Path.nil a

end

/-! ## Chain-Sync -/

section

open ChainSyncClient

variable {points : List Point} {count : UInt64} {replies : ChainSyncReplies}

/-- Every exchange begins and ends in `Idle`. -/
theorem exchanges_lead (received : UInt64) (taken : List ChainSyncEvent) :
    Leads chainSyncMachine .idle (exchangesEvents received taken) .idle := by
  induction taken generalizing received with
  | nil => exact .nil _
  | cons event taken ih =>
    have hrest := ih (receivedAfter received event)
    refine .wire rfl ⟨rfl, rfl, .requestNext⟩ ?_
    cases event with
    | rollForward header tip => exact .wire rfl ⟨rfl, rfl, .rollForward⟩ hrest
    | rollBackward point tip => exact .wire rfl ⟨rfl, rfl, .rollBackward⟩ hrest

/-- The end of a session whose question was answered. -/
theorem closing_leads (count : UInt64) {found : Option (NcPoint × NcTip)}
    (h : replies.intersect = .ok found) :
    Leads chainSyncMachine .idle (closing count replies).events (leftIn count replies) := by
  rw [leftIn, h, closing]
  dsimp only
  by_cases hshort : RunsShort count replies.incoming
  · rw [if_pos hshort, if_pos hshort]
    cases replies.ending with
    | timeout => exact .wire rfl ⟨rfl, rfl, .requestNext⟩ (.nil _)
    | error message =>
      exact .wire rfl ⟨rfl, rfl, .requestNext⟩ (.internal rfl (.nil _))
  · rw [if_neg hshort, if_neg hshort]
    cases replies.done with
    | ok a => exact .wire rfl ⟨rfl, rfl, .done⟩ (.nil _)
    | error message => exact .internal rfl (.nil _)

/-- The events of a session, but for its summary. -/
theorem eventsWritten_lead : Leads chainSyncMachine .idle (eventsWritten points count replies)
    (leftIn count replies) := by
  rw [eventsWritten]
  refine .internal rfl (.wire rfl ⟨rfl, rfl, .findIntersect⟩ ?_)
  rcases hintersect : replies.intersect with message | found
  · rw [leftIn, hintersect]
    exact .internal rfl (.nil _)
  · have hrest := (exchanges_lead 0 (responsesTaken count replies.incoming)).append
      (closing_leads count hintersect)
    cases found with
    | none => exact .wire rfl ⟨rfl, rfl, .intersectNotFound⟩ hrest
    | some found => exact .wire rfl ⟨rfl, rfl, .intersectFound⟩ hrest

theorem runChainSync_leads (points : List Point) (count : UInt64) (replies : ChainSyncReplies) :
    Leads chainSyncMachine .idle
      (((runChainSync points count replies).run session).2.trace.map Stamped.event)
      (leftIn count replies) := by
  rcases hintersect : replies.intersect with message | found
  · obtain ⟨s, hrun, hgoes⟩ := runChainSync_failed points count hintersect
    rw [hrun, hgoes.fromStart.1]
    exact eventsWritten_lead
  · obtain ⟨s, hrun, hgoes⟩ := runChainSync_answered points count hintersect
    rw [hrun, hgoes.fromStart.1]
    exact eventsWritten_lead.append (.internal rfl (.nil _))

end

/-! ## Block-Fetch -/

section

open BlockFetchClient

variable {batches : List (List Point)}

/-- A complete reply leaves the session in `Idle`. -/
theorem leavesIn_completes {reply : RangeReply} (h : reply.completes = true) :
    reply.leavesIn = .idle := by
  rcases reply with _ | ⟨bodies, _ | message⟩ | message
  · rfl
  · rfl
  · cases h
  · cases h

theorem lastLeavesIn_cons {exchange : Exchange} (h : exchange.reply.completes = true)
    (made : List Exchange) : lastLeavesIn (exchange :: made) = lastLeavesIn made := by
  cases made with
  | nil => exact leavesIn_completes h
  | cons next made => rw [lastLeavesIn, List.getLast?_cons_cons, lastLeavesIn]

theorem lastLeavesIn_complete {made : List Exchange} (h : allComplete made = true) :
    lastLeavesIn made = .idle := by
  induction made with
  | nil => rfl
  | cons exchange made ih =>
    rw [allComplete, List.all_cons, Bool.and_eq_true] at h
    rw [lastLeavesIn_cons h.1, ih h.2]

theorem bodies_lead {bodies : List (List UInt8)} {events : List TraceEvent} {b : ServerBfState}
    (h : Leads blockFetchMachine .streaming events b) :
    Leads blockFetchMachine .streaming (bodies.map blockEvent ++ events) b := by
  induction bodies with
  | nil => exact h
  | cons body bodies ih => exact .wire rfl ⟨rfl, rfl, .block⟩ ih

theorem exchange_leads {batch : List Point} (hne : batch ≠ []) (reply : RangeReply) :
    Leads blockFetchMachine .idle (exchangeEvents ⟨batch, reply⟩) reply.leavesIn := by
  simp only [exchangeEvents, List.head?_eq_some_head hne, List.getLast?_eq_some_getLast hne]
  refine .wire rfl ⟨rfl, rfl, .requestRange⟩ ?_
  rcases reply with _ | ⟨bodies, _ | message⟩ | message
  · exact .wire rfl ⟨rfl, rfl, .noBlocks⟩ (.nil _)
  · exact .wire rfl ⟨rfl, rfl, .startBatch⟩
      (bodies_lead (.wire rfl ⟨rfl, rfl, .batchDone⟩ (.nil _)))
  · exact .wire rfl ⟨rfl, rfl, .startBatch⟩ (bodies_lead (.internal rfl (.nil _)))
  · exact .internal rfl (.nil _)

/-- Exchanges lead to where the last of them leaves the session. -/
theorem fetchExchanges_lead (range : Nat → RangeReply) (hne : ∀ batch ∈ batches, batch ≠ [])
    (i : Nat) :
    Leads blockFetchMachine .idle ((exchanges range i batches).flatMap exchangeEvents)
      (lastLeavesIn (exchanges range i batches)) := by
  induction batches generalizing i with
  | nil => exact .nil _
  | cons batch batches ih =>
    obtain ⟨hbatch, hbatches⟩ := List.forall_mem_cons.mp hne
    have hfirst := exchange_leads hbatch (range i)
    cases hcompletes : (range i).completes with
    | true =>
      have hcomplete : (Exchange.mk batch (range i)).reply.completes = true := hcompletes
      rw [exchanges_go_on hcompletes, List.flatMap_cons, lastLeavesIn_cons hcomplete]
      rw [leavesIn_completes hcompletes] at hfirst
      exact hfirst.append (ih hbatches (i + 1))
    | false =>
      rw [exchanges_failed hcompletes, List.flatMap_singleton]
      exact hfirst

/-- The end of a session all of whose requests were answered. -/
theorem end_leads (done : Except String Unit) (s : FetchSession) : ∃ events,
    ((sendDone done >>= fun _ => finish "completed").run s).2.trace.map Stamped.event =
      s.trace.map Stamped.event ++ events ∧
    Leads blockFetchMachine .idle events
      (match done with | .ok () => .done | .error _ => .idle) := by
  cases done with
  | error message =>
    have hdoes := (emit_does (clientError miniProtocol "send_done" message) s).trans (emit_does
      (summaryEvent ⟨s.locals, "completed"⟩) _)
    exact ⟨_, hdoes.events, .internal rfl (.internal rfl (.nil _))⟩
  | ok a =>
    have hsent := (sendMessage_does .clientDone s).trans (emit_does
      (wireEvent .blockFetchClientDone .sent (.object []) "Idle" "Done") _)
    have hdoes := hsent.trans (emit_does (summaryEvent ⟨s.locals, "completed"⟩) _)
    exact ⟨_, hdoes.events, .wire rfl ⟨rfl, rfl, .clientDone⟩ (.internal rfl (.nil _))⟩

theorem runBlockFetch_leads (points : List Point) (batchSize : Nat) (replies : BlockFetchReplies) :
    Leads blockFetchMachine .idle
      (((runBlockFetch points batchSize replies).run session).2.trace.map Stamped.event)
      (leftIn points batchSize replies) := by
  let started := ((emit (startedEvent points.length (max batchSize 1)) :
    BlockFetchClient Unit).run session).2
  have hbegun : (runBlockFetch points batchSize replies).run session =
      (fetchBatches replies.range 0 (batchesOf points batchSize) >>= fun _ =>
        sendDone replies.done >>= fun _ => finish "completed").run started := rfl
  have hne := Lib.toChunks_ne_nil (n := max batchSize 1) (l := points)
  have hfetched := fetchBatches_endsWith replies.range hne 0 started
  have hleads := fetchExchanges_lead replies.range hne 0
  rw [← batchesOf] at hfetched hleads
  have hstarted : Leads blockFetchMachine .idle (started.trace.map Stamped.event) .idle :=
    .internal rfl (.nil _)
  rw [leftIn, hbegun]
  generalize exchanges replies.range 0 (batchesOf points batchSize) = made at hfetched hleads ⊢
  cases hcomplete : allComplete made with
  | true =>
    rw [hcomplete] at hfetched
    obtain ⟨s, hrun, hdoes⟩ := hfetched
    obtain ⟨events, hevents, hend⟩ := end_leads replies.done s
    rw [Prog.run_bind_ok hrun, hevents, hdoes.events, if_pos rfl]
    rw [lastLeavesIn_complete hcomplete] at hleads
    exact (hstarted.append hleads).append hend
  | false =>
    rw [hcomplete] at hfetched
    obtain ⟨s, reason, hrun, hdoes⟩ := hfetched
    rw [Prog.run_bind_error hrun, hdoes.events, if_neg Bool.false_ne_true]
    exact hstarted.append (hleads.append (.internal rfl (.nil _)))

end

/-- **The clients' traces follow the mini-protocols**, whatever the peer does: their wire events are
the labels of a path from `Idle` to where the session was left. -/
theorem client_traces_follow :
    (∀ points count replies, Path chainSyncMachine.Step .idle
      (wireEvents (((ChainSyncClient.runChainSync points count replies).run
        ChainSyncClient.session).2.trace.map Stamped.event))
      (ChainSyncClient.leftIn count replies)) ∧
    ∀ points batchSize replies, Path blockFetchMachine.Step .idle
      (wireEvents (((BlockFetchClient.runBlockFetch points batchSize replies).run
        BlockFetchClient.session).2.trace.map Stamped.event))
      (BlockFetchClient.leftIn points batchSize replies) :=
  ⟨runChainSync_leads, runBlockFetch_leads⟩

end Proof

end ConformanceHarness
