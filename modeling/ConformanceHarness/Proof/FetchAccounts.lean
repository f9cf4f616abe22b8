import ConformanceHarness.Proof.FetchExchanges
import ConformanceHarness.Proof.WirePoints

/-!
# What a Block-Fetch session accounts for

From its exchanges: the client asks for its points, chunk by chunk from the front, and for the
next chunk only when the reply to the last one is complete. It writes one summary, whatever the
server does, and the counters in it are those of the events in the trace.
-/

namespace ConformanceHarness

namespace BlockFetchClient

/-! ## What a session shows -/

/-- The range that a message asks for. -/
def rangeAsked : BlockFetchClientMessage → Option (NcPoint × NcPoint)
  | .requestRange fromPoint toPoint => some (fromPoint, toPoint)
  | .clientDone => none

/-- The ranges that were asked for. -/
def requestedRanges (sent : List (Wire BlockFetchClientMessage)) : List (NcPoint × NcPoint) :=
  onWire rangeAsked sent

/-- The range from the first point of a batch to its last. -/
def EndsOf (batch : List Point) (range : NcPoint × NcPoint) : Prop :=
  ∃ fromPoint toPoint, batch.head? = some fromPoint ∧ batch.getLast? = some toPoint ∧
    range = (toNcPoint fromPoint, toNcPoint toPoint)

/-- No request is made while one is unanswered: each comes after the `NoBlocks` or `BatchDone` of
the one before it. -/
def OneAtATime : Bool → List EventKind → Prop
  | _, [] => True
  | waiting, kind :: rest =>
    if kind = .blockFetchRequestRange then waiting = false ∧ OneAtATime true rest
    else if kind = .blockFetchNoBlocks ∨ kind = .blockFetchBatchDone then OneAtATime false rest
    else OneAtATime waiting rest

/-- Whether a request is unanswered after these events. -/
def waits : Bool → List EventKind → Bool
  | waiting, [] => waiting
  | waiting, kind :: rest =>
    if kind = .blockFetchRequestRange then waits true rest
    else if kind = .blockFetchNoBlocks ∨ kind = .blockFetchBatchDone then waits false rest
    else waits waiting rest

/-- How many events of a kind are received. -/
def received (kind : EventKind) (events : List TraceEvent) : Nat :=
  events.countP fun event => decide (event.kind = kind ∧ event.direction = .received)

/-- The length that the event of a block records. -/
def blockLength (event : TraceEvent) : Option UInt64 :=
  if event.kind = .blockFetchBlock then (event.payload.getField "cbor_len").bind Value.asU64
  else none

/-- The counters that the events of a session amount to. -/
def tally (events : List TraceEvent) : BlockFetchCounts where
  rangeRequests := UInt64.ofNat (received .blockFetchNoBlocks events +
    received .blockFetchStartBatch events)
  blocksReceived := UInt64.ofNat (received .blockFetchBlock events)
  noBlocksResponses := UInt64.ofNat (received .blockFetchNoBlocks events)
  totalBytes := (events.filterMap blockLength).sum

/-- The summaries in a trace. -/
def summaries (events : List TraceEvent) : List TraceEvent :=
  events.filter fun event => event.kind == .blockFetchSessionSummary

end BlockFetchClient

namespace Proof

open BlockFetchClient

/-! ## Which exchanges are made -/

section

variable {range : Nat → RangeReply} {i : Nat} {batches : List (List Point)}

theorem exchanges_batches :
    (exchanges range i batches).map Exchange.batch <+: batches := by
  induction batches generalizing i with
  | nil => exact List.prefix_rfl
  | cons batch rest ih =>
    cases hcompletes : (range i).completes with
    | true =>
      rw [exchanges_go_on hcompletes, List.map_cons]
      exact (List.prefix_cons_inj batch).mpr ih
    | false =>
      rw [exchanges_failed hcompletes]
      exact (List.prefix_cons_inj batch).mpr List.nil_prefix

/-- Each exchange has the reply of its number. -/
theorem exchanges_replied {k : Nat} {exchange : Exchange}
    (h : (exchanges range i batches)[k]? = some exchange) : exchange.reply = range (i + k) := by
  induction batches generalizing i k with
  | nil => cases h
  | cons batch rest ih =>
    cases k with
    | zero =>
      rw [exchanges, List.getElem?_cons_zero] at h
      rw [← Option.some.inj h, Nat.add_zero]
    | succ k =>
      cases hcompletes : (range i).completes with
      | true =>
        rw [exchanges_go_on hcompletes, List.getElem?_cons_succ] at h
        rw [ih h, Nat.add_assoc, Nat.add_comm 1]
      | false =>
        rw [exchanges_failed hcompletes] at h
        cases h

/-- If no reply fails, every batch is asked for. -/
theorem exchanges_whole (h : allComplete (exchanges range i batches) = true) :
    (exchanges range i batches).map Exchange.batch = batches := by
  induction batches generalizing i with
  | nil => rfl
  | cons batch rest ih =>
    cases hcompletes : (range i).completes with
    | true =>
      rw [exchanges_go_on hcompletes, allComplete, List.all_cons, Bool.and_eq_true] at h
      rw [exchanges_go_on hcompletes, List.map_cons, ih h.2]
    | false =>
      rw [exchanges_failed hcompletes, allComplete, List.all_cons, Bool.and_eq_true] at h
      exact absurd (hcompletes.symm.trans h.1) Bool.false_ne_true

/-- All replies are complete, but for that of the last exchange. -/
theorem exchanges_complete {exchange : Exchange}
    (h : exchange ∈ (exchanges range i batches).dropLast) :
    exchange.reply.completes = true := by
  induction batches generalizing i with
  | nil => cases h
  | cons batch rest ih =>
    cases hcompletes : (range i).completes with
    | true =>
      rw [exchanges_go_on hcompletes] at h
      by_cases hrest : exchanges range (i + 1) rest = []
      · rw [hrest] at h
        cases h
      · rw [List.dropLast_cons_of_ne_nil hrest] at h
        rcases List.mem_cons.mp h with rfl | h
        · exact hcompletes
        · exact ih h
    | false =>
      rw [exchanges_failed hcompletes] at h
      cases h

end

/-! ## What one exchange shows -/

/-- An exchange about some points. -/
theorem exchange_cases {exchange : Exchange} (hne : exchange.batch ≠ []) :
    ∃ fromPoint toPoint, exchange.batch.head? = some fromPoint ∧
      exchange.batch.getLast? = some toPoint ∧
      exchangeEvents exchange = requestEvent exchange.batch.length fromPoint toPoint ::
        replyEvents fromPoint toPoint exchange.reply ∧
      exchangeMessages exchange =
        [.requestRange (toNcPoint fromPoint) (toNcPoint toPoint)] := by
  have hhead := List.head?_eq_some_head hne
  have hlast := List.getLast?_eq_some_getLast hne
  refine ⟨_, _, hhead, hlast, ?_, ?_⟩
  · simp only [exchangeEvents, hhead, hlast]
  · simp only [exchangeMessages, hhead, hlast]

theorem requestedRanges_closing {closing : List BlockFetchClientMessage}
    (h : ∀ message ∈ closing, message = .clientDone) :
    requestedRanges (closing.map Wire.message) = [] := by
  refine List.filterMap_eq_nil_iff.mpr fun wire hwire => ?_
  obtain ⟨message, hmessage, rfl⟩ := List.mem_map.mp hwire
  rw [h message hmessage]
  rfl

/-- **The ranges asked for are the ends of the batches.** -/
theorem requestedRanges_of_exchanges {made : List Exchange}
    (hne : ∀ exchange ∈ made, exchange.batch ≠ []) {closing : List BlockFetchClientMessage}
    (h : ∀ message ∈ closing, message = .clientDone) :
    List.Forall₂ EndsOf (made.map Exchange.batch)
      (requestedRanges ((made.flatMap exchangeMessages ++ closing).map Wire.message)) := by
  induction made with
  | nil =>
    rw [List.flatMap_nil, List.nil_append, requestedRanges_closing h]
    exact .nil
  | cons exchange rest ih =>
    obtain ⟨hexchange, hrest⟩ := List.forall_mem_cons.mp hne
    obtain ⟨fromPoint, toPoint, hhead, hlast, -, hmessages⟩ := exchange_cases hexchange
    rw [List.map_cons, List.flatMap_cons, hmessages]
    exact .cons ⟨fromPoint, toPoint, hhead, hlast, rfl⟩ (ih hrest)

/-! ## One request at a time -/

theorem oneAtATime_append {waiting : Bool} {kinds kinds' : List EventKind} :
    OneAtATime waiting (kinds ++ kinds') ↔
      OneAtATime waiting kinds ∧ OneAtATime (waits waiting kinds) kinds' := by
  induction kinds generalizing waiting with
  | nil => exact ⟨fun h => ⟨trivial, h⟩, fun h => h.2⟩
  | cons kind rest ih =>
    rw [List.cons_append, OneAtATime, OneAtATime, waits]
    split_ifs
    · rw [ih, and_assoc]
    · exact ih
    · exact ih

theorem waits_append {waiting : Bool} {kinds kinds' : List EventKind} :
    waits waiting (kinds ++ kinds') = waits (waits waiting kinds) kinds' := by
  induction kinds generalizing waiting with
  | nil => rfl
  | cons kind rest ih =>
    rw [List.cons_append, waits, waits]
    split_ifs <;> exact ih

/-- Other events make no difference. -/
theorem oneAtATime_other {waiting : Bool} {kinds : List EventKind}
    (h : ∀ kind ∈ kinds, kind ≠ .blockFetchRequestRange ∧ kind ≠ .blockFetchNoBlocks ∧
      kind ≠ .blockFetchBatchDone) :
    OneAtATime waiting kinds ∧ waits waiting kinds = waiting := by
  induction kinds with
  | nil => exact ⟨trivial, rfl⟩
  | cons kind rest ih =>
    obtain ⟨⟨hrequest, hnone, hdone⟩, hrest⟩ := List.forall_mem_cons.mp h
    have hend : ¬ (kind = .blockFetchNoBlocks ∨ kind = .blockFetchBatchDone) := by
      rintro (hkind | hkind)
      · exact hnone hkind
      · exact hdone hkind
    rw [OneAtATime, waits, if_neg hrequest, if_neg hrequest, if_neg hend, if_neg hend]
    exact ih hrest

/-- After an exchange, nothing is unanswered exactly if its reply is complete. -/
theorem exchange_oneAtATime {exchange : Exchange} (hne : exchange.batch ≠ []) :
    OneAtATime false ((exchangeEvents exchange).map TraceEvent.kind) ∧
      waits false ((exchangeEvents exchange).map TraceEvent.kind) =
        !exchange.reply.completes := by
  obtain ⟨batch, reply⟩ := exchange
  obtain ⟨fromPoint, toPoint, -, -, hevents, -⟩ := exchange_cases hne
  rw [hevents]
  dsimp only
  cases reply with
  | noBlocks => exact ⟨⟨rfl, trivial⟩, rfl⟩
  | error message => exact ⟨⟨rfl, trivial⟩, rfl⟩
  | batch bodies failed =>
    have hblocks : ∀ kind ∈ (bodies.map blockEvent).map TraceEvent.kind,
        kind ≠ .blockFetchRequestRange ∧ kind ≠ .blockFetchNoBlocks ∧
          kind ≠ .blockFetchBatchDone := by
      intro kind hkind
      obtain ⟨event, hevent, rfl⟩ := List.mem_map.mp hkind
      obtain ⟨body, -, rfl⟩ := List.mem_map.mp hevent
      exact ⟨EventKind.noConfusion, EventKind.noConfusion, EventKind.noConfusion⟩
    obtain ⟨hone, hwaits⟩ : OneAtATime true ((bodies.map blockEvent).map TraceEvent.kind) ∧
        waits true ((bodies.map blockEvent).map TraceEvent.kind) = true := oneAtATime_other hblocks
    have hstart : (requestEvent batch.length fromPoint toPoint ::
        replyEvents fromPoint toPoint (.batch bodies failed)).map TraceEvent.kind =
          [.blockFetchRequestRange, .blockFetchStartBatch] ++
            ((bodies.map blockEvent).map TraceEvent.kind ++
              [(endEvent bodies.length failed).kind]) := by
      simp [replyEvents, requestEvent, wireEvent, TraceEvent.withStates, TraceEvent.new]
    have hends : OneAtATime true [(endEvent bodies.length failed).kind] ∧
        waits true [(endEvent bodies.length failed).kind] = !failed.isNone := by
      cases failed <;> exact ⟨trivial, rfl⟩
    rw [hstart, oneAtATime_append, waits_append, oneAtATime_append, waits_append]
    have hbegun : waits false [.blockFetchRequestRange, .blockFetchStartBatch] = true := rfl
    rw [hbegun, hwaits]
    exact ⟨⟨⟨rfl, trivial⟩, hone, hends.1⟩, hends.2⟩

/-- **No request is made before the one before it was answered.** -/
theorem exchanges_oneAtATime {made : List Exchange}
    (hne : ∀ exchange ∈ made, exchange.batch ≠ [])
    (hcomplete : ∀ exchange ∈ made.dropLast, exchange.reply.completes = true) :
    OneAtATime false ((made.flatMap exchangeEvents).map TraceEvent.kind) := by
  induction made with
  | nil => trivial
  | cons exchange rest ih =>
    obtain ⟨hexchange, hrest⟩ := List.forall_mem_cons.mp hne
    obtain ⟨hone, hwaits⟩ := exchange_oneAtATime hexchange
    rw [List.flatMap_cons, List.map_append, oneAtATime_append, hwaits]
    refine ⟨hone, ?_⟩
    by_cases hempty : rest = []
    · rw [hempty]
      trivial
    · rw [List.dropLast_cons_of_ne_nil hempty] at hcomplete
      obtain ⟨hreply, hothers⟩ := List.forall_mem_cons.mp hcomplete
      rw [hreply]
      exact ih hrest hothers

/-! ## What the events amount to -/

theorem received_append (kind : EventKind) (events events' : List TraceEvent) :
    received kind (events ++ events') = received kind events + received kind events' :=
  List.countP_append

theorem tally_append (events events' : List TraceEvent) :
    tally (events ++ events') = tally events + tally events' := by
  have hrequests : UInt64.ofNat (received .blockFetchNoBlocks (events ++ events') +
      received .blockFetchStartBatch (events ++ events')) =
        (tally events).rangeRequests + (tally events').rangeRequests := by
    rw [received_append, received_append, Nat.add_add_add_comm]
    exact UInt64.ofNat_add _ _
  have hbytes : ((events ++ events').filterMap blockLength).sum =
      (tally events).totalBytes + (tally events').totalBytes := by
    rw [List.filterMap_append]
    exact List.sum_append
  show BlockFetchCounts.mk _ _ _ _ = BlockFetchCounts.mk _ _ _ _
  rw [hrequests, hbytes, received_append, received_append, UInt64.ofNat_add, UInt64.ofNat_add]
  rfl

/-- Events of other kinds amount to nothing. -/
theorem tally_other {events : List TraceEvent}
    (h : ∀ event ∈ events, event.kind ≠ .blockFetchNoBlocks ∧ event.kind ≠ .blockFetchStartBatch ∧
      event.kind ≠ .blockFetchBlock) : tally events = 0 := by
  induction events with
  | nil => rfl
  | cons event rest ih =>
    obtain ⟨⟨hnone, hstart, hblock⟩, hrest⟩ := List.forall_mem_cons.mp h
    rw [show event :: rest = [event] ++ rest from rfl, tally_append, ih hrest, add_zero]
    simp only [tally, received, blockLength, List.countP_singleton, hnone, hstart, hblock,
      false_and, decide_false, if_false, List.filterMap_cons, List.filterMap_nil]
    rfl

theorem tally_blocks (bodies : List (List UInt8)) :
    tally (bodies.map blockEvent) = blocksCounts bodies := by
  induction bodies with
  | nil => rfl
  | cons body rest ih =>
    have hone : tally [blockEvent body] = ⟨0, 1, 0, UInt64.ofNat body.length⟩ := by
      show BlockFetchCounts.mk _ _ _ (UInt64.ofNat body.length + 0) = _
      rw [UInt64.add_zero]
      rfl
    rw [List.map_cons, show blockEvent body :: rest.map blockEvent =
      [blockEvent body] ++ rest.map blockEvent from rfl, tally_append, hone, ih,
      blocksCounts_cons]

/-- **What the events of an exchange amount to is what is counted of its reply.** -/
theorem tally_exchange {exchange : Exchange} (hne : exchange.batch ≠ []) :
    tally (exchangeEvents exchange) = replyCounts exchange.reply := by
  obtain ⟨batch, reply⟩ := exchange
  obtain ⟨fromPoint, toPoint, -, -, hevents, -⟩ := exchange_cases hne
  rw [hevents]
  dsimp only
  cases reply with
  | noBlocks => rfl
  | error message => rfl
  | batch bodies failed =>
    have hbegun : tally [requestEvent batch.length fromPoint toPoint,
        wireEvent .blockFetchStartBatch .received (.object []) "Busy" "Streaming"] =
          ⟨1, 0, 0, 0⟩ := rfl
    have hended : tally [endEvent bodies.length failed] = 0 := by cases failed <;> rfl
    rw [replyEvents, show ∀ a b (l : List TraceEvent), a :: b :: l = [a, b] ++ l from
      fun _ _ _ => rfl, tally_append, tally_append, hbegun, tally_blocks, hended, add_zero]
    rfl

theorem tally_exchanges {made : List Exchange} (hne : ∀ exchange ∈ made, exchange.batch ≠ []) :
    tally (made.flatMap exchangeEvents) =
      (made.map fun exchange => replyCounts exchange.reply).sum := by
  induction made with
  | nil => rfl
  | cons exchange rest ih =>
    obtain ⟨hexchange, hrest⟩ := List.forall_mem_cons.mp hne
    rw [List.flatMap_cons, tally_append, tally_exchange hexchange, ih hrest, List.map_cons,
      List.sum_cons]

/-- The requests that were answered are those that are counted. -/
theorem answered_exchanges (made : List Exchange) :
    (made.map fun exchange => replyCounts exchange.reply).sum.rangeRequests =
      UInt64.ofNat (made.countP fun exchange => exchange.reply.answers) := by
  induction made with
  | nil => rfl
  | cons exchange rest ih =>
    rw [List.map_cons, List.sum_cons, List.countP_cons, UInt64.ofNat_add, UInt64.add_comm]
    show (replyCounts exchange.reply).rangeRequests + _ = _
    rw [ih]
    obtain ⟨batch, reply⟩ := exchange
    cases reply <;> rfl

/-- An exchange writes no summary. -/
theorem summaries_exchanges {made : List Exchange}
    (hne : ∀ exchange ∈ made, exchange.batch ≠ []) :
    summaries (made.flatMap exchangeEvents) = [] := by
  refine List.filter_eq_nil_iff.mpr fun event hevent => ?_
  obtain ⟨⟨batch, reply⟩, hmem, hevent⟩ := List.mem_flatMap.mp hevent
  obtain ⟨fromPoint, toPoint, -, -, hevents, -⟩ := exchange_cases (hne _ hmem)
  rw [hevents] at hevent
  rcases List.mem_cons.mp hevent with rfl | hevent
  · exact Bool.false_ne_true
  · cases reply with
    | noBlocks =>
      rw [List.mem_singleton.mp hevent]
      exact Bool.false_ne_true
    | error message =>
      rw [List.mem_singleton.mp hevent]
      exact Bool.false_ne_true
    | batch bodies failed =>
      rcases List.mem_cons.mp hevent with rfl | hevent
      · exact Bool.false_ne_true
      · rcases List.mem_append.mp hevent with hblock | hend
        · obtain ⟨body, -, rfl⟩ := List.mem_map.mp hblock
          exact Bool.false_ne_true
        · rw [List.mem_singleton.mp hend]
          cases failed <;> exact Bool.false_ne_true

/-! ## The end of a session -/

/-- The last events of a session are not those of an exchange. -/
theorem closing_other {event : TraceEvent}
    (h : event.kind = .error ∨ event.kind = .blockFetchClientDone) :
    (event.kind ≠ .blockFetchNoBlocks ∧ event.kind ≠ .blockFetchStartBatch ∧
      event.kind ≠ .blockFetchBlock) ∧
    (event.kind ≠ .blockFetchRequestRange ∧ event.kind ≠ .blockFetchNoBlocks ∧
      event.kind ≠ .blockFetchBatchDone) ∧ event.kind ≠ .blockFetchSessionSummary := by
  rcases h with h | h <;> rw [h] <;>
    exact ⟨⟨EventKind.noConfusion, EventKind.noConfusion, EventKind.noConfusion⟩,
      ⟨EventKind.noConfusion, EventKind.noConfusion, EventKind.noConfusion⟩,
      EventKind.noConfusion⟩

section

variable {closing : List TraceEvent}
  (h : ∀ event ∈ closing, event.kind = .error ∨ event.kind = .blockFetchClientDone)

include h

theorem tally_closing : tally closing = 0 :=
  tally_other fun event hevent => (closing_other (h event hevent)).1

theorem summaries_closing : summaries closing = [] := by
  refine List.filter_eq_nil_iff.mpr fun event hevent hkind => ?_
  exact (closing_other (h event hevent)).2.2 (beq_iff_eq.mp hkind)

/-- Nothing is asked for at the end. -/
theorem closing_oneAtATime {waiting : Bool} (summary : BlockFetchSummary) :
    OneAtATime waiting ((closing ++ [summaryEvent summary]).map TraceEvent.kind) := by
  refine (oneAtATime_other fun kind hkind => ?_).1
  obtain ⟨event, hevent, rfl⟩ := List.mem_map.mp hkind
  rcases List.mem_append.mp hevent with hevent | hevent
  · exact (closing_other (h event hevent)).2.1
  · rw [List.mem_singleton.mp hevent]
    exact ⟨EventKind.noConfusion, EventKind.noConfusion, EventKind.noConfusion⟩

end

/-! ## The account of a session -/

/-- What a session accounts for: its exchanges, in the order of their requests, and its one
summary. -/
structure Accounts (points : List Point) (batchSize : Nat) (replies : BlockFetchReplies)
    (r : Except Fault BlockFetchSummary) (s : FetchSession) (made : List Exchange)
    (summary : BlockFetchSummary) : Prop where
  /-- The batches are consecutive chunks from the front of the list. -/
  chunks : made.map Exchange.batch <+: points.toChunks (max batchSize 1)
  /-- So they are a prefix of it, put together. -/
  asked : (made.map Exchange.batch).flatten <+: points
  /-- If no error occurs, it is the whole list. -/
  whole : r.isOk = true → (made.map Exchange.batch).flatten = points
  /-- The ranges sent are their first and last points. -/
  ranges : List.Forall₂ EndsOf (made.map Exchange.batch) (requestedRanges s.sent)
  /-- The server's replies, in the order of the requests. -/
  replied : ∀ k exchange, made[k]? = some exchange → exchange.reply = replies.range k
  /-- A request comes after a complete reply to the one before it. -/
  completed : ∀ exchange ∈ made.dropLast, exchange.reply.completes = true
  oneAtATime : OneAtATime false (s.trace.map fun e => e.event.kind)
  /-- The session fails exactly if a reply does, and never on an empty chunk. -/
  returns : r.isOk = allComplete made
  noPanic : ∀ reason, r ≠ .error (.panic reason)
  oneSummary : summaries (s.trace.map Stamped.event) = [summaryEvent summary]
  returned : ∀ summary', r = .ok summary' → summary' = summary
  /-- Its counters are those of the events received. -/
  counted : counts summary.toBlockFetchProgress = tally (s.trace.map Stamped.event)
  answered : summary.rangeRequests =
    UInt64.ofNat (made.countP fun exchange => exchange.reply.answers)

/-- **The Block-Fetch client asks for exactly its points and accounts for every reply**, for every
list of points, batch size and replies of the server. -/
theorem runBlockFetch_accounts (points : List Point) (batchSize : Nat)
    (replies : BlockFetchReplies) :
    ∃ r s made summary, (runBlockFetch points batchSize replies).run session = (r, s) ∧
      Accounts points batchSize replies r s made summary := by
  have hpositive : 0 < max batchSize 1 := Nat.lt_of_lt_of_le Nat.one_pos (Nat.le_max_right _ 1)
  obtain ⟨r, s, hrun, hmade⟩ := runBlockFetch_made points batchSize replies
  have hchunks := @exchanges_batches replies.range 0 (points.toChunks (max batchSize 1))
  have hwhole := @exchanges_whole replies.range 0 (points.toChunks (max batchSize 1))
  have hreplied := @exchanges_replied replies.range 0 (points.toChunks (max batchSize 1))
  have hcompleted := @exchanges_complete replies.range 0 (points.toChunks (max batchSize 1))
  generalize exchanges replies.range 0 (points.toChunks (max batchSize 1)) = made at *
  have hne : ∀ exchange ∈ made, exchange.batch ≠ [] := fun exchange hmem =>
    Lib.toChunks_ne_nil _ (hchunks.subset (List.mem_map_of_mem hmem))
  obtain ⟨closing, exitReason, hevents, hclosing, hreturned⟩ := hmade.events
  obtain ⟨messages, hmessages, hdone⟩ := hmade.messages
  have htally : tally (s.trace.map Stamped.event) =
      (made.map fun exchange => replyCounts exchange.reply).sum := by
    have hstarted : tally [startedEvent points.length (max batchSize 1)] = 0 := rfl
    have hsummary : tally [summaryEvent ⟨s.locals, exitReason⟩] = 0 := rfl
    rw [hevents, ← List.singleton_append, tally_append, tally_append, tally_append, hstarted,
      tally_closing hclosing, hsummary, tally_exchanges hne, zero_add, add_zero, add_zero]
  refine ⟨r, s, made, ⟨s.locals, exitReason⟩, hrun, hchunks, ?_, fun hok => ?_, ?_, ?_,
    fun exchange => hcompleted, ?_, hmade.returns, hmade.noPanic, ?_, hreturned, ?_, ?_⟩
  · obtain ⟨rest, hrest⟩ := hchunks
    refine ⟨rest.flatten, ?_⟩
    rw [← List.flatten_append, hrest, Lib.flatten_toChunks hpositive]
  · rw [hwhole (hmade.returns.symm.trans hok), Lib.flatten_toChunks hpositive]
  · rw [hmessages]
    exact requestedRanges_of_exchanges hne hdone
  · intro k exchange hk
    rw [hreplied hk, Nat.zero_add]
  · have hkinds : s.trace.map (fun e => e.event.kind) =
        (s.trace.map Stamped.event).map TraceEvent.kind := List.map_map.symm
    rw [hkinds, hevents, List.map_cons, List.map_append]
    exact oneAtATime_append.mpr ⟨exchanges_oneAtATime hne fun _ => hcompleted,
      closing_oneAtATime hclosing _⟩
  · have hclosed := summaries_closing hclosing
    have hexchanges := summaries_exchanges hne
    rw [summaries] at hclosed hexchanges
    rw [hevents, summaries, ← List.singleton_append, List.filter_append, List.filter_append,
      List.filter_append, hexchanges, hclosed]
    rfl
  · rw [htally]
    exact hmade.counted
  · rw [← answered_exchanges, ← hmade.counted]
    rfl

end Proof

end ConformanceHarness
