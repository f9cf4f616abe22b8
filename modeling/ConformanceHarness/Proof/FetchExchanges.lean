import ConformanceHarness.Proof.ClientParts
import Mathlib.Data.UInt

/-!
# The exchanges of a Block-Fetch session

`run_block_fetch` makes one exchange for each batch of points: a request, and a reply that is
traced as it comes in. A reply that fails ends the session. So the session is the list of its
exchanges: the ranges that were sent, the events in the trace and the counters of the summary
are each put together from what one exchange makes.
-/

namespace ConformanceHarness

open ConformanceHarness.Lib (Prog)

/-- The server has answered: `request_range` returns. -/
def RangeReply.answers : RangeReply → Bool
  | .noBlocks | .batch _ _ => true
  | .error _ => false

/-- Nothing of the answer is missing: it is `MsgNoBlocks`, or ends with `MsgBatchDone`. -/
def RangeReply.completes : RangeReply → Bool
  | .noBlocks => true
  | .batch _ failed => failed.isNone
  | .error _ => false

/-- A batch that was asked for, and what came. -/
structure Exchange where
  batch : List Point
  reply : RangeReply

/-- The counters of a session, without the blocks it has captured. -/
structure BlockFetchCounts where
  rangeRequests : UInt64
  blocksReceived : UInt64
  noBlocksResponses : UInt64
  totalBytes : UInt64
deriving Repr, DecidableEq

instance : Zero BlockFetchCounts := ⟨⟨0, 0, 0, 0⟩⟩

instance : Add BlockFetchCounts where
  add c d := ⟨c.rangeRequests + d.rangeRequests, c.blocksReceived + d.blocksReceived,
    c.noBlocksResponses + d.noBlocksResponses, c.totalBytes + d.totalBytes⟩

instance : AddMonoid BlockFetchCounts where
  add_assoc _ _ _ := BlockFetchCounts.mk.injEq .. ▸
    ⟨UInt64.add_assoc .., UInt64.add_assoc .., UInt64.add_assoc .., UInt64.add_assoc ..⟩
  zero_add _ := BlockFetchCounts.mk.injEq .. ▸
    ⟨UInt64.zero_add _, UInt64.zero_add _, UInt64.zero_add _, UInt64.zero_add _⟩
  add_zero _ := BlockFetchCounts.mk.injEq .. ▸
    ⟨UInt64.add_zero _, UInt64.add_zero _, UInt64.add_zero _, UInt64.add_zero _⟩
  nsmul := nsmulRec

namespace BlockFetchClient

/-- A session of the Block-Fetch client. -/
abbrev FetchSession := Session Unit BlockFetchProgress BlockFetchClientMessage Unit

/-- The counters among the local variables. -/
def counts (progress : BlockFetchProgress) : BlockFetchCounts :=
  ⟨progress.rangeRequests, progress.blocksReceived, progress.noBlocksResponses,
    progress.totalBytes⟩

/-! ## One exchange -/

/-- The event of a request. -/
def requestEvent (batchLen : Nat) (fromPoint toPoint : Point) : TraceEvent :=
  wireEvent .blockFetchRequestRange .sent
    (.object [("batch_len", .ofLen batchLen), ("from", formatPoint fromPoint),
      ("to", formatPoint toPoint)]) "Idle" "Busy"

/-- The event of a block. -/
def blockEvent (body : List UInt8) : TraceEvent :=
  wireEvent .blockFetchBlock .received
    (.object [("cbor_hex", .string (encodeHex body)), ("cbor_len", .ofLen body.length)])
    "Streaming" "Streaming"

/-- The event that a batch ends with, after so many blocks. -/
def endEvent (received : Nat) : Option String → TraceEvent
  | none => wireEvent .blockFetchBatchDone .received
      (.object [("blocks_in_batch", .ofLen received)]) "Streaming" "Idle"
  | some message => clientError miniProtocol "recv_block" message

/-- The events of a reply. -/
def replyEvents (fromPoint toPoint : Point) : RangeReply → List TraceEvent
  | .noBlocks => [wireEvent .blockFetchNoBlocks .received
      (.object [("from", formatPoint fromPoint), ("to", formatPoint toPoint)]) "Busy" "Idle"]
  | .batch bodies failed =>
    wireEvent .blockFetchStartBatch .received (.object []) "Busy" "Streaming" ::
      (bodies.map blockEvent ++ [endEvent bodies.length failed])
  | .error message => [clientError miniProtocol "request_range" message]

/-- What is counted of some blocks. -/
def blocksCounts (bodies : List (List UInt8)) : BlockFetchCounts where
  rangeRequests := 0
  blocksReceived := UInt64.ofNat bodies.length
  noBlocksResponses := 0
  totalBytes := (bodies.map fun body => UInt64.ofNat body.length).sum

/-- What is counted of a reply. -/
def replyCounts : RangeReply → BlockFetchCounts
  | .noBlocks => ⟨1, 0, 1, 0⟩
  | .batch bodies _ => ⟨1, 0, 0, 0⟩ + blocksCounts bodies
  | .error _ => 0

/-- The events of an exchange. No batch is empty. -/
def exchangeEvents (exchange : Exchange) : List TraceEvent :=
  match exchange.batch.head?, exchange.batch.getLast? with
  | some fromPoint, some toPoint =>
    requestEvent exchange.batch.length fromPoint toPoint ::
      replyEvents fromPoint toPoint exchange.reply
  | _, _ => []

/-- The message of an exchange. -/
def exchangeMessages (exchange : Exchange) : List BlockFetchClientMessage :=
  match exchange.batch.head?, exchange.batch.getLast? with
  | some fromPoint, some toPoint => [.requestRange (toNcPoint fromPoint) (toNcPoint toPoint)]
  | _, _ => []

/-- The exchanges for some batches, the first of them with number `i`: up to a reply that
fails. -/
def exchanges (range : Nat → RangeReply) : Nat → List (List Point) → List Exchange
  | _, [] => []
  | i, batch :: rest =>
    ⟨batch, range i⟩ :: if (range i).completes then exchanges range (i + 1) rest else []

/-- No reply has failed. -/
def allComplete (made : List Exchange) : Bool := made.all fun exchange => exchange.reply.completes

end BlockFetchClient

namespace Proof

open BlockFetchClient
open Session

/-- From `s` to `s'` these events are written, these messages are sent, and so much is counted. -/
structure Does (s s' : FetchSession) (events : List TraceEvent)
    (messages : List BlockFetchClientMessage) (counted : BlockFetchCounts) : Prop where
  events : s'.trace.map Stamped.event = s.trace.map Stamped.event ++ events
  messages : s'.sent = s.sent ++ messages.map Wire.message
  counted : counts s'.locals = counts s.locals + counted

section

variable {a b c s : FetchSession} {events events' : List TraceEvent}
  {messages messages' : List BlockFetchClientMessage} {counted counted' : BlockFetchCounts}

theorem Does.trans (h : Does a b events messages counted)
    (h' : Does b c events' messages' counted') :
    Does a c (events ++ events') (messages ++ messages') (counted + counted') where
  events := by rw [h'.events, h.events, List.append_assoc]
  messages := by rw [h'.messages, h.messages, List.map_append, List.append_assoc]
  counted := by rw [h'.counted, h.counted, add_assoc]

theorem Does.refl (s : FetchSession) : Does s s [] [] 0 where
  events := (List.append_nil _).symm
  messages := (List.append_nil _).symm
  counted := (add_zero _).symm

theorem emit_does (event : TraceEvent) (s : FetchSession) :
    Does s ((emit event : BlockFetchClient Unit).run s).2 [event] [] 0 where
  events := List.map_append
  messages := (List.append_nil _).symm
  counted := (add_zero _).symm

theorem sendMessage_does (message : BlockFetchClientMessage) (s : FetchSession) :
    Does s ((sendMessage message : BlockFetchClient Unit).run s).2 [] [message] 0 where
  events := (List.append_nil _).symm
  messages := rfl
  counted := (add_zero _).symm

/-- What is counted, and written. -/
theorem update_emit_does {f : BlockFetchProgress → BlockFetchProgress}
    (h : ∀ progress, counts (f progress) = counts progress + counted) (event : TraceEvent)
    (s : FetchSession) :
    Does s ((update f >>= fun _ => emit event : BlockFetchClient Unit).run s).2 [event] []
      counted where
  events := List.map_append
  messages := (List.append_nil _).symm
  counted := h s.locals

/-- The summary is that of the counters, which it leaves alone. -/
theorem finish_does (exitReason : String) (s : FetchSession) :
    ∃ summary s', (finish exitReason).run s = (.ok summary, s') ∧
      summary = ⟨s'.locals, exitReason⟩ ∧ Does s s' [summaryEvent summary] [] 0 :=
  ⟨_, _, rfl, rfl, emit_does _ s⟩

/-- A session that fails has written its summary. -/
theorem abort_does (phase message : String) (s : FetchSession) :
    ∃ s' reason, (abort phase message).run s = (.error (.err reason), s') ∧
      Does s s' [clientError miniProtocol phase message, summaryEvent ⟨s'.locals, "error"⟩]
        [] 0 :=
  ⟨_, _, rfl, (emit_does _ s).trans (emit_does _ _)⟩

end

/-- How a part of the session ends: it returns if nothing fails, or leaves a summary and an
error behind. -/
def EndsWith (s : FetchSession) (x : BlockFetchClient Unit) (complete : Bool)
    (events : List TraceEvent) (messages : List BlockFetchClientMessage)
    (counted : BlockFetchCounts) : Prop :=
  if complete then ∃ s', x.run s = (.ok (), s') ∧ Does s s' events messages counted
  else ∃ s' reason, x.run s = (.error (.err reason), s') ∧
    Does s s' (events ++ [summaryEvent ⟨s'.locals, "error"⟩]) messages counted

section

variable {s s' : FetchSession} {events events' : List TraceEvent}
  {messages messages' : List BlockFetchClientMessage} {counted counted' : BlockFetchCounts}
  {complete : Bool} {x y : BlockFetchClient Unit}

/-- What was done before. -/
theorem EndsWith.after (hdone : Does s s' events messages counted)
    (hx : EndsWith s' x complete events' messages' counted') (hrun : y.run s = x.run s') :
    EndsWith s y complete (events ++ events') (messages ++ messages') (counted + counted') := by
  cases complete with
  | true =>
    obtain ⟨t, ht, hdoes⟩ := hx
    exact ⟨t, hrun.trans ht, hdone.trans hdoes⟩
  | false =>
    obtain ⟨t, reason, ht, hdoes⟩ := hx
    refine ⟨t, reason, hrun.trans ht, ?_⟩
    rw [List.append_assoc]
    exact hdone.trans hdoes

/-- A part that fails is the last. -/
theorem EndsWith.bind_failed {f : Unit → BlockFetchClient Unit}
    (hx : EndsWith s x false events messages counted) :
    EndsWith s (x >>= f) false events messages counted := by
  obtain ⟨t, reason, ht, hdoes⟩ := hx
  exact ⟨t, reason, Prog.run_bind_error ht, hdoes⟩

end

/-! ## The parts of a session -/

theorem receiveBlock_does (capture : Option (UInt64 × List UInt8)) (body : List UInt8)
    (s : FetchSession) :
    Does s ((receiveBlock capture body).run s).2 [blockEvent body] []
      ⟨0, 1, 0, UInt64.ofNat body.length⟩ := by
  refine update_emit_does (fun progress => ?_) (blockEvent body) s
  show BlockFetchCounts.mk _ _ _ _ = BlockFetchCounts.mk _ _ _ _
  simp only [counts, UInt64.add_zero]

theorem blocksCounts_cons (body : List UInt8) (rest : List (List UInt8)) :
    (⟨0, 1, 0, UInt64.ofNat body.length⟩ : BlockFetchCounts) + blocksCounts rest =
      blocksCounts (body :: rest) := by
  have hblocks : 1 + UInt64.ofNat rest.length = UInt64.ofNat (rest.length + 1) := by
    rw [UInt64.ofNat_add, UInt64.add_comm]
    rfl
  show BlockFetchCounts.mk _ _ _ _ = BlockFetchCounts.mk _ _ _ _
  simp only [blocksCounts, hblocks, UInt64.add_zero, List.map_cons, List.sum_cons,
    List.length_cons]

theorem receiveBlocks_endsWith (capture : Option (UInt64 × List UInt8)) (failed : Option String)
    (received : Nat) (bodies : List (List UInt8)) (s : FetchSession) :
    EndsWith s (receiveBlocks capture failed received bodies) failed.isNone
      (bodies.map blockEvent ++ [endEvent (received + bodies.length) failed]) []
      (blocksCounts bodies) := by
  induction bodies generalizing received s with
  | nil =>
    cases failed with
    | none => exact ⟨_, rfl, emit_does _ s⟩
    | some message => exact abort_does "recv_block" message s
  | cons body rest ih =>
    have hrest := ih (received + 1) ((receiveBlock capture body).run s).2
    have hall := EndsWith.after (receiveBlock_does capture body s) hrest
      (y := receiveBlocks capture failed received (body :: rest)) rfl
    rw [blocksCounts_cons, Nat.add_assoc, Nat.add_comm 1] at hall
    exact hall

/-- What a request does. -/
theorem ask_does (batchLen : Nat) (fromPoint toPoint : Point) (s : FetchSession) :
    Does s ((askRange batchLen fromPoint toPoint).run s).2
      [requestEvent batchLen fromPoint toPoint]
      [.requestRange (toNcPoint fromPoint) (toNcPoint toPoint)] 0 where
  events := List.map_append
  messages := rfl
  counted := (add_zero _).symm

/-- What follows the request, and how the exchange ends with it. -/
theorem exchange_endsWith {batch : List Point} {fromPoint toPoint : Point} {reply : RangeReply}
    {s : FetchSession} {x : BlockFetchClient Unit}
    (hreply : EndsWith ((askRange batch.length fromPoint toPoint).run s).2 x reply.completes
      (replyEvents fromPoint toPoint reply) [] (replyCounts reply))
    (hrun : (requestRange batch fromPoint toPoint reply).run s =
      x.run ((askRange batch.length fromPoint toPoint).run s).2) :
    EndsWith s (requestRange batch fromPoint toPoint reply) reply.completes
      (requestEvent batch.length fromPoint toPoint :: replyEvents fromPoint toPoint reply)
      [.requestRange (toNcPoint fromPoint) (toNcPoint toPoint)] (replyCounts reply) := by
  have hall := EndsWith.after (ask_does batch.length fromPoint toPoint s) hreply hrun
  rw [zero_add] at hall
  exact hall

theorem update_emit_endsWith {f : BlockFetchProgress → BlockFetchProgress}
    {counted : BlockFetchCounts}
    (h : ∀ progress, counts (f progress) = counts progress + counted) (event : TraceEvent)
    (s : FetchSession) :
    EndsWith s (update f >>= fun _ => emit event) true [event] [] counted :=
  ⟨_, rfl, update_emit_does h event s⟩

/-- **One exchange.** -/
theorem requestRange_endsWith (batch : List Point) (fromPoint toPoint : Point) (reply : RangeReply)
    (s : FetchSession) :
    EndsWith s (requestRange batch fromPoint toPoint reply) reply.completes
      (requestEvent batch.length fromPoint toPoint :: replyEvents fromPoint toPoint reply)
      [.requestRange (toNcPoint fromPoint) (toNcPoint toPoint)] (replyCounts reply) := by
  cases reply with
  | noBlocks =>
    have hcounted : ∀ l : BlockFetchProgress, counts { l with
        rangeRequests := l.rangeRequests + 1
        noBlocksResponses := l.noBlocksResponses + 1 } = counts l + ⟨1, 0, 1, 0⟩ := by
      intro l
      show BlockFetchCounts.mk _ _ _ _ = BlockFetchCounts.mk _ _ _ _
      simp only [counts, UInt64.add_zero]
    exact exchange_endsWith (update_emit_endsWith hcounted _ _) rfl
  | batch bodies failed =>
    have hcounted : ∀ l : BlockFetchProgress, counts { l with
        rangeRequests := l.rangeRequests + 1 } = counts l + ⟨1, 0, 0, 0⟩ := by
      intro l
      show BlockFetchCounts.mk _ _ _ _ = BlockFetchCounts.mk _ _ _ _
      simp only [counts, UInt64.add_zero]
    have hstarted := update_emit_does hcounted
      (wireEvent .blockFetchStartBatch .received (.object []) "Busy" "Streaming")
      ((askRange batch.length fromPoint toPoint).run s).2
    have hblocks := receiveBlocks_endsWith (capturePoint batch) failed 0 bodies
    rw [Nat.zero_add] at hblocks
    have hall := EndsWith.after hstarted (hblocks _) (y := update (fun l => { l with
      rangeRequests := l.rangeRequests + 1 }) >>= fun _ => emit _ >>= fun _ =>
        receiveBlocks (capturePoint batch) failed 0 bodies) rfl
    exact exchange_endsWith hall rfl
  | error message =>
    exact exchange_endsWith (x := abort "request_range" message) (abort_does _ message _) rfl

section

variable {range : Nat → RangeReply} {i : Nat} {batch : List Point} {rest : List (List Point)}

theorem exchanges_go_on (h : (range i).completes = true) : exchanges range i (batch :: rest) =
    ⟨batch, range i⟩ :: exchanges range (i + 1) rest := by
  rw [exchanges, if_pos h]

theorem exchanges_failed (h : (range i).completes = false) :
    exchanges range i (batch :: rest) = [⟨batch, range i⟩] := by
  rw [exchanges, if_neg (by rw [h]; exact Bool.false_ne_true)]

end

/-- **The exchanges of a session**, one after another. -/
theorem fetchBatches_endsWith (range : Nat → RangeReply) {batches : List (List Point)}
    (hne : ∀ batch ∈ batches, batch ≠ []) (i : Nat) (s : FetchSession) :
    EndsWith s (fetchBatches range i batches) (allComplete (exchanges range i batches))
      ((exchanges range i batches).flatMap exchangeEvents)
      ((exchanges range i batches).flatMap exchangeMessages)
      ((exchanges range i batches).map fun exchange => replyCounts exchange.reply).sum := by
  induction batches generalizing i s with
  | nil => exact ⟨s, rfl, Does.refl s⟩
  | cons batch rest ih =>
    obtain ⟨hbatch, hrest⟩ := List.forall_mem_cons.mp hne
    have hhead := List.head?_eq_some_head hbatch
    have hlast := List.getLast?_eq_some_getLast hbatch
    have hfirst := requestRange_endsWith batch (batch.head hbatch) (batch.getLast hbatch)
      (range i) s
    have hevents : exchangeEvents ⟨batch, range i⟩ =
        requestEvent batch.length (batch.head hbatch) (batch.getLast hbatch) ::
          replyEvents (batch.head hbatch) (batch.getLast hbatch) (range i) := by
      simp only [exchangeEvents, hhead, hlast]
    have hmessages : exchangeMessages ⟨batch, range i⟩ =
        [.requestRange (toNcPoint (batch.head hbatch)) (toNcPoint (batch.getLast hbatch))] := by
      simp only [exchangeMessages, hhead, hlast]
    rw [fetchBatches, hhead, hlast]
    rw [← hevents, ← hmessages] at hfirst
    cases hcompletes : (range i).completes with
    | true =>
      rw [hcompletes] at hfirst
      obtain ⟨t, ht, hdoes⟩ := hfirst
      rw [exchanges_go_on hcompletes, List.flatMap_cons, List.flatMap_cons, List.map_cons,
        List.sum_cons]
      have hcomplete : allComplete (⟨batch, range i⟩ :: exchanges range (i + 1) rest) =
          allComplete (exchanges range (i + 1) rest) := by
        rw [allComplete, List.all_cons, hcompletes, Bool.true_and]
        rfl
      rw [hcomplete]
      exact EndsWith.after hdoes (ih hrest (i + 1) t) (Prog.run_bind_ok ht)
    | false =>
      rw [hcompletes] at hfirst
      have hcomplete : allComplete [⟨batch, range i⟩] = false := by
        rw [allComplete, List.all_cons, hcompletes, Bool.false_and]
      rw [exchanges_failed hcompletes, hcomplete, List.flatMap_singleton, List.flatMap_singleton,
        List.map_singleton, List.sum_cons, List.sum_nil, add_zero]
      exact hfirst.bind_failed

theorem sendDone_does (done : Except String Unit) (s : FetchSession) :
    ∃ s' closing messages, (sendDone done).run s = (.ok (), s') ∧
      Does s s' closing messages 0 ∧
      (∀ event ∈ closing, event.kind = .error ∨ event.kind = .blockFetchClientDone) ∧
      ∀ message ∈ messages, message = .clientDone := by
  cases done with
  | error message =>
    refine ⟨_, _, _, rfl, emit_does _ s, fun event hevent => ?_, fun _ h => nomatch h⟩
    rw [List.mem_singleton.mp hevent]
    exact .inl rfl
  | ok a =>
    have hsent := (sendMessage_does .clientDone s).trans (emit_does
      (wireEvent .blockFetchClientDone .sent (.object []) "Idle" "Done") _)
    rw [add_zero] at hsent
    refine ⟨_, _, _, rfl, hsent, fun event hevent => ?_, fun _ h => List.mem_singleton.mp h⟩
    rw [List.mem_singleton.mp hevent]
    exact .inr rfl

/-- A session that ended, and the exchanges it made. -/
structure Made (totalPoints batchSize : Nat) (made : List Exchange)
    (r : Except Fault BlockFetchSummary) (s : FetchSession) : Prop where
  events : ∃ closing exitReason, s.trace.map Stamped.event =
    startedEvent totalPoints (max batchSize 1) :: (made.flatMap exchangeEvents ++
      (closing ++ [summaryEvent ⟨s.locals, exitReason⟩])) ∧
    (∀ event ∈ closing, event.kind = .error ∨ event.kind = .blockFetchClientDone) ∧
    ∀ summary, r = .ok summary → summary = ⟨s.locals, exitReason⟩
  messages : ∃ closing, s.sent = (made.flatMap exchangeMessages ++ closing).map Wire.message ∧
    ∀ message ∈ closing, message = .clientDone
  counted : counts s.locals = (made.map fun exchange => replyCounts exchange.reply).sum
  returns : r.isOk = allComplete made
  noPanic : ∀ reason, r ≠ .error (.panic reason)

/-- **A session is what its exchanges make it.** -/
theorem runBlockFetch_made (points : List Point) (batchSize : Nat) (replies : BlockFetchReplies) :
    ∃ r s, (runBlockFetch points batchSize replies).run session = (r, s) ∧
      Made points.length batchSize
        (exchanges replies.range 0 (points.toChunks (max batchSize 1))) r s := by
  have hstarted := emit_does (startedEvent points.length (max batchSize 1)) session
  have hbegun : (runBlockFetch points batchSize replies).run session =
      (fetchBatches replies.range 0 (points.toChunks (max batchSize 1)) >>= fun _ =>
        sendDone replies.done >>= fun _ => finish "completed").run
          ((emit (startedEvent points.length (max batchSize 1)) :
            BlockFetchClient Unit).run session).2 := rfl
  have hfetched := fetchBatches_endsWith replies.range
    (Lib.toChunks_ne_nil (n := max batchSize 1) (l := points)) 0
    ((emit (startedEvent points.length (max batchSize 1)) : BlockFetchClient Unit).run session).2
  generalize exchanges replies.range 0 (points.toChunks (max batchSize 1)) = made at hfetched ⊢
  cases hcomplete : allComplete made with
  | true =>
    rw [hcomplete] at hfetched
    obtain ⟨s₂, hrun₂, hdoes₂⟩ := hfetched
    obtain ⟨s₃, closing, messages, hrun₃, hdoes₃, hclosing, hmessages⟩ :=
      sendDone_does replies.done s₂
    obtain ⟨summary, s₄, hrun₄, hsummary, hdoes₄⟩ := finish_does "completed" s₃
    have hall := ((hstarted.trans hdoes₂).trans hdoes₃).trans hdoes₄
    refine ⟨.ok summary, s₄, ?_, ?_, ?_, ?_, ?_, ?_⟩
    · rw [hbegun, Prog.run_bind_ok hrun₂, Prog.run_bind_ok hrun₃, hrun₄]
    · refine ⟨closing, "completed", ?_, hclosing, fun summary' h => ?_⟩
      · rw [hall.events, hsummary]
        simp [session, Session.start]
      · rw [← Except.ok.inj h, hsummary]
    · refine ⟨messages, ?_, hmessages⟩
      rw [hall.messages]
      simp [session, Session.start]
    · rw [hall.counted]
      simp only [zero_add, add_zero]
      exact zero_add _
    · exact hcomplete.symm
    · exact fun reason h => nomatch h
  | false =>
    rw [hcomplete] at hfetched
    obtain ⟨s₂, reason, hrun₂, hdoes₂⟩ := hfetched
    have hall := hstarted.trans hdoes₂
    refine ⟨.error (.err reason), s₂, ?_, ?_, ?_, ?_, ?_, ?_⟩
    · rw [hbegun, Prog.run_bind_error hrun₂]
    · refine ⟨[], "error", ?_, fun _ h => absurd h List.not_mem_nil, fun summary h => by cases h⟩
      rw [hall.events]
      simp [session, Session.start]
    · refine ⟨[], ?_, fun _ h => absurd h List.not_mem_nil⟩
      rw [hall.messages]
      simp [session, Session.start]
    · rw [hall.counted, zero_add]
      exact zero_add _
    · exact hcomplete.symm
    · exact fun reason h => nomatch h

end Proof

end ConformanceHarness
