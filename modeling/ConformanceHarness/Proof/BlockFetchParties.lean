import ConformanceHarness.Lib.Duplex
import ConformanceHarness.Miniprotocols.BlockFetchLink
import ConformanceHarness.Proof.CapturedBlocks
import ConformanceHarness.Proof.FetchExchanges
import ConformanceHarness.Proof.SessionParts
import ConformanceHarness.Proof.WirePoints

/-!
# The two parties of a Block-Fetch session

`run_block_fetch` and `execute_block_fetch_script` as parties of a conversation. The client has an
agenda: a request for each batch of its points, and `ClientDone`. It goes on to the next message
with each reply that is complete, whatever the library makes of what it hears.
-/

namespace ConformanceHarness

open ConformanceHarness.Lib (Prog)
open ConformanceHarness.Lib.Duplex

namespace BlockFetchClient

/-- The request for a batch. No batch is empty. -/
def askFor (batch : List Point) : BlockFetchClientMessage :=
  .requestRange (toNcPoint (batch.headD .origin)) (toNcPoint (batch.getLastD .origin))

/-- What the client has to say. -/
def agenda (batches : List (List Point)) : List BlockFetchClientMessage :=
  batches.map askFor ++ [.clientDone]

/-- The batches of a session. -/
def batchesOf (points : List Point) (batchSize : Nat) : List (List Point) :=
  points.toChunks (max batchSize 1)

end BlockFetchClient

/-- How many replies are complete before one is not. -/
def answeredBefore (replies : List RangeReply) : Nat :=
  (replies.takeWhile RangeReply.completes).length

namespace Proof

open BlockFetchClient
open Session

section

variable {replies : List RangeReply} {fail : RangeReply} {batches : List (List Point)}

/-- A session that goes on with these replies, and then fails. -/
abbrev replyAt (replies : List RangeReply) (fail : RangeReply) (i : Nat) : RangeReply :=
  replies.getD i fail

/-- The replies from number `i` on. -/
theorem exchanges_shift (range : Nat → RangeReply) (i : Nat) (batches : List (List Point)) :
    exchanges range (i + 1) batches = exchanges (fun k => range (k + 1)) i batches := by
  induction batches generalizing i with
  | nil => rfl
  | cons batch rest ih => rw [exchanges, exchanges, ih]

theorem exchanges_reply (reply : RangeReply) (batch : List Point) (rest : List (List Point)) :
    exchanges (replyAt (reply :: replies) fail) 0 (batch :: rest) =
      ⟨batch, reply⟩ ::
        if reply.completes then exchanges (replyAt replies fail) 0 rest else [] := by
  rw [exchanges, exchanges_shift]
  rfl

theorem exchanges_silent (hfail : fail.completes = false) (batch : List Point)
    (rest : List (List Point)) :
    exchanges (replyAt [] fail) 0 (batch :: rest) = [⟨batch, fail⟩] :=
  exchanges_failed hfail

/-- If there are replies enough and all are complete, each batch has its own. -/
theorem exchanges_answered (hcomplete : ∀ r ∈ replies, r.completes = true)
    (hle : batches.length ≤ replies.length) : exchanges (replyAt replies fail) 0 batches =
      List.zipWith Exchange.mk batches replies := by
  induction batches generalizing replies with
  | nil => rfl
  | cons batch rest ih =>
    cases replies with
    | nil => exact absurd hle (by simp)
    | cons reply replies =>
      obtain ⟨hreply, hreplies⟩ := List.forall_mem_cons.mp hcomplete
      rw [exchanges_reply, if_pos hreply, ih hreplies (Nat.le_of_succ_le_succ hle),
        List.zipWith_cons_cons]

theorem allComplete_zipWith (hcomplete : ∀ r ∈ replies, r.completes = true) :
    allComplete (List.zipWith Exchange.mk batches replies) = true := by
  refine List.all_eq_true.mpr fun exchange hmem => ?_
  rw [← List.map_uncurry_zip_eq_zipWith] at hmem
  obtain ⟨⟨batch, reply⟩, hmem', rfl⟩ := List.mem_map.mp hmem
  exact hcomplete reply (List.of_mem_zip hmem').2

theorem allComplete_short (hcomplete : ∀ r ∈ replies, r.completes = true)
    (hfail : fail.completes = false) (hless : replies.length < batches.length) :
    allComplete (exchanges (replyAt replies fail) 0 batches) = false := by
  induction batches generalizing replies with
  | nil => exact absurd hless (Nat.not_lt_zero _)
  | cons batch rest ih =>
    cases replies with
    | nil => rw [exchanges_silent hfail, allComplete, List.all_cons, hfail, Bool.false_and]
    | cons reply replies =>
      obtain ⟨hreply, hreplies⟩ := List.forall_mem_cons.mp hcomplete
      rw [exchanges_reply, if_pos hreply, allComplete, List.all_cons, hreply, Bool.true_and]
      exact ih hreplies (Nat.lt_of_succ_lt_succ hless)

/-! ## The client -/

theorem exchangeMessages_askFor {batch : List Point} (hne : batch ≠ []) (reply : RangeReply) :
    exchangeMessages ⟨batch, reply⟩ = [askFor batch] := by
  rw [exchangeMessages, List.head?_eq_some_head hne, List.getLast?_eq_some_getLast hne, askFor,
    List.headD_eq_head?_getD, List.getLastD_eq_getLast?, List.head?_eq_some_head hne,
    List.getLast?_eq_some_getLast hne]
  rfl

/-- The messages of a session are the first of its agenda: one more than there are complete
replies. -/
theorem exchanges_agenda (hne : ∀ batch ∈ batches, batch ≠ []) (hfail : fail.completes = false)
    (replies : List RangeReply) :
    (exchanges (replyAt replies fail) 0 batches).flatMap exchangeMessages ++
        (if allComplete (exchanges (replyAt replies fail) 0 batches) then [.clientDone] else []) =
      (agenda batches).take (answeredBefore replies + 1) := by
  induction batches generalizing replies with
  | nil =>
    show [BlockFetchClientMessage.clientDone] = _
    rw [agenda, List.map_nil, List.nil_append, List.take_succ_cons, List.take_nil]
  | cons batch rest ih =>
    obtain ⟨hbatch, hrest⟩ := List.forall_mem_cons.mp hne
    cases replies with
    | nil =>
      rw [exchanges_silent hfail, List.flatMap_singleton, exchangeMessages_askFor hbatch,
        allComplete, List.all_cons, hfail]
      rfl
    | cons reply replies =>
      rw [exchanges_reply, answeredBefore, List.takeWhile_cons]
      by_cases hreply : reply.completes = true
      · rw [if_pos hreply, if_pos hreply, List.flatMap_cons, exchangeMessages_askFor hbatch,
          allComplete, List.all_cons, hreply, Bool.true_and, ← allComplete, List.append_assoc,
          ih hrest]
        rfl
      · rw [if_neg hreply, if_neg hreply, List.flatMap_singleton, exchangeMessages_askFor hbatch,
          allComplete, List.all_cons, Bool.eq_false_of_not_eq_true hreply]
        rfl

end

/-- How a session ends that can send its `ClientDone`. -/
structure FetchEnded (made : List Exchange) (r : Except Fault BlockFetchSummary)
    (s : FetchSession) : Prop where
  sent : s.sent = (made.flatMap exchangeMessages ++
    if allComplete made then [BlockFetchClientMessage.clientDone] else []).map Wire.message
  counted : counts s.locals = (made.map fun exchange => replyCounts exchange.reply).sum
  completes : allComplete made = true → r = .ok ⟨s.locals, "completed"⟩
  fails : allComplete made = false → ∃ reason, r = .error (.err reason)

theorem runBlockFetch_ended (points : List Point) (batchSize : Nat) {replies : BlockFetchReplies}
    (hdone : replies.done = .ok ()) :
    ∃ r s, (runBlockFetch points batchSize replies).run session = (r, s) ∧
      FetchEnded (exchanges replies.range 0 (batchesOf points batchSize)) r s := by
  let started := ((emit (startedEvent points.length (max batchSize 1)) :
    BlockFetchClient Unit).run session).2
  have hstarted : Does session started _ [] 0 :=
    emit_does (startedEvent points.length (max batchSize 1)) session
  have hfetched := fetchBatches_endsWith replies.range
    (Lib.toChunks_ne_nil (n := max batchSize 1) (l := points)) 0 started
  have hbegun : (runBlockFetch points batchSize replies).run session =
      (fetchBatches replies.range 0 (batchesOf points batchSize) >>= fun _ =>
        sendDone replies.done >>= fun _ => finish "completed").run started := rfl
  rw [← batchesOf] at hfetched
  generalize exchanges replies.range 0 (batchesOf points batchSize) = made at hfetched ⊢
  cases hcomplete : allComplete made with
  | true =>
    rw [hcomplete] at hfetched
    obtain ⟨s₂, hrun₂, hdoes₂⟩ := hfetched
    have hall := hstarted.trans hdoes₂
    refine ⟨.ok ⟨s₂.locals, "completed"⟩,
      ((finish "completed").run ((sendDone (.ok ())).run s₂).2).2, ?_, ?_, ?_, fun _ => rfl,
      fun h => absurd (hcomplete.symm.trans h) (by decide)⟩
    · rw [hbegun, Prog.run_bind_ok hrun₂, hdone]
      rfl
    · have hsent : s₂.sent = (made.flatMap exchangeMessages).map Wire.message := hall.messages
      show s₂.sent ++ [Wire.message .clientDone] = _
      rw [hsent, if_pos hcomplete, List.map_append]
      rfl
    · show counts s₂.locals = _
      rw [hall.counted, zero_add]
      exact zero_add _
  | false =>
    rw [hcomplete] at hfetched
    obtain ⟨s₂, reason, hrun₂, hdoes₂⟩ := hfetched
    have hall := hstarted.trans hdoes₂
    refine ⟨.error (.err reason), s₂, hbegun.trans (Prog.run_bind_error hrun₂), ?_, ?_,
      fun h => absurd (hcomplete.symm.trans h) (by decide), fun _ => ⟨reason, rfl⟩⟩
    · have hsent : s₂.sent = (made.flatMap exchangeMessages).map Wire.message := hall.messages
      rw [hsent, hcomplete, if_neg Bool.false_ne_true, List.append_nil]
    · rw [hall.counted, zero_add]
      exact zero_add _

section

variable (lib : BlockFetchLibrary) (silence : String)

/-- More has been answered once more has been heard. -/
theorem answeredBefore_mono (bodies : Option (List (List UInt8)))
    {heard more : List (Wire BlockFetchMessage)} (h : heard <+: more) :
    answeredBefore (lib.rangeReplies silence bodies heard) ≤
      answeredBefore (lib.rangeReplies silence bodies more) := by
  obtain ⟨rest, rfl⟩ := h
  induction heard generalizing bodies with
  | nil => cases bodies <;> exact Nat.zero_le _
  | cons m heard ih =>
    rw [List.cons_append]
    cases bodies with
    | none =>
      rw [BlockFetchLibrary.rangeReplies, BlockFetchLibrary.rangeReplies]
      rcases lib.answer m with message | _ | _
      · exact Nat.le_refl _
      · exact Nat.succ_le_succ (ih none)
      · exact ih (some [])
    | some bodies =>
      rw [BlockFetchLibrary.rangeReplies, BlockFetchLibrary.rangeReplies]
      rcases lib.block m with message | _ | body
      · exact Nat.le_refl _
      · exact Nat.succ_le_succ (ih none)
      · exact ih (some (bodies ++ [body]))

/-- The session of a client that has heard these messages. -/
def fetchedBy (points : List Point) (batchSize : Nat) (heard : List (Wire BlockFetchMessage)) :
    Except Fault BlockFetchSummary × FetchSession :=
  (runBlockFetch points batchSize (lib.replies silence (.ok ()) heard)).run session

/-- **The client keeps to its agenda**: it has said one message more than it has heard complete
replies. -/
theorem fetchedBy_sent (points : List Point) (batchSize : Nat)
    (heard : List (Wire BlockFetchMessage)) :
    (fetchedBy lib silence points batchSize heard).2.sent =
      ((agenda (batchesOf points batchSize)).take
        (answeredBefore (lib.rangeReplies silence none heard) + 1)).map Wire.message := by
  obtain ⟨r, s, hrun, hended⟩ := runBlockFetch_ended points batchSize
    (show (lib.replies silence (.ok ()) heard).done = .ok () from rfl)
  rw [fetchedBy, hrun, hended.sent]
  exact congrArg (List.map Wire.message) (exchanges_agenda
    (fun _ => Lib.toChunks_ne_nil _) rfl (lib.rangeReplies silence none heard))

/-- The client. -/
def fetchClientParty (points : List Point) (batchSize : Nat) :
    Party (Wire BlockFetchMessage) BlockFetchClientMessage where
  tells heard := onWire some (fetchedBy lib silence points batchSize heard).2.sent
  takesNothingBack := by
    intro heard more h
    rw [fetchedBy_sent, fetchedBy_sent, onWire_messages, onWire_messages]
    exact List.take_prefix_take_left (Nat.succ_le_succ (answeredBefore_mono lib silence none h))

theorem fetchClient_tells (points : List Point) (batchSize : Nat)
    (heard : List (Wire BlockFetchMessage)) :
    (fetchClientParty lib silence points batchSize).tells heard =
      (agenda (batchesOf points batchSize)).take
        (answeredBefore (lib.rangeReplies silence none heard) + 1) :=
  (congrArg (onWire some) (fetchedBy_sent lib silence points batchSize heard)).trans
    (onWire_messages _)

end

/-! ## The server -/

section

open BlockFetch

variable {rules : List ScriptRule} {fixture : Option BlockFixtureChain} {ruleIdx pos : Nat}
  {rule : ScriptRule} {request : BlockFetchRequest}

/-- A range has been asked for, and counted. -/
def rangeCounted (request : BlockFetchRequest) (s : BlockFetchSession) : BlockFetchSession :=
  ((update fun c => { c with rangeRequests := c.rangeRequests + 1 } :
    BlockFetchServer Unit).run ((receive request).run s).2).2

/-- And the rule at `pos` has been counted for it. -/
def fetchTurnTo (request : BlockFetchRequest) (pos : Nat) (rule : ScriptRule)
    (s : BlockFetchSession) : BlockFetchSession :=
  ((applyRule pos rule).run (rangeCounted request s)).2

/-- **One turn of the loop**: the send is performed, and the loop stops with it or goes on. -/
theorem fetchLoop_turn (hdone : request ≠ .clientDone)
    (hnext : nextRule request.matchesOn ruleIdx (rules.drop ruleIdx) = some (pos, rule))
    (incoming : List BlockFetchRequest) (s : BlockFetchSession) :
    (serveLoop rules fixture ruleIdx (request :: incoming)).run s =
      match (executeSend rule.send request fixture (fetchTurnTo request pos rule s).state).run
        (fetchTurnTo request pos rule s) with
      | (.error f, s') => (.error f, s')
      | (.ok true, s') => (.ok (), s')
      | (.ok false, s') =>
        (serveLoop rules fixture (if rule.repeatable then ruleIdx else pos + 1) incoming).run
          s' := by
  have hreceive : (receive request).run s = (.ok (), ((receive request).run s).2) := rfl
  have hasked : (update fun c => { c with rangeRequests := c.rangeRequests + 1 } :
      BlockFetchServer Unit).run ((receive request).run s).2 =
        (.ok (), rangeCounted request s) := rfl
  have happly : (applyRule pos rule).run (rangeCounted request s) =
      (.ok (), fetchTurnTo request pos rule s) := rfl
  rw [serveLoop, Prog.run_bind_ok hreceive, if_neg hdone, Prog.run_bind_ok hasked, hnext]
  dsimp only
  rw [Prog.run_bind_ok happly, Prog.run_get_bind, Prog.run_bind]
  rcases (executeSend rule.send request fixture (fetchTurnTo request pos rule s).state).run
    (fetchTurnTo request pos rule s) with ⟨_ | done, s'⟩
  · rfl
  · cases done <;> rfl

variable (rules fixture)

/-- What has been sent stays sent. -/
theorem fetchLoop_sent (ruleIdx : Nat) (incoming : List BlockFetchRequest)
    (s : BlockFetchSession) :
    s.sent <+: ((serveLoop rules fixture ruleIdx incoming).run s).2.sent :=
  serveLoop_within keepsParts_sent.toKeeps (fun _ => keepsParts_sent.update)
    (blockFetch_receive_parts keepsParts_sent)
    (fun _ _ send _ _ s => executeSingleSend_parts keepsParts_sent send s) ruleIdx incoming s

/-- A server that goes on hearing goes on from where it was. -/
theorem fetchLoop_mono (incoming more : List BlockFetchRequest) (ruleIdx : Nat)
    (s : BlockFetchSession) :
    ((serveLoop rules fixture ruleIdx incoming).run s).2.sent <+:
      ((serveLoop rules fixture ruleIdx (incoming ++ more)).run s).2.sent := by
  induction incoming generalizing ruleIdx s with
  | nil => exact fetchLoop_sent rules fixture ruleIdx more s
  | cons request incoming ih =>
    rw [List.cons_append]
    by_cases hdone : request = .clientDone
    · rw [serveLoop, serveLoop, if_pos hdone, if_pos hdone]
    · rcases hnext : nextRule request.matchesOn ruleIdx (rules.drop ruleIdx) with _ | ⟨pos, rule⟩
      · rw [serveLoop, serveLoop, if_neg hdone, if_neg hdone, hnext]
      · rw [fetchLoop_turn hdone hnext, fetchLoop_turn hdone hnext]
        rcases (executeSend rule.send request fixture (fetchTurnTo request pos rule s).state).run
          (fetchTurnTo request pos rule s) with ⟨f | done, s'⟩
        · exact List.prefix_rfl
        · cases done with
          | true => exact List.prefix_rfl
          | false => exact ih _ _

/-- The session of a server that has heard these messages. -/
def blocksServedTo (heard : List BlockFetchClientMessage) :
    Except Fault BlockFetchServerSummary × BlockFetchSession :=
  (executeBlockFetchScript rules fixture (heard.map BlockFetchClientMessage.received)).run
    BlockFetch.session

/-- The session, when the server begins to listen. -/
def fetchStarted : BlockFetchSession :=
  ((emit (startedEvent rules fixture) : BlockFetchServer Unit).run BlockFetch.session).2

/-- A session is its loop, and a summary if that returns. -/
theorem blocksServedTo_loop (heard : List BlockFetchClientMessage) :
    let loop := (serveLoop rules fixture 0 (heard.map BlockFetchClientMessage.received)).run
      (fetchStarted rules fixture)
    (blocksServedTo rules fixture heard).2.sent = loop.2.sent ∧
      (blocksServedTo rules fixture heard).1 =
        loop.1.map fun _ => ⟨loop.2.locals, "completed"⟩ := by
  have hstarted : (emit (startedEvent rules fixture) : BlockFetchServer Unit).run
      BlockFetch.session = (.ok (), fetchStarted rules fixture) := rfl
  rw [blocksServedTo, executeBlockFetchScript, Prog.run_bind_ok hstarted, Prog.run_bind]
  rcases (serveLoop rules fixture 0 (heard.map BlockFetchClientMessage.received)).run
    (fetchStarted rules fixture) with ⟨f | _, s'⟩ <;> exact ⟨rfl, rfl⟩

/-- The server. -/
def fetchServerParty : Party BlockFetchClientMessage (Wire BlockFetchMessage) where
  tells heard := (blocksServedTo rules fixture heard).2.sent
  takesNothingBack := by
    intro heard more h
    obtain ⟨rest, rfl⟩ := h
    rw [(blocksServedTo_loop rules fixture heard).1,
      (blocksServedTo_loop rules fixture (heard ++ rest)).1, List.map_append]
    exact fetchLoop_mono rules fixture _ _ _ _

end

end Proof

end ConformanceHarness
