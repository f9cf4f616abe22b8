import ConformanceHarness.Lib.Quota
import ConformanceHarness.Proof.Capture
import ConformanceHarness.Proof.ClientParts
import ConformanceHarness.Proof.ClientRuns
import Mathlib.Data.UInt

/-!
# The account of a Chain-Sync session

`run_chain_sync` asks for an intersection, and then for one response after another until it has
as many headers as it wants. Going back brings no header, so there can be more responses than
that. The session is put together from its exchanges: the messages it sends, the events in its
trace and the counters of its summary.
-/

namespace ConformanceHarness

open ConformanceHarness.Lib (Prog)
open ConformanceHarness.Lib.Quota

/-- A response that counts towards the headers wanted. -/
def ChainSyncEvent.isForward : ChainSyncEvent → Bool
  | .rollForward _ _ => true
  | .rollBackward _ _ => false

/-- The point of a header. -/
def CapturedHeader.point (h : CapturedHeader) : Point := .specific h.slot h.blockHash

instance : Add ChainSyncProgress where
  add l m := {
    headersReceived := l.headersReceived + m.headersReceived
    rollbacks := l.rollbacks + m.rollbacks
    messagesSent := l.messagesSent + m.messagesSent
    messagesReceived := l.messagesReceived + m.messagesReceived
    collectedPoints := l.collectedPoints ++ m.collectedPoints
    capturedHeaders := l.capturedHeaders ++ m.capturedHeaders }

namespace ChainSyncClient

/-- A session of the Chain-Sync client. -/
abbrev SyncSession := Session Unit ChainSyncProgress ChainSyncRequest Unit

/-! ## One exchange -/

/-- The event of a request. -/
def requestEvent (received : UInt64) : TraceEvent :=
  wireEvent .chainSyncRequestNext .sent
    (.object [("headers_received_so_far", .ofU64 received)]) "Idle" "CanAwait"

/-- The event of a response. -/
def responseEvent : ChainSyncEvent → TraceEvent
  | .rollForward header tip =>
    wireEvent .chainSyncRollForward .received (rollForwardPayload header tip) "CanAwait" "Idle"
  | .rollBackward point tip =>
    wireEvent .chainSyncRollBackward .received
      (.object [("rollback_to", formatNcPoint point), ("tip", formatNcTip tip)]) "CanAwait" "Idle"

/-- The local variables once a request has been sent. -/
def afterRequest (l : ChainSyncProgress) : ChainSyncProgress :=
  { l with messagesSent := l.messagesSent + 1 }

/-- The local variables after a response. -/
def afterResponse (l : ChainSyncProgress) : ChainSyncEvent → ChainSyncProgress
  | .rollForward header _ => extractAndCapture header { l with
      messagesReceived := l.messagesReceived + 1, headersReceived := l.headersReceived + 1 }
  | .rollBackward _ _ => { l with
      messagesReceived := l.messagesReceived + 1, rollbacks := l.rollbacks + 1 }

/-- The events of some exchanges. -/
def exchangesEvents : UInt64 → List ChainSyncEvent → List TraceEvent
  | _, [] => []
  | received, event :: rest =>
    requestEvent received :: responseEvent event ::
      exchangesEvents (Proof.receivedAfter received event) rest

/-- The local variables after some exchanges. -/
def afterExchanges (l : ChainSyncProgress) (events : List ChainSyncEvent) : ChainSyncProgress :=
  events.foldl (fun l event => afterResponse (afterRequest l) event) l

/-- The event of the question for an intersection. -/
def findIntersectEvent (points : List Point) : TraceEvent :=
  wireEvent .chainSyncFindIntersect .sent
    (.object [("points", .array (points.map formatPoint))]) "Idle" "Intersect"

/-- The event of the answer to it. -/
def intersectEvent : Except String (Option (NcPoint × NcTip)) → TraceEvent
  | .ok (some (point, tip)) => wireEvent .chainSyncIntersectFound .received
      (.object [("point", formatNcPoint point), ("tip", formatNcTip tip)]) "Intersect" "Idle"
  | .ok none => wireEvent .chainSyncIntersectNotFound .received (.object []) "Intersect" "Idle"
  | .error message => clientError miniProtocol "find_intersect" message

/-- The event of `MsgDone`. -/
def doneEvent : TraceEvent := wireEvent .chainSyncDone .sent (.object []) "Idle" "Done"

/-- The responses a session takes, if the question for an intersection is answered. -/
def responsesTaken (count : UInt64) (incoming : List ChainSyncEvent) : List ChainSyncEvent :=
  taken ChainSyncEvent.isForward count.toNat incoming

/-- There are too few headers. -/
def RunsShort (count : UInt64) (incoming : List ChainSyncEvent) : Prop :=
  Short ChainSyncEvent.isForward count.toNat incoming

instance (count : UInt64) (incoming : List ChainSyncEvent) : Decidable (RunsShort count incoming) :=
  inferInstanceAs (Decidable (_ < _))

/-- How a session ends: with a last message, some events before its summary, and the local
variables, the exit reason and the error, if there is one, that it ends with. -/
structure SyncClosing where
  messages : List ChainSyncRequest
  events : List TraceEvent
  locals : ChainSyncProgress
  exitReason : String
  failed : Option String

/-- What a session comes to if there are too few headers: it has asked once more. -/
def closingShort (ending : NoReply) (l : ChainSyncProgress) : SyncClosing :=
  let requested := requestEvent l.headersReceived
  match ending with
  | .timeout => {
      messages := [.requestNext], events := [requested], locals := afterRequest l
      exitReason := "await_timeout", failed := none }
  | .error message => {
      messages := [.requestNext]
      events := [requested, clientError miniProtocol "request_next" message]
      locals := afterRequest l, exitReason := "error"
      failed := some s!"request_next failed: {message}" }

/-- What it comes to if there are enough. -/
def closingEnough (done : Except String Unit) (l : ChainSyncProgress) : SyncClosing :=
  match done with
  | .ok () => {
      messages := [.done], events := [doneEvent], locals := afterRequest l
      exitReason := "completed", failed := none }
  | .error message => {
      messages := [], events := [clientError miniProtocol "send_done" message]
      locals := l, exitReason := "completed", failed := none }

/-- The summary of a session that ends so. -/
def SyncClosing.summary (c : SyncClosing) : ChainSyncSummary := ⟨c.locals, false, c.exitReason⟩

/-- What the session returns. -/
def SyncClosing.result (c : SyncClosing) : Except Fault ChainSyncSummary :=
  match c.failed with
  | none => .ok c.summary
  | some reason => bail reason

/-- The local variables once the question for an intersection is answered. -/
def answered : ChainSyncProgress := ⟨0, 0, 1, 1, [], []⟩

/-- What a session comes to, if the question is answered. -/
def closing (count : UInt64) (replies : ChainSyncReplies) : SyncClosing :=
  let l := afterExchanges answered (responsesTaken count replies.incoming)
  if RunsShort count replies.incoming then closingShort replies.ending l
  else closingEnough replies.done l

/-- The messages it sends: a request for each response it takes and for one that does not come,
and `MsgDone` if it has enough headers and the message can be sent. -/
def requestsSent (points : List Point) (count : UInt64) (replies : ChainSyncReplies) :
    List ChainSyncRequest :=
  .findIntersect (points.map toNcPoint) :: (match replies.intersect with
    | .error _ => []
    | .ok _ =>
      List.replicate (asked ChainSyncEvent.isForward count.toNat replies.incoming) .requestNext ++
        if ¬ RunsShort count replies.incoming ∧ replies.done = .ok () then [.done] else [])

/-- The events it writes, up to its summary, if it writes one. -/
def eventsWritten (points : List Point) (count : UInt64) (replies : ChainSyncReplies) :
    List TraceEvent :=
  startedEvent count :: findIntersectEvent points :: intersectEvent replies.intersect ::
    (match replies.intersect with
    | .error _ => []
    | .ok _ =>
      exchangesEvents 0 (responsesTaken count replies.incoming) ++ (closing count replies).events)

/-- What is counted and collected in some exchanges. -/
def gained (events : List ChainSyncEvent) : ChainSyncProgress where
  headersReceived := UInt64.ofNat (events.countP ChainSyncEvent.isForward)
  rollbacks := UInt64.ofNat (events.countP fun event => !event.isForward)
  messagesSent := UInt64.ofNat events.length
  messagesReceived := UInt64.ofNat events.length
  collectedPoints := (Proof.capturedFrom events).map CapturedHeader.point
  capturedHeaders := Proof.capturedFrom events

/-- How many events of a kind there are. -/
def ofKind (kind : EventKind) (events : List TraceEvent) : Nat :=
  events.countP fun event => event.kind == kind

/-- How many events have a direction. -/
def inDirection (direction : Direction) (events : List TraceEvent) : Nat :=
  events.countP fun event => event.direction == direction

end ChainSyncClient

namespace Proof

open ChainSyncClient
open Session

section

variable {s : SyncSession} {count : UInt64}

theorem requestNext_goes (s : SyncSession) : requestNext.run s = (.ok (), (requestNext.run s).2) ∧
    Goes s (requestNext.run s).2 [requestEvent s.locals.headersReceived] [.requestNext]
      afterRequest :=
  ⟨rfl, (Goes.emit _ s).trans ((Goes.update afterRequest _).trans (Goes.sendMessage _ _))⟩

theorem receive_goes (event : ChainSyncEvent) (s : SyncSession) :
    ∃ s', (receive event).run s = (.ok (), s') ∧
      Goes s s' [responseEvent event] [] (fun l => afterResponse l event) := by
  let received := fun l : ChainSyncProgress =>
    { l with messagesReceived := l.messagesReceived + 1 }
  cases event with
  | rollForward header tip =>
    let collect := fun l : ChainSyncProgress =>
      extractAndCapture header { l with headersReceived := l.headersReceived + 1 }
    exact ⟨_, rfl,
      (Goes.update received s).trans ((Goes.update collect _).trans (Goes.emit _ _))⟩
  | rollBackward point tip =>
    let rolledBack := fun l : ChainSyncProgress => { l with rollbacks := l.rollbacks + 1 }
    exact ⟨_, rfl,
      (Goes.update received s).trans ((Goes.update rolledBack _).trans (Goes.emit _ _))⟩

theorem headersReceived_afterResponse (l : ChainSyncProgress) (event : ChainSyncEvent) :
    (afterResponse l event).headersReceived = receivedAfter l.headersReceived event := by
  cases event with
  | rollForward header tip => exact (extractAndCapture_spec header _).2
  | rollBackward point tip => rfl

/-- How many headers are still wanted after a response. -/
theorem wanted_after {received : UInt64} (h : received < count) (event : ChainSyncEvent) :
    count.toNat - (receivedAfter received event).toNat =
      if event.isForward then count.toNat - received.toNat - 1
      else count.toNat - received.toNat := by
  rw [UInt64.lt_iff_toNat_lt] at h
  cases event with
  | rollBackward point tip => rfl
  | rollForward header tip =>
    have hlt := count.toNat_lt
    have hnext : (received + 1).toNat = received.toNat + 1 := by
      rw [UInt64.toNat_add]
      exact Nat.mod_eq_of_lt (by have : (1 : UInt64).toNat = 1 := rfl; omega)
    show count.toNat - (received + 1).toNat = _
    rw [hnext]
    rfl

/-- **The loop takes its responses**, and asks once more if there are too few. -/
theorem requestLoop_goes (count : UInt64) (ending : NoReply) (incoming : List ChainSyncEvent)
    (s : SyncSession)
    {n : Nat} (hn : count.toNat - s.locals.headersReceived.toNat = n) :
    ∃ s', Goes s s'
        (exchangesEvents s.locals.headersReceived (taken ChainSyncEvent.isForward n incoming))
        (List.replicate (taken ChainSyncEvent.isForward n incoming).length .requestNext)
        (fun l => afterExchanges l (taken ChainSyncEvent.isForward n incoming)) ∧
      (requestLoop count ending incoming).run s =
        if Short ChainSyncEvent.isForward n incoming then
          (requestNext >>= fun _ => noReply ending).run s'
        else (.ok none, s') := by
  induction incoming generalizing s n with
  | nil =>
    refine ⟨s, ?_, ?_⟩
    · rw [taken_nil]
      exact Goes.refl s
    · rw [requestLoop, Prog.run_get_bind]
      by_cases hless : s.locals.headersReceived < count
      · have hlt := UInt64.lt_iff_toNat_lt.mp hless
        rw [if_pos hless, if_pos (short_nil.mpr (by omega))]
      · have hle := mt UInt64.lt_iff_toNat_lt.mpr hless
        rw [if_neg hless, if_neg (mt short_nil.mp (by omega))]
        rfl
  | cons event incoming ih =>
    rw [requestLoop, Prog.run_get_bind]
    by_cases hless : s.locals.headersReceived < count
    · obtain ⟨m, rfl⟩ : ∃ m, n = m + 1 := by
        rw [UInt64.lt_iff_toNat_lt] at hless
        exact ⟨n - 1, by omega⟩
      have hwanted := wanted_after hless event
      rw [hn, Nat.add_sub_cancel] at hwanted
      obtain ⟨hrequest, hgoes₁⟩ := requestNext_goes s
      obtain ⟨s₂, hreceive, hgoes₂⟩ := receive_goes event (requestNext.run s).2
      have hgoes := hgoes₁.trans hgoes₂
      have hreceived : s₂.locals.headersReceived =
          receivedAfter s.locals.headersReceived event := by
        rw [hgoes.locals, Function.comp_apply, headersReceived_afterResponse]
        rfl
      obtain ⟨s', hrest, hrun⟩ := ih s₂ (by rw [hreceived, hwanted])
      rw [hreceived] at hrest
      refine ⟨s', hgoes.trans hrest, ?_⟩
      rw [if_pos hless, Prog.run_bind_ok hrequest, Prog.run_bind_ok hreceive, hrun]
      exact if_congr short_cons.symm rfl rfl
    · have hzero : n = 0 := by
        rw [UInt64.lt_iff_toNat_lt] at hless
        omega
      subst hzero
      refine ⟨s, ?_, ?_⟩
      · rw [taken_zero]
        exact Goes.refl s
      · rw [if_neg hless, if_neg not_short_zero]
        rfl

/-! ## Whole sessions -/

/-- The session ends so. -/
structure EndsSo (c : SyncClosing) (s : SyncSession)
    (r : Except Fault ChainSyncSummary × SyncSession) : Prop where
  result : r.1 = c.result
  goes : Goes s r.2 (c.events ++ [summaryEvent c.summary]) c.messages (fun _ => c.locals)

/-- The part of a session after its loop. -/
def afterLoop (done : Except String Unit) :
    Option ChainSyncSummary → ChainSyncClient ChainSyncSummary
  | some summary => return summary
  | none => do
    sendDone done
    finish "completed"

theorem noReply_endsSo (done : Except String Unit) (ending : NoReply) (s : SyncSession) :
    EndsSo (closingShort ending s.locals) s
      ((requestNext >>= fun _ => noReply ending >>= afterLoop done).run s) := by
  have hrequest := (requestNext_goes s).2
  cases ending with
  | timeout => exact ⟨rfl, (hrequest.trans (Goes.emit _ _)).locals_eq rfl⟩
  | error message =>
    exact ⟨rfl, (hrequest.trans ((Goes.emit _ _).trans (Goes.emit _ _))).locals_eq rfl⟩

theorem sendDone_endsSo (done : Except String Unit) (s : SyncSession) :
    EndsSo (closingEnough done s.locals) s
      ((sendDone done >>= fun _ => ChainSyncClient.finish "completed").run s) := by
  cases done with
  | error message => exact ⟨rfl, ((Goes.emit _ s).trans (Goes.emit _ _)).locals_eq rfl⟩
  | ok a =>
    have hsent := (Goes.update afterRequest s).trans (Goes.sendMessage .done _)
    exact ⟨rfl, (hsent.trans ((Goes.emit _ _).trans (Goes.emit _ _))).locals_eq rfl⟩

/-! ## Whole sessions -/

/-- How a session asks. -/
theorem ask_goes (points : List Point) (s : SyncSession) :
    Goes s ((askIntersection points).run s).2 [findIntersectEvent points]
      [.findIntersect (points.map toNcPoint)] afterRequest :=
  (Goes.emit _ s).trans ((Goes.update afterRequest _).trans (Goes.sendMessage _ _))

theorem findIntersection_failed (points : List Point) (message : String) (s : SyncSession) :
    ∃ s', (findIntersection points (.error message)).run s =
        (bail s!"find_intersect failed: {message}", s') ∧
      Goes s s' [findIntersectEvent points, intersectEvent (.error message)]
        [.findIntersect (points.map toNcPoint)] afterRequest :=
  ⟨_, rfl, (ask_goes points s).trans (Goes.emit _ _)⟩

theorem findIntersection_answered (points : List Point) (found : Option (NcPoint × NcTip))
    (s : SyncSession) :
    ∃ s', (findIntersection points (.ok found)).run s = (.ok (), s') ∧
      Goes s s' [findIntersectEvent points, intersectEvent (.ok found)]
        [.findIntersect (points.map toNcPoint)]
        (fun l => { afterRequest l with messagesReceived := l.messagesReceived + 1 }) := by
  let received := fun l : ChainSyncProgress =>
    { l with messagesReceived := l.messagesReceived + 1 }
  have hasked := ask_goes points s
  cases found with
  | none => exact ⟨_, rfl, hasked.trans ((Goes.update received _).trans (Goes.emit _ _))⟩
  | some found => exact ⟨_, rfl, hasked.trans ((Goes.update received _).trans (Goes.emit _ _))⟩

variable {points : List Point} {replies : ChainSyncReplies}

theorem runChainSync_eq : (runChainSync points count replies).run session =
    (findIntersection points replies.intersect >>= fun _ =>
      requestLoop count replies.ending replies.incoming >>= afterLoop replies.done).run
        ((emit (startedEvent count)).run session).2 := rfl

/-- **A session whose question fails** has asked it, and nothing else. -/
theorem runChainSync_failed (points : List Point) (count : UInt64) {message : String}
    (h : replies.intersect = .error message) :
    ∃ s, (runChainSync points count replies).run session =
        (bail s!"find_intersect failed: {message}", s) ∧
      Goes session s (eventsWritten points count replies) (requestsSent points count replies)
        afterRequest := by
  obtain ⟨s, hrun, hgoes⟩ := findIntersection_failed points message
    ((emit (startedEvent count)).run session).2
  refine ⟨s, ?_, ?_⟩
  · rw [runChainSync_eq, h]
    exact Prog.run_bind_error hrun
  · rw [eventsWritten, requestsSent, h]
    exact (Goes.emit _ session).trans hgoes

/-- The messages at the end of a session are the last of its requests and its `MsgDone`. -/
theorem closing_messages : List.replicate (responsesTaken count replies.incoming).length
      .requestNext ++ (closing count replies).messages =
    List.replicate (asked ChainSyncEvent.isForward count.toNat replies.incoming) .requestNext ++
      if ¬ RunsShort count replies.incoming ∧ replies.done = .ok () then [.done] else [] := by
  by_cases hshort : RunsShort count replies.incoming
  · have hasked : asked ChainSyncEvent.isForward count.toNat replies.incoming =
        (responsesTaken count replies.incoming).length + 1 := congrArg _ (if_pos hshort)
    have hlast : (closing count replies).messages = [.requestNext] := by
      rw [closing, if_pos hshort]
      cases replies.ending <;> rfl
    rw [hasked, hlast, if_neg (fun h => h.1 hshort), List.append_nil, List.replicate_succ']
  · have hasked : asked ChainSyncEvent.isForward count.toNat replies.incoming =
        (responsesTaken count replies.incoming).length := congrArg _ (if_neg hshort)
    rw [hasked, closing, if_neg hshort]
    cases hdone : replies.done with
    | error message => rw [if_neg (fun h => nomatch h.2)]; rfl
    | ok a => rw [if_pos ⟨hshort, rfl⟩]; rfl

/-- **A session whose question is answered** takes its responses and ends as it does. -/
theorem runChainSync_answered (points : List Point) (count : UInt64)
    {found : Option (NcPoint × NcTip)} (h : replies.intersect = .ok found) :
    ∃ s, (runChainSync points count replies).run session = ((closing count replies).result, s) ∧
      Goes session s
        (eventsWritten points count replies ++ [summaryEvent (closing count replies).summary])
        (requestsSent points count replies) (fun _ => (closing count replies).locals) := by
  obtain ⟨s₁, hintersect, hgoes₁⟩ := findIntersection_answered points found
    ((emit (startedEvent count)).run session).2
  have hopened := (Goes.emit (startedEvent count) session).trans hgoes₁
  have hlocals : s₁.locals = answered := hopened.locals
  obtain ⟨s₂, hgoes₂, hloop⟩ := requestLoop_goes count replies.ending replies.incoming s₁
    (show count.toNat - s₁.locals.headersReceived.toNat = count.toNat by rw [hlocals]; rfl)
  have htaken := hopened.trans hgoes₂
  have hends : EndsSo (closing count replies) s₂
      ((requestLoop count replies.ending replies.incoming >>= afterLoop replies.done).run s₁) := by
    have hend : s₂.locals = afterExchanges answered (responsesTaken count replies.incoming) := by
      rw [hgoes₂.locals, hlocals]
      rfl
    rw [closing, ← hend, Prog.run_bind]
    by_cases hshort : RunsShort count replies.incoming
    · rw [if_pos hshort, hloop.trans (if_pos hshort), ← Prog.run_bind, Prog.bind_assoc]
      exact noReply_endsSo replies.done replies.ending s₂
    · rw [if_neg hshort, hloop.trans (if_neg hshort)]
      exact sendDone_endsSo replies.done s₂
  rcases hrest : (requestLoop count replies.ending replies.incoming >>=
    afterLoop replies.done).run s₁ with ⟨r, s⟩
  rw [hrest] at hends
  obtain ⟨rfl, hgoes₃⟩ := hends
  have hall := (htaken.trans hgoes₃).locals_eq rfl
  refine ⟨s, ?_, ?_⟩
  · rw [runChainSync_eq, h, Prog.run_bind_ok hintersect]
    exact hrest
  · rw [hlocals] at hall
    rw [eventsWritten, requestsSent, h, ← closing_messages]
    simp only [List.append_assoc, List.cons_append, List.nil_append] at hall ⊢
    exact hall

end

/-! ## The counters -/

theorem extractAndCapture_eq (header : WrappedHeader) (l : ChainSyncProgress) :
    extractAndCapture header l = { l with
      collectedPoints :=
        l.collectedPoints ++ (capturedOf header).toList.map CapturedHeader.point
      capturedHeaders := l.capturedHeaders ++ (capturedOf header).toList } := by
  unfold extractAndCapture capturedOf
  cases header.parsed with
  | none => simp
  | some info =>
    cases header.point with
    | none => simp
    | some point => cases point <;> simp [CapturedHeader.point]

theorem progress_add_assoc (l m n : ChainSyncProgress) : l + m + n = l + (m + n) := by
  show ChainSyncProgress.mk _ _ _ _ _ _ = ChainSyncProgress.mk _ _ _ _ _ _
  congr 1 <;> first | exact UInt64.add_assoc _ _ _ | exact List.append_assoc _ _ _

theorem progress_add_nil (l : ChainSyncProgress) : l + gained [] = l := by
  show ChainSyncProgress.mk _ _ _ _ _ _ = _
  congr 1 <;> first | exact UInt64.add_zero _ | exact List.append_nil _

theorem gained_cons (event : ChainSyncEvent) (rest : List ChainSyncEvent) :
    gained (event :: rest) = gained [event] + gained rest := by
  have hcount : ∀ p : ChainSyncEvent → Bool, UInt64.ofNat ((event :: rest).countP p) =
      UInt64.ofNat ([event].countP p) + UInt64.ofNat (rest.countP p) := by
    intro p
    rw [← UInt64.ofNat_add, ← List.countP_append]
    rfl
  have hlength : UInt64.ofNat (event :: rest).length =
      UInt64.ofNat [event].length + UInt64.ofNat rest.length := by
    rw [← UInt64.ofNat_add, ← List.length_append]
    rfl
  show ChainSyncProgress.mk _ _ _ _ _ _ = ChainSyncProgress.mk _ _ _ _ _ _
  rw [hcount, hcount, hlength, capturedFrom_cons, List.map_append]
  rfl

theorem afterExchange_eq (event : ChainSyncEvent) (l : ChainSyncProgress) :
    afterResponse (afterRequest l) event = l + gained [event] := by
  cases event with
  | rollForward header tip =>
    have hcaptured : capturedFrom [.rollForward header tip] = (capturedOf header).toList := by
      cases hheader : capturedOf header <;>
        simp [capturedFrom, response, hheader, Lib.forwards]
    rw [afterResponse, extractAndCapture_eq, gained, hcaptured]
    show ChainSyncProgress.mk _ _ _ _ _ _ = ChainSyncProgress.mk _ _ _ _ _ _
    congr 1
    exact (UInt64.add_zero _).symm
  | rollBackward point tip =>
    show ChainSyncProgress.mk _ _ _ _ _ _ = ChainSyncProgress.mk _ _ _ _ _ _
    congr 1
    · exact (UInt64.add_zero _).symm
    · exact (List.append_nil _).symm
    · exact (List.append_nil _).symm

/-- **What exchanges make of the local variables.** -/
theorem afterExchanges_eq (events : List ChainSyncEvent) (l : ChainSyncProgress) :
    afterExchanges l events = l + gained events := by
  induction events generalizing l with
  | nil => exact (progress_add_nil l).symm
  | cons event rest ih =>
    have hnext : afterExchanges l (event :: rest) =
        afterExchanges (afterResponse (afterRequest l) event) rest := rfl
    rw [hnext, ih, afterExchange_eq, gained_cons event rest, progress_add_assoc]

/-- The events of some exchanges that pass a test. -/
theorem countP_exchangesEvents {q : TraceEvent → Bool} (asks : Bool) (p : ChainSyncEvent → Bool)
    (hrequest : ∀ received, q (requestEvent received) = asks)
    (hresponse : ∀ event, q (responseEvent event) = p event) (received : UInt64)
    (events : List ChainSyncEvent) :
    (exchangesEvents received events).countP q =
      (if asks then events.length else 0) + events.countP p := by
  induction events generalizing received with
  | nil => cases asks <;> rfl
  | cons event rest ih =>
    rw [exchangesEvents, List.countP_cons, List.countP_cons, ih, hrequest, hresponse,
      List.countP_cons, List.length_cons]
    cases asks <;> simp only [Bool.false_eq_true, if_false, if_true] <;> omega

/-- The responses of an exchange are received, its requests are sent. -/
theorem inDirection_exchanges (received : UInt64) (events : List ChainSyncEvent) :
    inDirection .sent (exchangesEvents received events) = events.length ∧
      inDirection .received (exchangesEvents received events) = events.length := by
  constructor
  · rw [inDirection, countP_exchangesEvents true (fun _ => false) (fun _ => rfl)
      (fun event => by cases event <;> rfl)]
    simp
  · rw [inDirection, countP_exchangesEvents false (fun _ => true) (fun _ => rfl)
      (fun event => by cases event <;> rfl)]
    simp

/-- The kinds of the responses tell how many there are. -/
theorem ofKind_exchanges (received : UInt64) (events : List ChainSyncEvent) :
    ofKind .chainSyncRollForward (exchangesEvents received events) =
        events.countP ChainSyncEvent.isForward ∧
      ofKind .chainSyncRollBackward (exchangesEvents received events) =
        events.countP (fun event => !event.isForward) := by
  constructor
  · rw [ofKind, countP_exchangesEvents false ChainSyncEvent.isForward
      (fun _ => rfl) (fun event => by cases event <;> rfl)]
    simp
  · rw [ofKind, countP_exchangesEvents false (fun event => !event.isForward)
      (fun _ => rfl) (fun event => by cases event <;> rfl)]
    simp

theorem ofKind_summary_exchanges (received : UInt64) (events : List ChainSyncEvent) :
    ofKind .chainSyncSessionSummary (exchangesEvents received events) = 0 := by
  rw [ofKind, countP_exchangesEvents false (fun _ => false) (fun _ => rfl)
    (fun event => by cases event <;> rfl)]
  simp

/-! ## The account -/

/-- The end of a session counts a message if it sends one, and nothing else. -/
structure ClosesWith (c : SyncClosing) (l : ChainSyncProgress) : Prop where
  locals : c.locals =
    { l with messagesSent := l.messagesSent + UInt64.ofNat c.messages.length }
  sent : inDirection .sent c.events = c.messages.length
  received : inDirection .received c.events = 0
  forwards : ofKind .chainSyncRollForward c.events = 0
  backwards : ofKind .chainSyncRollBackward c.events = 0
  noSummary : ofKind .chainSyncSessionSummary c.events = 0

theorem closing_closesWith (count : UInt64) (replies : ChainSyncReplies) :
    ClosesWith (closing count replies)
      (afterExchanges answered (responsesTaken count replies.incoming)) := by
  rw [closing]
  generalize afterExchanges answered (responsesTaken count replies.incoming) = l
  split
  · cases replies.ending <;> exact ⟨rfl, rfl, rfl, rfl, rfl, rfl⟩
  · cases replies.done with
    | ok a => exact ⟨rfl, rfl, rfl, rfl, rfl, rfl⟩
    | error message =>
      refine ⟨?_, rfl, rfl, rfl, rfl, rfl⟩
      show l = { l with messagesSent := l.messagesSent + 0 }
      rw [UInt64.add_zero]

/-- What a summary says of the session it ends, whose events are these. -/
structure Sums (summary : ChainSyncSummary) (events : List TraceEvent)
    (taken : List ChainSyncEvent) : Prop where
  messagesSent : summary.messagesSent = UInt64.ofNat (inDirection .sent events)
  messagesReceived : summary.messagesReceived = UInt64.ofNat (inDirection .received events)
  headersReceived :
    summary.headersReceived = UInt64.ofNat (ofKind .chainSyncRollForward events)
  rollbacks : summary.rollbacks = UInt64.ofNat (ofKind .chainSyncRollBackward events)
  /-- The headers that could be parsed, in the order they came. -/
  capturedHeaders : summary.capturedHeaders = capturedFrom taken
  collectedPoints :
    summary.collectedPoints = summary.capturedHeaders.map CapturedHeader.point

/-- What a session accounts for. -/
structure SyncAccounts (points : List Point) (count : UInt64) (replies : ChainSyncReplies)
    (r : Except Fault ChainSyncSummary) (s : SyncSession) : Prop where
  requests : s.sent = (requestsSent points count replies).map Wire.message
  /-- Each message goes with an event. -/
  recorded : inDirection .sent (s.trace.map Stamped.event) = s.sent.length
  /-- It takes as many headers as it wants, or as there are. -/
  wanted : (responsesTaken count replies.incoming).countP ChainSyncEvent.isForward =
    min count.toNat (replies.incoming.countP ChainSyncEvent.isForward)
  inOrder : responsesTaken count replies.incoming <+: replies.incoming
  returns : r.isOk = true ↔ (∃ found, replies.intersect = .ok found) ∧
    (RunsShort count replies.incoming → replies.ending = .timeout)
  /-- Once the question is answered there is one summary, which is returned if anything is. -/
  summed : ∀ found, replies.intersect = .ok found → ∃ summary before,
    s.trace.map Stamped.event = before ++ [summaryEvent summary] ∧
      ofKind .chainSyncSessionSummary before = 0 ∧
      Sums summary (s.trace.map Stamped.event) (responsesTaken count replies.incoming) ∧
      ∀ summary', r = .ok summary' → summary' = summary

theorem inDirection_append (direction : Direction) (events events' : List TraceEvent) :
    inDirection direction (events ++ events') =
      inDirection direction events + inDirection direction events' := List.countP_append

theorem ofKind_append (kind : EventKind) (events events' : List TraceEvent) :
    ofKind kind (events ++ events') = ofKind kind events + ofKind kind events' :=
  List.countP_append

section

variable {points : List Point} {count : UInt64} {replies : ChainSyncReplies}
  {found : Option (NcPoint × NcTip)}

/-- The events of a session whose question is answered. -/
theorem eventsWritten_answered (h : replies.intersect = .ok found) :
    eventsWritten points count replies =
      [startedEvent count, findIntersectEvent points, intersectEvent (.ok found)] ++
        (exchangesEvents 0 (responsesTaken count replies.incoming) ++
          (closing count replies).events) := by
  rw [eventsWritten, h]
  rfl

/-- Two messages of a session are not counted in its exchanges: the question and its answer. -/
theorem inDirection_opening (count : UInt64) (points : List Point)
    (found : Option (NcPoint × NcTip)) :
    inDirection .sent [startedEvent count, findIntersectEvent points, intersectEvent (.ok found)] =
        1 ∧
      inDirection .received
        [startedEvent count, findIntersectEvent points, intersectEvent (.ok found)] = 1 := by
  cases found <;> exact ⟨rfl, rfl⟩

theorem ofKind_opening {kind : EventKind} (h : kind = .chainSyncRollForward ∨
      kind = .chainSyncRollBackward ∨ kind = .chainSyncSessionSummary) : ofKind kind
      [startedEvent count, findIntersectEvent points, intersectEvent (.ok found)] = 0 := by
  rcases h with rfl | rfl | rfl <;> cases found <;> rfl

theorem requestsSent_length (h : replies.intersect = .ok found) :
    (requestsSent points count replies).length =
      1 + (responsesTaken count replies.incoming).length +
        (closing count replies).messages.length := by
  rw [requestsSent, h]
  dsimp only
  rw [← closing_messages, List.length_cons, List.length_append, List.length_replicate]
  omega

/-- What a session that is answered sends is what it records. -/
theorem inDirection_answered (points : List Point) (count : UInt64)
    (h : replies.intersect = .ok found) :
    inDirection .sent (eventsWritten points count replies) =
        (requestsSent points count replies).length ∧
      inDirection .received (eventsWritten points count replies) =
        1 + (responsesTaken count replies.incoming).length := by
  have hcloses := closing_closesWith count replies
  obtain ⟨hsent, hreceived⟩ := inDirection_opening count points found
  obtain ⟨hsent', hreceived'⟩ :=
    inDirection_exchanges 0 (responsesTaken count replies.incoming)
  rw [requestsSent_length h, eventsWritten_answered h]
  simp only [inDirection_append, hsent, hreceived, hsent', hreceived', hcloses.sent,
    hcloses.received]
  omega

end

/-- The summary of a session sums up its events. -/
theorem closing_sums {points : List Point} {count : UInt64} {replies : ChainSyncReplies}
    {found : Option (NcPoint × NcTip)} (h : replies.intersect = .ok found) :
    Sums (closing count replies).summary
      (eventsWritten points count replies ++ [summaryEvent (closing count replies).summary])
      (responsesTaken count replies.incoming) := by
  have hcloses := closing_closesWith count replies
  have hlocals := hcloses.locals
  rw [afterExchanges_eq] at hlocals
  obtain ⟨hsent, hreceived⟩ := inDirection_answered points count h
  obtain ⟨hforwards, hbackwards⟩ := ofKind_exchanges 0 (responsesTaken count replies.incoming)
  have hkind : ∀ kind, kind = .chainSyncRollForward ∨ kind = .chainSyncRollBackward →
      ofKind kind (closing count replies).events = 0 →
      ofKind kind (eventsWritten points count replies ++
          [summaryEvent (closing count replies).summary]) =
        ofKind kind (exchangesEvents 0 (responsesTaken count replies.incoming)) := by
    intro kind hkind hclosing
    have hsummary : ofKind kind [summaryEvent (closing count replies).summary] = 0 := by
      rcases hkind with rfl | rfl <;> rfl
    rw [eventsWritten_answered h, ofKind_append, ofKind_append, ofKind_append, hsummary, hclosing,
      ofKind_opening (hkind.imp_right Or.inl), Nat.zero_add]
    rfl
  constructor
  case messagesSent =>
    rw [inDirection_append, hsent, requestsSent_length h, UInt64.ofNat_add, UInt64.ofNat_add,
      UInt64.ofNat_add]
    show (closing count replies).locals.messagesSent = _
    rw [hlocals]
    exact (UInt64.add_zero _).symm
  case messagesReceived =>
    rw [inDirection_append, hreceived, UInt64.ofNat_add, UInt64.ofNat_add]
    show (closing count replies).locals.messagesReceived = _
    rw [hlocals]
    exact (UInt64.add_zero _).symm
  case headersReceived =>
    rw [hkind _ (.inl rfl) hcloses.forwards, hforwards]
    show (closing count replies).locals.headersReceived = _
    rw [hlocals]
    exact UInt64.zero_add _
  case rollbacks =>
    rw [hkind _ (.inr rfl) hcloses.backwards, hbackwards]
    show (closing count replies).locals.rollbacks = _
    rw [hlocals]
    exact UInt64.zero_add _
  case capturedHeaders =>
    show (closing count replies).locals.capturedHeaders = _
    rw [hlocals]
    rfl
  case collectedPoints =>
    show (closing count replies).locals.collectedPoints =
      (closing count replies).locals.capturedHeaders.map CapturedHeader.point
    rw [hlocals]
    rfl

/-- A session returns its summary unless there are too few headers and waiting fails. -/
theorem closing_result (count : UInt64) (replies : ChainSyncReplies) :
    ((closing count replies).result.isOk = true ↔
      (RunsShort count replies.incoming → replies.ending = .timeout)) ∧
    ∀ summary, (closing count replies).result = .ok summary →
      summary = (closing count replies).summary := by
  rw [closing]
  split
  · next hshort =>
    cases replies.ending with
    | timeout => exact ⟨⟨fun _ _ => rfl, fun _ => rfl⟩, fun _ h => (Except.ok.inj h).symm⟩
    | error message => exact ⟨⟨nofun, fun h => nomatch h hshort⟩, nofun⟩
  · next hshort =>
    cases replies.done <;>
      exact ⟨⟨fun _ h => absurd h hshort, fun _ => rfl⟩, fun _ h => (Except.ok.inj h).symm⟩

/-- How many headers a summary says were received. -/
theorem closing_headers (count : UInt64) (replies : ChainSyncReplies) :
    (closing count replies).summary.headersReceived =
      UInt64.ofNat (min count.toNat (replies.incoming.countP ChainSyncEvent.isForward)) := by
  have hlocals := (closing_closesWith count replies).locals
  rw [afterExchanges_eq] at hlocals
  show (closing count replies).locals.headersReceived = _
  rw [hlocals, ← countP_taken]
  exact UInt64.zero_add _

/-- A session that gets what it wants completes. -/
theorem closing_enough (count : UInt64) (replies : ChainSyncReplies)
    (h : ¬ RunsShort count replies.incoming) :
    (closing count replies).result = .ok (closing count replies).summary ∧
      (closing count replies).summary.exitReason = "completed" ∧
      (closing count replies).summary.headersReceived = count := by
  refine ⟨?_, ?_, ?_⟩
  · rw [closing, if_neg h]
    cases replies.done <;> rfl
  · rw [closing, if_neg h]
    cases replies.done <;> rfl
  · rw [closing_headers, Nat.min_eq_left (Nat.not_lt.mp h), UInt64.ofNat_toNat]

/-- A session that does not get what it wants ends as its waiting does. -/
theorem closing_tooFew {count : UInt64} {replies : ChainSyncReplies}
    (h : RunsShort count replies.incoming) :
    (replies.ending = .timeout →
      (closing count replies).result = .ok (closing count replies).summary ∧
        (closing count replies).summary.exitReason = "await_timeout") ∧
    (∀ message, replies.ending = .error message →
      (closing count replies).result = bail s!"request_next failed: {message}") := by
  rw [closing, if_pos h]
  constructor
  · intro hending
    rw [hending]
    exact ⟨rfl, rfl⟩
  · intro message hending
    rw [hending]
    rfl

/-- What a session puts on its channel. -/
theorem runChainSync_sent (points : List Point) (count : UInt64) (replies : ChainSyncReplies) :
    ((runChainSync points count replies).run session).2.sent =
      (requestsSent points count replies).map Wire.message := by
  rcases hfound : replies.intersect with message | found
  · obtain ⟨s, hrun, hgoes⟩ := runChainSync_failed points count hfound
    rw [hrun]
    exact hgoes.fromStart.2.1
  · obtain ⟨s, hrun, hgoes⟩ := runChainSync_answered points count hfound
    rw [hrun]
    exact hgoes.fromStart.2.1

/-- **The Chain-Sync client asks for what it wants and accounts for every response**, whatever
points it starts from, however many headers it wants and whatever the peer does. -/
theorem runChainSync_accounts (points : List Point) (count : UInt64)
    (replies : ChainSyncReplies) :
    SyncAccounts points count replies ((runChainSync points count replies).run session).1
      ((runChainSync points count replies).run session).2 := by
  have hwanted := @countP_taken _ ChainSyncEvent.isForward count.toNat replies.incoming
  have hinOrder := @taken_begins _ ChainSyncEvent.isForward count.toNat replies.incoming
  rcases hfound : replies.intersect with message | found
  · obtain ⟨s, hrun, hgoes⟩ := runChainSync_failed points count hfound
    obtain ⟨hevents, hsent, -⟩ := hgoes.fromStart
    rw [hrun]
    refine ⟨hsent, ?_, hwanted, hinOrder, ⟨nofun, fun h => ?_⟩, fun found h => ?_⟩
    · rw [hsent, hevents, List.length_map, eventsWritten, requestsSent, hfound]
      rfl
    · obtain ⟨⟨found, h⟩, -⟩ := h
      exact nomatch hfound.symm.trans h
    · exact nomatch hfound.symm.trans h
  · obtain ⟨s, hrun, hgoes⟩ := runChainSync_answered points count hfound
    obtain ⟨hevents, hsent, -⟩ := hgoes.fromStart
    obtain ⟨hok, hreturned⟩ := closing_result count replies
    have hcloses := closing_closesWith count replies
    rw [hrun]
    refine ⟨hsent, ?_, hwanted, hinOrder, ?_, fun _ _ => ⟨_, _, hevents, ?_, ?_, hreturned⟩⟩
    · rw [hsent, hevents, inDirection_append, (inDirection_answered points count hfound).1,
          List.length_map]
      rfl
    · rw [hok]
      exact ⟨fun h => ⟨⟨found, hfound⟩, h⟩, fun h => h.2⟩
    · rw [eventsWritten_answered hfound, ofKind_append, ofKind_append, hcloses.noSummary,
        ofKind_opening (.inr (.inr rfl)), ofKind_summary_exchanges]
    · rw [hevents]
      exact closing_sums hfound

end Proof

end ConformanceHarness
