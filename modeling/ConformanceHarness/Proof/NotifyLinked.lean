import ConformanceHarness.Proof.NotifyParties

/-!
# A LeiosNotify client and a server that talk to each other

`run_leios_notify` on one end of a connection and a script of `execute_leios_notify_script` on the
other. The script may do anything: send nonsense, wait, disconnect, end early, or hold an action
that cannot be performed. The client receives what the script sends up to the first action that
sends nothing, or up to the first message that it cannot read, and no more than it wants.
-/

namespace ConformanceHarness

open ConformanceHarness.Lib (Prog)
open ConformanceHarness.Lib.Dialogue
open ConformanceHarness.Lib.Duplex

namespace LeiosNotify

section

variable {actions : List LeiosNotifyAction} {action : LeiosNotifyAction}
  {incoming more : List LeiosNotifyIncoming} {s s' : LeiosNotifySession}
  {m : Wire LeiosNotifyMessage}

theorem notificationsIn_cons (m : Wire LeiosNotifyMessage)
    (messages : List (Wire LeiosNotifyMessage)) :
    notificationsIn (m :: messages) = notificationsIn [m] + notificationsIn messages := by
  rw [← List.singleton_append]
  exact List.countP_append

/-- **The loop sends what the actions of its script send**, and counts the notifications. -/
theorem serveLoop_responses (actions : List LeiosNotifyAction) (heard : List LeiosNotifyRequest)
    (s : LeiosNotifySession) :
    ((serveLoop .passing actions (heard.map LeiosNotifyRequest.received)).run s).2.sent =
        s.sent ++ responses turn actions (asked .done heard) ∧
      ((serveLoop .passing actions (heard.map LeiosNotifyRequest.received)).run s).2.locals =
        s.locals + UInt64.ofNat (notificationsIn (responses turn actions (asked .done heard))) := by
  have hnothing : s.sent = s.sent ++ [] ∧ s.locals = s.locals + UInt64.ofNat 0 :=
    ⟨(List.append_nil _).symm, (UInt64.add_zero _).symm⟩
  induction heard generalizing actions s with
  | nil => cases actions <;> exact hnothing
  | cons request heard ih =>
    cases request with
    | done => cases actions <;> exact hnothing
    | requestNext =>
      have hasked : asked .done (.requestNext :: heard) = asked LeiosNotifyRequest.done heard + 1 :=
        rfl
      rw [hasked]
      cases actions with
      | nil => exact hnothing
      | cons action actions =>
        have hanswers := executeAction_answers action s
        rw [List.map_cons, LeiosNotifyRequest.received, serveLoop, responses, turn]
        cases h : answer action with
        | sends m =>
          obtain ⟨s', hrun, hsent, hcounted⟩ := executeAction_delivers s h
          obtain ⟨hsent', hcounted'⟩ := ih actions s' ⟨(List.append_nil _).symm,
            (UInt64.add_zero _).symm⟩
          rw [Prog.run_bind_ok hrun, if_neg Bool.false_ne_true]
          dsimp only
          rw [hsent', hsent, List.append_assoc, hcounted', hcounted,
            notificationsIn_cons m (responses turn actions _), UInt64.ofNat_add, UInt64.add_assoc]
          exact ⟨rfl, rfl⟩
        | silent =>
          rw [h] at hanswers
          rw [Prog.run_bind_ok hanswers, if_neg Bool.false_ne_true]
          exact ih actions s hnothing
        | ends =>
          rw [h] at hanswers
          obtain ⟨r, hrun, hne⟩ := hanswers
          have hsame : ((executeAction .passing action >>= fun done =>
              if done = true then pure () else
                serveLoop .passing actions (heard.map LeiosNotifyRequest.received)).run s).2 =
              s := by
            rw [Prog.run_bind, hrun]
            cases r with
            | error e => rfl
            | ok done =>
              cases done with
              | true => rfl
              | false => exact absurd rfl hne
          rw [hsame]
          exact hnothing

/-- The loop comes to the end of what is asked, if each action sends something. -/
theorem serveLoop_leading {k : Nat} (hk : k ≤ (leading turn actions k).length)
    (s : LeiosNotifySession) :
    ((serveLoop .passing actions (List.replicate k .requestNext ++ [.done])).run s).1 = .ok () := by
  induction k generalizing actions s with
  | zero => cases actions <;> rfl
  | succ k ih =>
    cases actions with
    | nil => exact absurd hk (Nat.not_succ_le_zero k)
    | cons action actions =>
      rw [leading, turn] at hk
      cases h : answer action with
      | silent => rw [h] at hk; exact absurd hk (Nat.not_succ_le_zero k)
      | ends => rw [h] at hk; exact absurd hk (Nat.not_succ_le_zero k)
      | sends m =>
        rw [h] at hk
        obtain ⟨s', hrun, -⟩ := executeAction_delivers s h
        rw [List.replicate_succ, List.cons_append, serveLoop, Prog.run_bind_ok hrun,
          if_neg Bool.false_ne_true]
        exact ih (Nat.le_of_succ_le_succ hk) s'

end

end LeiosNotify

namespace Proof

open LeiosNotify
open LeiosNotifyClient (tally notificationEvent miniProtocol)

section

variable (actions : List LeiosNotifyAction)

/-- The session of a server that has heard these requests. -/
def notifiedTo (heard : List LeiosNotifyRequest) :
    Except Fault LeiosNotifyServerSummary × LeiosNotifySession :=
  (executeLeiosNotifyScript .passing actions (heard.map LeiosNotifyRequest.received)).run
    LeiosNotify.session

/-- Where the loop of a session starts. -/
def notifyStarted : LeiosNotifySession :=
  ((Session.emit LeiosNotify.startedEvent : LeiosNotifyServer Unit).run LeiosNotify.session).2

/-- A session is its loop. -/
theorem notifiedTo_loop (heard : List LeiosNotifyRequest) :
    let looped := (LeiosNotify.serveLoop .passing actions
      (heard.map LeiosNotifyRequest.received)).run notifyStarted
    (notifiedTo actions heard).2.sent = looped.2.sent ∧
      (notifiedTo actions heard).2.locals = looped.2.locals ∧
      (notifiedTo actions heard).1 =
        looped.1.map fun _ => (⟨looped.2.locals, "completed"⟩ : LeiosNotifyServerSummary) := by
  dsimp only
  rw [notifiedTo, executeLeiosNotifyScript, Prog.run_bind_ok
    (show (Session.emit LeiosNotify.startedEvent).run LeiosNotify.session =
      (.ok (), notifyStarted) from rfl), Prog.run_bind]
  rcases (LeiosNotify.serveLoop .passing actions
    (heard.map LeiosNotifyRequest.received)).run notifyStarted with ⟨f | _, s'⟩
  · exact ⟨rfl, rfl, rfl⟩
  · exact ⟨rfl, rfl, rfl⟩

theorem notifiedTo_sent (heard : List LeiosNotifyRequest) :
    (notifiedTo actions heard).2.sent = responses turn actions (asked .done heard) := by
  rw [(notifiedTo_loop actions heard).1, (serveLoop_responses actions heard _).1]
  rfl

/-- The server. -/
def notifyServerParty : Party LeiosNotifyRequest (Wire LeiosNotifyMessage) where
  tells heard := (notifiedTo actions heard).2.sent
  takesNothingBack := by
    intro heard more h
    rw [notifiedTo_sent, notifiedTo_sent]
    exact responses_mono (asked_mono h)

end

section

variable {actions : List LeiosNotifyAction}

theorem notifyClient_inquires (lib : LeiosNotifyLibrary) (silence : NoReply) (count : UInt64) :
    Inquires lib.next (requestsFor count) .done (notifyClientParty lib silence count) :=
  notifiedBy_sent lib silence count

/-- What the script sends to so many requests, before it sends nothing. -/
abbrev scriptSends (actions : List LeiosNotifyAction) (count : UInt64) :
    List (Wire LeiosNotifyMessage) := leading turn actions (requestsFor count).length

theorem notifyServer_answers (actions : List LeiosNotifyAction) (count : UInt64) :
    Answers (requestsFor count) .done (scriptSends actions count) (notifyServerParty actions) :=
  answers_of_turns (fun h => nomatch List.eq_of_mem_replicate h) (notifiedTo_sent actions)

/-- What a client reads of what the script sends to it. -/
abbrev scriptReads (lib : LeiosNotifyLibrary) (count : UInt64)
    (actions : List LeiosNotifyAction) : List LeiosNotifyEvent × Option String :=
  reading lib.next (scriptSends actions count)

/-- What becomes of a client and a script, in a conversation that comes to `q`. -/
structure Notifies (lib : LeiosNotifyLibrary) (silence : NoReply) (count : UInt64)
    (actions : List LeiosNotifyAction)
    (q : State LeiosNotifyRequest (Wire LeiosNotifyMessage)) : Prop where
  /-- The client counts the notifications that it can read. -/
  counted : (notifiedBy lib silence count q.toLeft).2.locals =
    tally (scriptReads lib count actions).1 ⟨0, 0, 0, 0, 0⟩
  /-- Its trace has them in their order. -/
  traced : ((notifiedBy lib silence count q.toLeft).2.trace.map Stamped.event).filter
      (fun event => event.direction == .received) =
    (scriptReads lib count actions).1.map notificationEvent
  /-- The server counts what it has sent, but for bytes that it sends as they are. -/
  sent : (notifiedTo actions q.toRight).2.locals = UInt64.ofNat (notificationsIn q.toLeft)
  /-- If there are as many as the client wants, both sessions complete. -/
  completes : count.toNat ≤ (scriptReads lib count actions).1.length →
    (notifiedBy lib silence count q.toLeft).1 =
        .ok ⟨(notifiedBy lib silence count q.toLeft).2.locals, "completed"⟩ ∧
      (notifiedTo actions q.toRight).1 =
        .ok ⟨(notifiedTo actions q.toRight).2.locals, "completed"⟩
  /-- If not, the client fails at the message that it cannot read, or waits in vain. -/
  fails : (scriptReads lib count actions).1.length < count.toNat →
    (notifiedBy lib silence count q.toLeft).1 =
      match (scriptReads lib count actions).2.elim silence .error with
      | .timeout => .ok ⟨(notifiedBy lib silence count q.toLeft).2.locals, "await_timeout"⟩
      | .error message => bail s!"leios_notify request_next failed: {message}"

/-- Where the conversation ends. -/
abbrev notifyEnd (lib : LeiosNotifyLibrary) (count : UInt64) (actions : List LeiosNotifyAction) :
    State LeiosNotifyRequest (Wire LeiosNotifyMessage) :=
  conversation lib.next (requestsFor count) .done (scriptSends actions count)

variable {lib : LeiosNotifyLibrary} {silence : NoReply} {count : UInt64}

theorem requestsFor_length (count : UInt64) : (requestsFor count).length = count.toNat :=
  List.length_replicate

/-- The notifications the client takes. -/
theorem notified_end : LeiosNotifyClient.notified count
    (lib.replies silence (.ok ()) (notifyEnd lib count actions).toLeft) =
      (scriptReads lib count actions).1 := by
  have hread := @reading_conversation _ _ _ _ lib.next (requestsFor count) .done
    (scriptSends actions count)
  rw [List.take_of_length_le (length_reading_le.trans length_leading_le)] at hread
  rw [LeiosNotifyClient.notified, ← requestsFor_length count]
  exact hread

/-- Only a notification is an event that is received. -/
theorem received_events (events : List LeiosNotifyEvent)
    (replies : LeiosNotifyReplies) :
    (LeiosNotifyClient.startedEvent count :: events.map notificationEvent ++
        ((LeiosNotifyClient.closing count replies).events ++
          [LeiosNotifyClient.summaryEvent (LeiosNotifyClient.summaryOf count replies)])).filter
      (fun event => event.direction == .received) = events.map notificationEvent := by
  have hnotifications : (events.map notificationEvent).filter
      (fun event => event.direction == .received) = events.map notificationEvent := by
    rw [List.filter_eq_self]
    intro event hevent
    obtain ⟨notification, -, rfl⟩ := List.mem_map.mp hevent
    cases notification <;> rfl
  have hclosing : ((LeiosNotifyClient.closing count replies).events ++
      [LeiosNotifyClient.summaryEvent (LeiosNotifyClient.summaryOf count replies)]).filter
      (fun event => event.direction == .received) = [] := by
    rw [LeiosNotifyClient.closing]
    split
    · cases replies.ending <;> rfl
    · cases replies.done <;> rfl
  rw [List.cons_append, List.filter_cons_of_neg (by exact Bool.false_ne_true), List.filter_append,
    hnotifications, hclosing, List.append_nil]

/-- **A client that talks to a script comes to the first action that sends nothing, or nothing that
it can read, or to the number of notifications that it wants**, whatever is delivered first. -/
theorem linked_leiosNotify (lib : LeiosNotifyLibrary) (silence : NoReply) (count : UInt64)
    (actions : List LeiosNotifyAction) :
    ComesTo (notifyClientParty lib silence count) (notifyServerParty actions)
        (notifyEnd lib count actions) ∧
      Notifies lib silence count actions (notifyEnd lib count actions) := by
  have hserver := notifyServer_answers actions count
  have hlength := requestsFor_length count
  obtain ⟨s, hrun, hgoes⟩ := runLeiosNotify_goes count
    (lib.replies silence (.ok ()) (notifyEnd lib count actions).toLeft)
  obtain ⟨htrace, -, hlocals⟩ := hgoes.fromStart
  rw [notified_end] at hlocals
  refine ⟨comesTo (notifyClient_inquires lib silence count) hserver, ?_, ?_, ?_, ?_, ?_⟩
  · rw [notifiedBy, hrun, hlocals]
  · rw [notifiedBy, hrun, htrace, received_events, notified_end]
  · have hsent : (notifiedTo actions (notifyEnd lib count actions).toRight).2.sent =
        (notifyEnd lib count actions).toLeft := hserver.tells_conversation
    rw [notifiedTo_sent] at hsent
    rw [(notifiedTo_loop actions _).2.1, (serveLoop_responses actions _ _).2, hsent]
    exact UInt64.zero_add _
  · intro henough
    have hclosing : LeiosNotifyClient.closing count
        (lib.replies silence (.ok ()) (notifyEnd lib count actions).toLeft) =
          LeiosNotifyClient.closingEnough (.ok ()) := by
      have hread := congrArg List.length (@notified_end actions lib silence count)
      rw [LeiosNotifyClient.notified, List.length_take] at hread
      exact if_neg (by omega)
    refine ⟨?_, ?_⟩
    · rw [notifiedBy, hrun, LeiosNotifyClient.resultOf, LeiosNotifyClient.summaryOf, hclosing,
        notified_end, hlocals]
      rfl
    · have hright : (notifyEnd lib count actions).toRight =
          requestsFor count ++ [LeiosNotifyRequest.done] := by
        rw [notifyEnd, conversation, progress, hlength, Nat.min_eq_left henough]
        exact List.take_of_length_le (by rw [List.length_append, hlength]; exact Nat.le_refl _)
      have hle : count.toNat ≤ (leading turn actions count.toNat).length := by
        rw [← hlength]
        exact hlength.le.trans (henough.trans length_reading_le)
      have hloop := serveLoop_leading hle notifyStarted
      rw [(notifiedTo_loop actions _).2.2, (notifiedTo_loop actions _).2.1, hright, requestsFor,
        List.map_append, List.map_replicate]
      rw [show (LeiosNotify.serveLoop .passing actions
        (List.replicate count.toNat (LeiosNotifyRequest.received .requestNext) ++
          [LeiosNotifyRequest.done].map LeiosNotifyRequest.received)).run notifyStarted =
            (.ok (), _) from Prod.ext hloop rfl]
      rfl
  · intro hshort
    have hread : reading lib.next (notifyEnd lib count actions).toLeft =
        scriptReads lib count actions := reading_conversation_of_lt (by rwa [hlength])
    have hclosing : LeiosNotifyClient.closing count
        (lib.replies silence (.ok ()) (notifyEnd lib count actions).toLeft) =
          LeiosNotifyClient.closingShort
            ((scriptReads lib count actions).2.elim silence .error) := by
      rw [LeiosNotifyClient.closing, LeiosNotifyLibrary.replies, hread, if_pos hshort]
    rw [notifiedBy, hrun, LeiosNotifyClient.resultOf, LeiosNotifyClient.summaryOf, hclosing,
      notified_end, hlocals]
    cases (scriptReads lib count actions).2.elim silence NoReply.error <;> rfl

end

end Proof

end ConformanceHarness
