import ConformanceHarness.Miniprotocols.LeiosLink
import ConformanceHarness.Proof.ClientRuns
import ConformanceHarness.Proof.NotifySession
import ConformanceHarness.Proof.WirePoints

/-!
# The two parties of a LeiosNotify session

`run_leios_notify` asks for one notification after the other, and `execute_leios_notify_script` has
the actions of a script to answer with. What each has put on its channel is given by what it has
heard.
-/

namespace ConformanceHarness

open ConformanceHarness.Lib (Prog)
open ConformanceHarness.Lib.Dialogue
open ConformanceHarness.Lib.Duplex (Party)

namespace LeiosNotifyClient

/-- A session of the LeiosNotify client. -/
abbrev NotifySession := Session Unit LeiosNotifyProgress LeiosNotifyRequest Unit

/-- The counters after some notifications. -/
def tally (events : List LeiosNotifyEvent) (l : LeiosNotifyProgress) : LeiosNotifyProgress :=
  events.foldl (fun l event => countEvent event l) l

/-- How a session ends: with a last message, some events before its summary, an exit reason, and
the error, if there is one. -/
structure NotifyClosing where
  messages : List LeiosNotifyRequest
  events : List TraceEvent
  exitReason : String
  failed : Option String

/-- If there are too few notifications, it has asked once more. -/
def closingShort : NoReply → NotifyClosing
  | .timeout => ⟨[.requestNext], [], "await_timeout", none⟩
  | .error message =>
    ⟨[.requestNext], [clientError miniProtocol "request_next" message], "error",
      some s!"leios_notify request_next failed: {message}"⟩

/-- If there are enough, it leaves. -/
def closingEnough : Except String Unit → NotifyClosing
  | .ok () => ⟨[.done], [wireEvent .leiosNotifyDone .sent (.object [])], "completed", none⟩
  | .error _ => ⟨[], [], "completed", none⟩

/-- What the session ends with. -/
def closing (count : UInt64) (replies : LeiosNotifyReplies) : NotifyClosing :=
  if replies.incoming.length < count.toNat then closingShort replies.ending
  else closingEnough replies.done

/-- The notifications it takes. -/
def notified (count : UInt64) (replies : LeiosNotifyReplies) : List LeiosNotifyEvent :=
  replies.incoming.take count.toNat

/-- The summary it builds. -/
def summaryOf (count : UInt64) (replies : LeiosNotifyReplies) : LeiosNotifySummary :=
  ⟨tally (notified count replies) ⟨0, 0, 0, 0, 0⟩, (closing count replies).exitReason⟩

/-- What it returns. -/
def resultOf (count : UInt64) (replies : LeiosNotifyReplies) : Except Fault LeiosNotifySummary :=
  match (closing count replies).failed with
  | none => .ok (summaryOf count replies)
  | some reason => bail reason

end LeiosNotifyClient

namespace Proof

open LeiosNotifyClient

section

variable {s : NotifySession} {count : UInt64}

/-- One notification. -/
theorem exchange_goes (event : LeiosNotifyEvent) (s : NotifySession) :
    let s₁ := ((Session.sendMessage .requestNext : LeiosNotifyClient Unit).run s).2
    let s₂ := ((Session.update (countEvent event) : LeiosNotifyClient Unit).run s₁).2
    let s₃ := ((Session.emit (notificationEvent event) : LeiosNotifyClient Unit).run s₂).2
    Goes s s₃ [notificationEvent event] [.requestNext] (countEvent event) :=
  ((Goes.sendMessage _ s).trans (Goes.update _ _)).trans (Goes.emit _ _)

theorem eventsReceived_countEvent (event : LeiosNotifyEvent) (l : LeiosNotifyProgress) :
    (countEvent event l).eventsReceived = l.eventsReceived + 1 := by
  cases event <;> rfl

theorem toNat_succ_of_lt {n m : UInt64} (h : n < m) : (n + 1).toNat = n.toNat + 1 := by
  have hlt := m.toNat_lt
  rw [UInt64.lt_iff_toNat_lt] at h
  rw [UInt64.toNat_add]
  exact Nat.mod_eq_of_lt (by have : (1 : UInt64).toNat = 1 := rfl; omega)

/-- As long as notifications are wanted, they are taken one after the other. -/
theorem requestLoop_taken (ending : NoReply) (events rest : List LeiosNotifyEvent)
    (s : NotifySession) (hle : s.locals.eventsReceived.toNat + events.length ≤ count.toNat) :
    ∃ s', Goes s s' (events.map notificationEvent) (List.replicate events.length .requestNext)
        (tally events) ∧
      (requestLoop count ending (events ++ rest)).run s =
        (requestLoop count ending rest).run s' ∧
      s'.locals.eventsReceived.toNat = s.locals.eventsReceived.toNat + events.length := by
  induction events generalizing s with
  | nil => exact ⟨s, Goes.refl s, rfl, rfl⟩
  | cons event events ih =>
    rw [List.length_cons] at hle
    have hless : s.locals.eventsReceived < count := UInt64.lt_iff_toNat_lt.mpr (by omega)
    have hgoes := exchange_goes event s
    dsimp only at hgoes
    have hreceived := congrArg LeiosNotifyProgress.eventsReceived hgoes.locals
    rw [eventsReceived_countEvent] at hreceived
    have hnat := congrArg UInt64.toNat hreceived
    rw [toNat_succ_of_lt hless] at hnat
    obtain ⟨s', hrest, hrun, hcounted⟩ := ih _ (by rw [hnat]; omega)
    refine ⟨s', hgoes.trans hrest, ?_, ?_⟩
    · rw [List.cons_append, requestLoop, Prog.run_get_bind, if_pos hless, ← hrun]
      rfl
    · rw [hcounted, hnat, List.length_cons]
      omega

/-- The session ends so. -/
structure NotifyEndsSo (c : NotifyClosing) (s : NotifySession)
    (r : Except Fault LeiosNotifySummary × NotifySession) : Prop where
  result : r.1 = match c.failed with
    | none => .ok ⟨s.locals, c.exitReason⟩
    | some reason => bail reason
  goes : Goes s r.2 (c.events ++ [summaryEvent ⟨s.locals, c.exitReason⟩]) c.messages id

/-- The part of a session after its loop. -/
def afterNotifications (done : Except String Unit) :
    Option LeiosNotifySummary → LeiosNotifyClient LeiosNotifySummary
  | some summary => return summary
  | none => do
    sendDone done
    finish "completed"

theorem noNotification_endsSo (done : Except String Unit) (ending : NoReply) (s : NotifySession) :
    NotifyEndsSo (closingShort ending) s
      ((Session.sendMessage .requestNext >>= fun _ =>
        noReply ending >>= afterNotifications done).run s) := by
  cases ending with
  | timeout => exact ⟨rfl, (Goes.sendMessage _ s).trans (Goes.emit _ _)⟩
  | error message =>
    exact ⟨rfl, (Goes.sendMessage _ s).trans ((Goes.emit _ _).trans (Goes.emit _ _))⟩

theorem leaves_endsSo (done : Except String Unit) (s : NotifySession) :
    NotifyEndsSo (closingEnough done) s
      ((sendDone done >>= fun _ => LeiosNotifyClient.finish "completed").run s) := by
  cases done with
  | error message => exact ⟨rfl, Goes.emit _ s⟩
  | ok a => exact ⟨rfl, (Goes.sendMessage _ s).trans ((Goes.emit _ _).trans (Goes.emit _ _))⟩

/-- The loop stops asking. -/
theorem requestLoop_enough (ending : NoReply) (rest : List LeiosNotifyEvent)
    (h : ¬ s.locals.eventsReceived < count) :
    (requestLoop count ending rest).run s = (.ok none, s) := by
  cases rest with
  | nil => rw [requestLoop, Prog.run_get_bind, if_neg h]; rfl
  | cons event rest => rw [requestLoop, Prog.run_get_bind, if_neg h]; rfl

/-- **The client asks once for each notification, and counts it**, up to the number it wants. -/
theorem runLeiosNotify_goes (count : UInt64) (replies : LeiosNotifyReplies) :
    ∃ s, (runLeiosNotify count replies).run session = (resultOf count replies, s) ∧
      Goes session s
        (startedEvent count :: (notified count replies).map notificationEvent ++
          ((closing count replies).events ++ [summaryEvent (summaryOf count replies)]))
        (List.replicate (notified count replies).length .requestNext ++
          (closing count replies).messages)
        (tally (notified count replies)) := by
  let started := ((Session.emit (startedEvent count) : LeiosNotifyClient Unit).run session).2
  have hstarted : Goes session started [startedEvent count] [] id := Goes.emit _ session
  have hzero : started.locals.eventsReceived.toNat = 0 := rfl
  have hle : started.locals.eventsReceived.toNat + (notified count replies).length ≤
      count.toNat := by
    rw [hzero, Nat.zero_add]
    exact List.length_take_le _ _
  obtain ⟨s', hgoes, hloop, hcounted⟩ := requestLoop_taken replies.ending
    (notified count replies) (replies.incoming.drop count.toNat) started hle
  rw [notified, List.take_append_drop] at hloop
  rw [hzero, Nat.zero_add] at hcounted
  have hlocals : s'.locals = tally (notified count replies) ⟨0, 0, 0, 0, 0⟩ := hgoes.locals
  have hrun : (runLeiosNotify count replies).run session =
      ((requestLoop count replies.ending (replies.incoming.drop count.toNat)) >>=
        afterNotifications replies.done).run s' := by
    rw [runLeiosNotify, Prog.run_bind_ok (show (Session.emit (startedEvent count)).run session =
      (.ok (), started) from rfl), Prog.run_bind, hloop, Prog.run_bind]
    rfl
  have hends : NotifyEndsSo (closing count replies) s'
      ((runLeiosNotify count replies).run session) := by
    rw [hrun, closing]
    by_cases hshort : replies.incoming.length < count.toNat
    · have hless : s'.locals.eventsReceived < count := by
        rw [UInt64.lt_iff_toNat_lt, hcounted, notified, List.length_take]
        omega
      rw [if_pos hshort, List.drop_eq_nil_of_le hshort.le, requestLoop, Prog.bind_assoc,
        Prog.run_get_bind, if_pos hless, Prog.bind_assoc]
      exact noNotification_endsSo replies.done replies.ending s'
    · have hless : ¬ s'.locals.eventsReceived < count := by
        rw [UInt64.lt_iff_toNat_lt, hcounted, notified, List.length_take]
        omega
      rw [if_neg hshort, Prog.run_bind_ok (requestLoop_enough _ _ hless)]
      exact leaves_endsSo replies.done s'
  refine ⟨((runLeiosNotify count replies).run session).2, ?_, ?_⟩
  · have hresult := hends.result
    rw [hlocals] at hresult
    rw [resultOf, summaryOf, ← hresult]
  · have hall := hstarted.trans (hgoes.trans hends.goes)
    rw [hlocals] at hall
    exact ⟨hall.events, hall.messages, hall.locals⟩

end

section

variable (lib : LeiosNotifyLibrary) (silence : NoReply)

/-- The session of a client that has heard these messages. -/
def notifiedBy (count : UInt64) (heard : List (Wire LeiosNotifyMessage)) :
    Except Fault LeiosNotifySummary × NotifySession :=
  (runLeiosNotify count (lib.replies silence (.ok ()) heard)).run session

/-- The requests of a client. -/
def requestsFor (count : UInt64) : List LeiosNotifyRequest :=
  List.replicate count.toNat .requestNext

/-- **The client asks on with each notification that it can read.** -/
theorem notifiedBy_sent (count : UInt64) (heard : List (Wire LeiosNotifyMessage)) :
    onWire some (notifiedBy lib silence count heard).2.sent =
      (requestsFor count ++ [LeiosNotifyRequest.done]).take
        (progress lib.next (requestsFor count) heard + 1) := by
  obtain ⟨s, hrun, hgoes⟩ := runLeiosNotify_goes count (lib.replies silence (.ok ()) heard)
  have hincoming : (lib.replies silence (.ok ()) heard).incoming = (reading lib.next heard).1 := rfl
  have hdone : (lib.replies silence (.ok ()) heard).done = .ok () := rfl
  rw [notifiedBy, hrun, hgoes.fromStart.2.1, onWire_messages, notified, closing, progress,
    requestsFor, List.length_replicate, List.length_take, hincoming, hdone]
  by_cases hshort : (reading lib.next heard).1.length < count.toNat
  · have hmessages : ∀ ending, (closingShort ending).messages = [.requestNext] := by
      intro ending
      cases ending <;> rfl
    rw [if_pos hshort, hmessages, Nat.min_eq_right hshort.le, ← List.replicate_succ',
      List.take_append_of_le_length (by rw [List.length_replicate]; omega), List.take_replicate,
      Nat.min_eq_left hshort]
  · have hle := Nat.le_of_not_lt hshort
    rw [if_neg hshort, Nat.min_eq_left hle, List.take_of_length_le (by
      rw [List.length_append, List.length_replicate, List.length_singleton])]
    rfl

/-- The client. -/
def notifyClientParty (count : UInt64) :
    Party (Wire LeiosNotifyMessage) LeiosNotifyRequest where
  tells heard := onWire some (notifiedBy lib silence count heard).2.sent
  takesNothingBack := by
    intro heard more h
    rw [notifiedBy_sent, notifiedBy_sent]
    exact List.take_prefix_take_left (Nat.succ_le_succ (progress_mono h))

end

end Proof

namespace LeiosNotify

open ConformanceHarness.Lib.Asking (Answer)

/-- What the first of some actions is to a client. Where there is none, the session ends. -/
def turn : List LeiosNotifyAction →
    Answer (Wire LeiosNotifyMessage) × List LeiosNotifyAction
  | [] => (.ends, [])
  | action :: actions => (answer action, actions)

/-- How many notifications there are among some messages: bytes sent as they are count for none. -/
def notificationsIn (messages : List (Wire LeiosNotifyMessage)) : Nat :=
  messages.countP fun
    | .message _ => true
    | .raw _ => false

section

variable {actions : List LeiosNotifyAction} {action : LeiosNotifyAction}
  {incoming more : List LeiosNotifyIncoming} {s s' : LeiosNotifySession}
  {m : Wire LeiosNotifyMessage}

/-- A message has been sent, and counted if it is a notification. -/
structure Delivered (m : Wire LeiosNotifyMessage) (s s' : LeiosNotifySession) : Prop where
  sent : s'.sent = s.sent ++ [m]
  counted : s'.locals = s.locals + UInt64.ofNat (notificationsIn [m])

/-- What `execute_action` does if the action sends a message. -/
theorem delivers_of {α : Type} {r : Except Fault α} {message : α → Wire LeiosNotifyMessage}
    {send : α → LeiosNotifyServer Bool}
    (hsend : ∀ a, ∃ s', (send a).run s = (.ok false, s') ∧ Delivered (message a) s s')
    (h : sendsOrEnds (r >>= fun a => pure (message a)) = .sends m) :
    ∃ s', (Prog.ofExcept r >>= send).run s = (.ok false, s') ∧ Delivered m s s' := by
  cases r with
  | error e => cases h
  | ok a =>
    obtain rfl := Answer.sends.inj h
    exact hsend a

theorem delivered_message (message : LeiosNotifyMessage) (event : TraceEvent) :
    ∃ s', (notify .passing message event).run s = (.ok false, s') ∧
      Delivered (.message message) s s' :=
  ⟨_, rfl, rfl, rfl⟩

theorem delivered_raw (raw : List UInt8) :
    ∃ s', (notifyRaw .passing raw).run s = (.ok false, s') ∧ Delivered (.raw raw) s s' :=
  ⟨_, rfl, rfl, (UInt64.add_zero s.locals).symm⟩

theorem executeAction_delivers (s : LeiosNotifySession) : answer action = .sends m →
    ∃ s', (executeAction .passing action).run s = (.ok false, s') ∧ Delivered m s s' := by
  unfold answer executeAction
  split
  · exact delivers_of fun _ => delivered_message _ _
  split
  · exact delivers_of fun _ => delivered_message _ _
  split
  · exact delivers_of fun _ => delivered_message _ _
  split
  · exact delivers_of fun _ => delivered_message _ _
  split
  · exact nofun
  split
  · exact nofun
  split
  · exact delivers_of fun _ => delivered_raw _
  · exact nofun

end

end LeiosNotify

end ConformanceHarness
