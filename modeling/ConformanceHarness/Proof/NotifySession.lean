import ConformanceHarness.Lib.Asking
import ConformanceHarness.Miniprotocols.LeiosNotifyServer

/-!
# A LeiosNotify session, and its client

The loop of the server, beside a client that asks again only after it has been answered. A `wait`
action sends nothing, and the request that it was performed for stays without an answer: the loop
goes back to `recv`, and waits for a request that does not come.
-/

namespace ConformanceHarness

open ConformanceHarness.Lib
open ConformanceHarness.Lib.Asking (Answer Deadlocked Delivers Performed Performs Reachable Said
  State performed scripted)

/-- A protocol runner that only passes messages. -/
def LeiosNotifyRunner.passing : LeiosNotifyRunner := ⟨fun _ _ => none, fun _ _ => none⟩

namespace LeiosNotify

/-! ## What an action sends -/

/-- A message, if the action is well formed. -/
def sendsOrEnds : Except Fault (Wire LeiosNotifyMessage) → Answer (Wire LeiosNotifyMessage)
  | .ok m => .sends m
  | .error _ => .ends

/-- What an action of a script is to the client. A malformed action ends the session. -/
def answer (action : LeiosNotifyAction) : Answer (Wire LeiosNotifyMessage) :=
  if action.kind = "block_announcement" then sendsOrEnds do
    let raw ← decodeHexOpt action.headerBytes "header_bytes"
    return .message (.blockAnnouncement raw)
  else if action.kind = "block_offer" then sendsOrEnds do
    let point ← parsePointOpt action.point "point"
    return .message (.blockOffer point (action.ebSize.getD 0))
  else if action.kind = "block_txs_offer" then sendsOrEnds do
    let point ← parsePointOpt action.point "point"
    return .message (.blockTxsOffer point)
  else if action.kind = "votes" then sendsOrEnds do
    let votes ← buildVotes (action.votes.getD [])
    return .message (.votes votes)
  else if action.kind = "wait" then .silent
  else if action.kind = "disconnect" then .ends
  else if action.kind = "raw_bytes" then sendsOrEnds do
    let raw ← decodeHexOpt action.bytes "bytes"
    return .raw raw
  else .ends

/-- The server performs an action: what it has sent then, and whether the loop goes on. -/
def perform (runner : LeiosNotifyRunner) (action : LeiosNotifyAction) (s : LeiosNotifySession) :
    Performed LeiosNotifySession (Wire LeiosNotifyMessage) :=
  let after := (executeAction runner action).run s
  { session := after.2
    sent := after.2.sent.drop s.sent.length
    goesOn := match after.1 with
      | .ok done => !done
      | .error _ => false }

/-- A server and its client. -/
abbrev System := State LeiosNotifyAction String LeiosNotifySession (Wire LeiosNotifyMessage)

theorem sendsOrEnds_ne_silent (r : Except Fault (Wire LeiosNotifyMessage)) :
    sendsOrEnds r ≠ .silent := by
  cases r with
  | ok m => exact nofun
  | error e => exact nofun

/-- Only a `wait` action is silent. -/
theorem answer_silent_iff {action : LeiosNotifyAction} :
    answer action = .silent ↔ action.kind = "wait" := by
  constructor
  · intro h
    unfold answer at h
    split at h
    · exact absurd h (sendsOrEnds_ne_silent _)
    split at h
    · exact absurd h (sendsOrEnds_ne_silent _)
    split at h
    · exact absurd h (sendsOrEnds_ne_silent _)
    split at h
    · exact absurd h (sendsOrEnds_ne_silent _)
    split at h
    · assumption
    split at h
    · exact nomatch h
    split at h
    · exact absurd h (sendsOrEnds_ne_silent _)
    · exact nomatch h
  · intro h
    unfold answer
    rw [h]
    rfl

/-- What `execute_action` does, by what the action is to the client. -/
def Answers (x : LeiosNotifyServer Bool) (s : LeiosNotifySession) :
    Answer (Wire LeiosNotifyMessage) → Prop
  | .sends m => ∃ s', x.run s = (.ok false, s') ∧ s'.sent = s.sent ++ [m]
  | .silent => x.run s = (.ok false, s)
  | .ends => ∃ r, x.run s = (r, s) ∧ r ≠ .ok false

theorem answers_of {α : Type} {r : Except Fault α} {message : α → Wire LeiosNotifyMessage}
    {send : α → LeiosNotifyServer Bool} {s : LeiosNotifySession}
    (hsend : ∀ a, ∃ s', (send a).run s = (.ok false, s') ∧ s'.sent = s.sent ++ [message a]) :
    Answers (Prog.ofExcept r >>= send) s (sendsOrEnds (r >>= fun a => pure (message a))) := by
  cases r with
  | ok a => exact hsend a
  | error e => exact ⟨.error e, rfl, nofun⟩

theorem executeAction_answers (action : LeiosNotifyAction) (s : LeiosNotifySession) :
    Answers (executeAction .passing action) s (answer action) := by
  unfold executeAction answer
  split
  · exact answers_of fun raw => ⟨_, rfl, rfl⟩
  split
  · exact answers_of fun point => ⟨_, rfl, rfl⟩
  split
  · exact answers_of fun point => ⟨_, rfl, rfl⟩
  split
  · exact answers_of fun votes => ⟨_, rfl, rfl⟩
  split
  · rfl
  split
  · exact ⟨.ok true, rfl, nofun⟩
  split
  · exact answers_of fun raw => ⟨_, rfl, rfl⟩
  · exact ⟨_, rfl, nofun⟩

/-- **The actions are performed as they are to the client.** -/
theorem perform_performs : Performs (perform .passing) answer := by
  intro action s
  have hanswers := executeAction_answers action s
  unfold perform
  cases h : answer action with
  | sends m =>
    rw [h] at hanswers
    obtain ⟨s', hrun, hsent⟩ := hanswers
    refine ⟨s', ?_⟩
    simp [hrun, hsent]
  | silent =>
    rw [h] at hanswers
    refine ⟨s, ?_⟩
    simp [show (executeAction .passing action).run s = (.ok false, s) from hanswers]
  | ends =>
    rw [h] at hanswers
    obtain ⟨r, hrun, hne⟩ := hanswers
    refine ⟨s, ?_⟩
    cases r with
    | error e => simp [hrun]
    | ok done =>
      cases done with
      | false => exact absurd rfl hne
      | true => simp [hrun]

/-! ## The server is the loop -/

/-- What the runner receives. -/
def incoming : Said String → LeiosNotifyIncoming
  | .next => .requestNext
  | .done => .done
  | .other text => .other text

section

variable {runner : LeiosNotifyRunner} {actions rest : List LeiosNotifyAction}
  {action : LeiosNotifyAction} {s s' : LeiosNotifySession} {x y : System}

/-- The session from which the loop has taken the messages of the client so far goes on where the
server is. -/
structure FollowsLoop (runner : LeiosNotifyRunner) (actions : List LeiosNotifyAction)
    (s : LeiosNotifySession) (x : System) : Prop where
  receiving : ∀ rest, x.server = .receiving rest → ∀ more,
    (serveLoop runner actions (x.taken.map incoming ++ more)).run s =
      (serveLoop runner rest more).run x.session
  performing : ∀ action rest, x.server = .performing action rest → ∀ more,
    (serveLoop runner actions (x.taken.map incoming ++ more)).run s =
      (serveLoop runner (action :: rest) (.requestNext :: more)).run x.session
  closed : x.server = .closed →
    ((serveLoop runner actions (x.taken.map incoming)).run s).2.sent = x.session.sent

/-- The loop goes on after an action, or it ends. -/
theorem serveLoop_performed (more : List LeiosNotifyIncoming) :
    (serveLoop runner (action :: rest) (.requestNext :: more)).run s =
      if (perform runner action s).goesOn then
        (serveLoop runner rest more).run (perform runner action s).session
      else
        (((executeAction runner action).run s).1.map fun _ => (),
          (perform runner action s).session) := by
  rw [serveLoop, Prog.run_bind]
  unfold perform
  rcases (executeAction runner action).run s with ⟨e | done, s'⟩
  · rfl
  · cases done with
    | false => rfl
    | true => rfl

/-- The messages are taken one after the other. -/
theorem FollowsLoop.takes {said : Said String} (h : FollowsLoop runner actions s x)
    (hserver : x.server = .receiving rest) (more : List LeiosNotifyIncoming) :
    (serveLoop runner actions ((x.taken ++ [said]).map incoming ++ more)).run s =
      (serveLoop runner rest (incoming said :: more)).run x.session := by
  rw [List.map_append, List.append_assoc]
  exact h.receiving rest hserver (incoming said :: more)

/-- The loop ends with a message. -/
theorem FollowsLoop.closes {said : Said String} (h : FollowsLoop runner actions s x)
    (hserver : x.server = .receiving rest)
    (hloop : ((serveLoop runner rest [incoming said]).run x.session).2.sent = x.session.sent)
    {toServer : List (Said String)} :
    FollowsLoop runner actions s
      { x with server := .closed, toServer, taken := x.taken ++ [said] } where
  receiving := fun _ hreceiving => nomatch hreceiving
  performing := fun _ _ hperforming => nomatch hperforming
  closed := fun _ => by
    have htakes := @FollowsLoop.takes _ _ _ _ _ said h hserver []
    rw [List.append_nil] at htakes
    rw [htakes]
    exact hloop

theorem FollowsLoop.step (h : FollowsLoop runner actions s x)
    (hstep : Asking.Step (perform runner) x y) : FollowsLoop runner actions s y := by
  cases hstep with
  | advance hstep =>
    cases hstep with
    | ask _ _ => exact ⟨h.receiving, h.performing, h.closed⟩
    | @skip rest' w more' hserver hsaid =>
      -- a message that is no request is read and forgotten
      refine ⟨?_, ?_, ?_⟩
      · intro rest hreceiving more
        exact h.takes hreceiving more
      · intro action rest hperforming
        exact nomatch hserver.symm.trans hperforming
      · intro hclosed
        exact nomatch hserver.symm.trans hclosed
    | next hserver hsaid =>
      refine ⟨fun _ hreceiving => (nomatch hreceiving), ?_, fun hclosed => nomatch hclosed⟩
      intro action rest hperforming more
      obtain ⟨rfl, rfl⟩ := Asking.Server.performing.inj hperforming
      exact h.takes hserver more
    | exhausted hserver hsaid => exact h.closes hserver rfl
    | @performed action rest hserver =>
      have hloop := h.performing action rest hserver
      -- the loop goes on with the rest of the actions, or ends here
      by_cases hgoes : (perform runner action x.session).goesOn = true
      · rw [if_pos hgoes]
        refine ⟨?_, fun _ _ h => (nomatch h), fun hclosed => nomatch hclosed⟩
        intro rest' hreceiving more
        obtain rfl := Asking.Server.receiving.inj hreceiving
        rw [hloop more, serveLoop_performed, if_pos hgoes]
      · rw [if_neg hgoes]
        refine ⟨fun _ h => (nomatch h), fun _ _ h => (nomatch h), ?_⟩
        intro _
        have hends := hloop []
        rw [List.append_nil, serveLoop_performed, if_neg hgoes] at hends
        rw [hends]
    | delivered _ _ => exact ⟨h.receiving, h.performing, h.closed⟩
  | say _ _ => exact ⟨h.receiving, h.performing, h.closed⟩
  | done _ _ => exact ⟨h.receiving, h.performing, h.closed⟩
  | hangUp => exact ⟨h.receiving, h.performing, h.closed⟩
  | finished hserver hsaid => exact h.closes hserver rfl
  | @lost rest hserver _ _ =>
    -- the client is gone, and the loop ends for want of a message
    refine ⟨fun _ h => (nomatch h), fun _ _ h => (nomatch h), ?_⟩
    intro _
    have hends := h.receiving rest hserver []
    rw [List.append_nil] at hends
    rw [hends]
    cases rest <;> rfl

/-- **The server of a session is the loop**, for the messages it has received. -/
theorem reachable_followsLoop (h : Reachable (perform runner) actions s x) :
    FollowsLoop runner actions s x := by
  induction h with
  | refl =>
    refine ⟨?_, fun _ _ hperforming => (nomatch hperforming), fun hclosed => nomatch hclosed⟩
    intro rest hreceiving more
    obtain rfl := Asking.Server.receiving.inj hreceiving
    rfl
  | tail _ hstep ih => exact ih.step hstep

end

/-! ## What is delivered -/

/-- **A LeiosNotify session delivers its script exactly if no `wait` is performed**: none stands
before the first action that disconnects, or cannot be performed. -/
theorem notifications_delivered_iff (actions : List LeiosNotifyAction) (s : LeiosNotifySession) :
    (∀ x : System, Reachable (perform .passing) actions s x →
      Delivers (perform .passing) answer actions x) ↔
      ∀ action ∈ performed answer actions, action.kind ≠ "wait" := by
  rw [Asking.delivers_iff perform_performs]
  exact forall₂_congr fun action _ => not_congr answer_silent_iff

/-- A `wait`, and a notification. -/
def waitScript : List LeiosNotifyAction :=
  let wait : LeiosNotifyAction := ⟨"wait", none, none, none, none, some 1, none⟩
  [wait, { wait with kind := "block_txs_offer", point := some "origin" }]

/-- **The notification is not delivered**: the client waits for it, and the server for a request. -/
theorem wait_deadlocks : scripted answer waitScript = [.message (.blockTxsOffer .origin)] ∧
    ∃ x : System, Reachable (perform .passing) waitScript session x ∧ x.received = [] ∧
      Deadlocked x := by
  refine ⟨by decide, _, Asking.idle_asks.tail (.advance (.performed rfl)), rfl, ?_⟩
  exact ⟨rfl, rfl, rfl, rfl, _, rfl⟩

end LeiosNotify

end ConformanceHarness
