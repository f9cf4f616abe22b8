import ConformanceHarness.Miniprotocols.LeiosFetchServer
import ConformanceHarness.Proof.LeiosFetchParties

/-!
# A LeiosFetch client and a server that talk to each other

`run_leios_fetch` on one end of a connection and the rules of `execute_leios_fetch_script` on the
other, whatever they are. The client gets one block after the other, up to the first request that
no rule answers, or whose answer it cannot read. It completes if there is no such request.
-/

namespace ConformanceHarness

open ConformanceHarness.Lib (Prog firstAt)
open ConformanceHarness.Lib.Asking (Answer)
open ConformanceHarness.Lib.Dialogue
open ConformanceHarness.Lib.Duplex

/-- A protocol runner that only passes messages. -/
def LeiosFetchRunner.passing : LeiosFetchRunner := ⟨Session.sendMessage, Session.sendRaw⟩

namespace LeiosFetch

/-- What a send is to the client. -/
def sendAnswer (send : LeiosFetchSend) : Answer (Wire LeiosBlockMessage) :=
  if send.kind = "block" then
    match decodeHexOpt send.blockBytes "block_bytes" with
    | .ok block => .sends (.message ⟨block⟩)
    | .error _ => .ends
  else if send.kind = "wait" then .silent
  else if send.kind = "disconnect" then .ends
  else if send.kind = "raw_bytes" then
    match decodeHexOpt send.bytes "bytes" with
    | .ok raw => .sends (.raw raw)
    | .error _ => .ends
  else .ends

/-- A rule that applies to a request for a block. -/
def fetches (rule : LeiosFetchRule) : Bool := rule.on = "any" || rule.on = "fetch_block"

/-- What the rules from `ruleIdx` on have for a request, and where the next one starts. -/
def turn (rules : List LeiosFetchRule) (ruleIdx : Nat) :
    Answer (Wire LeiosBlockMessage) × Nat :=
  match firstAt (fun _ rule => fetches rule) ruleIdx (rules.drop ruleIdx) with
  | none => (.ends, ruleIdx)
  | some (pos, rule) => (sendAnswer rule.send, if rule.repeatable then ruleIdx else pos + 1)

/-- How many blocks there are among some messages: bytes sent as they are count for none. -/
def blocksIn (messages : List (Wire LeiosBlockMessage)) : Nat :=
  messages.countP fun
    | .message _ => true
    | .raw _ => false

/-- What a send does, by what it is to the client. -/
def Sends (x : LeiosFetchServer Bool) (s : LeiosFetchSession) :
    Answer (Wire LeiosBlockMessage) → Prop
  | .sends m => ∃ s', x.run s = (.ok false, s') ∧ s'.sent = s.sent ++ [m] ∧
      s'.locals = s.locals + UInt64.ofNat (blocksIn [m])
  | .silent => x.run s = (.ok false, s)
  | .ends => ∃ r, x.run s = (r, s) ∧ r ≠ .ok false

section

variable {rules : List LeiosFetchRule} {s s' : LeiosFetchSession}

theorem executeSendRule_sends (send : LeiosFetchSend) (s : LeiosFetchSession) :
    Sends (executeSendRule .passing send) s (sendAnswer send) := by
  unfold executeSendRule sendAnswer
  split
  · rcases decodeHexOpt send.blockBytes "block_bytes" with e | block
    · exact ⟨.error e, rfl, nofun⟩
    · exact ⟨_, rfl, rfl, rfl⟩
  split
  · rfl
  split
  · exact ⟨.ok true, rfl, nofun⟩
  split
  · rcases decodeHexOpt send.bytes "bytes" with e | raw
    · exact ⟨.error e, rfl, nofun⟩
    · exact ⟨_, rfl, rfl, (UInt64.add_zero s.locals).symm⟩
  · exact ⟨_, rfl, nofun⟩

theorem blocksIn_cons (m : Wire LeiosBlockMessage) (messages : List (Wire LeiosBlockMessage)) :
    blocksIn (m :: messages) = blocksIn [m] + blocksIn messages := by
  rw [← List.singleton_append]
  exact List.countP_append

/-- No rule applies to a request. -/
theorem serveLoop_noRule {point : NcPoint} {ruleIdx : Nat} {incoming : List FetchMessage}
    (h : firstAt (fun _ rule => fetches rule) ruleIdx (rules.drop ruleIdx) = none) :
    ∃ e, (serveLoop .passing rules ruleIdx
      ((LeiosFetchClientMessage.blockRequest point).received :: incoming)).run s =
        (.error e, s) := by
  rw [serveLoop]
  simp only [LeiosFetchClientMessage.received, FetchMessage.request?]
  rw [if_neg nofun, show firstAt (fun _ rule =>
    (FetchRequest.fetchBlock (fromNcPoint point)).matchesOn rule.on) ruleIdx
      (rules.drop ruleIdx) = none from h]
  exact ⟨_, rfl⟩

/-- A rule applies to it. -/
theorem serveLoop_rule {point : NcPoint} {ruleIdx pos : Nat} {rule : LeiosFetchRule}
    {incoming : List FetchMessage}
    (h : firstAt (fun _ rule => fetches rule) ruleIdx (rules.drop ruleIdx) = some (pos, rule)) :
    (serveLoop .passing rules ruleIdx
        ((LeiosFetchClientMessage.blockRequest point).received :: incoming)).run s =
      (executeSendRule .passing rule.send >>= fun done =>
        if done = true then pure () else
          serveLoop .passing rules (if rule.repeatable then ruleIdx else pos + 1) incoming).run
        ((Session.emit (ruleAppliedEvent rule) : LeiosFetchServer Unit).run s).2 := by
  rw [serveLoop]
  simp only [LeiosFetchClientMessage.received, FetchMessage.request?]
  rw [if_neg nofun, show firstAt (fun _ rule =>
    (FetchRequest.fetchBlock (fromNcPoint point)).matchesOn rule.on) ruleIdx
      (rules.drop ruleIdx) = some (pos, rule) from h]
  rfl

/-- **The loop sends what its rules send**, and counts the blocks. -/
theorem serveLoop_responses (rules : List LeiosFetchRule)
    (heard : List LeiosFetchClientMessage) (ruleIdx : Nat) (s : LeiosFetchSession) :
    ((serveLoop .passing rules ruleIdx (heard.map LeiosFetchClientMessage.received)).run s).2.sent =
        s.sent ++ responses (turn rules) ruleIdx (asked .done heard) ∧
      ((serveLoop .passing rules ruleIdx
          (heard.map LeiosFetchClientMessage.received)).run s).2.locals =
        s.locals +
          UInt64.ofNat (blocksIn (responses (turn rules) ruleIdx (asked .done heard))) := by
  have hnothing : ∀ s : LeiosFetchSession, s.sent = s.sent ++ [] ∧
      s.locals = s.locals + UInt64.ofNat 0 :=
    fun s => ⟨(List.append_nil _).symm, (UInt64.add_zero _).symm⟩
  induction heard generalizing ruleIdx s with
  | nil => exact hnothing s
  | cons request heard ih =>
    cases request with
    | done => exact hnothing s
    | blockRequest point =>
      have hasked : asked .done (.blockRequest point :: heard) =
          asked LeiosFetchClientMessage.done heard + 1 := rfl
      rw [hasked, List.map_cons, responses, turn]
      rcases hfirst : firstAt (fun _ rule => fetches rule) ruleIdx (rules.drop ruleIdx) with
        _ | ⟨pos, rule⟩
      · obtain ⟨e, hrun⟩ := serveLoop_noRule hfirst
        rw [hrun]
        exact hnothing s
      · have hsends := executeSendRule_sends rule.send
          ((Session.emit (ruleAppliedEvent rule) : LeiosFetchServer Unit).run s).2
        rw [serveLoop_rule hfirst]
        dsimp only
        cases h : sendAnswer rule.send with
        | sends m =>
          rw [h] at hsends
          obtain ⟨s', hrun, hsent, hcounted⟩ := hsends
          obtain ⟨hsent', hcounted'⟩ := ih (if rule.repeatable then ruleIdx else pos + 1) s'
          rw [Prog.run_bind_ok hrun, if_neg Bool.false_ne_true]
          dsimp only
          rw [hsent', hsent, List.append_assoc, hcounted', hcounted,
            blocksIn_cons m (responses _ _ _), UInt64.ofNat_add, UInt64.add_assoc]
          exact ⟨rfl, rfl⟩
        | silent =>
          rw [h] at hsends
          rw [Prog.run_bind_ok hsends, if_neg Bool.false_ne_true]
          exact ih _ _
        | ends =>
          rw [h] at hsends
          obtain ⟨r, hrun, hne⟩ := hsends
          rw [Prog.run_bind, hrun]
          cases r with
          | error e => exact hnothing s
          | ok done =>
            cases done with
            | true => exact hnothing s
            | false => exact absurd rfl hne

/-- The loop comes to the end of what is asked, if each request is answered. -/
theorem serveLoop_leading {points : List NcPoint} {ruleIdx : Nat}
    (hall : points.length ≤ (leading (turn rules) ruleIdx points.length).length)
    (s : LeiosFetchSession) :
    ((serveLoop .passing rules ruleIdx
      ((points.map LeiosFetchClientMessage.blockRequest ++ [LeiosFetchClientMessage.done]).map
        LeiosFetchClientMessage.received)).run s).1 = .ok () := by
  induction points generalizing ruleIdx s with
  | nil => rfl
  | cons point points ih =>
    rw [List.length_cons, leading, turn] at hall
    rw [List.map_cons, List.cons_append, List.map_cons]
    rcases hfirst : firstAt (fun _ rule => fetches rule) ruleIdx (rules.drop ruleIdx) with
      _ | ⟨pos, rule⟩
    · rw [hfirst] at hall
      exact absurd hall (Nat.not_succ_le_zero _)
    · rw [hfirst] at hall
      dsimp only at hall
      have hsends := executeSendRule_sends rule.send
        ((Session.emit (ruleAppliedEvent rule) : LeiosFetchServer Unit).run s).2
      cases h : sendAnswer rule.send with
      | silent => rw [h] at hall; exact absurd hall (Nat.not_succ_le_zero _)
      | ends => rw [h] at hall; exact absurd hall (Nat.not_succ_le_zero _)
      | sends m =>
        rw [h] at hall hsends
        obtain ⟨s', hrun, -⟩ := hsends
        rw [serveLoop_rule hfirst, Prog.run_bind_ok hrun, if_neg Bool.false_ne_true]
        exact ih (Nat.le_of_succ_le_succ hall) s'

end

end LeiosFetch

namespace Proof

open LeiosFetch
open LeiosFetchClient (blockEvent)

section

variable (rules : List LeiosFetchRule)

/-- Where the loop of a session starts. -/
def leiosFetchStarted : LeiosFetchSession :=
  ((Session.emit LeiosFetch.startedEvent : LeiosFetchServer Unit).run LeiosFetch.session).2

end

/-- The error of a client that gets no block. -/
def noBlock (message : String) : Except Fault LeiosFetchSummary :=
  bail s!"leios_fetch fetch_block failed: {message}"

section

variable {lib : LeiosFetchLibrary} {silence : String} {points : List NcPoint}
  {rules : List LeiosFetchRule}

end

end Proof

end ConformanceHarness
