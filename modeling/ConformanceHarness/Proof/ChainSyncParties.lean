import ConformanceHarness.Lib.Duplex
import ConformanceHarness.Miniprotocols.ChainSyncLink
import ConformanceHarness.Proof.ChainSyncAccounts
import ConformanceHarness.Proof.AwaitReplies
import ConformanceHarness.Proof.WirePoints

/-!
# The two parties of a Chain-Sync session

`run_chain_sync` and `execute_response_script` as parties of a conversation: what each has put on
its channel, by what it has heard. Neither takes anything back, whatever points the client starts
from, however many headers it wants, whatever the library makes of what it hears, and whatever the
script says.
-/

namespace ConformanceHarness

open ConformanceHarness.Lib (Prog)
open ConformanceHarness.Lib.Duplex
open ConformanceHarness.Lib.Quota
open ChainSyncClient

namespace Proof

section

variable (lib : ChainSyncLibrary) (silence : Silence)

/-- The session of a client that has heard these messages. -/
def heardBy (points : List Point) (count : UInt64) (heard : List (Wire ChainSyncMessage)) :
    Except Fault ChainSyncSummary × SyncSession :=
  (runChainSync points count (lib.replies silence (.ok ()) heard)).run session

/-- The responses that a client has heard. -/
theorem events_mono {heard more : List (Wire ChainSyncMessage)} (h : heard <+: more) :
    (lib.events heard).1 <+: (lib.events more).1 := by
  induction heard generalizing more with
  | nil => exact List.nil_prefix
  | cons m heard ih =>
    obtain ⟨rest, rfl⟩ := h
    have hrest := ih (List.prefix_append heard rest)
    rw [List.cons_append, ChainSyncLibrary.events, ChainSyncLibrary.events]
    rcases lib.next m with message | _ | event
    · exact List.prefix_rfl
    · exact hrest
    · exact (List.prefix_cons_inj event).mpr hrest

/-- What a client has asked, once it has heard some messages. -/
theorem heardBy_sent (points : List Point) (count : UInt64)
    (heard : List (Wire ChainSyncMessage)) :
    onWire some (heardBy lib silence points count heard).2.sent =
      .findIntersect (points.map toNcPoint) :: (match heard with
        | [] => []
        | m :: heard =>
          match lib.intersect m with
          | .error _ => []
          | .ok _ => said ChainSyncEvent.isForward .requestNext .done count.toNat
              (lib.events heard).1) := by
  rw [heardBy, runChainSync_sent, onWire_messages, requestsSent]
  cases heard with
  | nil => rfl
  | cons m heard =>
    rw [ChainSyncLibrary.replies]
    dsimp only
    rcases lib.intersect m with message | found
    · rfl
    · dsimp only [RunsShort, said]
      by_cases hshort : Short ChainSyncEvent.isForward count.toNat (lib.events heard).1 <;>
        simp [hshort]

/-- The client. -/
def clientParty (points : List Point) (count : UInt64) :
    Party (Wire ChainSyncMessage) ChainSyncRequest where
  tells heard := onWire some (heardBy lib silence points count heard).2.sent
  takesNothingBack := by
    intro heard more h
    rw [heardBy_sent, heardBy_sent]
    refine (List.prefix_cons_inj _).mpr ?_
    cases heard with
    | nil => exact List.nil_prefix
    | cons m heard =>
      obtain ⟨rest, rfl⟩ := h
      dsimp only [List.cons_append]
      rcases lib.intersect m with message | found
      · exact List.prefix_rfl
      · exact said_mono (events_mono lib (List.prefix_append heard rest))

/-! ### What the client has by then -/

theorem heardBy_failed (points : List Point) (count : UInt64)
    {heard : List (Wire ChainSyncMessage)} {message : String}
    (h : (lib.replies silence (.ok ()) heard).intersect = .error message) :
    (heardBy lib silence points count heard).2.locals.capturedHeaders = [] := by
  obtain ⟨s, hrun, hgoes⟩ := runChainSync_failed points count h
  rw [heardBy, hrun]
  exact congrArg ChainSyncProgress.capturedHeaders hgoes.locals

/-- The session of a client whose question is answered. -/
theorem heardBy_answered (points : List Point) (count : UInt64) {m : Wire ChainSyncMessage}
    (heard : List (Wire ChainSyncMessage)) {answer : Option (NcPoint × NcTip)}
    (hanswer : lib.intersect m = .ok answer) :
    (heardBy lib silence points count (m :: heard)).1 =
        (closing count (lib.replies silence (.ok ()) (m :: heard))).result ∧
      (heardBy lib silence points count (m :: heard)).2.locals =
        (closing count (lib.replies silence (.ok ()) (m :: heard))).locals := by
  obtain ⟨s, hrun, hgoes⟩ := runChainSync_answered points count
    (show (lib.replies silence (.ok ()) (m :: heard)).intersect = .ok answer from hanswer)
  rw [heardBy, hrun]
  exact ⟨rfl, hgoes.locals⟩

/-- The end of a session captures nothing. -/
theorem closing_captured (count : UInt64) (replies : ChainSyncReplies) :
    (closing count replies).locals.capturedHeaders =
      capturedFrom (responsesTaken count replies.incoming) := by
  rw [(closing_closesWith count replies).locals, afterExchanges_eq]
  rfl

/-- A client that returns reports the headers it has captured. -/
theorem heardBy_reported {points : List Point} {count : UInt64}
    {heard : List (Wire ChainSyncMessage)} {summary : ChainSyncSummary}
    (h : (heardBy lib silence points count heard).1 = .ok summary) :
    summary.capturedHeaders =
      (heardBy lib silence points count heard).2.locals.capturedHeaders := by
  rw [heardBy] at h ⊢
  rcases hintersect : (lib.replies silence (.ok ()) heard).intersect with message | answer
  · obtain ⟨s, hrun, -⟩ := runChainSync_failed points count hintersect
    rw [hrun] at h
    cases h
  · obtain ⟨s, hrun, hgoes⟩ := runChainSync_answered points count hintersect
    rw [hrun] at h ⊢
    rw [(closing_result count _).2 summary h, hgoes.locals]
    rfl

/-- The headers a client has captured, by what it has heard. -/
theorem heardBy_captured (points : List Point) (count : UInt64)
    (heard : List (Wire ChainSyncMessage)) :
    (heardBy lib silence points count heard).2.locals.capturedHeaders =
      match heard with
      | [] => []
      | m :: heard =>
        match lib.intersect m with
        | .error _ => []
        | .ok _ => capturedFrom (responsesTaken count (lib.events heard).1) := by
  cases heard with
  | nil => exact heardBy_failed lib silence points count rfl
  | cons m heard =>
    dsimp only
    rcases hanswer : lib.intersect m with message | answer
    · exact heardBy_failed lib silence points count hanswer
    · rw [(heardBy_answered lib silence points count heard hanswer).2, closing_captured]
      rfl

theorem capturedFrom_mono {events more : List ChainSyncEvent} (h : events <+: more) :
    capturedFrom events <+: capturedFrom more := by
  obtain ⟨rest, rfl⟩ := h
  rw [capturedFrom, capturedFrom, List.map_append, Lib.forwards_append, List.filterMap_append]
  exact List.prefix_append _ _

/-- **A client keeps the headers it has captured**, and captures more as it hears more. -/
theorem heardBy_captured_mono (points : List Point) (count : UInt64)
    {heard more : List (Wire ChainSyncMessage)} (h : heard <+: more) :
    (heardBy lib silence points count heard).2.locals.capturedHeaders <+:
      (heardBy lib silence points count more).2.locals.capturedHeaders := by
  rw [heardBy_captured, heardBy_captured]
  cases heard with
  | nil => exact List.nil_prefix
  | cons m heard =>
    obtain ⟨rest, rfl⟩ := h
    dsimp only [List.cons_append]
    rcases lib.intersect m with message | answer
    · exact List.prefix_rfl
    · exact capturedFrom_mono (taken_mono (events_mono lib (List.prefix_append heard rest)))

end

section

open ChainSync
open Session

variable (rules : List ScriptRule) (fixture : Option FixtureChain)

/-- A server that goes on hearing goes on from where it was. -/
theorem serveLoop_mono (incoming more : List ReceivedRequest) (ruleIdx : Nat)
    (s : ChainSyncSession) :
    ((serveLoop rules fixture ruleIdx incoming).run s).2.sent <+:
      ((serveLoop rules fixture ruleIdx (incoming ++ more)).run s).2.sent := by
  induction incoming generalizing ruleIdx s with
  | nil => exact serveLoop_parts keepsParts_sent rules ruleIdx more s
  | cons request incoming ih =>
    rw [List.cons_append]
    by_cases hdone : request = .done
    · rw [serveLoop, serveLoop, if_pos hdone, if_pos hdone]
    · rcases hnext : nextRule request.matchesOn ruleIdx (rules.drop ruleIdx) with _ | ⟨pos, rule⟩
      · rw [serveLoop, serveLoop, if_neg hdone, if_neg hdone, hnext]
      · rw [serveLoop_turn hdone hnext, serveLoop_turn hdone hnext]
        rcases (executeSend rule.send request fixture (turnTo request pos rule s).state).run
          (turnTo request pos rule s) with ⟨f | done, s'⟩
        · exact List.prefix_rfl
        · cases done with
          | true => exact List.prefix_rfl
          | false => exact ih _ _

/-- What a session puts on its channel, it puts there in its loop. -/
theorem executeResponseScript_sent (incoming : List ReceivedRequest) (s : ChainSyncSession) :
    ((executeResponseScript rules fixture incoming).run s).2.sent =
      ((serveLoop rules fixture 0 incoming).run
        ((emit (startedEvent rules fixture)).run s).2).2.sent := by
  rw [executeResponseScript, Prog.run_bind_ok (show (emit (startedEvent rules fixture)).run s =
    (.ok (), ((emit (startedEvent rules fixture)).run s).2) from rfl), Prog.run_bind]
  rcases (serveLoop rules fixture 0 incoming).run
    ((emit (startedEvent rules fixture)).run s).2 with ⟨f | _, s'⟩ <;> rfl

/-- The session of a server that has heard these requests. -/
def servedTo (heard : List ChainSyncRequest) :
    Except Fault ChainSyncServerSummary × ChainSyncSession :=
  (executeResponseScript rules fixture (heard.map ChainSyncRequest.received)).run
    (ChainSync.session fixture)

/-- A server whose loop returns completes, and reports what it has counted. -/
theorem servedTo_completed {heard : List ChainSyncRequest} {s' : ChainSyncSession}
    (h : (serveLoop rules fixture 0 (heard.map ChainSyncRequest.received)).run
      ((emit (startedEvent rules fixture)).run (ChainSync.session fixture)).2 = (.ok (), s')) :
    (servedTo rules fixture heard).1 = .ok ⟨s'.locals.counters, "completed"⟩ := by
  rw [servedTo, executeResponseScript, Prog.run_bind_ok
    (show (emit (startedEvent rules fixture)).run (ChainSync.session fixture) =
      (.ok (), ((emit (startedEvent rules fixture)).run (ChainSync.session fixture)).2) from rfl),
    Prog.run_bind_ok h]
  rfl

/-- The server. -/
def serverParty : Party ChainSyncRequest (Wire ChainSyncMessage) where
  tells heard := (servedTo rules fixture heard).2.sent
  takesNothingBack := by
    intro heard more h
    obtain ⟨rest, rfl⟩ := h
    rw [servedTo, servedTo, List.map_append, executeResponseScript_sent,
      executeResponseScript_sent]
    exact serveLoop_mono rules fixture _ _ _ _

end

end Proof

end ConformanceHarness
