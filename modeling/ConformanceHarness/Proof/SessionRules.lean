import ConformanceHarness.Miniprotocols.BlockFetchServer
import ConformanceHarness.Miniprotocols.ChainSyncServer

/-!
# What a session can do, from what one send can do

Both execution loops are the same loop: receive, find a rule, perform its send. A
reflexive and transitive relation that the receipt of a message, a write of an
internal event, an assignment to a counter and every send of the script keep is kept by
the session, whatever the client sends and however it ends.

The Chain-Sync loop moves its state after a send, also one that ends the session; a
second relation says what holds then.
-/

namespace ConformanceHarness

open ConformanceHarness.Lib (Prog)
open ConformanceHarness.Lib.Prog (Within)
open Session

/-- The sends a rule consists of. -/
def ScriptSend.subSends : ScriptSend → List ScriptSend
  | .sendSequence sends => sends
  | single => [single]

/-- The wire events of a trace. -/
def wires {τ : Type} (trace : List (Stamped τ)) : List (Stamped τ) :=
  trace.filter fun e => e.event.isWire

theorem wires_append {τ : Type} (trace trace' : List (Stamped τ)) :
    wires (trace ++ trace') = wires trace ++ wires trace' :=
  List.filter_append trace trace'

theorem wires_internal {τ : Type} {event : TraceEvent} {before after : τ}
    (h : event.isWire = false) : wires [⟨event, before, after⟩] = [] := by
  simp [wires, h]

theorem wires_wire {τ : Type} {event : TraceEvent} {before after : τ}
    (h : event.isWire = true) : wires [⟨event, before, after⟩] = [⟨event, before, after⟩] := by
  simp [wires, h]

namespace Proof

/-- `nextRule` finds a rule of the list. -/
theorem nextRule_mem {matchesOn : On → Bool} {ruleIdx pos : Nat} {rules : List ScriptRule}
    {rule : ScriptRule} (h : nextRule matchesOn ruleIdx rules = some (pos, rule)) :
    rule ∈ rules := by
  induction rules generalizing ruleIdx with
  | nil => simp [nextRule] at h
  | cons r rest ih =>
    rw [nextRule] at h
    by_cases hm : matchesOn r.on
    · rw [if_pos hm] at h
      obtain ⟨-, rfl⟩ := Prod.mk.inj (Option.some.inj h)
      exact List.mem_cons_self
    · rw [if_neg hm] at h
      exact List.mem_cons_of_mem r (ih h)

/-- A relation between the session before and after that a whole session inherits. -/
structure Keeps {τ ρ μ κ : Type} (R : Session τ ρ μ κ → Session τ ρ μ κ → Prop) : Prop where
  refl : ∀ s, R s s
  trans : ∀ a b c, R a b → R b c → R a c
  /-- Writes of internal events keep it. -/
  internal : ∀ {event : TraceEvent}, event.isWire = false → Within R (emit event)

/-! ## Block-Fetch -/

section BlockFetch

open BlockFetch

variable {R : BlockFetchSession → BlockFetchSession → Prop} {fixture : Option BlockFixtureChain}

/-- Blocks are sent and counted, one after the other. -/
theorem sendBlocks_run (entries : List (BlockSource × List UInt8)) : ∀ s : BlockFetchSession,
    ∃ s', (sendBlocks entries).run s = (.ok (), s') ∧
      s'.sent = s.sent ++ entries.map (fun entry => .message (.block entry.2)) ∧
      s'.delivered = s.delivered ++ entries.map Prod.fst ∧
      s'.locals.blocksServed = s.locals.blocksServed + UInt64.ofNat entries.length := by
  induction entries with
  | nil =>
    exact fun s => ⟨s, rfl, (List.append_nil _).symm, (List.append_nil _).symm,
      (UInt64.add_zero _).symm⟩
  | cons entry rest ih =>
    intro s
    obtain ⟨s', hrun, hsent, hdelivered, hserved⟩ :=
      ih ((sendBlock entry.1 entry.2 entry.2.length).run s).2
    refine ⟨s', hrun, ?_, ?_, ?_⟩
    · rw [hsent, List.map_cons, ← List.singleton_append, ← List.append_assoc]
      rfl
    · rw [hdelivered, List.map_cons, ← List.singleton_append, ← List.append_assoc]
      rfl
    · rw [hserved, List.length_cons, UInt64.ofNat_add, UInt64.add_comm (UInt64.ofNat _),
        ← UInt64.add_assoc]
      rfl

/-- A stream with blocks is a whole batch. -/
theorem sendStream_run (stateBefore : ServerBfState) {entries : List (BlockSource × List UInt8)}
    (hne : entries ≠ []) (s : BlockFetchSession) :
    ∃ s', (sendStream stateBefore (some entries)).run s = (.ok (), s') ∧
      s'.sent = s.sent ++ (.message .startBatch ::
        entries.map (fun entry => .message (.block entry.2)) ++ [.message .batchDone]) ∧
      s'.delivered = s.delivered ++ entries.map Prod.fst ∧ s'.state = .idle ∧
      s'.locals.blocksServed = s.locals.blocksServed + UInt64.ofNat entries.length := by
  let started := ((sendStartBatch stateBefore).run s).2
  have hstart : (sendStartBatch stateBefore).run s = (.ok (), started) := rfl
  obtain ⟨t, hblocks, hsent, hdelivered, hserved⟩ := sendBlocks_run entries started
  refine ⟨((sendBatchDone (UInt64.ofNat entries.length)).run t).2, ?_, ?_, hdelivered, rfl,
    hserved⟩
  · rw [sendStream, Prog.run_bind_ok hstart, Prog.run_bind_ok hblocks]
    · rfl
    · exact hne
  · have hstarted : started.sent = s.sent ++ [.message .startBatch] := rfl
    show t.sent ++ [.message .batchDone] = _
    rw [hsent, hstarted]
    simp

/-- The single sends of a sequence, each from the state the one before it left. -/
theorem executeSequence_within (hR : Keeps R) {request : BlockFetchRequest}
    {sends : List ScriptSend}
    (hsend : ∀ send ∈ sends, ∀ s, R s ((executeSingleSend send request fixture s.state).run s).2) :
    Within R (executeSequence request fixture sends) := by
  induction sends with
  | nil => exact Within.pure hR.refl false
  | cons send rest ih =>
    rw [executeSequence]
    refine Within.get_bind fun s => ?_
    have hfirst := hsend send List.mem_cons_self s
    have hrest := ih fun sub hsub => hsend sub (List.mem_cons_of_mem send hsub)
    rw [Prog.run_bind]
    rcases hrun : (executeSingleSend send request fixture s.state).run s with ⟨_ | done, s'⟩ <;>
      rw [hrun] at hfirst
    · exact hfirst
    · cases done with
      | true => exact hfirst
      | false => exact hR.trans _ _ _ hfirst (hrest s')

/-- A rule's send does what its single sends do. -/
theorem executeSend_within (hR : Keeps R) {request : BlockFetchRequest} {send : ScriptSend}
    (hsend : ∀ sub ∈ send.subSends, ∀ s,
      R s ((executeSingleSend sub request fixture s.state).run s).2) (s : BlockFetchSession) :
    R s ((executeSend send request fixture s.state).run s).2 := by
  cases send with
  | sendSequence sends => exact executeSequence_within hR hsend s
  | _ => exact hsend _ List.mem_cons_self s

theorem serveLoop_within (hR : Keeps R) (hcount : ∀ f, Within R (update f))
    (hreceive : ∀ request, Within R (receive request)) {rules : List ScriptRule}
    (hsend : ∀ rule ∈ rules, ∀ send ∈ rule.send.subSends, ∀ request s,
      R s ((executeSingleSend send request fixture s.state).run s).2)
    (ruleIdx : Nat) (incoming : List BlockFetchRequest) :
    Within R (serveLoop rules fixture ruleIdx incoming) := by
  induction incoming generalizing ruleIdx with
  | nil => exact Within.pure hR.refl ()
  | cons request incoming ih =>
    rw [serveLoop]
    refine Within.bind hR.trans (hreceive request) fun _ => ?_
    by_cases hdone : request = .clientDone
    · rw [if_pos hdone]
      exact Within.pure hR.refl ()
    · rw [if_neg hdone]
      refine Within.bind hR.trans (hcount _) fun _ => ?_
      split
      · exact Within.ofExcept hR.refl _
      · rename_i pos rule hnext
        have hmem : rule ∈ rules := List.mem_of_mem_drop (nextRule_mem hnext)
        refine Within.bind hR.trans
          (Within.bind hR.trans (hR.internal rfl) fun _ => hcount _) fun _ => ?_
        refine Within.get_bind fun s => ?_
        have hfirst := executeSend_within hR
          (fun send hsub s => hsend rule hmem send hsub request s) s
        rw [Prog.run_bind]
        rcases hrun : (executeSend rule.send request fixture s.state).run s with ⟨_ | done, s'⟩ <;>
          rw [hrun] at hfirst
        · exact hfirst
        · cases done with
          | true => exact hfirst
          | false => exact hR.trans _ _ _ hfirst (ih _ s')

/-- **A Block-Fetch session does what its single sends do.** -/
theorem executeBlockFetchScript_within (hR : Keeps R) (hcount : ∀ f, Within R (update f))
    (hreceive : ∀ request, Within R (receive request)) {rules : List ScriptRule}
    (hsend : ∀ rule ∈ rules, ∀ send ∈ rule.send.subSends, ∀ request s,
      R s ((executeSingleSend send request fixture s.state).run s).2)
    (incoming : List BlockFetchRequest) :
    Within R (executeBlockFetchScript rules fixture incoming) := by
  refine Within.bind hR.trans (hR.internal rfl) fun _ => ?_
  refine Within.bind hR.trans (serveLoop_within hR hcount hreceive hsend 0 incoming) fun _ => ?_
  refine Within.get_bind fun s => ?_
  exact Within.bind hR.trans (hR.internal rfl) (fun _ => Within.pure hR.refl _) s

end BlockFetch

/-! ## Chain-Sync -/

section ChainSync

open ChainSync

variable {R E : ChainSyncSession → ChainSyncSession → Prop} {fixture : Option FixtureChain}

/-- The state moves on a send. -/
def settled (send : ScriptSend) (s : ChainSyncSession) : ChainSyncSession :=
  { s with state := s.state.afterSend send }

/-- A request has been received, and the rule at `pos` counted for it. -/
def turnTo (request : ReceivedRequest) (pos : Nat) (rule : ScriptRule) (s : ChainSyncSession) :
    ChainSyncSession := ((applyRule pos rule).run ((receive request).run s).2).2

/-- **One turn of the loop**: the send is performed, and the loop stops with it or goes on. -/
theorem serveLoop_turn {rules : List ScriptRule} {ruleIdx pos : Nat} {rule : ScriptRule}
    {request : ReceivedRequest} (hdone : request ≠ .done)
    (hnext : nextRule request.matchesOn ruleIdx (rules.drop ruleIdx) = some (pos, rule))
    (incoming : List ReceivedRequest) (s : ChainSyncSession) :
    (serveLoop rules fixture ruleIdx (request :: incoming)).run s =
      match (executeSend rule.send request fixture (turnTo request pos rule s).state).run
        (turnTo request pos rule s) with
      | (.error f, s') => (.error f, s')
      | (.ok true, s') => (.ok (), settled rule.send s')
      | (.ok false, s') =>
        (serveLoop rules fixture (if rule.repeatable then ruleIdx else pos + 1) incoming).run
          (settled rule.send s') := by
  have hreceive : (receive request).run s = (.ok (), ((receive request).run s).2) := rfl
  have happly : (applyRule pos rule).run ((receive request).run s).2 =
      (.ok (), turnTo request pos rule s) := rfl
  rw [serveLoop, Prog.run_bind_ok hreceive, if_neg hdone, hnext]
  dsimp only
  rw [Prog.run_bind_ok happly, Prog.run_get_bind, Prog.run_bind]
  rcases (executeSend rule.send request fixture (turnTo request pos rule s).state).run
    (turnTo request pos rule s) with ⟨_ | done, s'⟩
  · rfl
  · have hsettle : (settle rule.send).run s' = (.ok (), settled rule.send s') := rfl
    dsimp only
    rw [Prog.run_bind_ok hsettle]
    cases done <;> rfl

/-- What a relation needs of a send: `E` is the relation for a session that ends. -/
def SendKeeps (R E : ChainSyncSession → ChainSyncSession → Prop) (send : ScriptSend)
    (request : ReceivedRequest) (fixture : Option FixtureChain) (s : ChainSyncSession) : Prop :=
  match (executeSend send request fixture s.state).run s with
  | (.ok false, s') => R s (settled send s')
  | (.ok true, s') => E s (settled send s')
  | (.error _, s') => E s s'

/-- How the relation of a session that ends goes with that of one that goes on. -/
structure Ends (R E : ChainSyncSession → ChainSyncSession → Prop) : Prop where
  of_keeps : ∀ a b, R a b → E a b
  before : ∀ a b c, R a b → E b c → E a c
  internal : ∀ a b (event : TraceEvent), event.isWire = false → E a b →
    E a ((emit event : ChainSyncServer Unit).run b).2

/-- The loop. When a send is performed, a message was received. -/
theorem serveLoop_ends (hR : Keeps R) (hE : Ends R E) (hcount : ∀ f, Within R (count f))
    (hreceive : ∀ request, Within R (receive request)) {rules : List ScriptRule}
    (hsend : ∀ rule ∈ rules, ∀ request s, s.performed ≠ [] →
      SendKeeps R E rule.send request fixture s)
    (ruleIdx : Nat) (incoming : List ReceivedRequest) (s : ChainSyncSession) :
    E s ((serveLoop rules fixture ruleIdx incoming).run s).2 := by
  induction incoming generalizing ruleIdx s with
  | nil => exact hE.of_keeps s s (hR.refl s)
  | cons request incoming ih =>
    rw [serveLoop]
    have hrunReceive : (receive request).run s = (.ok (), ((receive request).run s).2) := rfl
    rw [Prog.run_bind_ok hrunReceive]
    have hreceived := hreceive request s
    have hne : ((receive request).run s).2.performed ≠ [] := List.concat_ne_nil _ _
    generalize ((receive request).run s).2 = s₁ at hreceived hne
    by_cases hdone : request = .done
    · rw [if_pos hdone]
      exact hE.of_keeps s s₁ hreceived
    · rw [if_neg hdone]
      split
      · exact hE.of_keeps s s₁ hreceived
      · rename_i pos rule hnext
        have hmem : rule ∈ rules := List.mem_of_mem_drop (nextRule_mem hnext)
        have hrunApply : (applyRule pos rule).run s₁ = (.ok (), ((applyRule pos rule).run s₁).2) :=
          rfl
        rw [Prog.run_bind_ok hrunApply, Prog.run_get_bind]
        have happlied : R s₁ ((applyRule pos rule).run s₁).2 :=
          Within.bind hR.trans (hR.internal rfl) (fun _ => hcount _) s₁
        have hfirst := hR.trans _ _ _ hreceived happlied
        have hne₂ : ((applyRule pos rule).run s₁).2.performed ≠ [] := hne
        generalize ((applyRule pos rule).run s₁).2 = s₂ at hfirst hne₂
        have hrule := hsend rule hmem request s₂ hne₂
        rw [SendKeeps] at hrule
        rw [Prog.run_bind]
        rcases hrun : (executeSend rule.send request fixture s₂.state).run s₂ with
          ⟨_ | done, s'⟩ <;>
          rw [hrun] at hrule
        · exact hE.before _ _ _ hfirst hrule
        · cases done with
          | true => exact hE.before _ _ _ hfirst hrule
          | false => exact hE.before _ _ _ (hR.trans _ _ _ hfirst hrule) (ih _ _)

/-- **A Chain-Sync session does what its sends do, each settled.** -/
theorem executeResponseScript_ends (hR : Keeps R) (hE : Ends R E)
    (hcount : ∀ f, Within R (count f))
    (hreceive : ∀ request, Within R (receive request)) {rules : List ScriptRule}
    (hsend : ∀ rule ∈ rules, ∀ request s, s.performed ≠ [] →
      SendKeeps R E rule.send request fixture s)
    (incoming : List ReceivedRequest) (s : ChainSyncSession) :
    E s ((executeResponseScript rules fixture incoming).run s).2 := by
  let s₁ := ((emit (startedEvent rules fixture) : ChainSyncServer Unit).run s).2
  have hstarted : R s s₁ := hR.internal rfl s
  have hloop := hE.before _ _ _ hstarted 
    (serveLoop_ends hR hE hcount hreceive hsend 0 incoming s₁)
  show E s ((serveLoop rules fixture 0 incoming >>= fun _ => _).run s₁).2
  rw [Prog.run_bind]
  rcases hrun : (serveLoop rules fixture 0 incoming).run s₁ with ⟨_ | _, s'⟩ <;> rw [hrun] at hloop
  · exact hloop
  · exact hE.internal s s' _ rfl hloop

end ChainSync

end Proof

end ConformanceHarness
