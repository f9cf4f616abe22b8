import ConformanceHarness.Proof.ClientParts
import ConformanceHarness.Proof.SessionParts
import ConformanceHarness.Runner.Connections

/-!
# Wire events of sessions

No session executor names the connection it runs on: the wire events of every session, client
or server, carry no connection, whatever the peer does.
-/

namespace ConformanceHarness.Proof

open ConformanceHarness.Lib (Prog)
open ConformanceHarness.Lib.Prog (Within)
open Session

/-- The wire events of a trace carry no connection. -/
def Unnamed {τ : Type} (trace : List (Stamped τ)) : Prop :=
  ∀ e ∈ trace, e.event.isWire = true → e.event.connection = none

/-- What a session does to its trace leaves the wire events without a connection. -/
def KeepsUnnamed {τ ρ μ κ : Type} (s s' : Session τ ρ μ κ) : Prop :=
  Unnamed s.trace → Unnamed s'.trace

section

variable {τ ρ μ κ α β : Type}

theorem unnamed_append {trace trace' : List (Stamped τ)} (h : Unnamed trace)
    (h' : Unnamed trace') : Unnamed (trace ++ trace') := by
  intro e he
  rcases List.mem_append.mp he with he | he
  · exact h e he
  · exact h' e he

/-- A step that leaves the trace alone. -/
theorem unnamed_modify {f : Session τ ρ μ κ → Session τ ρ μ κ} (h : ∀ s, (f s).trace = s.trace) :
    Within KeepsUnnamed (Prog.modify f : Server τ ρ μ κ Unit) := by
  intro s hs
  show Unnamed (f s).trace
  rw [h s]
  exact hs

theorem unnamed_emit {event : TraceEvent} (h : event.isWire = true → event.connection = none) :
    Within KeepsUnnamed (emit event : Server τ ρ μ κ Unit) := by
  intro s hs
  refine unnamed_append hs fun e he => ?_
  rw [List.mem_singleton.mp he]
  exact h

/-- Internal events and unnamed ones are all that a session emits. -/
theorem keepsUnnamed : Keeps (KeepsUnnamed : Session τ ρ μ κ → Session τ ρ μ κ → Prop) where
  refl := fun _ hs => hs
  trans := fun _ _ _ hab hbc hs => hbc (hab hs)
  internal := fun hinternal => unnamed_emit fun hwire => nomatch hinternal.symm.trans hwire

theorem unnamed_pure {a : α} : Within KeepsUnnamed (pure a : Server τ ρ μ κ α) :=
  Within.pure keepsUnnamed.refl a

theorem unnamed_ofExcept {r : Except Fault α} :
    Within KeepsUnnamed (Prog.ofExcept r : Server τ ρ μ κ α) :=
  Within.ofExcept keepsUnnamed.refl r

theorem unnamed_bind {x : Server τ ρ μ κ α} {f : α → Server τ ρ μ κ β}
    (hx : Within KeepsUnnamed x) (hf : ∀ a, Within KeepsUnnamed (f a)) :
    Within KeepsUnnamed (x >>= f) := Within.bind keepsUnnamed.trans hx hf

theorem unnamed_get {f : Session τ ρ μ κ → Server τ ρ μ κ β}
    (hf : ∀ s, Within KeepsUnnamed (f s)) : Within KeepsUnnamed (Prog.get >>= f) :=
  Within.get_bind fun s => hf s s

theorem unnamed_update {f : ρ → ρ} : Within KeepsUnnamed (update f : Server τ ρ μ κ Unit) :=
  unnamed_modify fun _ => rfl

theorem unnamed_sendMessage {m : μ} :
    Within KeepsUnnamed (sendMessage m : Server τ ρ μ κ Unit) := unnamed_modify fun _ => rfl

theorem unnamed_sendRaw {bytes : List UInt8} :
    Within KeepsUnnamed (sendRaw bytes : Server τ ρ μ κ Unit) := unnamed_modify fun _ => rfl

/-- What a server is made of leaves its wire events unnamed. -/
theorem unnamed_parts :
    KeepsParts (KeepsUnnamed : Session τ ρ μ κ → Session τ ρ μ κ → Prop) where
  toKeeps := keepsUnnamed
  quiet := fun h => unnamed_modify fun s => (h s).2
  message := unnamed_sendMessage
  raw := unnamed_sendRaw
  event := fun h => unnamed_emit fun _ => h

theorem unnamed_start {state : τ} {locals : ρ} :
    Unnamed (Session.start state locals : Session τ ρ μ κ).trace := fun _ he => nomatch he

/-- What a client is made of leaves its wire events unnamed. -/
theorem unnamed_client {asks : EventKind} {isAsking : μ → Bool} :
    KeepsClient asks isAsking (KeepsUnnamed : Session τ ρ μ κ → Session τ ρ μ κ → Prop) where
  refl := keepsUnnamed.refl
  trans := keepsUnnamed.trans
  update := unnamed_update
  message := fun _ => unnamed_sendMessage
  event := fun hnone _ => unnamed_emit fun _ => hnone

end

/-! ## Clients -/

section

open ChainSyncClient

theorem runChainSync_unnamed (points : List Point) (count : UInt64) (replies : ChainSyncReplies) :
    Unnamed ((runChainSync points count replies).run session).2.trace := by
  obtain ⟨s, hstarted, hended⟩ := runChainSync_asks unnamed_client points count replies
  refine hended (unnamed_bind (unnamed_emit fun _ => rfl) (fun _ => ?_) s (hstarted unnamed_start))
  exact unnamed_bind unnamed_update fun _ => unnamed_sendMessage

end

section

open BlockFetchClient

theorem blockFetch_requestRange {batch : List Point} {fromPoint toPoint : Point}
    (reply : RangeReply) : Within KeepsUnnamed (requestRange batch fromPoint toPoint reply) := by
  refine fun s hs => requestRange_asked unnamed_client reply s ?_
  exact unnamed_bind (unnamed_emit fun _ => rfl) (fun _ => unnamed_sendMessage) s hs

theorem blockFetch_fetchBatches {range : Nat → RangeReply} (i : Nat)
    (batches : List (List Point)) : Within KeepsUnnamed (fetchBatches range i batches) := by
  induction batches generalizing i with
  | nil => exact unnamed_pure
  | cons batch rest ih =>
      rw [fetchBatches]
      split
      · exact unnamed_bind (blockFetch_requestRange (range i)) fun _ => ih (i + 1)
      · exact unnamed_ofExcept

theorem runBlockFetch_unnamed (points : List Point) (batchSize : Nat)
    (replies : BlockFetchReplies) :
    Unnamed ((runBlockFetch points batchSize replies).run session).2.trace := by
  obtain ⟨s, hstarted, hended⟩ := runBlockFetch_asks unnamed_client points batchSize replies
  exact hended (blockFetch_fetchBatches 0 _ s (hstarted unnamed_start))

end

section

open LeiosNotifyClient

theorem leiosNotify_finish {exitReason : String} : Within KeepsUnnamed (finish exitReason) :=
  unnamed_get fun _ => unnamed_bind (unnamed_emit fun _ => rfl) fun _ => unnamed_pure

theorem leiosNotify_noReply (ending : NoReply) : Within KeepsUnnamed (noReply ending) := by
  cases ending with
  | timeout => exact unnamed_bind leiosNotify_finish fun _ => unnamed_pure
  | error message =>
      exact unnamed_bind (unnamed_emit fun _ => rfl) fun _ => unnamed_bind leiosNotify_finish
        fun _ => unnamed_ofExcept

theorem leiosNotify_event (event : LeiosNotifyEvent) :
    (notificationEvent event).connection = none := by
  cases event <;> rfl

theorem leiosNotify_requestLoop {count : UInt64} {ending : NoReply}
    (incoming : List LeiosNotifyEvent) :
    Within KeepsUnnamed (requestLoop count ending incoming) := by
  induction incoming with
  | nil =>
      refine unnamed_get fun s => ?_
      split
      · exact unnamed_bind unnamed_sendMessage fun _ => leiosNotify_noReply ending
      · exact unnamed_pure
  | cons event incoming ih =>
      refine unnamed_get fun s => ?_
      split
      · refine unnamed_bind unnamed_sendMessage fun _ => unnamed_bind unnamed_update fun _ => ?_
        exact unnamed_bind (unnamed_emit fun _ => leiosNotify_event event) fun _ => ih
      · exact unnamed_pure

theorem runLeiosNotify_unnamed (count : UInt64) (replies : LeiosNotifyReplies) :
    Unnamed ((runLeiosNotify count replies).run session).2.trace := by
  refine unnamed_bind (unnamed_emit fun _ => rfl) (fun _ => ?_) session unnamed_start
  refine unnamed_bind (leiosNotify_requestLoop replies.incoming) fun summary => ?_
  cases summary with
  | some summary => exact unnamed_pure
  | none =>
      refine unnamed_bind ?_ fun _ => leiosNotify_finish
      cases replies.done with
      | error message => exact unnamed_pure
      | ok a => exact unnamed_bind unnamed_sendMessage fun _ => unnamed_emit fun _ => rfl

end

section

open LeiosFetchClient

theorem leiosFetch_finish {exitReason : String} : Within KeepsUnnamed (finish exitReason) :=
  unnamed_get fun _ => unnamed_bind (unnamed_emit fun _ => rfl) fun _ => unnamed_pure

theorem leiosFetch_fetchBlock {point : NcPoint} (reply : Except String (List UInt8)) :
    Within KeepsUnnamed (fetchBlock point reply) := by
  refine unnamed_bind (unnamed_emit fun _ => rfl) fun _ => unnamed_bind unnamed_update fun _ =>
    unnamed_bind unnamed_sendMessage fun _ => ?_
  cases reply with
  | ok block => exact unnamed_bind unnamed_update fun _ => unnamed_emit fun _ => rfl
  | error message =>
      exact unnamed_bind (unnamed_emit fun _ => rfl) fun _ => unnamed_bind leiosFetch_finish
        fun _ => unnamed_ofExcept

theorem leiosFetch_fetchBlocks {block : Nat → Except String (List UInt8)} (i : Nat)
    (points : List NcPoint) : Within KeepsUnnamed (fetchBlocks block i points) := by
  induction points generalizing i with
  | nil => exact unnamed_pure
  | cons point rest ih =>
      exact unnamed_bind (leiosFetch_fetchBlock (block i)) fun _ => ih (i + 1)

theorem runLeiosFetch_unnamed (points : List NcPoint) (replies : LeiosFetchReplies) :
    Unnamed ((runLeiosFetch points replies).run session).2.trace := by
  refine unnamed_bind (unnamed_emit fun _ => rfl) (fun _ => ?_) session unnamed_start
  refine unnamed_bind (leiosFetch_fetchBlocks 0 points) fun _ => ?_
  refine unnamed_bind ?_ fun _ => leiosFetch_finish
  cases replies.done with
  | error message => exact unnamed_pure
  | ok a => exact unnamed_bind unnamed_sendMessage fun _ => unnamed_emit fun _ => rfl

end

open Handshake in
theorem handshakeOnChannels_unnamed (versions : List UInt64) (magic : UInt64)
    (result : Except String HandshakeResult) :
    Unnamed ((handshakeOnChannels versions magic result).run session).2.trace := by
  refine unnamed_bind (unnamed_emit fun _ => rfl) (fun _ => ?_) session unnamed_start
  refine unnamed_bind (unnamed_emit fun _ => rfl) fun _ => unnamed_bind unnamed_sendMessage
    fun _ => ?_
  split
  · exact unnamed_ofExcept
  · exact unnamed_bind (unnamed_emit fun _ => rfl) fun _ => unnamed_ofExcept
  · exact unnamed_ofExcept
  · exact unnamed_bind (unnamed_emit fun _ => rfl) fun _ =>
      unnamed_bind (unnamed_emit fun _ => rfl) fun _ => unnamed_pure

/-! ## Servers -/

section

open BlockFetch

theorem executeBlockFetchScript_unnamed (rules : List ScriptRule)
    (fixture : Option BlockFixtureChain) (incoming : List BlockFetchRequest) :
    Unnamed ((executeBlockFetchScript rules fixture incoming).run session).2.trace :=
  executeBlockFetchScript_parts unnamed_parts rules incoming session unnamed_start

end

section

open ChainSync

theorem executeResponseScript_unnamed (rules : List ScriptRule) (fixture : Option FixtureChain)
    (incoming : List ReceivedRequest) :
    Unnamed ((executeResponseScript rules fixture incoming).run (session fixture)).2.trace :=
  executeResponseScript_parts unnamed_parts rules incoming (session fixture) unnamed_start

end

section

open LeiosNotify

variable {runner : LeiosNotifyRunner}

theorem leiosNotifyServer_notify {message : LeiosNotifyMessage} {event : TraceEvent}
    (h : event.connection = none) : Within KeepsUnnamed (notify runner message event) := by
  refine unnamed_get fun s => ?_
  split
  · exact unnamed_ofExcept
  · exact unnamed_bind unnamed_sendMessage fun _ => unnamed_bind unnamed_update fun _ =>
      unnamed_bind (unnamed_emit fun _ => h) fun _ => unnamed_pure

theorem leiosNotifyServer_raw {raw : List UInt8} : Within KeepsUnnamed (notifyRaw runner raw) := by
  refine unnamed_get fun s => ?_
  split
  · exact unnamed_ofExcept
  · exact unnamed_bind unnamed_sendRaw fun _ => unnamed_bind (unnamed_emit fun _ => rfl) fun _ =>
      unnamed_pure

theorem leiosNotifyServer_action (action : LeiosNotifyAction) :
    Within KeepsUnnamed (executeAction runner action) := by
  unfold executeAction
  split
  · exact unnamed_bind unnamed_ofExcept fun _ => leiosNotifyServer_notify rfl
  split
  · exact unnamed_bind unnamed_ofExcept fun _ => leiosNotifyServer_notify rfl
  split
  · exact unnamed_bind unnamed_ofExcept fun _ => leiosNotifyServer_notify rfl
  split
  · exact unnamed_bind unnamed_ofExcept fun _ => leiosNotifyServer_notify rfl
  split
  · exact unnamed_pure
  split
  · exact unnamed_pure
  split
  · exact unnamed_bind unnamed_ofExcept fun _ => leiosNotifyServer_raw
  · exact unnamed_ofExcept

theorem leiosNotifyServer_loop (actions : List LeiosNotifyAction)
    (incoming : List LeiosNotifyIncoming) :
    Within KeepsUnnamed (serveLoop runner actions incoming) := by
  fun_induction serveLoop runner actions incoming with
  | case1 actions => exact unnamed_pure
  | case2 actions text incoming ih => exact ih
  | case3 actions incoming => exact unnamed_emit fun _ => rfl
  | case4 incoming => exact unnamed_pure
  | case5 action actions incoming ih =>
      refine unnamed_bind (leiosNotifyServer_action action) fun ended => ?_
      cases ended with
      | true => exact unnamed_pure
      | false => exact ih

theorem executeLeiosNotifyScript_unnamed (actions : List LeiosNotifyAction)
    (incoming : List LeiosNotifyIncoming) :
    Unnamed ((executeLeiosNotifyScript runner actions incoming).run session).2.trace := by
  refine unnamed_bind (unnamed_emit fun _ => rfl) (fun _ => ?_) session unnamed_start
  refine unnamed_bind (leiosNotifyServer_loop actions incoming) fun _ => unnamed_get fun s => ?_
  exact unnamed_bind (unnamed_emit fun _ => rfl) fun _ => unnamed_pure

end

section

open LeiosFetch Connections

variable {runner : QuietRunner}

theorem leiosFetchServer_send (send : LeiosFetchSend) :
    Within KeepsUnnamed (executeSendRule runner.toLeiosFetchRunner send) := by
  have hquiet : ∀ {x : LeiosFetchServer Unit}, (∀ s, (x.run s).2.trace = s.trace) →
      Within KeepsUnnamed x := by
    intro x hx s hs
    show Unnamed (x.run s).2.trace
    rw [hx s]
    exact hs
  unfold executeSendRule
  split
  · exact unnamed_bind unnamed_ofExcept fun block =>
      unnamed_bind (hquiet (runner.send_trace _)) fun _ => unnamed_bind unnamed_update fun _ =>
        unnamed_bind (unnamed_emit fun _ => rfl) fun _ => unnamed_pure
  split
  · exact unnamed_pure
  split
  · exact unnamed_pure
  split
  · exact unnamed_bind unnamed_ofExcept fun raw =>
      unnamed_bind (hquiet (runner.sendRaw_trace _)) fun _ =>
        unnamed_bind (unnamed_emit fun _ => rfl) fun _ => unnamed_pure
  · exact unnamed_ofExcept

theorem leiosFetchServer_loop (rules : List LeiosFetchRule) (ruleIdx : Nat)
    (incoming : List FetchMessage) :
    Within KeepsUnnamed (serveLoop runner.toLeiosFetchRunner rules ruleIdx incoming) := by
  induction incoming generalizing ruleIdx with
  | nil => exact unnamed_pure
  | cons message incoming ih =>
      rw [serveLoop]
      split
      · exact ih ruleIdx
      split
      · exact unnamed_emit fun _ => rfl
      split
      · exact unnamed_ofExcept
      · refine unnamed_bind (unnamed_emit fun _ => rfl) fun _ =>
          unnamed_bind (leiosFetchServer_send _) fun ended => ?_
        cases ended with
        | true => exact unnamed_pure
        | false => exact ih _

theorem executeLeiosFetchScript_unnamed (rules : List LeiosFetchRule)
    (incoming : List FetchMessage) :
    Unnamed ((executeLeiosFetchScript runner.toLeiosFetchRunner rules incoming).run
      session).2.trace := by
  refine unnamed_bind (unnamed_emit fun _ => rfl) (fun _ => ?_) session unnamed_start
  refine unnamed_bind (leiosFetchServer_loop rules 0 incoming) fun _ => unnamed_get fun s => ?_
  exact unnamed_bind (unnamed_emit fun _ => rfl) fun _ => unnamed_pure

end

/-! ## Workers -/

theorem runKeepalive_unnamed (cookie : UInt16) (rounds : Nat) :
    ∀ event ∈ KeepAlive.runKeepalive cookie rounds, event.connection = none := by
  induction rounds generalizing cookie with
  | zero => exact fun _ h => nomatch h
  | succ rounds ih =>
      intro event hevent
      rcases List.mem_cons.mp hevent with rfl | hevent
      · rfl
      rcases List.mem_cons.mp hevent with rfl | hevent
      · rfl
      · exact ih (cookie + 1) event hevent

theorem requestEvents_unnamed (replied : Bool) (request : TxSubmissionRequest) :
    ∀ event ∈ TxSubmission.requestEvents replied request, event.connection = none := by
  intro event hevent
  cases request with
  | requestTxIds blocking ack req =>
      rcases List.mem_cons.mp hevent with rfl | hevent
      · rfl
      · split at hevent
        · rw [List.mem_singleton.mp hevent]
          rfl
        · exact nomatch hevent
  | requestTxs count =>
      rcases List.mem_cons.mp hevent with rfl | hevent
      · rfl
      · split at hevent
        · rw [List.mem_singleton.mp hevent]
          rfl
        · exact nomatch hevent
  | done => exact nomatch hevent
  | other text => exact nomatch hevent

theorem txSubmission_requestLoop_unnamed (requests : List (TxSubmissionRequest × Bool)) :
    ∀ event ∈ TxSubmission.requestLoop requests, event.connection = none := by
  induction requests with
  | nil => exact fun _ h => nomatch h
  | cons entry rest ih =>
      intro event hevent
      rcases List.mem_append.mp hevent with hevent | hevent
      · exact requestEvents_unnamed _ _ event hevent
      · split at hevent
        · exact ih event hevent
        · exact nomatch hevent

theorem runTxSubmission_unnamed (initSent : Bool) (requests : List (TxSubmissionRequest × Bool)) :
    ∀ event ∈ TxSubmission.runTxSubmission initSent requests, event.connection = none := by
  intro event hevent
  unfold TxSubmission.runTxSubmission at hevent
  split at hevent
  · rcases List.mem_cons.mp hevent with rfl | hevent
    · rfl
    · exact txSubmission_requestLoop_unnamed requests event hevent
  · exact nomatch hevent

end ConformanceHarness.Proof
