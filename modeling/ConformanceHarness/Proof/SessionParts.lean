import ConformanceHarness.Proof.SessionRules

/-!
# What a session does, from what its parts do

A server session is put together from a few parts: it sends, it writes an event, or it
changes something else. A relation that all of them keep is kept by every send of either
server and by every run of its loop, as long as the events name no connection, which those
of a server never do.
-/

namespace ConformanceHarness.Proof

open ConformanceHarness.Lib (Prog)
open ConformanceHarness.Lib.Prog (Within)
open Session

/-- A relation that the parts of a session keep. -/
structure KeepsParts {τ ρ μ κ : Type} (R : Session τ ρ μ κ → Session τ ρ μ κ → Prop) : Prop
    extends Keeps R where
  /-- What neither sends nor writes an event. -/
  quiet : ∀ {f : Session τ ρ μ κ → Session τ ρ μ κ},
    (∀ s, (f s).sent = s.sent ∧ (f s).trace = s.trace) →
      Within R (Prog.modify f : Server τ ρ μ κ Unit)
  message : ∀ {m : μ}, Within R (sendMessage m)
  raw : ∀ {bytes : List UInt8}, Within R (sendRaw bytes)
  event : ∀ {event : TraceEvent}, event.connection = none → Within R (emit event)

namespace KeepsParts

variable {τ ρ μ κ α β : Type} {R : Session τ ρ μ κ → Session τ ρ μ κ → Prop}

theorem pure (h : KeepsParts R) {a : α} : Within R (Pure.pure a : Server τ ρ μ κ α) :=
  Within.pure h.refl a

theorem ofExcept (h : KeepsParts R) {r : Except Fault α} :
    Within R (Prog.ofExcept r : Server τ ρ μ κ α) := Within.ofExcept h.refl r

theorem bind (h : KeepsParts R) {x : Server τ ρ μ κ α} {f : α → Server τ ρ μ κ β}
    (hx : Within R x) (hf : ∀ a, Within R (f a)) : Within R (x >>= f) :=
  Within.bind h.trans hx hf

theorem get {f : Session τ ρ μ κ → Server τ ρ μ κ β} (hf : ∀ s, Within R (f s)) :
    Within R (Prog.get >>= f) := Within.get_bind fun s => hf s s

theorem update (h : KeepsParts R) {f : ρ → ρ} :
    Within R (Session.update f : Server τ ρ μ κ Unit) := h.quiet fun _ => ⟨rfl, rfl⟩

theorem state (h : KeepsParts R) {state : τ} :
    Within R (setState state : Server τ ρ μ κ Unit) := h.quiet fun _ => ⟨rfl, rfl⟩

theorem note (h : KeepsParts R) {send : ScriptSend} :
    Within R (noteSend send : Server τ ρ μ κ Unit) := h.quiet fun _ => ⟨rfl, rfl⟩

theorem received (h : KeepsParts R) : Within R (noteReceived : Server τ ρ μ κ Unit) :=
  h.quiet fun _ => ⟨rfl, rfl⟩

theorem delivered (h : KeepsParts R) {source : κ} :
    Within R (noteDelivered source : Server τ ρ μ κ Unit) := h.quiet fun _ => ⟨rfl, rfl⟩

end KeepsParts

/-- The messages on the channel stay there. -/
theorem keepsParts_sent {τ ρ μ κ : Type} :
    KeepsParts fun s s' : Session τ ρ μ κ => s.sent <+: s'.sent where
  refl := fun _ => List.prefix_rfl
  trans := fun _ _ _ hab hbc => hab.trans hbc
  internal := fun _ _ => List.prefix_rfl
  quiet := fun h s => ⟨[], (List.append_nil _).trans (h s).1.symm⟩
  message := fun s => List.prefix_append s.sent _
  raw := fun s => List.prefix_append s.sent _
  event := fun _ _ => List.prefix_rfl

/-! ## Block-Fetch -/

section

open BlockFetch

variable {R : BlockFetchSession → BlockFetchSession → Prop} {fixture : Option BlockFixtureChain}

theorem sendNoBlocks_parts (h : KeepsParts R) {stateBefore : ServerBfState} :
    Within R (sendNoBlocks stateBefore) :=
  h.bind h.message fun _ => h.bind h.state fun _ => h.bind h.update fun _ => h.event rfl

theorem sendStartBatch_parts (h : KeepsParts R) {stateBefore : ServerBfState} :
    Within R (sendStartBatch stateBefore) :=
  h.bind h.message fun _ => h.bind h.state fun _ => h.event rfl

theorem sendBlock_parts (h : KeepsParts R) {source : BlockSource} {body : List UInt8}
    {cborLen : Nat} : Within R (sendBlock source body cborLen) :=
  h.bind h.message fun _ => h.bind h.delivered fun _ => h.bind h.update fun _ => h.event rfl

theorem sendBatchDone_parts (h : KeepsParts R) {blocksInBatch : UInt64} :
    Within R (sendBatchDone blocksInBatch) :=
  h.bind h.message fun _ => h.bind h.state fun _ => h.event rfl

theorem sendBlocks_parts (h : KeepsParts R) (entries : List (BlockSource × List UInt8)) :
    Within R (sendBlocks entries) := by
  induction entries with
  | nil => exact h.pure
  | cons entry rest ih => exact h.bind (sendBlock_parts h) fun _ => ih

theorem sendStream_parts (h : KeepsParts R) {stateBefore : ServerBfState}
    (entries : Option (List (BlockSource × List UInt8))) :
    Within R (sendStream stateBefore entries) := by
  rcases entries with _ | _ | ⟨entry, rest⟩
  · exact sendNoBlocks_parts h
  · exact sendNoBlocks_parts h
  · exact h.bind (sendStartBatch_parts h) fun _ => h.bind (sendBlocks_parts h _) fun _ =>
      sendBatchDone_parts h

theorem executeSingleSend_parts (h : KeepsParts R) (send : ScriptSend)
    {request : BlockFetchRequest} {stateBefore : ServerBfState} :
    Within R (executeSingleSend send request fixture stateBefore) := by
  have hgo : ∀ {x : BlockFetchServer Unit}, Within R x →
      Within R (noteSend send >>= fun _ => x >>= fun _ => pure false) :=
    fun hx => h.bind h.note fun _ => h.bind hx fun _ => h.pure
  cases send with
  | noBlocks => exact hgo (sendNoBlocks_parts h)
  | startBatch => exact hgo (sendStartBatch_parts h)
  | block source => exact h.bind h.ofExcept fun body => hgo (sendBlock_parts h)
  | batchDone =>
      exact h.bind h.note fun _ => KeepsParts.get fun s => h.bind (sendBatchDone_parts h)
        fun _ => h.pure
  | streamBatch sources =>
      exact h.bind h.ofExcept fun entries => hgo (sendStream_parts h entries)
  | wait secs => exact h.pure
  | disconnect => exact h.pure
  | rawBytes bytes =>
      exact h.bind h.note fun _ => h.bind h.raw fun _ => h.bind (h.event rfl) fun _ => h.pure
  | _ => exact h.ofExcept

theorem blockFetch_receive_parts (h : KeepsParts R) (request : BlockFetchRequest) :
    Within R (receive request) := by
  refine h.bind h.received fun _ => KeepsParts.get fun s => h.bind h.state fun _ => h.event ?_
  cases request <;> rfl

/-- **A Block-Fetch session does what its parts do.** -/
theorem executeBlockFetchScript_parts (h : KeepsParts R) (rules : List ScriptRule)
    (incoming : List BlockFetchRequest) :
    Within R (executeBlockFetchScript rules fixture incoming) :=
  executeBlockFetchScript_within h.toKeeps (fun _ => h.update) (blockFetch_receive_parts h)
    (fun _ _ send _ _ s => executeSingleSend_parts h send s) incoming

end

/-! ## Chain-Sync -/

section

open ChainSync

variable {R : ChainSyncSession → ChainSyncSession → Prop} {fixture : Option FixtureChain}

/-- A header goes out, and its event after it. -/
theorem header_parts (h : KeepsParts R) {message : ChainSyncMessage} {source : HeaderSource}
    {event : TraceEvent} (hevent : event.connection = none) :
    Within R (do
      sendMessage message
      noteDelivered source
      countHeader
      emit event : ChainSyncServer Unit) :=
  h.bind h.message fun _ => h.bind h.delivered fun _ => h.bind h.update fun _ => h.event hevent

theorem needCursor_parts (h : KeepsParts R) {rule : String} : Within R (needCursor rule) := by
  refine KeepsParts.get fun s => ?_
  split
  · exact h.pure
  · exact h.ofExcept

theorem cursorFindIntersect_parts (h : KeepsParts R) {request : ReceivedRequest}
    {stateBefore : ServerCsState} : Within R (cursorFindIntersect request stateBefore) := by
  refine h.bind (needCursor_parts h) fun cursor => h.bind h.update fun _ =>
    h.bind h.ofExcept fun tip => h.bind h.ofExcept fun found => ?_
  split
  · exact h.bind h.update fun _ => h.bind h.ofExcept fun _ => h.bind h.note fun _ =>
      h.bind h.message fun _ => h.event rfl
  · exact h.bind h.note fun _ => h.bind h.message fun _ => h.event rfl

theorem cursorAdvance_parts (h : KeepsParts R) {stateBefore : ServerCsState} :
    Within R (cursorAdvance stateBefore) := by
  refine h.bind (needCursor_parts h) fun cursor => h.bind h.ofExcept fun tip =>
    h.bind h.ofExcept fun advanced => ?_
  split
  · exact h.bind h.ofExcept fun _ => h.bind h.note fun _ => h.bind h.update fun _ =>
      header_parts h rfl
  · exact h.bind h.note fun _ => h.bind h.update fun _ => h.bind h.update fun _ =>
      h.bind h.message fun _ => h.event rfl

theorem executeSend_parts (h : KeepsParts R) (send : ScriptSend) {request : ReceivedRequest}
    {stateBefore : ServerCsState} :
    Within R (executeSend send request fixture stateBefore) := by
  have hgo : ∀ {x : ChainSyncServer Unit}, Within R x →
      Within R (x >>= fun _ => pure false) := fun hx => h.bind hx fun _ => h.pure
  cases send with
  | cursorFindIntersect => exact hgo (cursorFindIntersect_parts h)
  | cursorAdvance => exact hgo (cursorAdvance_parts h)
  | rollForward source tip =>
      exact hgo (h.bind h.ofExcept fun _ => h.bind h.ofExcept fun _ => h.bind h.note fun _ =>
        header_parts h rfl)
  | rollBackward point tip =>
      exact hgo (h.bind h.ofExcept fun _ => h.bind h.ofExcept fun _ => h.bind h.note fun _ =>
        h.bind h.message fun _ => h.event rfl)
  | intersectFound point tip =>
      exact hgo (h.bind h.ofExcept fun _ => h.bind h.ofExcept fun _ => h.bind h.note fun _ =>
        h.bind h.message fun _ => h.bind h.update fun _ => h.event rfl)
  | intersectNotFound tip =>
      exact hgo (h.bind h.ofExcept fun _ => h.bind h.note fun _ => h.bind h.message fun _ =>
        h.bind h.update fun _ => h.event rfl)
  | awaitReply holdSecs =>
      exact h.bind h.note fun _ => h.bind h.update fun _ => h.bind h.message fun _ =>
        hgo (h.event rfl)
  | wait secs => exact h.pure
  | disconnect => exact h.pure
  | rawBytes bytes => exact h.bind h.note fun _ => h.bind h.raw fun _ => hgo (h.event rfl)
  | _ => exact h.ofExcept

theorem chainSync_receive_parts (h : KeepsParts R) (request : ReceivedRequest) :
    Within R (receive request) := by
  refine h.bind h.received fun _ => KeepsParts.get fun s => h.bind h.state fun _ => h.event ?_
  cases request <;> rfl

/-- Settling a send moves the tracked state and nothing else. -/
theorem sendKeeps_parts (h : KeepsParts R) (send : ScriptSend) (request : ReceivedRequest)
    (s : ChainSyncSession) : SendKeeps R R send request fixture s := by
  have hsend : R s ((executeSend send request fixture s.state).run s).2 :=
    executeSend_parts h send s
  rw [SendKeeps]
  rcases hrun : (executeSend send request fixture s.state).run s with ⟨_ | done, s'⟩ <;>
    rw [hrun] at hsend
  · exact hsend
  · have hsettled : R s (settled send s') := h.trans _ _ _ hsend (h.state s')
    cases done with
    | true => exact hsettled
    | false => exact hsettled

theorem ends_parts (h : KeepsParts R) : Ends R R :=
  ⟨fun _ _ hab => hab, h.trans, fun a b _ hevent hab => h.trans a b _ hab (h.internal hevent b)⟩

theorem serveLoop_parts (h : KeepsParts R) (rules : List ScriptRule) (ruleIdx : Nat)
    (incoming : List ReceivedRequest) : Within R (serveLoop rules fixture ruleIdx incoming) :=
  serveLoop_ends h.toKeeps (ends_parts h) (fun _ => h.update) (chainSync_receive_parts h)
    (fun rule _ request s _ => sendKeeps_parts h rule.send request s) ruleIdx incoming

/-- **A Chain-Sync session does what its parts do.** -/
theorem executeResponseScript_parts (h : KeepsParts R) (rules : List ScriptRule)
    (incoming : List ReceivedRequest) :
    Within R (executeResponseScript rules fixture incoming) :=
  executeResponseScript_ends h.toKeeps (ends_parts h) (fun _ => h.update)
    (chainSync_receive_parts h) (fun rule _ request s _ => sendKeeps_parts h rule.send request s)
    incoming

end

end ConformanceHarness.Proof
