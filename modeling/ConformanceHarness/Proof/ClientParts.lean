import ConformanceHarness.Lib.Chunks
import ConformanceHarness.Miniprotocols.BlockFetch
import ConformanceHarness.Miniprotocols.ChainSync

/-!
# What a client does, from what its parts do

A client asks for something, in an event and in a message, and puts the rest of its session
together from other events, other messages and changes of its locals. A relation that all these
keep is kept by whatever it does apart from asking.
-/

namespace ConformanceHarness

open Session

/-- The client asks for an intersection. -/
def ChainSyncRequest.isFindIntersect : ChainSyncRequest → Bool
  | .findIntersect _ => true
  | .requestNext | .done => false

/-- The client asks for a range. -/
def BlockFetchClientMessage.isRequestRange : BlockFetchClientMessage → Bool
  | .requestRange _ _ => true
  | .clientDone => false

/-- How a Chain-Sync client asks. -/
def ChainSyncClient.askIntersection (points : List Point) : ChainSyncClient Unit := do
  emit (wireEvent .chainSyncFindIntersect .sent
    (.object [("points", .array (points.map formatPoint))]) "Idle" "Intersect")
  send (.findIntersect (points.map toNcPoint))

/-- How a Block-Fetch client asks. -/
def BlockFetchClient.askRange (batchLen : Nat) (fromPoint toPoint : Point) :
    BlockFetchClient Unit := do
  emit (wireEvent .blockFetchRequestRange .sent
    (.object [("batch_len", .ofLen batchLen), ("from", formatPoint fromPoint),
      ("to", formatPoint toPoint)]) "Idle" "Busy")
  sendMessage (.requestRange (toNcPoint fromPoint) (toNcPoint toPoint))

namespace Proof

open ConformanceHarness.Lib (Prog)
open ConformanceHarness.Lib.Prog (Within)

/-- A relation that the parts of a client keep, apart from the events of one kind and the messages
that go with them. -/
structure KeepsClient {τ ρ μ κ : Type} (asks : EventKind) (isAsking : μ → Bool)
    (R : Session τ ρ μ κ → Session τ ρ μ κ → Prop) : Prop where
  refl : ∀ s, R s s
  trans : ∀ a b c, R a b → R b c → R a c
  update : ∀ {f : ρ → ρ}, Within R (update f)
  message : ∀ {m : μ}, isAsking m = false → Within R (sendMessage m)
  event : ∀ {event : TraceEvent}, event.connection = none → (event.kind == asks) = false →
    Within R (emit event)

namespace KeepsClient

variable {τ ρ μ κ α β : Type} {asks : EventKind} {isAsking : μ → Bool}
  {R : Session τ ρ μ κ → Session τ ρ μ κ → Prop}

theorem pure (h : KeepsClient asks isAsking R) {a : α} :
    Within R (Pure.pure a : Server τ ρ μ κ α) := Within.pure h.refl a

theorem ofExcept (h : KeepsClient asks isAsking R) {r : Except Fault α} :
    Within R (Prog.ofExcept r : Server τ ρ μ κ α) := Within.ofExcept h.refl r

theorem bind (h : KeepsClient asks isAsking R) {x : Server τ ρ μ κ α}
    {f : α → Server τ ρ μ κ β} (hx : Within R x) (hf : ∀ a, Within R (f a)) :
    Within R (x >>= f) := Within.bind h.trans hx hf

theorem get (_ : KeepsClient asks isAsking R) {f : Session τ ρ μ κ → Server τ ρ μ κ β}
    (hf : ∀ s, Within R (f s)) : Within R (Prog.get >>= f) := Within.get_bind fun s => hf s s

end KeepsClient

/-! ## Chain-Sync -/

section

open ChainSyncClient

/-- A relation that a Chain-Sync client keeps, apart from asking for an intersection. -/
abbrev KeepsChainSync := KeepsClient (τ := Unit) (ρ := ChainSyncProgress) (κ := Unit)
  .chainSyncFindIntersect ChainSyncRequest.isFindIntersect

variable {R : Session Unit ChainSyncProgress ChainSyncRequest Unit →
    Session Unit ChainSyncProgress ChainSyncRequest Unit → Prop}

theorem chainSync_finish (h : KeepsChainSync R) {exitReason : String} :
    Within R (finish exitReason) :=
  h.get fun _ => h.bind (h.event rfl rfl) fun _ => h.pure

theorem chainSync_send (h : KeepsChainSync R) {message : ChainSyncRequest}
    (hmessage : message.isFindIntersect = false) : Within R (send message) :=
  h.bind h.update fun _ => h.message hmessage

theorem chainSync_requestNext (h : KeepsChainSync R) : Within R requestNext :=
  h.get fun _ => h.bind (h.event rfl rfl) fun _ => chainSync_send h rfl

theorem chainSync_receive (h : KeepsChainSync R) (event : ChainSyncEvent) :
    Within R (receive event) := by
  cases event with
  | rollForward header tip =>
      exact h.bind h.update fun _ => h.bind h.update fun _ => h.event rfl rfl
  | rollBackward point tip =>
      exact h.bind h.update fun _ => h.bind h.update fun _ => h.event rfl rfl

theorem chainSync_noReply (h : KeepsChainSync R) (ending : NoReply) :
    Within R (noReply ending) := by
  cases ending with
  | timeout => exact h.bind (chainSync_finish h) fun _ => h.pure
  | error message =>
      exact h.bind (h.event rfl rfl) fun _ => h.bind (chainSync_finish h) fun _ => h.ofExcept

theorem chainSync_requestLoop (h : KeepsChainSync R) {count : UInt64} {ending : NoReply}
    (incoming : List ChainSyncEvent) : Within R (requestLoop count ending incoming) := by
  induction incoming with
  | nil =>
      refine h.get fun s => ?_
      split
      · exact h.bind (chainSync_requestNext h) fun _ => chainSync_noReply h ending
      · exact h.pure
  | cons event incoming ih =>
      refine h.get fun s => ?_
      split
      · exact h.bind (chainSync_requestNext h) fun _ => h.bind (chainSync_receive h event)
          fun _ => ih
      · exact h.pure

theorem chainSync_sendDone (h : KeepsChainSync R) (done : Except String Unit) :
    Within R (sendDone done) := by
  cases done with
  | error message => exact h.event rfl rfl
  | ok a => exact h.bind (chainSync_send h rfl) fun _ => h.event rfl rfl

theorem run_ask_send {α : Type} (event : TraceEvent) (message : ChainSyncRequest)
    (rest : Unit → ChainSyncClient α)
    (s : Session Unit ChainSyncProgress ChainSyncRequest Unit) :
    (emit event >>= fun _ => send message >>= rest).run s =
      (rest ()).run ((emit event >>= fun _ => send message).run s).2 := rfl

/-- What is done with the reply keeps the relation to what was asked. -/
theorem findIntersection_asked (h : KeepsChainSync R) {points : List Point}
    (reply : Except String (Option (NcPoint × NcTip)))
    (s : Session Unit ChainSyncProgress ChainSyncRequest Unit) :
    R ((askIntersection points).run s).2 ((findIntersection points reply).run s).2 := by
  unfold findIntersection askIntersection
  rw [run_ask_send]
  suffices hreplied : Within R _ from hreplied _
  split
  · exact h.bind h.update fun _ => h.event rfl rfl
  · exact h.bind h.update fun _ => h.event rfl rfl
  · exact h.bind (h.event rfl rfl) fun _ => h.ofExcept

/-- **A Chain-Sync session asks once.** -/
theorem runChainSync_asks (h : KeepsChainSync R) (points : List Point) (count : UInt64)
    (replies : ChainSyncReplies) :
    ∃ s, R session s ∧ R ((askIntersection points).run s).2
      ((runChainSync points count replies).run session).2 := by
  have hstarted : Within R (emit (startedEvent count) : ChainSyncClient Unit) := h.event rfl rfl
  refine ⟨((emit (startedEvent count)).run session).2, hstarted session, ?_⟩
  rw [runChainSync, Prog.run_bind_ok (show (emit (startedEvent count)).run session = (.ok (), _)
    from rfl)]
  refine Within.after h.trans (findIntersection_asked h replies.intersect _) fun _ => ?_
  refine h.bind (chainSync_requestLoop h replies.incoming) fun summary => ?_
  cases summary with
  | some summary => exact h.pure
  | none => exact h.bind (chainSync_sendDone h replies.done) fun _ => chainSync_finish h

end

/-! ## Block-Fetch -/

section

open BlockFetchClient

/-- A relation that a Block-Fetch client keeps, apart from asking for ranges. -/
abbrev KeepsBlockFetch := KeepsClient (τ := Unit) (ρ := BlockFetchProgress) (κ := Unit)
  .blockFetchRequestRange BlockFetchClientMessage.isRequestRange

variable {R : Session Unit BlockFetchProgress BlockFetchClientMessage Unit →
    Session Unit BlockFetchProgress BlockFetchClientMessage Unit → Prop}

theorem blockFetch_finish (h : KeepsBlockFetch R) {exitReason : String} :
    Within R (finish exitReason) :=
  h.get fun _ => h.bind (h.event rfl rfl) fun _ => h.pure

theorem blockFetch_abort (h : KeepsBlockFetch R) {phase message : String} :
    Within R (abort phase message) :=
  h.bind (h.event rfl rfl) fun _ => h.bind (blockFetch_finish h) fun _ => h.ofExcept

theorem blockFetch_receiveBlocks (h : KeepsBlockFetch R) {capture : Option (UInt64 × List UInt8)}
    {failed : Option String} (received : Nat) (bodies : List (List UInt8)) :
    Within R (receiveBlocks capture failed received bodies) := by
  induction bodies generalizing received with
  | nil =>
      cases failed with
      | none => exact h.event rfl rfl
      | some message => exact blockFetch_abort h
  | cons body rest ih =>
      refine h.bind ?_ fun _ => ih (received + 1)
      exact h.bind h.update fun _ => h.event rfl rfl

theorem run_ask_sendMessage {α : Type} (event : TraceEvent) (message : BlockFetchClientMessage)
    (rest : Unit → BlockFetchClient α)
    (s : Session Unit BlockFetchProgress BlockFetchClientMessage Unit) :
    (emit event >>= fun _ => sendMessage message >>= rest).run s =
      (rest ()).run ((emit event >>= fun _ => sendMessage message).run s).2 := rfl

/-- What is done with the reply keeps the relation to what was asked. -/
theorem requestRange_asked (h : KeepsBlockFetch R) {batch : List Point}
    {fromPoint toPoint : Point} (reply : RangeReply)
    (s : Session Unit BlockFetchProgress BlockFetchClientMessage Unit) :
    R ((askRange batch.length fromPoint toPoint).run s).2
      ((requestRange batch fromPoint toPoint reply).run s).2 := by
  unfold requestRange askRange
  rw [run_ask_sendMessage]
  suffices hreplied : Within R _ from hreplied _
  cases reply with
  | error message => exact blockFetch_abort h
  | noBlocks => exact h.bind h.update fun _ => h.event rfl rfl
  | batch bodies failed =>
      exact h.bind h.update fun _ => h.bind (h.event rfl rfl) fun _ =>
        blockFetch_receiveBlocks h 0 bodies

theorem blockFetch_sendDone (h : KeepsBlockFetch R) (done : Except String Unit) :
    Within R (sendDone done) := by
  cases done with
  | error message => exact h.event rfl rfl
  | ok a => exact h.bind (h.message rfl) fun _ => h.event rfl rfl

/-- **A Block-Fetch session asks for its batches and for nothing else.** -/
theorem runBlockFetch_asks (h : KeepsBlockFetch R) (points : List Point) (batchSize : Nat)
    (replies : BlockFetchReplies) :
    ∃ s, R session s ∧
      R ((fetchBatches replies.range 0 (points.toChunks (max batchSize 1))).run s).2
        ((runBlockFetch points batchSize replies).run session).2 := by
  have hstarted : Within R
      (emit (startedEvent points.length (max batchSize 1)) : BlockFetchClient Unit) :=
    h.event rfl rfl
  refine ⟨((emit (startedEvent points.length (max batchSize 1))).run session).2,
    hstarted session, ?_⟩
  rw [runBlockFetch, Prog.run_bind_ok (show (emit (startedEvent points.length
    (max batchSize 1))).run session = (.ok (), _) from rfl)]
  exact Within.after h.trans (h.refl _) fun _ => h.bind (blockFetch_sendDone h replies.done)
    fun _ => blockFetch_finish h

end

end Proof

end ConformanceHarness
