import ConformanceHarness.Scenario.Point

/-!
# Trace events

`trace.rs`: the events, and what a tracer stamps on them. An event's timestamp is
left out.
-/

namespace ConformanceHarness

/-- `EventKind`. -/
inductive EventKind where
  | connectionOpened
  | connectionClosed
  | error
  | handshakeStarted
  | handshakeVersionProposed
  | handshakeVersionAccepted
  | handshakeVersionRejected
  | handshakeCompleted
  | chainSyncStarted
  | chainSyncFindIntersect
  | chainSyncIntersectFound
  | chainSyncIntersectNotFound
  | chainSyncRequestNext
  | chainSyncRollForward
  | chainSyncRollBackward
  | chainSyncAwaitReply
  | chainSyncDone
  | chainSyncSessionSummary
  | blockFetchStarted
  | blockFetchRequestRange
  | blockFetchNoBlocks
  | blockFetchStartBatch
  | blockFetchBlock
  | blockFetchBatchDone
  | blockFetchClientDone
  | blockFetchSessionSummary
  | protocolWorkersStarted
  | scenarioStarted
  | queryTipStarted
  | queryTipCompleted
  | repeatIterationStarted
  | repeatIterationCompleted
  | variableSet
  | variableReferenced
  | scenarioCompleted
  | stepStarted
  | stepCompleted
  | assertionPassed
  | assertionFailed
  | txSubmissionMessage
  | keepAliveSent
  | keepAliveReceived
  | peerSharingMessage
  | responseRuleApplied
  | serverBlockFetchStarted
  | serverBlockFetchCompleted
  | parallelStarted
  | parallelBranchStarted
  | parallelBranchCompleted
  | parallelBranchAborted
  | parallelBranchFailed
  | parallelCompleted
  | serverBearerAccepted
  | serverListenStarted
  | serverListenStopped
  | serverConnectionAccepted
  | serverHandshakeAccepted
  | serverChainSyncStarted
  | serverChainSyncCompleted
  | networkDeclared
  | slotAdvanced
  | peerStateInitialized
  | peerChainExtended
  | productionRuleFired
  | peerProducedBlock
  | peerCastVote
  | peerForkedChain
  | peerJoinedNetwork
  | peerLeftNetwork
  | peerNetworkEvent
  | serverLeiosNotifyStarted
  | serverLeiosNotifyCompleted
  | serverLeiosFetchStarted
  | serverLeiosFetchCompleted
  | leiosNotifyStarted
  | leiosNotifyBlockAnnouncement
  | leiosNotifyBlockOffer
  | leiosNotifyBlockTxsOffer
  | leiosNotifyVotes
  | leiosNotifyDone
  | leiosNotifySessionSummary
  | leiosFetchStarted
  | leiosFetchBlockRequest
  | leiosFetchBlock
  | leiosFetchDone
  | leiosFetchSessionSummary
deriving Repr, DecidableEq

/-- The kind as the trace has it: `rename_all = "snake_case"`. -/
def EventKind.asStr : EventKind → String
  | connectionOpened => "connection_opened"
  | connectionClosed => "connection_closed"
  | error => "error"
  | handshakeStarted => "handshake_started"
  | handshakeVersionProposed => "handshake_version_proposed"
  | handshakeVersionAccepted => "handshake_version_accepted"
  | handshakeVersionRejected => "handshake_version_rejected"
  | handshakeCompleted => "handshake_completed"
  | chainSyncStarted => "chain_sync_started"
  | chainSyncFindIntersect => "chain_sync_find_intersect"
  | chainSyncIntersectFound => "chain_sync_intersect_found"
  | chainSyncIntersectNotFound => "chain_sync_intersect_not_found"
  | chainSyncRequestNext => "chain_sync_request_next"
  | chainSyncRollForward => "chain_sync_roll_forward"
  | chainSyncRollBackward => "chain_sync_roll_backward"
  | chainSyncAwaitReply => "chain_sync_await_reply"
  | chainSyncDone => "chain_sync_done"
  | chainSyncSessionSummary => "chain_sync_session_summary"
  | blockFetchStarted => "block_fetch_started"
  | blockFetchRequestRange => "block_fetch_request_range"
  | blockFetchNoBlocks => "block_fetch_no_blocks"
  | blockFetchStartBatch => "block_fetch_start_batch"
  | blockFetchBlock => "block_fetch_block"
  | blockFetchBatchDone => "block_fetch_batch_done"
  | blockFetchClientDone => "block_fetch_client_done"
  | blockFetchSessionSummary => "block_fetch_session_summary"
  | protocolWorkersStarted => "protocol_workers_started"
  | scenarioStarted => "scenario_started"
  | queryTipStarted => "query_tip_started"
  | queryTipCompleted => "query_tip_completed"
  | repeatIterationStarted => "repeat_iteration_started"
  | repeatIterationCompleted => "repeat_iteration_completed"
  | variableSet => "variable_set"
  | variableReferenced => "variable_referenced"
  | scenarioCompleted => "scenario_completed"
  | stepStarted => "step_started"
  | stepCompleted => "step_completed"
  | assertionPassed => "assertion_passed"
  | assertionFailed => "assertion_failed"
  | txSubmissionMessage => "tx_submission_message"
  | keepAliveSent => "keep_alive_sent"
  | keepAliveReceived => "keep_alive_received"
  | peerSharingMessage => "peer_sharing_message"
  | responseRuleApplied => "response_rule_applied"
  | serverBlockFetchStarted => "server_block_fetch_started"
  | serverBlockFetchCompleted => "server_block_fetch_completed"
  | parallelStarted => "parallel_started"
  | parallelBranchStarted => "parallel_branch_started"
  | parallelBranchCompleted => "parallel_branch_completed"
  | parallelBranchAborted => "parallel_branch_aborted"
  | parallelBranchFailed => "parallel_branch_failed"
  | parallelCompleted => "parallel_completed"
  | serverBearerAccepted => "server_bearer_accepted"
  | serverListenStarted => "server_listen_started"
  | serverListenStopped => "server_listen_stopped"
  | serverConnectionAccepted => "server_connection_accepted"
  | serverHandshakeAccepted => "server_handshake_accepted"
  | serverChainSyncStarted => "server_chain_sync_started"
  | serverChainSyncCompleted => "server_chain_sync_completed"
  | networkDeclared => "network_declared"
  | slotAdvanced => "slot_advanced"
  | peerStateInitialized => "peer_state_initialized"
  | peerChainExtended => "peer_chain_extended"
  | productionRuleFired => "production_rule_fired"
  | peerProducedBlock => "peer_produced_block"
  | peerCastVote => "peer_cast_vote"
  | peerForkedChain => "peer_forked_chain"
  | peerJoinedNetwork => "peer_joined_network"
  | peerLeftNetwork => "peer_left_network"
  | peerNetworkEvent => "peer_network_event"
  | serverLeiosNotifyStarted => "server_leios_notify_started"
  | serverLeiosNotifyCompleted => "server_leios_notify_completed"
  | serverLeiosFetchStarted => "server_leios_fetch_started"
  | serverLeiosFetchCompleted => "server_leios_fetch_completed"
  | leiosNotifyStarted => "leios_notify_started"
  | leiosNotifyBlockAnnouncement => "leios_notify_block_announcement"
  | leiosNotifyBlockOffer => "leios_notify_block_offer"
  | leiosNotifyBlockTxsOffer => "leios_notify_block_txs_offer"
  | leiosNotifyVotes => "leios_notify_votes"
  | leiosNotifyDone => "leios_notify_done"
  | leiosNotifySessionSummary => "leios_notify_session_summary"
  | leiosFetchStarted => "leios_fetch_started"
  | leiosFetchBlockRequest => "leios_fetch_block_request"
  | leiosFetchBlock => "leios_fetch_block"
  | leiosFetchDone => "leios_fetch_done"
  | leiosFetchSessionSummary => "leios_fetch_session_summary"

/-- `Direction`: `sent` and `received` correspond to actual wire messages. -/
inductive Direction where
  | sent
  | received
  | internal
deriving Repr, DecidableEq

/-- `TraceEvent`. -/
structure TraceEvent where
  kind : EventKind
  direction : Direction
  /-- "Present on all wire events and connection-lifecycle events." -/
  connection : Option String
  peerId : Option String
  slot : Option UInt64
  miniProtocol : Option String
  stateBefore : Option String
  stateAfter : Option String
  payload : Value
deriving Repr

namespace TraceEvent

/-- `TraceEvent::new`. -/
def new (kind : EventKind) (direction : Direction) (payload : Value) : TraceEvent where
  kind := kind
  direction := direction
  connection := none
  peerId := none
  slot := none
  miniProtocol := none
  stateBefore := none
  stateAfter := none
  payload := payload

/-- `with_states`. -/
def withStates (event : TraceEvent) (miniProtocol stateBefore stateAfter : String) : TraceEvent :=
  { event with
    miniProtocol := some miniProtocol
    stateBefore := some stateBefore
    stateAfter := some stateAfter }

/-- `with_protocol`. -/
def withProtocol (event : TraceEvent) (miniProtocol : String) : TraceEvent :=
  { event with miniProtocol := some miniProtocol }

/-- `with_connection`. -/
def withConnection (event : TraceEvent) (connection : String) : TraceEvent :=
  { event with connection := some connection }

/-- `with_peer_id`. -/
def withPeerId (event : TraceEvent) (peerId : String) : TraceEvent :=
  { event with peerId := some peerId }

/-- A wire event: one that is about a message on the channel. -/
def isWire (event : TraceEvent) : Bool :=
  match event.direction with
  | .internal => false
  | _ => true

end TraceEvent

/-- `Tracer`, as far as its clones differ: the label it stamps. -/
structure Tracer where
  peerId : Option String
deriving Repr, DecidableEq

namespace Tracer

/-- `Tracer::open`. -/
def opened : Tracer := ⟨none⟩

/-- `for_peer_opt`. -/
def forPeerOpt (tracer : Tracer) (peerId : Option String) : Tracer := ⟨peerId.or tracer.peerId⟩

/-- What `emit` writes, at the slot the tracker shows. -/
def stamp (tracer : Tracer) (currentSlot : Option UInt64) (event : TraceEvent) : TraceEvent :=
  { event with
    peerId := event.peerId.or tracer.peerId
    slot := event.slot.or currentSlot }

end Tracer

/-- A `usize` or a `u64` in a payload. -/
def Value.ofU64 (n : UInt64) : Value := .number (.unsigned n)

/-- A `len()` in a payload. -/
def Value.ofLen (n : Nat) : Value := .ofU64 (UInt64.ofNat n)

/-- An `Option` in a payload. -/
def Value.ofOption {α : Type} (f : α → Value) : Option α → Value
  | none => .null
  | some a => f a

/-- The payload of the error event a `raw_bytes` rule writes. -/
def rawBytesPayload (bytes : List UInt8) : Value :=
  .object [("byte_len", .ofLen bytes.length), ("hex", .string (encodeHex bytes)),
    ("phase", .string "raw_bytes")]

end ConformanceHarness
