import ConformanceHarness.Lib.Actions
import ConformanceHarness.Proof.WireEvents

/-!
# Which connection a wire event is of

Only one step puts the name of its connection on wire events: `accept_handshake`, whose events
in turn carry no label. Whatever the steps and the order their events come in, a trace names
the connection and the label of every message exactly if all of its messages are those of
`accept_handshake` steps that label nothing.
-/

namespace ConformanceHarness.Proof

open Connections
open ConformanceHarness.Lib (Throughout foldlM_invariant foldlM_preserves_iff)
open ConformanceHarness.Runner (LeafKind)

/-! ## What wire events carry -/

/-- What a wire event of an emitter carries: the name or nothing, and no label with the name. -/
def Carries (emitter : Emitter) (connName : String) (event : TraceEvent) : Prop :=
  event.isWire = true →
    if emitter = .step .acceptHandshake then
      event.connection = some connName ∧ event.peerId = none
    else event.connection = none

/-- Events carry that, whenever they are emitted. -/
def EventsCarry (emitter : Emitter) (connName : String) (events : List Outgoing) : Prop :=
  ∀ out ∈ events, ∀ slot, Carries emitter connName (out.tracer.stamp slot out.event)

/-- The invariant of every run. -/
structure Carried (s : State) : Prop where
  tasks : ∀ id task, s.tasks id = some task →
    EventsCarry task.emitter task.connName task.pending
  trace : ∀ line ∈ s.trace, Carries line.emitter line.connName line.event

theorem carried_initial (startSlot : Option UInt64) : Carried (State.initial startSlot) where
  tasks := fun _ _ h => nomatch h
  trace := fun _ h => nomatch h

section

variable {emitter : Emitter} {connName : String} {events rest : List Outgoing}

theorem eventsCarry_nil : EventsCarry emitter connName [] := fun _ h => nomatch h

theorem eventsCarry_append (h : EventsCarry emitter connName events)
    (h' : EventsCarry emitter connName rest) : EventsCarry emitter connName (events ++ rest) := by
  intro out hout
  rcases List.mem_append.mp hout with hout | hout
  · exact h out hout
  · exact h' out hout

/-- An internal event carries nothing, and may be anyone's. -/
theorem eventsCarry_internal {tracer : Tracer} {event : TraceEvent} (h : event.isWire = false)
    (hrest : EventsCarry emitter connName rest) :
    EventsCarry emitter connName (⟨tracer, event⟩ :: rest) := by
  intro out hout
  rcases List.mem_cons.mp hout with rfl | hout
  · exact fun slot hwire => nomatch h.symm.trans hwire
  · exact hrest out hout

/-- A tracer stamps a label and a slot, and no connection. -/
theorem eventsCarry_unnamed {tracer : Tracer} {events : List TraceEvent}
    (he : emitter ≠ .step .acceptHandshake)
    (h : ∀ event ∈ events, event.isWire = true → event.connection = none) :
    EventsCarry emitter connName (events.map (Outgoing.mk tracer)) := by
  intro out hout slot hwire
  obtain ⟨event, hmem, rfl⟩ := List.mem_map.mp hout
  rw [if_neg he]
  exact h event hmem hwire

theorem sessionEvents_carry {τ ρ μ κ : Type} {tracer : Tracer} {session : Session τ ρ μ κ}
    (he : emitter ≠ .step .acceptHandshake) (h : Unnamed session.trace) :
    EventsCarry emitter connName (sessionEvents tracer session) := by
  intro out hout slot hwire
  obtain ⟨e, hmem, rfl⟩ := List.mem_map.mp hout
  rw [if_neg he]
  exact h e hmem hwire

theorem variableSet_carries {name shape : String} :
    EventsCarry emitter connName [variableSet name shape] :=
      eventsCarry_internal rfl eventsCarry_nil

end

/-! ## Steps -/

/-- A step starts: nothing is emitted yet, and no task is new but its own. -/
structure Starts (s s' : State) (task : Task) : Prop where
  tasks : ∀ id old, s'.tasks id = some old → s.tasks id = some old
  trace : s'.trace = s.trace
  pending : EventsCarry task.emitter task.connName task.pending

section

variable {s s' : State} {task : Task} {kind : LeafKind} {onName : Option String}

theorem onClient_starts {use : ClientConnection → Option (Use ClientConnection)}
    (huse : ∀ conn u, use conn = some u → EventsCarry (.step kind) (nameOr onName) u.events)
    (h : onClient kind onName use s = some (s', task)) : Starts s s' task := by
  simp only [onClient] at h
  split at h
  · exact nomatch h
  · obtain ⟨u, hu, heq⟩ := Option.map_eq_some_iff.mp h
    obtain ⟨rfl, rfl⟩ := Prod.mk.inj heq
    exact ⟨fun _ _ hold => hold, rfl, huse _ u hu⟩

theorem onServer_starts {use : ServerConnection → Option (Use ServerConnection)}
    (huse : ∀ conn u, use conn = some u → EventsCarry (.step kind) (nameOr onName) u.events)
    (h : onServer kind onName use s = some (s', task)) : Starts s s' task := by
  simp only [onServer] at h
  split at h
  · exact nomatch h
  · obtain ⟨u, hu, heq⟩ := Option.map_eq_some_iff.mp h
    obtain ⟨rfl, rfl⟩ := Prod.mk.inj heq
    exact ⟨fun _ _ hold => hold, rfl, huse _ u hu⟩

/-- A step that uses a connection if its channels are still there. -/
theorem ite_use {κ : Type} {channels : Bool} {use u : Use κ} {P : List Outgoing → Prop}
    (h : (if channels = true then some use else none) = some u) (hP : P use.events) :
    P u.events := by
  split at h
  · obtain rfl := Option.some.inj h
    exact hP
  · exact nomatch h

theorem handshake_starts {versions : List UInt64} {magic : UInt64}
    {result : Except String HandshakeResult} {traffic : WorkerTraffic}
    (h : handshake onName versions magic result traffic s = some (s', task)) :
    Starts s s' task := by
  refine onClient_starts (fun conn u hu => ?_) h
  refine ite_use hu ?_
  exact sessionEvents_carry (fun he => nomatch he)
    (handshakeOnChannels_unnamed versions magic result)

theorem chainSync_starts {output : Option String}
    {session : Option (List Point × UInt64 × ChainSyncReplies)}
    (h : chainSync onName output session s = some (s', task)) : Starts s s' task := by
  refine onClient_starts (fun conn u hu => ?_) h
  refine ite_use hu ?_
  rcases session with _ | ⟨points, count, replies⟩
  · exact eventsCarry_nil
  refine eventsCarry_append
    (sessionEvents_carry (fun he => nomatch he) (runChainSync_unnamed points count replies)) ?_
  split
  · exact variableSet_carries
  · exact eventsCarry_nil

theorem blockFetch_starts {session : Option (List Point × Nat × BlockFetchReplies)}
    (h : blockFetch onName session s = some (s', task)) : Starts s s' task := by
  refine onClient_starts (fun conn u hu => ?_) h
  refine ite_use hu ?_
  rcases session with _ | ⟨points, batchSize, replies⟩
  · exact eventsCarry_nil
  · exact sessionEvents_carry (fun he => nomatch he)
      (runBlockFetch_unnamed points batchSize replies)

theorem leiosNotify_starts {count : UInt64} {replies : LeiosNotifyReplies}
    (h : leiosNotify onName count replies s = some (s', task)) : Starts s s' task := by
  refine onClient_starts (fun conn u hu => ?_) h
  exact ite_use hu
    (sessionEvents_carry (fun he => nomatch he) (runLeiosNotify_unnamed count replies))

theorem leiosFetch_starts {session : Option (List NcPoint × LeiosFetchReplies)}
    (h : leiosFetch onName session s = some (s', task)) : Starts s s' task := by
  refine onClient_starts (fun conn u hu => ?_) h
  refine ite_use hu ?_
  rcases session with _ | ⟨points, replies⟩
  · exact eventsCarry_nil
  · exact sessionEvents_carry (fun he => nomatch he) (runLeiosFetch_unnamed points replies)

theorem serveChainSync_starts {asPeer : Option String}
    {session : Option (List ScriptRule × Option FixtureChain × List ReceivedRequest)}
    (h : serveChainSync onName asPeer session s = some (s', task)) : Starts s s' task := by
  refine onServer_starts (fun conn u hu => ?_) h
  refine ite_use hu ?_
  rcases session with _ | ⟨rules, fixture, incoming⟩
  · exact eventsCarry_nil
  · exact sessionEvents_carry (fun he => nomatch he)
      (executeResponseScript_unnamed rules fixture incoming)

theorem serveBlockFetch_starts {asPeer : Option String}
    {session : Option (List ScriptRule × Option BlockFixtureChain × List BlockFetchRequest)}
    (h : serveBlockFetch onName asPeer session s = some (s', task)) : Starts s s' task := by
  refine onServer_starts (fun conn u hu => ?_) h
  refine ite_use hu ?_
  rcases session with _ | ⟨rules, fixture, incoming⟩
  · exact eventsCarry_nil
  · exact sessionEvents_carry (fun he => nomatch he)
      (executeBlockFetchScript_unnamed rules fixture incoming)

theorem serveLeiosNotify_starts
    {session : Option (LeiosNotifyRunner × List LeiosNotifyAction × List LeiosNotifyIncoming)}
    (h : serveLeiosNotify onName session s = some (s', task)) : Starts s s' task := by
  refine onServer_starts (fun conn u hu => ?_) h
  refine ite_use hu ?_
  rcases session with _ | ⟨runner, actions, incoming⟩
  · exact eventsCarry_nil
  · exact sessionEvents_carry (fun he => nomatch he)
      (executeLeiosNotifyScript_unnamed actions incoming)

theorem serveLeiosFetch_starts
    {session : Option (QuietRunner × List LeiosFetchRule × List FetchMessage)}
    (h : serveLeiosFetch onName session s = some (s', task)) : Starts s s' task := by
  refine onServer_starts (fun conn u hu => ?_) h
  refine ite_use hu ?_
  rcases session with _ | ⟨runner, rules, incoming⟩
  · exact eventsCarry_nil
  · exact sessionEvents_carry (fun he => nomatch he)
      (executeLeiosFetchScript_unnamed rules incoming)

/-- The tip is about no message. -/
theorem tipEvents_carry {emitter : Emitter} {connName : String} {output : Option String}
    {tip : Except String (Option NcTip)} :
    EventsCarry emitter connName (tipEvents connName output tip) := by
  cases tip with
  | error message => exact eventsCarry_nil
  | ok tip =>
      refine eventsCarry_internal rfl ?_
      cases output with
      | none => exact eventsCarry_nil
      | some var => exact variableSet_carries

theorem queryTip_starts {output : Option String} {versions : List UInt64} {magic : UInt64}
    {result : Except String HandshakeResult} {tip : Except String (Option NcTip)}
    (h : queryTip onName output versions magic result tip s = some (s', task)) :
    Starts s s' task := by
  have hunnamed := handshakeOnChannels_unnamed versions magic result
  unfold queryTip at h
  rcases hrun : (Handshake.handshakeOnChannels versions magic result).run Handshake.session with
    ⟨negotiated, session⟩
  rw [hrun] at h hunnamed
  obtain ⟨rfl, rfl⟩ := Prod.mk.inj (Option.some.inj h)
  refine ⟨fun _ _ hold => hold, rfl, eventsCarry_internal rfl (eventsCarry_append ?_ ?_)⟩
  · refine sessionEvents_carry ?_ hunnamed
    intro he
    cases he
  · cases negotiated with
    | ok version => exact tipEvents_carry
    | error e => exact eventsCarry_nil

/-- Aborting a worker leaves one task less. -/
theorem abort_tasks {id : Nat} {old : Task} (handle : Option Nat)
    (h : (s.abort handle).tasks id = some old) : s.tasks id = some old := by
  cases handle with
  | none => exact h
  | some worker =>
      by_cases hid : id = worker
      · exact nomatch (if_pos hid).symm.trans h
      · exact (if_neg hid).symm.trans h

theorem abort_trace (handle : Option Nat) : (s.abort handle).trace = s.trace := by
  cases handle <;> rfl

theorem disconnect_starts (h : disconnect onName s = some (s', task)) : Starts s s' task := by
  simp only [disconnect] at h
  split at h
  · exact nomatch h
  · obtain ⟨rfl, rfl⟩ := Prod.mk.inj (Option.some.inj h)
    refine ⟨fun _ _ hold => abort_tasks _ (abort_tasks _ hold), ?_,
      eventsCarry_internal rfl eventsCarry_nil⟩
    exact (abort_trace _).trans (abort_trace _)

/-- Its events carry the name, and it has the scenario's tracer. -/
theorem acceptEvents_carry (connName peerAddress : String) (versions : List UInt64)
    (magic : UInt64) (version : Option UInt64) :
    EventsCarry (.step .acceptHandshake) connName
      (acceptEvents connName peerAddress versions magic version) := by
  intro out hout slot hwire
  obtain ⟨event, hmem, rfl⟩ := List.mem_map.mp hout
  rw [if_pos rfl]
  rcases List.mem_cons.mp hmem with rfl | hmem
  · exact ⟨rfl, rfl⟩
  rcases List.mem_cons.mp hmem with rfl | hmem
  · exact ⟨rfl, rfl⟩
  cases version with
  | none => exact nomatch hmem
  | some version =>
      rcases List.mem_cons.mp hmem with rfl | hmem
      · exact ⟨rfl, rfl⟩
      rcases List.mem_cons.mp hmem with rfl | hmem
      · exact ⟨rfl, rfl⟩
      · rw [List.mem_singleton.mp hmem]
        exact ⟨rfl, rfl⟩

theorem acceptHandshake_starts {asName peerId : Option String} {peerAddress : String}
    {versions : List UInt64} {magic : UInt64} {version : Option UInt64}
    (h : acceptHandshake onName asName peerId peerAddress versions magic version s =
      some (s', task)) : Starts s s' task := by
  simp only [acceptHandshake] at h
  split at h
  · exact nomatch h
  · obtain ⟨rfl, rfl⟩ := Prod.mk.inj (Option.some.inj h)
    exact ⟨fun _ _ hold => hold, rfl, acceptEvents_carry _ peerAddress versions magic version⟩

theorem start_starts (step : NetStep) (h : step.start s = some (s', task)) : Starts s s' task := by
  cases step with
  | connect asName peerId addr =>
      obtain ⟨rfl, rfl⟩ := Prod.mk.inj (Option.some.inj h)
      exact ⟨fun _ _ hold => hold, rfl, eventsCarry_internal rfl eventsCarry_nil⟩
  | handshake => exact handshake_starts h
  | chainSync => exact chainSync_starts h
  | blockFetch => exact blockFetch_starts h
  | leiosNotify => exact leiosNotify_starts h
  | leiosFetch => exact leiosFetch_starts h
  | queryTip => exact queryTip_starts h
  | disconnect => exact disconnect_starts h
  | listen asName addr =>
      obtain ⟨rfl, rfl⟩ := Prod.mk.inj (Option.some.inj h)
      exact ⟨fun _ _ hold => hold, rfl, eventsCarry_internal rfl eventsCarry_nil⟩
  | closeListener onName =>
      obtain ⟨rfl, rfl⟩ := Prod.mk.inj (Option.some.inj h)
      exact ⟨fun _ _ hold => hold, rfl, eventsCarry_internal rfl eventsCarry_nil⟩
  | acceptHandshake => exact acceptHandshake_starts h
  | serveChainSync => exact serveChainSync_starts h
  | serveBlockFetch => exact serveBlockFetch_starts h
  | serveLeiosNotify => exact serveLeiosNotify_starts h
  | serveLeiosFetch => exact serveLeiosFetch_starts h

end

/-! ## Actions -/

section

variable {s s' : State} {id : Nat} {task : Task}

theorem spawn_carried (hs : Carried s)
    (htask : EventsCarry task.emitter task.connName task.pending) : Carried (s.spawn task) where
  tasks := by
    intro id' task' h
    by_cases hid : id' = s.spawned
    · obtain rfl := Option.some.inj ((if_pos hid).symm.trans h)
      exact htask
    · exact hs.tasks id' task' ((if_neg hid).symm.trans h)
  trace := hs.trace

theorem setTask_carried (hs : Carried s)
    (htask : EventsCarry task.emitter task.connName task.pending) :
    Carried (s.setTask id (some task)) where
  tasks := by
    intro id' task' h
    by_cases hid : id' = id
    · obtain rfl := Option.some.inj ((if_pos hid).symm.trans h)
      exact htask
    · exact hs.tasks id' task' ((if_neg hid).symm.trans h)
  trace := hs.trace

/-- A task ends, and what it has checked out goes back. -/
theorem ended_carried (hs : Carried s) (id : Nat) (name : String) (held : CheckedOut) :
    Carried ((s.setTask id none).putBack name held) := by
  have hended : Carried (s.setTask id none) := by
    refine ⟨fun id' task' h => ?_, hs.trace⟩
    by_cases hid : id' = id
    · exact nomatch (if_pos hid).symm.trans h
    · exact hs.tasks id' task' ((if_neg hid).symm.trans h)
  cases held with
  | nothing => exact hended
  | client conn => exact ⟨hended.tasks, hended.trace⟩
  | server conn => exact ⟨hended.tasks, hended.trace⟩

theorem emitNext_carried {written : Bool} {out : Outgoing} {rest : List Outgoing} (hs : Carried s)
    (htask : s.tasks id = some task) (hpending : task.pending = out :: rest) :
    Carried (emitNext s id written task out rest) := by
  have hcarry := hs.tasks id task htask
  rw [hpending] at hcarry
  have hset : Carried (s.setTask id (some { task with pending := rest })) :=
    setTask_carried hs fun out' hout' => hcarry out' (List.mem_cons_of_mem _ hout')
  unfold emitNext
  cases written with
  | false => exact hset
  | true =>
      refine ⟨hset.tasks, fun line hline => ?_⟩
      rcases List.mem_append.mp hline with hline | hline
      · exact hset.trace line hline
      · rw [List.mem_singleton.mp hline]
        exact hcarry out List.mem_cons_self s.currentSlot

/-- The workers have the scenario's tracer, and their sessions name no connection. -/
theorem spawnKeepAlive_carried {connName : String} {conn : ClientConnection}
    {traffic : WorkerTraffic} (hs : Carried s) :
    Carried (spawnKeepAlive s connName conn traffic).1 := by
  unfold spawnKeepAlive
  split
  · refine spawn_carried hs (eventsCarry_unnamed (fun he => nomatch he) fun event h _ => ?_)
    exact runKeepalive_unnamed 0 traffic.rounds event h
  · exact hs

theorem spawnTxSubmission_carried {connName : String} {conn : ClientConnection}
    {traffic : WorkerTraffic} (hs : Carried s) :
    Carried (spawnTxSubmission s connName conn traffic).1 := by
  unfold spawnTxSubmission
  split
  · refine spawn_carried hs (eventsCarry_unnamed (fun he => nomatch he) fun event h _ => ?_)
    exact runTxSubmission_unnamed traffic.initSent traffic.requests event h
  · exact hs

theorem complete_carried (hs : Carried s) : Carried (complete s id task) := by
  have hended := ended_carried hs id task.connName task.held
  unfold complete
  split
  · exact hended
  · exact ⟨hended.tasks, hended.trace⟩
  · exact ⟨hended.tasks, hended.trace⟩
  · exact ⟨hended.tasks, hended.trace⟩
  · split
    · exact setTask_carried (spawnTxSubmission_carried (spawnKeepAlive_carried hs))
        (eventsCarry_internal rfl eventsCarry_nil)
    · exact hended

/-- **Preserved by every action.** -/
theorem act_carried (s : State) (action : Action) (s' : State) (h : act s action = some s')
    (hs : Carried s) : Carried s' := by
  cases action with
  | start step =>
      obtain ⟨⟨s₁, task⟩, hstart, rfl⟩ := Option.map_eq_some_iff.mp h
      have hstarts := start_starts step hstart
      refine spawn_carried ⟨fun id old hold => hs.tasks id old (hstarts.tasks id old hold), ?_⟩
        hstarts.pending
      rw [hstarts.trace]
      exact hs.trace
  | emit id written =>
      rw [act] at h
      split at h
      · exact nomatch h
      · rename_i task htask
        split at h
        · exact nomatch h
        · rename_i out rest hpending
          obtain rfl := Option.some.inj h
          exact emitNext_carried hs htask hpending
  | finish id =>
      rw [act] at h
      split at h
      · exact nomatch h
      · split at h
        · obtain rfl := Option.some.inj h
          exact complete_carried hs
        · exact nomatch h
  | drop id =>
      rw [act] at h
      split at h
      · exact nomatch h
      · obtain rfl := Option.some.inj h
        exact ended_carried hs _ _ _
  | advance slot =>
      obtain rfl := Option.some.inj h
      exact ⟨hs.tasks, hs.trace⟩

end

/-- What every line of a trace carries. -/
theorem run_carried {startSlot : Option UInt64} {actions : List Action} {s : State}
    (h : run (.initial startSlot) actions = some s) : Carried s :=
  foldlM_invariant act_carried h (carried_initial startSlot)

/-! ## Attribution -/

/-- A wire event carries the name of its connection, and its label if it has one. -/
def Attributed (line : Line) : Prop :=
  line.event.connection = some line.connName ∧
    ∀ peerId, line.peerId = some peerId → line.event.peerId = some peerId

/-- Every wire event of a trace is attributed, and no two of different connections look alike. -/
structure WireAttributed (trace : List Line) : Prop where
  attributed : ∀ line ∈ trace, line.event.isWire = true → Attributed line
  toldApart : ∀ line ∈ trace, ∀ line' ∈ trace, line.event.isWire = true →
    line'.event.isWire = true → line.event = line'.event → line.connName = line'.connName

/-- What a task emits next. -/
def next (s : State) (id : Nat) : Option (Task × Outgoing) :=
  (s.tasks id).bind fun task => task.pending.head?.map (Prod.mk task)

/-- An action writes no wire event, but for one of an `accept_handshake` that gives no label. -/
def Attributable (s : State) : Action → Prop
  | .emit id true => ∀ x ∈ next s id, x.2.event.isWire = true →
      x.1.emitter = .step .acceptHandshake ∧ x.1.peerId = none
  | _ => True

instance (s : State) : DecidablePred (Attributable s)
  | .emit id true => inferInstanceAs (Decidable (∀ x ∈ next s id, x.2.event.isWire = true →
      x.1.emitter = .step .acceptHandshake ∧ x.1.peerId = none))
  | .emit _ false => .isTrue trivial
  | .start _ => .isTrue trivial
  | .finish _ => .isTrue trivial
  | .drop _ => .isTrue trivial
  | .advance _ => .isTrue trivial

/-- The wire events of a trace are those of `accept_handshake` steps that give no label. -/
def OnlyAccepted (trace : List Line) : Prop :=
  ∀ line ∈ trace, line.event.isWire = true →
    line.emitter = .step .acceptHandshake ∧ line.peerId = none

section

variable {s s' : State}

/-- Who carries a name, and who a label, is who an event is of. -/
theorem wireAttributed_iff_onlyAccepted (hs : Carried s) :
    WireAttributed s.trace ↔ OnlyAccepted s.trace := by
  constructor
  · intro h line hline hwire
    obtain ⟨hname, hlabel⟩ := h.attributed line hline hwire
    have hcarry := hs.trace line hline hwire
    by_cases he : line.emitter = .step .acceptHandshake
    · rw [if_pos he] at hcarry
      refine ⟨he, ?_⟩
      cases hpeer : line.peerId with
      | none => rfl
      | some peerId => exact nomatch hcarry.2.symm.trans (hlabel peerId hpeer)
    · rw [if_neg he] at hcarry
      exact nomatch hcarry.symm.trans hname
  · intro h
    have hattributed : ∀ line ∈ s.trace, line.event.isWire = true → Attributed line := by
      intro line hline hwire
      obtain ⟨he, hpeer⟩ := h line hline hwire
      have hcarry := hs.trace line hline hwire
      rw [if_pos he] at hcarry
      exact ⟨hcarry.1, fun peerId hp => nomatch hpeer.symm.trans hp⟩
    refine ⟨hattributed, fun line hline line' hline' hwire hwire' heq => ?_⟩
    have hname := (hattributed line hline hwire).1
    rw [heq, (hattributed line' hline' hwire').1] at hname
    exact (Option.some.inj hname).symm

theorem complete_trace (id : Nat) (task : Task) : (complete s id task).trace = s.trace := by
  have hended : ((s.setTask id none).putBack task.connName task.held).trace = s.trace := by
    cases task.held <;> rfl
  have hkeep : ∀ (s : State) connName conn traffic,
      (spawnKeepAlive s connName conn traffic).1.trace = s.trace := by
    intro s connName conn traffic
    unfold spawnKeepAlive
    split <;> rfl
  have htx : ∀ (s : State) connName conn traffic,
      (spawnTxSubmission s connName conn traffic).1.trace = s.trace := by
    intro s connName conn traffic
    unfold spawnTxSubmission
    split <;> rfl
  unfold complete
  split
  · exact hended
  · exact hended
  · exact hended
  · exact hended
  · split
    · exact (htx _ _ _ _).trans (hkeep _ _ _ _)
    · exact hended

/-- An action that writes nothing. -/
theorem onlyAccepted_of_trace_eq {P : Prop} (htrace : s'.trace = s.trace) (hP : P) :
    OnlyAccepted s'.trace ↔ OnlyAccepted s.trace ∧ P := by
  rw [htrace]
  exact ⟨fun h => ⟨h, hP⟩, And.left⟩

theorem act_onlyAccepted (s : State) (action : Action) (s' : State) (h : act s action = some s') :
    OnlyAccepted s'.trace ↔ OnlyAccepted s.trace ∧ Attributable s action := by
  cases action with
  | start step =>
      obtain ⟨⟨s₁, task⟩, hstart, rfl⟩ := Option.map_eq_some_iff.mp h
      exact onlyAccepted_of_trace_eq (start_starts step hstart).trace trivial
  | emit id written =>
      rw [act] at h
      split at h
      · exact nomatch h
      · rename_i task htask
        split at h
        · exact nomatch h
        · rename_i out rest hpending
          obtain rfl := Option.some.inj h
          have hnext : next s id = some (task, out) := by
            simp only [next, htask, hpending, List.head?_cons, Option.bind_some, Option.map_some]
          cases written with
          | false => exact onlyAccepted_of_trace_eq rfl trivial
          | true =>
              change _ ↔ OnlyAccepted s.trace ∧ ∀ x ∈ next s id, x.2.event.isWire = true → _
              rw [hnext]
              constructor
              · intro hall
                refine ⟨fun line hline => hall line (List.mem_append_left _ hline), ?_⟩
                intro x hx hwire
                obtain rfl := Option.some.inj hx
                exact hall _ (List.mem_append_right _ List.mem_cons_self) hwire
              · intro ⟨hall, hone⟩ line hline hwire
                rcases List.mem_append.mp hline with hline | hline
                · exact hall line hline hwire
                · obtain rfl := List.mem_singleton.mp hline
                  exact hone (task, out) rfl hwire
  | finish id =>
      rw [act] at h
      split at h
      · exact nomatch h
      · split at h
        · obtain rfl := Option.some.inj h
          exact onlyAccepted_of_trace_eq (complete_trace _ _) trivial
        · exact nomatch h
  | drop id =>
      rw [act] at h
      split at h
      · exact nomatch h
      · rename_i task _
        obtain rfl := Option.some.inj h
        refine onlyAccepted_of_trace_eq ?_ trivial
        cases task.held <;> rfl
  | advance slot =>
      obtain rfl := Option.some.inj h
      exact onlyAccepted_of_trace_eq rfl trivial

/-- **A run attributes its wire events exactly if all of them are those of `accept_handshake`
steps that give no label.** -/
theorem wireAttributed_iff {startSlot : Option UInt64} {actions : List Action} {s : State}
    (h : run (.initial startSlot) actions = some s) :
    WireAttributed s.trace ↔ Throughout act Attributable (.initial startSlot) actions := by
  rw [wireAttributed_iff_onlyAccepted (run_carried h), foldlM_preserves_iff act_onlyAccepted h]
  exact and_iff_right fun _ hline => nomatch hline

end

/-- A listener, and one client that is accepted on it. -/
def accepted : List Action :=
  [.start (.listen (some "downstream") "127.0.0.1:3001"), .emit 0 true, .finish 0,
    .start (.acceptHandshake (some "downstream") (some "client") none "127.0.0.1:40000" [13, 14] 42
      (some 14)),
    .emit 1 true, .emit 1 true, .emit 1 true, .emit 1 true, .emit 1 true, .finish 1]

theorem accepted_wireAttributed :
    ∃ s, run (.initial none) accepted = some s ∧ s.trace.countP (·.event.isWire) = 2 ∧
      WireAttributed s.trace := by
  have hrun : (run (.initial none) accepted).isSome = true := by decide
  have hcount : (run (.initial none) accepted).map (·.trace.countP (·.event.isWire)) = some 2 := by
    decide
  obtain ⟨s, hs⟩ := Option.isSome_iff_exists.mp hrun
  rw [hs] at hcount
  exact ⟨s, hs, Option.some.inj hcount, (wireAttributed_iff hs).mpr (by decide)⟩

/-- Two connections, with a handshake on each of them under way. -/
def twoHandshakes : List Action :=
  [.start (.connect (some "a") none "127.0.0.1:3001"), .emit 0 true, .finish 0,
    .start (.connect (some "b") none "127.0.0.1:3002"), .emit 1 true, .finish 1,
    .start (.handshake (some "a") [13, 14] 42 (.ok (.accepted 14)) ⟨0, false, []⟩),
    .start (.handshake (some "b") [13, 14] 42 (.ok (.accepted 14)) ⟨0, false, []⟩),
    .emit 2 true, .emit 3 true, .emit 2 true, .emit 3 true]

/-- What the two propose is in the trace twice, word for word. -/
theorem twoHandshakes_not_attributed :
    ∃ s, run (.initial none) twoHandshakes = some s ∧ ¬ WireAttributed s.trace ∧
      ∃ line ∈ s.trace, ∃ line' ∈ s.trace, line.event = line'.event ∧
        line.event = Handshake.proposedEvent .sent [13, 14] 42 ∧
        line.connName = "a" ∧ line'.connName = "b" := by
  have htwins : ∃ s, run (.initial none) twoHandshakes = some s ∧
      ∃ line ∈ s.trace, ∃ line' ∈ s.trace, line.event = line'.event ∧
        line.event = Handshake.proposedEvent .sent [13, 14] 42 ∧
        line.connName = "a" ∧ line'.connName = "b" := by
    refine ⟨_, rfl, ⟨.step .handshake, "a", none, Handshake.proposedEvent .sent [13, 14] 42⟩, ?_,
      ⟨.step .handshake, "b", none, Handshake.proposedEvent .sent [13, 14] 42⟩, ?_, rfl, rfl, rfl,
      rfl⟩
    · exact .tail _ (.tail _ (.tail _ (.tail _ (.head _))))
    · exact .tail _ (.tail _ (.tail _ (.tail _ (.tail _ (.head _)))))
  obtain ⟨s, hrun, line, hline, line', hline', heq, hevent, ha, hb⟩ := htwins
  refine ⟨s, hrun, fun h => ?_, line, hline, line', hline', heq, hevent, ha, hb⟩
  have hwire : line.event.isWire = true := by
    rw [hevent]
    rfl
  have hname := h.toldApart line hline line' hline' hwire (heq ▸ hwire) heq
  rw [ha, hb] at hname
  exact absurd hname (by decide)

end ConformanceHarness.Proof
