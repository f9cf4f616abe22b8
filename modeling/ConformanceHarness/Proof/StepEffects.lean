import ConformanceHarness.Proof.StepCode

/-!
# What an action can do to the shared state

One inversion lemma for the connections and the trace, and one for the imaginary network. What
follows them need not look at the actions again.
-/

namespace ConformanceHarness.Concurrent

open ConformanceHarness.Lib (Preserves Scope)
open ConformanceHarness.Lib.Scope (All Later live seq always)
open ConformanceHarness.Proof (Reachable)
open ConformanceHarness.Runner (LeafKind RunError)

variable {S : Setting} {frame : Bool} {steps : List Loader.StepDef}

/-! ## What is held, and what is waited for -/

/-- The connection that an action has checked out. -/
def Action.token : Action → Option Token
  | .checkedOut token => some token
  | _ => none

/-- The ticket that an action waits with. -/
def Action.ticket : Action → Option Nat
  | .waiting ticket _ => some ticket
  | _ => none

/-- What a program has checked out. -/
def tokensOf (l : List Action) : List Token := l.filterMap Action.token

/-- The tickets a program waits with. -/
def ticketsOf (l : List Action) : List Nat := l.filterMap Action.ticket

@[simp] theorem tokensOf_append {l l' : List Action} :
    tokensOf (l ++ l') = tokensOf l ++ tokensOf l' := List.filterMap_append ..

@[simp] theorem ticketsOf_append {l l' : List Action} :
    ticketsOf (l ++ l') = ticketsOf l ++ ticketsOf l' := List.filterMap_append ..

theorem Fresh.token {a : Action} (h : Fresh a) : a.token = none := by
  cases a <;> first | rfl | exact h.elim

theorem Fresh.ticket {a : Action} (h : Fresh a) : a.ticket = none := by
  cases a <;> first | rfl | exact h.elim

theorem tokensOf_fresh {l : List Action} (h : ∀ a ∈ l, Fresh a) : tokensOf l = [] :=
  List.filterMap_eq_nil_iff.mpr fun a ha => (h a ha).token

theorem ticketsOf_fresh {l : List Action} (h : ∀ a ∈ l, Fresh a) : ticketsOf l = [] :=
  List.filterMap_eq_nil_iff.mpr fun a ha => (h a ha).ticket

/-! ## Connections and the trace -/

/-- What a step can do to a connection it has checked out. -/
inductive Use : (Connection → Connection) → Prop where
  | channel (channel : Channel) :
      Use fun conn => { conn with channels := conn.channels.erase channel }
  | startWorkers (version : UInt64) : Use (·.startWorkers version)
  | storePoints (points : List Point) : Use (·.storePoints points)
  | fetchPoints : Use fun conn => { conn with lastChainSyncPoints := [] }

section

variable (S : Setting) (frame : Bool) (steps : List Loader.StepDef)

/-- The lock has been asked for, and code follows. -/
inductive Waits (s : State) (job : Job) : Prog → Prop where
  | last : Waits s job (s.wait job)
  | seq {k : Prog} (hk : k.All (Code S frame steps)) : Waits s job (seq (s.wait job) k)
  | always {k : Prog} (hk : k.All (Code S frame steps)) : Waits s job (always (s.wait job) k)

/-- A step asks for the lock, and the connections become `conns`. -/
structure Requests (job : Job) (conns : Connections) (s s' : State) (rest : Prog) : Prop where
  conns : s'.conns = conns
  trace : s'.trace = s.trace.request (job.line s'.net.currentSlot) false
  genuine : ∀ idx step result, job = .closing idx step result → Reachable steps step
  rest : Waits S frame steps s job rest

/-- The connections become `conns`, the trace is left alone, and code follows. -/
structure GoesOn (conns : Connections) (s s' : State) (rest : Prog) : Prop where
  conns : s'.conns = conns
  trace : s'.trace = s.trace
  rest : rest.All (Code S frame steps)

/-- What an action does to the connections and the trace, and what it then waits for or holds. -/
inductive Effect (held : List Action) (a : Action) (s s' : State) (rest : Prog) : Prop where
  | quiet (ha : Fresh a) (h : GoesOn S frame steps s.conns s s' rest)
  | requests (job : Job) (ha : Fresh a) (hopen : ∀ id event, job ≠ .close id event)
      (h : Requests S frame steps job s.conns s s' rest)
  | grants (ticket : Nat) (job : Job) (w : Waiter) (queue : List Waiter) (written : Bool)
      (ha : a = .waiting ticket job) (hqueue : s.trace.queue = w :: queue)
      (hstep : TraceFile.isStep ticket w = true) (hconns : s'.conns = s.conns)
      (htrace : s'.trace = s.trace.grant w queue written)
      (hrest : rest.All (Code S frame steps))
  | opens (side : Side) (l : Leaf) (conn : Connection) (ha : a = .openConnection side l)
      (hside : conn.side = side) (hname : conn.name = l.asName)
      (hpoints : conn.lastChainSyncPoints = [])
      (h : GoesOn S frame steps (s.conns.openAs side l.step conn) s s' rest)
  | takes (side : Side) (l : Leaf) (kind : LeafKind) (token : Token) (ha : a = .take side l kind)
      (htake : s.conns.take side l.onName = some (token, s'.conns)) (htrace : s'.trace = s.trace)
      (hrest : rest = .hold (.checkedOut token) (withConnection l kind))
      (hbody : (withConnection l kind).All (Code S frame steps))
  | uses (token : Token) (outer : List Action) (f : Connection → Connection) (ha : Fresh a)
      (hheld : held = .checkedOut token :: outer) (huse : Use f)
      (h : GoesOn S frame steps (s.conns.update token.id f) s s' rest)
  | startsWorkers (token : Token) (outer : List Action) (version : UInt64) (job : Job)
      (ha : Fresh a) (hheld : held = .checkedOut token :: outer)
      (hopen : ∀ id event, job ≠ .close id event)
      (h : Requests S frame steps job (s.conns.update token.id (·.startWorkers version)) s s' rest)
  | disconnects (l : Leaf) (id : Nat) (event : TraceEvent) (conns : Connections)
      (ha : a = .disconnect l)
      (hdisconnect : s.conns.disconnect l.step l.onName = some (id, conns))
      (h : Requests S frame steps (.close id event) conns s s' rest)
  | listens (l : Leaf) (ha : a = .openListener l)
      (h : GoesOn S frame steps { s.conns with
        listeners := insert l.asName s.conns.listeners, log := s.conns.log ++ [l.step] } s s' rest)
  | unlistens (l : Leaf) (job : Job) (ha : a = .closeListener l)
      (hopen : ∀ id event, job ≠ .close id event)
      (h : Requests S frame steps job { s.conns with
        listeners := s.conns.listeners.erase l.onName, log := s.conns.log ++ [l.step] } s s' rest)
  | drains (side : Side) (order : List (String × Nat)) (ha : a = .drainTable side)
      (horder : order.Perm ((s.conns.table side).entries.map fun e => (e.1, e.2)))
      (h : GoesOn S frame steps (s.conns.drain side order) s s' rest)
  | clears (ha : a = .clearListeners)
      (h : GoesOn S frame steps { s.conns with listeners := ∅ } s s' rest)
  | closesNext (name : String) (id : Nat) (more : List (String × Nat)) (event : TraceEvent)
      (ha : a = .closeNext) (hdrained : s.conns.drained = (name, id) :: more)
      (h : Requests S frame steps (.close id event) (s.conns.closeNext id more) s s' rest)

end

theorem Resumes.code {events : List TraceEvent} {written : Bool} {job : Job} {rest : Prog}
    (h : Resumes events written job rest) : rest.All (Code S frame steps) := by
  cases job with
  | emit tracer event =>
    rcases h with ⟨-, rfl⟩ | ⟨e, rfl⟩
    · exact .done
    · exact .failed e
  | close id event =>
    rcases h with ⟨-, rfl⟩ | ⟨e, rfl⟩
    · exact .done
    · exact .failed e
  | drain =>
    obtain rfl := h
    exact .done
  | closing idx step result =>
    obtain rfl := h
    exact completeStep_code

theorem Ends.code {rest : Prog} (h : Ends rest) : rest.All (Code S frame steps) := by
  rcases h with rfl | ⟨e, rfl⟩
  · exact .done
  · exact .failed e

section

variable {held : List Action} {a : Action} {s s' : State} {rest : Prog}

/-- An action that only moves on. -/
theorem Effect.pass (ha : Fresh a) (hs : s' = s) (hrest : rest.All (Code S frame steps)) :
    Effect S frame steps held a s s' rest := by
  subst hs
  exact .quiet ha ⟨rfl, rfl, hrest⟩

/-- An action that asks for the lock to emit an event. -/
theorem Effect.emits {moved : State} {tracer : Tracer} {event : TraceEvent} (ha : Fresh a)
    (hs : s' = moved.request (.emit tracer event)) (hconns : moved.conns = s.conns)
    (htrace : moved.trace = s.trace)
    (hwait : Waits S frame steps s (.emit tracer event) rest) :
    Effect S frame steps held a s s' rest := by
  subst hs
  refine .requests (.emit tracer event) ha ?_ ⟨hconns, ?_, ?_, hwait⟩
  · intro id event hjob
    cases hjob
  · simp only [State.request, htrace]
  · intro idx step result h
    cases h

theorem Effect.movesClock {reason : String} {net : RunState} (ha : Fresh a)
    (h : (s', rest) = moveClock reason s net) : Effect S frame steps held a s s' rest := by
  obtain ⟨hs, rfl⟩ := Prod.mk.inj h
  exact .emits ha hs rfl rfl (.seq emitProductionEvents_code)

/-- **What an action does**, action by action. -/
theorem exec_effect (h : exec S held a s s' rest) (ha : Genuine S frame steps a) :
    Effect S frame steps held a s s' rest := by
  cases a with
  | request job =>
    -- what a request asks for is written by the program, so it is genuine
    obtain ⟨rfl, rfl⟩ := h
    refine .requests job trivial ?_ ⟨rfl, rfl, ?_, .last⟩
    · rintro id event rfl
      exact ha
    · rintro idx step result rfl
      exact ha
  | waiting ticket job =>
    obtain ⟨w, queue, written, hqueue, hstep, rfl, hresumes⟩ := h
    exact .grants ticket job w queue written rfl hqueue hstep rfl rfl hresumes.code
  | checkedOut token => exact h.elim
  | begin =>
    obtain ⟨rfl, vars, rfl, -⟩ := h
    exact .quiet trivial ⟨rfl, rfl, .done⟩
  | initPeer peer =>
    -- only a peer without a chain file has anything to announce
    dsimp only [exec] at h
    split at h
    · exact .pass trivial h.1 (h.2 ▸ .failed _)
    · obtain ⟨hs, rfl⟩ := h
      exact .emits trivial hs rfl rfl .last
  | complete passed failed outcome =>
    -- whether the last line is written makes no difference
    obtain ⟨ms, hs, rfl⟩ := h
    exact .emits trivial hs rfl rfl (.always .done)
  | drainTable side =>
    obtain ⟨order, horder, rfl, rfl⟩ := h
    exact .drains side order rfl horder ⟨rfl, rfl, .act ⟨trivial, ha⟩⟩
  | clearListeners =>
    obtain ⟨rfl, rfl⟩ := h
    exact .clears rfl ⟨rfl, rfl, .done⟩
  | closeNext =>
    -- the list of the drained is empty, or its first connection goes
    dsimp only [exec] at h
    split at h
    · exact .pass trivial h.1 (h.2 ▸ .done)
    · next name id more hdrained =>
      obtain ⟨rfl, rfl⟩ := h
      have hnext : Code S frame steps .closeNext := ⟨trivial, ha⟩
      refine .closesNext name id more _ rfl hdrained ⟨rfl, rfl, ?_, .always (.act hnext)⟩
      intro idx step result hjob
      cases hjob
  | substitute idx step =>
    -- a step is resolved before it is read again
    obtain ⟨hs, rfl⟩ := h
    refine .pass trivial hs ?_
    split
    · exact .failed _
    · next resolved refs hresolved => exact substitutedStep_code ha hresolved
  | reportAborted branchCount =>
    obtain ⟨hs, reports, -, rfl⟩ := h
    refine .pass trivial hs (emitIgnored_code ?_ .done)
    intro event hevent
    obtain ⟨r, -, rfl⟩ := List.mem_map.mp hevent
    exact unpinned_internal (by decide)
  | io => exact .pass trivial h.1 h.2.code
  | sleep => exact .pass trivial h.1 (h.2 ▸ .done)
  | session =>
    -- a session ends, or emits one event of its own and goes on
    obtain ⟨hs, hends | ⟨tracer, event, hown, rfl⟩⟩ := h
    · exact .pass trivial hs hends.code
    · exact .pass trivial hs (All.seq (.act ⟨trivial, hown.unpinned⟩) (.act ⟨trivial, trivial⟩))
  | setVariable name v shape =>
    obtain ⟨hs, rfl⟩ := h
    exact .emits trivial hs rfl rfl .last
  | dial l =>
    obtain ⟨rfl, hends⟩ := h
    exact .quiet trivial ⟨rfl, rfl, hends.code⟩
  | openConnection side l =>
    obtain ⟨rfl, rfl⟩ := h
    cases side with
    | client => exact .opens .client l (.opened l.asName) rfl rfl rfl rfl ⟨rfl, rfl, .done⟩
    | server => exact .opens .server l (.accepted l.asName) rfl rfl rfl rfl ⟨rfl, rfl, .done⟩
  | take side l kind =>
    -- without a connection of that name the step fails
    dsimp only [exec] at h
    split at h
    · exact .pass trivial h.1 (h.2 ▸ .failed _)
    · next token conns htake =>
      obtain ⟨rfl, rfl⟩ := h
      exact .takes side l kind token rfl htake rfl rfl (withConnection_code ha)
  | takeChannel channel missing =>
    -- the channels of the connection in hand are taken once
    obtain ⟨token, outer, hheld, h⟩ := h
    split at h
    · obtain ⟨rfl, rfl⟩ := h
      exact .uses token outer _ trivial hheld (.channel channel) ⟨rfl, rfl, .done⟩
    · exact .pass trivial h.1 (h.2 ▸ .failed _)
  | startWorkers l =>
    obtain ⟨token, outer, hheld, version, rfl, rfl⟩ := h
    refine .startsWorkers token outer version _ trivial hheld ?_ ⟨rfl, rfl, ?_, .last⟩
    · intro id event hjob
      cases hjob
    · intro idx step result hjob
      cases hjob
  | storePoints l =>
    -- an `output` name is set after the points are stored
    obtain ⟨token, outer, hheld, points, rfl, rfl⟩ := h
    refine .uses token outer _ trivial hheld (.storePoints points) ⟨rfl, rfl, ?_⟩
    split
    · exact .act ⟨trivial, trivial⟩
    · exact All.seq (.act ⟨trivial, trivial⟩) (.act ⟨trivial, trivial⟩)
  | fetchPoints l =>
    -- without points to fetch the step fails, and nothing is recorded
    obtain ⟨token, outer, hheld, h⟩ := h
    dsimp only at h
    split at h
    · exact .pass trivial h.1 (h.2 ▸ .failed _)
    · obtain ⟨rfl, rfl⟩ := h
      exact .uses token outer _ trivial hheld .fetchPoints ⟨rfl, rfl, .done⟩
  | serveFixture l kind =>
    obtain ⟨hs, rfl⟩ := h
    refine .pass trivial hs ?_
    split
    · exact .failed _
    · exact .act ⟨trivial, trivial⟩
  | tip l =>
    obtain ⟨hs, point, blockNumber, rfl⟩ := h
    refine .pass trivial hs (All.seq (emitConnection_code (by decide)) ?_)
    split
    · exact .done
    · exact .act ⟨trivial, trivial⟩
  | disconnect l =>
    dsimp only [exec] at h
    split at h
    · exact .pass trivial h.1 (h.2 ▸ .failed _)
    · next id conns hdisconnect =>
      obtain ⟨rfl, rfl⟩ := h
      refine .disconnects l id _ conns rfl hdisconnect ⟨rfl, rfl, ?_, .last⟩
      intro idx step result hjob
      cases hjob
  | openListener l =>
    obtain ⟨rfl, rfl⟩ := h
    exact .listens l rfl ⟨rfl, rfl, .done⟩
  | closeListener l =>
    obtain ⟨rfl, rfl⟩ := h
    refine .unlistens l _ rfl ?_ ⟨rfl, rfl, ?_, .last⟩
    · intro id event hjob
      cases hjob
    · intro idx step result hjob
      cases hjob
  | accept l =>
    -- the listener may be gone by the time the step looks
    obtain ⟨hs, h⟩ := h
    refine .pass trivial hs ?_
    split at h
    · rcases h with ⟨e, rfl⟩ | ⟨peerAddress, rfl⟩
      · exact .failed e
      · exact .act ⟨trivial, ha⟩
    · exact h ▸ .failed _
  | serverHandshake l peerAddress =>
    obtain ⟨hs, versions, version, h⟩ := h
    refine .pass trivial hs ?_
    dsimp only at h
    split at h
    · obtain ⟨e, rfl⟩ := h
      exact emitAll_code acceptEvents_unpinned (.failed e)
    · exact h ▸ emitAll_code acceptEvents_unpinned (.act ⟨trivial, ha⟩)
  | extendChain l =>
    dsimp only [exec] at h
    split at h
    · exact .pass trivial h.1 (h.2 ▸ .failed _)
    · obtain ⟨extension, -, hs, rfl⟩ := h
      exact .emits trivial hs rfl rfl .last
  | advanceToSlot l =>
    -- a production that never ends leaves no state
    obtain ⟨order, -, h⟩ := h
    split at h
    · exact h.elim
    · exact .pass trivial h.1 (h.2 ▸ .failed _)
    · exact .movesClock trivial h
  | tickSlots l =>
    obtain ⟨order, -, h⟩ := h
    split at h
    · exact h.elim
    · exact .pass trivial h.1 (h.2 ▸ .failed _)
    · exact .movesClock trivial h

/-! ## The imaginary network, and what is recorded -/

/-- Nothing is recorded. -/
structure Unrecorded (s s' : State) : Prop where
  dialed : s'.dialed = s.dialed
  fetched : s'.fetched = s.fetched

/-- What an action does to the imaginary network, and what it records. -/
inductive NetEffect (S : Setting) (held : List Action) (a : Action) (s s' : State) : Prop where
  | vars (vars : VarStore) (hnet : s'.net = { s.net with vars }) (h : Unrecorded s s')
  | begins (vars : VarStore) (ha : a = .begin)
      (hnet : s'.net = { s.net with
        currentSlot := S.scenario.network.bind Loader.Network.startSlot, vars })
      (h : Unrecorded s s')
  | inits (peer : Peer) (ps : PeerState) (ha : a = .initPeer peer)
      (hps : peer.initialState S.files = .ok ps)
      (hnet : s'.net = { s.net with peers := s.net.peers.insert peer.id ps })
      (h : Unrecorded s s')
  | appends (l : Leaf) (ha : a = .extendChain l)
      (hnet : peerExtendsChain l.params s.net = .ok s'.net) (h : Unrecorded s s')
  | advances (l : Leaf) (order : List String) (ha : a = .advanceToSlot l)
      (horder : s.net.peers.IterOrder order)
      (hnet : advanceToSlot S.blake2b order l.params s.net = some (.ok s'.net))
      (h : Unrecorded s s')
  | ticks (l : Leaf) (order : List String) (ha : a = .tickSlots l)
      (horder : s.net.peers.IterOrder order)
      (hnet : tickSlots S.blake2b order l.params s.net = some (.ok s'.net))
      (h : Unrecorded s s')
  | dials (l : Leaf) (ha : a = .dial l) (hnet : s'.net = s.net)
      (hdialed : s'.dialed = s.dialed ++ [⟨l.step, l.params, address S l⟩])
      (hfetched : s'.fetched = s.fetched)
  | fetches (l : Leaf) (token : Token) (outer : List Action) (ha : a = .fetchPoints l)
      (hheld : held = .checkedOut token :: outer)
      (hpoints : (s.conns.connection token.id).lastChainSyncPoints ≠ [])
      (hnet : s'.net = s.net) (hdialed : s'.dialed = s.dialed)
      (hfetched : s'.fetched = s.fetched ++
        [(s.conns.connection token.id, (s.conns.connection token.id).lastChainSyncPoints)])

theorem NetEffect.pass (hs : s' = s) : NetEffect S held a s s' := by
  subst hs
  exact .vars s'.net.vars rfl ⟨rfl, rfl⟩

/-- An action that is about something else. -/
theorem NetEffect.aside (hnet : s'.net = s.net) (h : Unrecorded s s') :
    NetEffect S held a s s' := .vars s.net.vars hnet h

/-- **What an action does to the imaginary network**, action by action. -/
theorem exec_net (h : exec S held a s s' rest) : NetEffect S held a s s' := by
  cases a with
  | request job =>
    obtain ⟨rfl, -⟩ := h
    exact .aside rfl ⟨rfl, rfl⟩
  | waiting ticket job =>
    obtain ⟨w, queue, written, -, -, rfl, -⟩ := h
    exact .aside rfl ⟨rfl, rfl⟩
  | checkedOut token => exact h.elim
  | begin =>
    obtain ⟨-, vars, rfl, -⟩ := h
    exact .begins vars rfl rfl ⟨rfl, rfl⟩
  | initPeer peer =>
    dsimp only [exec] at h
    split at h
    · exact .pass h.1
    · next ps hps =>
      obtain ⟨rfl, -⟩ := h
      exact .inits peer ps rfl hps rfl ⟨rfl, rfl⟩
  | complete passed failed outcome =>
    obtain ⟨ms, rfl, -⟩ := h
    exact .aside rfl ⟨rfl, rfl⟩
  | drainTable side =>
    obtain ⟨order, -, rfl, -⟩ := h
    exact .aside rfl ⟨rfl, rfl⟩
  | clearListeners =>
    obtain ⟨rfl, -⟩ := h
    exact .aside rfl ⟨rfl, rfl⟩
  | closeNext =>
    -- the cleanup closes connections, and leaves the network alone
    dsimp only [exec] at h
    split at h
    · exact .pass h.1
    · obtain ⟨rfl, -⟩ := h
      exact .aside rfl ⟨rfl, rfl⟩
  | substitute idx step => exact .pass h.1
  | reportAborted branchCount => exact .pass h.1
  | io => exact .pass h.1
  | sleep => exact .pass h.1
  | session => exact .pass h.1
  | setVariable name v shape =>
    obtain ⟨rfl, -⟩ := h
    exact .vars (s.net.vars.insert name v) rfl ⟨rfl, rfl⟩
  | dial l =>
    obtain ⟨rfl, -⟩ := h
    exact .dials l rfl rfl rfl rfl
  | openConnection side l =>
    obtain ⟨rfl, -⟩ := h
    exact .aside rfl ⟨rfl, rfl⟩
  | take side l kind =>
    -- connections are no part of the imaginary network
    dsimp only [exec] at h
    split at h
    · exact .pass h.1
    · obtain ⟨rfl, -⟩ := h
      exact .aside rfl ⟨rfl, rfl⟩
  | takeChannel channel missing =>
    obtain ⟨token, outer, -, h⟩ := h
    split at h
    · obtain ⟨rfl, -⟩ := h
      exact .aside rfl ⟨rfl, rfl⟩
    · exact .pass h.1
  | startWorkers l =>
    obtain ⟨token, outer, -, version, rfl, -⟩ := h
    exact .aside rfl ⟨rfl, rfl⟩
  | storePoints l =>
    obtain ⟨token, outer, -, points, rfl, -⟩ := h
    exact .aside rfl ⟨rfl, rfl⟩
  | fetchPoints l =>
    -- the one action that records points, and only where there are some
    obtain ⟨token, outer, hheld, h⟩ := h
    dsimp only at h
    split at h
    · exact .pass h.1
    · next hpoints =>
      obtain ⟨rfl, -⟩ := h
      exact .fetches l token outer rfl hheld hpoints rfl rfl rfl
  | serveFixture l kind => exact .pass h.1
  | tip l => exact .pass h.1
  | disconnect l =>
    dsimp only [exec] at h
    split at h
    · exact .pass h.1
    · obtain ⟨rfl, -⟩ := h
      exact .aside rfl ⟨rfl, rfl⟩
  | openListener l =>
    obtain ⟨rfl, -⟩ := h
    exact .aside rfl ⟨rfl, rfl⟩
  | closeListener l =>
    obtain ⟨rfl, -⟩ := h
    exact .aside rfl ⟨rfl, rfl⟩
  | accept l => exact .pass h.1
  | serverHandshake l peerAddress => exact .pass h.1
  | extendChain l =>
    -- a chain that does not take the block stays as it is
    dsimp only [exec] at h
    split at h
    · exact .pass h.1
    · next net hnet =>
      obtain ⟨extension, -, rfl, -⟩ := h
      exact .appends l rfl hnet ⟨rfl, rfl⟩
  | advanceToSlot l =>
    -- the clock and the chains move together, or neither does
    obtain ⟨order, horder, h⟩ := h
    split at h
    · exact h.elim
    · exact .pass h.1
    · next net hnet =>
      obtain ⟨rfl, -⟩ := Prod.mk.inj h
      exact .advances l order rfl horder hnet ⟨rfl, rfl⟩
  | tickSlots l =>
    obtain ⟨order, horder, h⟩ := h
    split at h
    · exact h.elim
    · exact .pass h.1
    · next net hnet =>
      obtain ⟨rfl, -⟩ := Prod.mk.inj h
      exact .ticks l order rfl horder hnet ⟨rfl, rfl⟩

/-! ## What an action leaves to do -/

theorem Waits.all {job : Job}
    (hjob : ∀ idx step result, job = .closing idx step result → Reachable steps step)
    (h : Waits S frame steps s job rest) :
    rest.All (Genuine S frame steps) ∧ rest.Later Fresh := by
  have hwait : (s.wait job).All (Genuine S frame steps) := by
    refine .act ?_
    cases job with
    | closing idx step result => exact hjob idx step result rfl
    | _ => trivial
  cases h with
  | last => exact ⟨hwait, .act _⟩
  | seq hk => exact ⟨All.seq hwait (Code.genuine hk), .bind (.act _) (Code.fresh hk) fun e => .failed e⟩
  | always hk =>
    exact ⟨All.always hwait (Code.genuine hk), .bind (.act _) (Code.fresh hk) fun _ => Code.fresh hk⟩

theorem Waits.live {job : Job} (h : Waits S frame steps s job rest) :
    live rest = [.waiting s.trace.tickets job] := by
  cases h <;> rfl

theorem code_all (h : rest.All (Code S frame steps)) :
    rest.All (Genuine S frame steps) ∧ rest.Later Fresh :=
  ⟨Code.genuine h, (Code.fresh h).later⟩

/-- The actions a program comes to stay those of the steps, and it holds nothing later. -/
theorem Effect.leaves (h : Effect S frame steps held a s s' rest) :
    rest.All (Genuine S frame steps) ∧ rest.Later Fresh := by
  cases h with
  | quiet _ h => exact code_all h.rest
  | requests job _ _ h => exact h.rest.all h.genuine
  | grants ticket job w queue written _ _ _ _ _ hrest => exact code_all hrest
  | opens side l conn _ _ _ _ h => exact code_all h.rest
  | takes side l kind token _ _ _ hrest hbody =>
    subst hrest
    exact ⟨.hold trivial (Code.genuine hbody), .hold _ (Code.fresh hbody).later⟩
  | uses token outer f _ _ _ h => exact code_all h.rest
  | startsWorkers token outer version job _ _ _ h => exact h.rest.all h.genuine
  | disconnects l id event conns _ _ h => exact h.rest.all h.genuine
  | listens l _ h => exact code_all h.rest
  | unlistens l job _ _ h => exact h.rest.all h.genuine
  | drains side order _ _ h => exact code_all h.rest
  | clears _ h => exact code_all h.rest
  | closesNext name id more event _ _ h => exact h.rest.all h.genuine

end

/-! ## What is dropped, and what the workers do -/

@[simp] theorem drop_net (a : Action) (s : State) : (drop a s).net = s.net := by
  cases a <;> rfl

theorem drop_unrecorded (a : Action) (s : State) : Unrecorded s (drop a s) := by
  cases a <;> exact ⟨rfl, rfl⟩

theorem ambient_net {s s' : State} (h : Ambient s s') : s'.net = s.net := by
  cases h <;> rfl

theorem ambient_conns {s s' : State} (h : Ambient s s') : s'.conns = s.conns := by
  cases h <;> rfl

theorem ambient_unrecorded {s s' : State} (h : Ambient s s') : Unrecorded s s' := by
  cases h <;> exact ⟨rfl, rfl⟩

/-! ## Invariants -/

/-- An invariant of the state, of the actions that the programs have. -/
theorem preserves_of {Inv : State → Prop}
    (hexec : ∀ held a s s' rest, exec S held a s s' rest → Genuine S frame steps a → Inv s → Inv s')
    (hdrop : ∀ a s, Inv s → Inv (drop a s)) (hambient : ∀ s s', Ambient s s' → Inv s → Inv s') :
    Preserves (machine S) (Genuine S frame steps) Inv where
  exec := fun h ha hinv => ⟨hexec _ _ _ _ _ h ha hinv, (exec_effect h ha).leaves.1⟩
  drop := fun hinv => hdrop _ _ hinv
  ambient := fun h hinv => hambient _ _ h hinv

/-- An invariant of the imaginary network. -/
theorem preserves_net {Inv : RunState → Prop}
    (hexec : ∀ held a s s', NetEffect S held a s s' → Genuine S frame steps a → Inv s.net →
      Inv s'.net) :
    Preserves (machine S) (Genuine S frame steps) fun s => Inv s.net := by
  refine preserves_of ?_ ?_ ?_
  · intro held a s s' rest h ha hinv
    exact hexec held a s s' (exec_net h) ha hinv
  · intro a s hinv
    rwa [drop_net]
  · intro s s' h hinv
    rwa [ambient_net h]

/-- The actions that a run can come to are those of the scenario's steps. -/
theorem run_genuine {c : Prog} {s : State}
    (h : Scope.Reaches (machine S) (run S, .initial) (c, s)) :
    c.All (Genuine S true S.scenario.steps) := by
  have hall : Preserves (machine S) (Genuine S true S.scenario.steps) fun _ => True :=
    preserves_of (fun _ _ _ _ _ _ _ _ => trivial) (fun _ _ _ => trivial) fun _ _ _ _ => trivial
  exact (hall.reachesIn h (Code.genuine run_code) trivial).1

end ConformanceHarness.Concurrent
