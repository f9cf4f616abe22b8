import ConformanceHarness.Runner.Concurrent

/-!
# Runs in which nothing gets in the way

What the programs of the runner come to if every write to the trace succeeds, no worker is in the
queue for its lock, and no other branch makes a step in between.
-/

namespace ConformanceHarness.Concurrent

open ConformanceHarness.Lib
open ConformanceHarness.Lib.Scope (ReachesIn Step live seq always alwaysAll)
open ConformanceHarness.Runner (LeafKind RunError)

/-- Nobody waits for the lock, and every line is in the file. -/
structure Quiet (t : TraceFile) : Prop where
  queue : t.queue = []
  cutOff : t.cutOff = []
  file : t.file = t.emitted

theorem Quiet.initial : Quiet .initial := ⟨rfl, rfl, rfl⟩

/-- Whatever has been written so far, `c` can come from `s` to `c'` and `s'`. -/
def ComesTo (S : Setting) (held : List Action) (c : Prog) (s : State) (c' : Prog) (s' : State) :
    Prop :=
  ∀ t, Quiet t → ∃ t', Quiet t' ∧
    ReachesIn (machine S) held (c, { s with trace := t }) (c', { s' with trace := t' })

variable {S : Setting} {held : List Action} {c c' k d : Prog} {s s₁ s' : State} {a : Action}

namespace ComesTo

theorem refl : ComesTo S held c s c s := fun t ht => ⟨t, ht, .refl⟩

theorem trans (h : ComesTo S held c s d s₁) (h' : ComesTo S held d s₁ c' s') :
    ComesTo S held c s c' s' := by
  intro t ht
  obtain ⟨t₁, ht₁, hreach⟩ := h t ht
  obtain ⟨t₂, ht₂, hreach'⟩ := h' t₁ ht₁
  exact ⟨t₂, ht₂, hreach.trans hreach'⟩

theorem inBind {onErr : RunError → Prog} (h : ComesTo S held c s c' s') :
    ComesTo S held (.bind c k onErr) s (.bind c' k onErr) s' := by
  intro t ht
  obtain ⟨t', ht', hreach⟩ := h t ht
  exact ⟨t', ht', hreach.inBind⟩

/-- What follows a program that comes to its end. -/
theorem bind {onErr : RunError → Prog} (h : ComesTo S held c s .done s₁)
    (h' : ComesTo S held k s₁ c' s') : ComesTo S held (.bind c k onErr) s c' s' :=
  h.inBind.trans fun t ht =>
    let ⟨t', ht', hreach⟩ := h' t ht
    ⟨t', ht', .head .bindDone hreach⟩

theorem inHold (h : ComesTo S (a :: held) c s c' s') :
    ComesTo S held (.hold a c) s (.hold a c') s' := by
  intro t ht
  obtain ⟨t', ht', hreach⟩ := h t ht
  exact ⟨t', ht', hreach.inHold⟩

/-- What a step has checked out is put back. -/
theorem hold {token : Token} (h : ComesTo S (.checkedOut token :: held) c s .done s') :
    ComesTo S held (.hold (.checkedOut token) c) s .done
      { s' with conns := s'.conns.putBack token } :=
  h.inHold.trans fun t ht => ⟨t, ht, .single .holdDone⟩

/-- An action that does not ask for the lock. -/
theorem act {rest : Prog}
    (h : ∀ t, exec S held a { s with trace := t } { s' with trace := t } rest) :
    ComesTo S held (.act a) s rest s' := fun t ht => ⟨t, ht, .exec (h t)⟩

/-- A request is granted, and the line is written. -/
theorem granted {t : TraceFile} {job : Job} {rest : Prog} (ht : Quiet t)
    (hresumes : Resumes t.eventBuffer true job rest) : ∃ t', Quiet t' ∧
      ReachesIn (machine S) held
        (State.wait { s with trace := t } job, State.request { s with trace := t } job)
        (rest, { s with trace := t' }) := by
  let requested := t.request (job.line s.net.currentSlot) false
  let w : Waiter := ⟨t.tickets, job.line s.net.currentSlot, false⟩
  have hqueue : requested.queue = [w] := by
    show t.queue ++ [w] = [w]
    rw [ht.queue, List.nil_append]
  have hstep : TraceFile.isStep t.tickets w = true := by simp [TraceFile.isStep, w]
  have hgranted : Quiet (requested.grant w [] true) := by
    unfold TraceFile.grant
    split
    · exact ⟨rfl, ht.cutOff, ht.file⟩
    · exact ⟨rfl, ht.cutOff, congrArg (· ++ [_]) ht.file⟩
  exact ⟨_, hgranted, .exec ⟨w, [], true, hqueue, hstep, rfl, hresumes⟩⟩

/-- An action that asks for the lock. -/
theorem waits {job : Job} {rest : Prog}
    (h : ∀ t, exec S held a { s with trace := t } (State.request { s' with trace := t } job)
      (State.wait { s' with trace := t } job) ∧ Resumes t.eventBuffer true job rest) :
    ComesTo S held (.act a) s rest s' := by
  intro t ht
  obtain ⟨hexec, hresumes⟩ := h t
  obtain ⟨t', ht', hreach⟩ := @granted S held s' t job rest ht hresumes
  exact ⟨t', ht', (ReachesIn.exec hexec).trans hreach⟩

/-- The same, with something that follows. -/
theorem waitsThen {job : Job} {rest : Prog} {onErr : RunError → Prog}
    (h : ∀ t, exec S held a { s with trace := t } (State.request { s' with trace := t } job)
      (.bind (State.wait { s' with trace := t } job) k onErr) ∧
        Resumes t.eventBuffer true job rest) :
    ComesTo S held (.act a) s (.bind rest k onErr) s' := by
  intro t ht
  obtain ⟨hexec, hresumes⟩ := h t
  obtain ⟨t', ht', hreach⟩ := @granted S held s' t job rest ht hresumes
  exact ⟨t', ht', (ReachesIn.exec hexec).trans hreach.inBind⟩

end ComesTo

/-! ## Events -/

theorem emit_comesTo {event : TraceEvent} : ComesTo S held (emit event) s .done s :=
  .waits fun _ => ⟨⟨rfl, rfl⟩, Or.inl ⟨rfl, rfl⟩⟩

theorem drain_comesTo : ComesTo S held (.act (.request .drain)) s .done s :=
  .waits fun _ => ⟨⟨rfl, rfl⟩, rfl⟩

theorem emitAll_comesTo {events : List Connections.Outgoing} (h : ComesTo S held k s c' s') :
    ComesTo S held (emitAll events k) s c' s' := by
  induction events with
  | nil => exact h
  | cons out rest ih =>
    exact ComesTo.bind (.waits fun _ => ⟨⟨rfl, rfl⟩, Or.inl ⟨rfl, rfl⟩⟩) ih

theorem emitIgnored_comesTo {events : List TraceEvent} (h : ComesTo S held k s c' s') :
    ComesTo S held (emitIgnored events k) s c' s' := by
  induction events with
  | nil => exact h
  | cons event rest ih => exact ComesTo.bind emit_comesTo ih

/-- The end of a step without assertions. -/
theorem closing_comesTo {idx : Nat} {step : Loader.StepDef} (hexpect : step.expect = none) :
    ComesTo S held (.act (.request (.closing idx step (.ok ())))) s .done s := by
  have hcomplete : ∀ events, completeStep idx step (.ok ()) events =
      emit (Runner.stepCompleted idx "ok") := by
    intro events
    unfold completeStep
    rw [hexpect]
    rfl
  refine ComesTo.trans (.waits fun t => ⟨⟨rfl, rfl⟩, (hcomplete t.eventBuffer).symm⟩) emit_comesTo

/-! ## Steps -/

section

variable {idx : Nat} {step : Loader.StepDef} {resolved : Value} {refs : List (String × String)}

/-- A step comes to where its arm comes to. -/
theorem runStep_inside
    (hsub : substituteInValue (substituted step) s.net.vars = .ok (resolved, refs))
    (h : ComesTo S held (executeStep S step resolved) s c' s') :
    ComesTo S held (runStep idx step) s
      (.bind c' (.act (.request (.closing idx step (.ok ())))) fun e =>
        .act (.request (.closing idx step (.error e)))) s' := by
  refine .bind drain_comesTo (.bind emit_comesTo (.bind drain_comesTo ?_))
  refine ComesTo.trans (d := substitutedStep S idx step resolved refs) (.act fun t => ⟨rfl, ?_⟩)
    (emitIgnored_comesTo h.inBind)
  dsimp only
  rw [hsub]

/-- A step whose arm comes to its end comes to its end. -/
theorem runStep_comesTo
    (hsub : substituteInValue (substituted step) s.net.vars = .ok (resolved, refs))
    (hexpect : step.expect = none)
    (h : ComesTo S held (executeStep S step resolved) s .done s') :
    ComesTo S held (runStep idx step) s .done s' :=
  (runStep_inside hsub h).trans (.bind .refl (closing_comesTo hexpect))

/-- The arm of a step without steps of its own. -/
theorem executeStep_leaf {kind : LeafKind} {params : StepParams} (hkind : step.kind = .leaf kind)
    (hparams : StepParams.fromValue resolved = some params) :
    executeStep S step resolved = executeLeaf S ⟨step, params, resolved⟩ kind := by
  unfold executeStep
  rw [hparams, hkind]

/-- A step whose parameters have nothing to substitute. -/
structure Literal (step : Loader.StepDef) (kind : LeafKind) (params : StepParams) : Prop where
  kind : step.kind = .leaf kind
  expect : step.expect = none
  params : StepParams.fromValue step.rawParams = some params
  literal : ∀ vars, substituteInValue step.rawParams vars = .ok (step.rawParams, [])

section

variable {kind : LeafKind} {params : StepParams}

theorem Literal.substituted (h : Literal step kind params) :
    substituteInValue (substituted step) s.net.vars = .ok (step.rawParams, []) := by
  unfold Concurrent.substituted
  rw [h.kind]
  exact h.literal _

theorem Literal.inside (h : Literal step kind params)
    (hleaf : ComesTo S held (executeLeaf S ⟨step, params, step.rawParams⟩ kind) s c' s') :
    ComesTo S held (runStep idx step) s
      (.bind c' (.act (.request (.closing idx step (.ok ())))) fun e =>
        .act (.request (.closing idx step (.error e)))) s' :=
  runStep_inside h.substituted (executeStep_leaf h.kind h.params ▸ hleaf)

theorem Literal.comesTo (h : Literal step kind params)
    (hleaf : ComesTo S held (executeLeaf S ⟨step, params, step.rawParams⟩ kind) s .done s') :
    ComesTo S held (runStep idx step) s .done s' :=
  runStep_comesTo h.substituted h.expect (executeStep_leaf h.kind h.params ▸ hleaf)

end

theorem runSteps_comesTo {rest : List Loader.StepDef}
    (hstep : ComesTo S held (runStep idx step) s .done s₁)
    (hrest : ComesTo S held (runSteps (idx + 1) rest) s₁ c' s') :
    ComesTo S held (runSteps idx (step :: rest)) s c' s' := .bind hstep hrest

theorem runSteps_inside {rest : List Loader.StepDef}
    (hstep : ComesTo S held (runStep idx step) s c' s') :
    ComesTo S held (runSteps idx (step :: rest)) s
      (.bind c' (runSteps (idx + 1) rest) fun e =>
        seq cleanup (seq (.act (.complete idx 1 e.outcome)) (.failed e))) s' := hstep.inBind

theorem complete_comesTo {passed failed : Nat} {outcome : String} :
    ComesTo S held (.act (.complete passed failed outcome)) s .done s := by
  refine ComesTo.trans (ComesTo.waitsThen fun t => ⟨⟨0, rfl, rfl⟩, Or.inl ⟨rfl, rfl⟩⟩)
    (.bind .refl .refl)

end

/-! ## `run` -/

theorem initPeer_comesTo {peer : Peer} {ps : PeerState}
    (h : peer.initialState S.files = .ok ps) : ComesTo S held (.act (.initPeer peer)) s .done
      { s with net := { s.net with peers := s.net.peers.insert peer.id ps } } := by
  let job := Job.emit .opened (Runner.peerStateInitialized peer ps)
  have hwait : ∀ t, exec S held (.initPeer peer) { s with trace := t }
      (State.request { s with
        net := { s.net with peers := s.net.peers.insert peer.id ps }, trace := t } job)
      (State.wait { s with
        net := { s.net with peers := s.net.peers.insert peer.id ps }, trace := t } job) := by
    intro t
    dsimp only [exec]
    rw [h]
    exact ⟨rfl, rfl⟩
  exact .waits fun t => ⟨hwait t, Or.inl ⟨rfl, rfl⟩⟩

theorem begin_comesTo (htime : S.sutGenesisTimeUnix = none) : ComesTo S held (.act .begin) s .done
    { s with net := { s.net with
      currentSlot := S.scenario.network.bind Loader.Network.startSlot } } := by
  refine ComesTo.act fun t => ⟨rfl, s.net.vars, rfl, ?_⟩
  rw [htime]

/-- What `run` does before the loop, where no network is declared. -/
theorem prelude_comesTo (hnetwork : S.scenario.network = none)
    (htime : S.sutGenesisTimeUnix = none) : ComesTo S held (prelude S) s .done
      { s with net := { s.net with currentSlot := none } } := by
  have hbegin := @begin_comesTo S held s htime
  rw [hnetwork] at hbegin
  refine .bind emit_comesTo (.bind hbegin ?_)
  rw [hnetwork]
  exact .refl

/-- Where one is declared. -/
theorem prelude_network_comesTo {network : Loader.Network}
    (hnetwork : S.scenario.network = some network) (htime : S.sutGenesisTimeUnix = none)
    (hpeers : ComesTo S held (initPeers network.peers)
      { s with net := { s.net with currentSlot := network.startSlot } } .done s') :
    ComesTo S held (prelude S) s .done s' := by
  have hbegin := @begin_comesTo S held s htime
  rw [hnetwork] at hbegin
  refine .bind emit_comesTo (.bind hbegin ?_)
  rw [hnetwork]
  exact .bind emit_comesTo hpeers

/-- A run that starts from nothing. -/
theorem ComesTo.reaches (h : ComesTo S [] c .initial c' s') :
    ∃ t, Quiet t ∧ Scope.Reaches (machine S) (c, .initial) (c', { s' with trace := t }) := by
  obtain ⟨t, ht, hreach⟩ := h .initial .initial
  exact ⟨t, ht, hreach⟩

/-! ## Arms -/

section

variable {l : Leaf}

/-- The peer can be reached. -/
theorem dial_comesTo : ComesTo S held (.act (.dial l)) s .done
    { s with dialed := s.dialed ++ [⟨l.step, l.params, address S l⟩] } :=
  .act fun _ => ⟨rfl, Or.inl rfl⟩

theorem connect_comesTo : ComesTo S held (executeLeaf S l .connect) s .done
    { s with
      dialed := s.dialed ++ [⟨l.step, l.params, address S l⟩]
      conns := s.conns.openAs .client l.step (.opened l.asName) } := by
  refine .bind dial_comesTo (.bind emit_comesTo ?_)
  exact .act fun _ => ⟨rfl, rfl⟩

theorem listen_comesTo : ComesTo S held (executeLeaf S l .listen) s .done
    { s with conns := { s.conns with
      listeners := insert l.asName s.conns.listeners, log := s.conns.log ++ [l.step] } } :=
  .bind (.act fun _ => ⟨rfl, Or.inl rfl⟩)
    (.bind (.waits fun _ => ⟨⟨rfl, rfl⟩, Or.inl ⟨rfl, rfl⟩⟩) (.act fun _ => ⟨rfl, rfl⟩))

/-- The peer proposes nothing in particular, and a version is accepted. -/
theorem accept_comesTo (h : l.onName ∈ s.conns.listeners) :
    ComesTo S held (executeLeaf S l .acceptHandshake) s .done
      { s with conns := s.conns.openAs .server l.step (.accepted l.asName) } := by
  have hlistener : ComesTo S held (.act (.accept l)) s (.act (.serverHandshake l "")) s := by
    refine .act fun t => ⟨rfl, ?_⟩
    rw [if_pos h]
    exact Or.inr ⟨"", rfl⟩
  have hversion : ComesTo S held (.act (.serverHandshake l "")) s
      (emitAll (Connections.acceptEvents l.asName "" [] S.networkMagic (some 14))
        (.act (.openConnection .server l))) s := .act fun t => ⟨rfl, [], some 14, rfl⟩
  exact hlistener.trans (hversion.trans (emitAll_comesTo (.act fun _ => ⟨rfl, rfl⟩)))

theorem disconnect_comesTo {id : Nat} {conns : Connections}
    (h : s.conns.disconnect l.step l.onName = some (id, conns)) :
    ComesTo S held (executeLeaf S l .disconnect) s .done { s with conns } := by
  let job := Job.close id (connectionClosed l.onName)
  have hwait : ∀ t, exec S held (.disconnect l) { s with trace := t }
      (State.request { s with conns, trace := t } job)
      (State.wait { s with conns, trace := t } job) := by
    intro t
    dsimp only [exec]
    rw [h]
    exact ⟨rfl, rfl⟩
  exact .waits fun t => ⟨hwait t, Or.inl ⟨rfl, rfl⟩⟩

/-- The clock moves, and no peer produces a block. -/
theorem advance_comesTo {order : List String} {net : RunState}
    (horder : s.net.peers.IterOrder order)
    (hadvance : advanceToSlot S.blake2b order l.params s.net = some (.ok net))
    (hevents : newEvents s.net net = []) :
    ComesTo S held (executeLeaf S l .advanceToSlot) s .done { s with net } := by
  let event := slotAdvanced (s.net.currentSlot.getD 0) (net.currentSlot.getD 0) "advance_to_slot"
  let job := Job.emit .opened event
  have hwait : ∀ t, exec S held (.advanceToSlot l) { s with trace := t }
      (State.request { s with net, trace := t } job)
      (seq (State.wait { s with net, trace := t } job) .done) := by
    intro t
    refine ⟨order, horder, ?_⟩
    rw [hadvance]
    dsimp only [moveClock]
    rw [hevents]
    rfl
  have hmoved : ComesTo S held (.act (.advanceToSlot l)) s (seq .done .done) { s with net } :=
    .waitsThen fun t => ⟨hwait t, Or.inl ⟨rfl, rfl⟩⟩
  exact hmoved.trans (.bind .refl .refl)

/-- A step with a connection, as far as it comes with it. -/
theorem take_inside {side : Side} {kind : LeafKind} {token : Token} {conns : Connections}
    (htake : s.conns.take side l.onName = some (token, conns))
    (h : ComesTo S (.checkedOut token :: held) (withConnection l kind) { s with conns } c' s') :
    ComesTo S held (.act (.take side l kind)) s (.hold (.checkedOut token) c') s' := by
  refine ComesTo.trans (d := .hold (.checkedOut token) (withConnection l kind))
    (.act fun t => ?_) h.inHold
  dsimp only [exec]
  rw [htake]
  exact ⟨rfl, rfl⟩

/-- A step with a connection that comes to its end. -/
theorem take_comesTo {side : Side} {kind : LeafKind} {token : Token} {conns : Connections}
    (htake : s.conns.take side l.onName = some (token, conns))
    (h : ComesTo S (.checkedOut token :: held) (withConnection l kind) { s with conns } .done s') :
    ComesTo S held (.act (.take side l kind)) s .done
      { s' with conns := s'.conns.putBack token } :=
  (take_inside htake h).trans fun t ht => ⟨t, ht, .single .holdDone⟩

theorem takeChannel_comesTo {token : Token} {channel : Channel} {missing : String}
    (h : (s.conns.connection token.id).channels.contains channel = true) :
    ComesTo S (.checkedOut token :: held) (.act (.takeChannel channel missing)) s .done
      { s with conns := s.conns.update token.id fun conn =>
        { conn with channels := conn.channels.erase channel } } := by
  refine .act fun t => ⟨token, held, rfl, ?_⟩
  rw [if_pos h]
  exact ⟨rfl, rfl⟩

theorem session_comesTo : ComesTo S held (.act .session) s .done s :=
  .act fun _ => ⟨rfl, Or.inl (Or.inl rfl)⟩

end

end ConformanceHarness.Concurrent
