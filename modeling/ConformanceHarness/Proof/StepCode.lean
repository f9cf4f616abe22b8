import ConformanceHarness.Proof.ModeSeparation
import ConformanceHarness.Runner.Concurrent

/-!
# What the programs of the runner are made of

An invariant of the runner's states needs to know which actions a program can come to: that a
step under way is one of the scenario, with parameters a substitution has made, and that what
emits an event leaves the stamping to the tracer. Here this is shown of the programs as they are written.
-/

namespace ConformanceHarness.Concurrent

open ConformanceHarness.Lib (Scope)
open ConformanceHarness.Lib.Scope (All Later seq always alwaysAll)
open ConformanceHarness.Proof (Reachable)
open ConformanceHarness.Runner (LeafKind RunError)

/-! ## Which actions there are -/

/-- It holds nothing, and waits for nothing. -/
def Fresh : Action → Prop
  | .waiting _ _ => False
  | .checkedOut _ => False
  | _ => True

/-- An event that only the tracer stamps, and that reports neither the clock nor the end of a
connection. -/
structure Unpinned (event : TraceEvent) : Prop where
  slot : event.slot = none
  clock : event.kind ≠ .slotAdvanced
  closing : event.kind ≠ .connectionClosed

/-- A step under way is one of `steps` at some depth, with the parameters that the substitution
has left. -/
structure IsStep (steps : List Loader.StepDef) (kind : LeafKind) (l : Leaf) : Prop where
  reachable : Reachable steps l.step
  kind : l.step.kind = .leaf kind
  substituted : ∃ vars refs, substituteInValue l.step.rawParams vars = .ok (l.resolved, refs)
  params : StepParams.fromValue l.resolved = some l.params

section

variable (S : Setting) (frame : Bool) (steps : List Loader.StepDef)

/-- What is done under the lock, if a program asks for it by itself. -/
def GenuineJob : Job → Prop
  | .emit _ event => Unpinned event
  | .close _ _ => False
  | .drain => True
  | .closing _ step _ => Reachable steps step

/-- The actions of the steps, and those of `run` around them if `frame` says so. -/
def Genuine : Action → Prop
  | .request job => GenuineJob steps job
  | .waiting _ (.closing _ step _) => Reachable steps step
  | .waiting _ _ => True
  | .checkedOut _ => True
  | .initPeer peer => frame = true ∧ ∃ network, S.scenario.network = some network ∧
    peer ∈ network.peers
  | .begin | .complete _ _ _ | .drainTable _ | .clearListeners | .closeNext => frame = true
  | .substitute _ step => Reachable steps step
  | .reportAborted _ | .io | .sleep | .session | .setVariable _ _ _ | .takeChannel _ _ => True
  | .dial l => IsStep steps .connect l ∨ IsStep steps .queryTip l
  | .openConnection .client l => IsStep steps .connect l
  | .openConnection .server l => IsStep steps .acceptHandshake l
  | .take _ l kind => IsStep steps kind l
  | .startWorkers l => IsStep steps .handshake l
  | .storePoints l => IsStep steps .chainSync l
  | .fetchPoints l => IsStep steps .blockFetch l
  | .serveFixture l kind => IsStep steps kind l
  | .tip l => IsStep steps .queryTip l
  | .disconnect l => IsStep steps .disconnect l
  | .openListener l => IsStep steps .listen l
  | .closeListener l => IsStep steps .closeListener l
  | .accept l => IsStep steps .acceptHandshake l
  | .serverHandshake l _ => IsStep steps .acceptHandshake l
  | .extendChain l => IsStep steps .peerExtendsChain l
  | .advanceToSlot l => IsStep steps .advanceToSlot l
  | .tickSlots l => IsStep steps .tickSlots l

/-- An action that a program can have for later. -/
def Code (a : Action) : Prop := Fresh a ∧ Genuine S frame steps a

end

section

variable {S : Setting} {frame : Bool} {steps : List Loader.StepDef}

theorem Code.genuine {c : Prog} (h : c.All (Code S frame steps)) :
    c.All (Genuine S frame steps) := h.imp fun _ h => h.2

theorem Code.fresh {c : Prog} (h : c.All (Code S frame steps)) : c.All Fresh :=
  h.imp fun _ h => h.1

/-! ## Events -/

theorem unpinned_internal {kind : EventKind} {payload : List (String × Value)}
    (h : kind ≠ .slotAdvanced ∧ kind ≠ .connectionClosed) :
    Unpinned (Runner.internal kind payload) := ⟨rfl, h.1, h.2⟩

theorem Unpinned.withConnection {event : TraceEvent} {name : String} (h : Unpinned event) :
    Unpinned (event.withConnection name) := ⟨h.slot, h.clock, h.closing⟩

theorem IsOwn.unpinned {event : TraceEvent} (h : IsOwn event) : Unpinned event :=
  ⟨h.2.2.2, h.2.1, h.2.2.1⟩

theorem emit_code {event : TraceEvent} (h : Unpinned event) :
    (emit event).All (Code S frame steps) := .act ⟨trivial, h⟩

theorem emitInternal_code {kind : EventKind} {payload : List (String × Value)}
    (h : kind ≠ .slotAdvanced ∧ kind ≠ .connectionClosed) :
    (emit (Runner.internal kind payload)).All (Code S frame steps) :=
  emit_code (unpinned_internal h)

theorem emitConnection_code {kind : EventKind} {payload : List (String × Value)} {name : String}
    (h : kind ≠ .slotAdvanced ∧ kind ≠ .connectionClosed) :
    (emit ((Runner.internal kind payload).withConnection name)).All (Code S frame steps) :=
  emit_code (unpinned_internal h).withConnection

theorem emitIgnored_code {events : List TraceEvent} {k : Prog} (h : ∀ e ∈ events, Unpinned e)
    (hk : k.All (Code S frame steps)) : (emitIgnored events k).All (Code S frame steps) := by
  refine All.alwaysAll ?_ hk
  intro c hc
  obtain ⟨event, hevent, rfl⟩ := List.mem_map.mp hc
  exact emit_code (h event hevent)

theorem emitAll_code {events : List Connections.Outgoing} {k : Prog}
    (h : ∀ out ∈ events, Unpinned out.event) (hk : k.All (Code S frame steps)) :
    (emitAll events k).All (Code S frame steps) := by
  induction events with
  | nil => exact hk
  | cons out rest ih =>
    have hrest := ih fun out hout => h out (List.mem_cons_of_mem _ hout)
    exact All.seq (.act ⟨trivial, h out List.mem_cons_self⟩) hrest

theorem peerEventKind_unpinned (s : String) :
    peerEventKind s ≠ .slotAdvanced ∧ peerEventKind s ≠ .connectionClosed := by
  unfold peerEventKind
  split <;> exact ⟨nofun, nofun⟩

theorem acceptEvents_unpinned {name addr : String} {versions : List UInt64} {magic : UInt64}
    {version : Option UInt64} :
    ∀ out ∈ Connections.acceptEvents name addr versions magic version, Unpinned out.event := by
  intro out hout
  obtain ⟨event, hevent, rfl⟩ := List.mem_map.mp hout
  rcases List.mem_cons.mp hevent with rfl | hevent
  · exact ⟨rfl, nofun, nofun⟩
  · rcases List.mem_cons.mp hevent with rfl | hevent
    · exact ⟨rfl, nofun, nofun⟩
    · cases version with
      | none => exact nomatch hevent
      | some version =>
        simp only [List.mem_cons, List.not_mem_nil, or_false] at hevent
        rcases hevent with rfl | rfl | rfl <;> exact ⟨rfl, nofun, nofun⟩

theorem emitProductionEvents_code {events : List ProductionEvent} :
    (emitProductionEvents events).All (Code S frame steps) := by
  induction events with
  | nil => exact .done
  | cons ev rest ih =>
    refine All.seq (emitInternal_code (by decide)) (All.seq ?_ ih)
    split
    · exact .done
    · exact emitInternal_code (by decide)

/-! ## Steps -/

theorem runStep_code {idx : Nat} {step : Loader.StepDef} (h : Reachable steps step) :
    (runStep idx step).All (Code S frame steps) :=
  All.seq (.act ⟨trivial, trivial⟩) (All.seq (emitInternal_code (by decide))
    (All.seq (.act ⟨trivial, trivial⟩) (.act ⟨trivial, h⟩)))

theorem runBody_code {body : List Loader.StepDef} {idx : Nat}
    (h : ∀ step ∈ body, Reachable steps step) : (runBody idx body).All (Code S frame steps) := by
  induction body generalizing idx with
  | nil => exact .done
  | cons step rest ih =>
    have hrest := @ih (idx + 1) fun inner hinner => h inner (List.mem_cons_of_mem _ hinner)
    exact All.seq (runStep_code (h step List.mem_cons_self)) hrest

theorem iterations_code {body : List Loader.StepDef} {total i n : Nat}
    (h : ∀ step ∈ body, Reachable steps step) :
    (iterations body total i n).All (Code S frame steps) := by
  induction n generalizing i with
  | zero => exact .done
  | succ n ih =>
    refine All.seq ?_ ih
    refine All.seq (emitInternal_code (by decide)) (.bind (runBody_code h) ?_ ?_)
    · exact emitInternal_code (by decide)
    · exact fun e => All.seq (emitInternal_code (by decide)) (.failed e)

theorem branchSteps_code {rest : List Loader.StepDef} {bi si : Nat}
    (h : ∀ step ∈ rest, Reachable steps step) :
    (branchSteps bi si rest).All (Code S frame steps) := by
  induction rest generalizing si with
  | nil => exact emitInternal_code (by decide)
  | cons step rest ih =>
    refine .bind (runStep_code (h step List.mem_cons_self)) ?_ ?_
    · exact ih fun inner hinner => h inner (List.mem_cons_of_mem _ hinner)
    · exact fun e => All.always (emitInternal_code (by decide)) (.failed e)

theorem executeRepeat_code {step : Loader.StepDef} {resolved : Value}
    (hkind : step.kind = .repeat) (h : Reachable steps step) :
    (executeRepeat step resolved).All (Code S frame steps) := by
  unfold executeRepeat
  split
  · exact .failed _
  · split
    · exact .failed _
    · next v hget =>
      split
      · exact .failed _
      · next body hparse =>
        refine iterations_code ?_
        intro inner hinner
        exact (h.below (Loader.StepDef.Runs.body hkind hget hparse hinner)).within

theorem executeParallel_code {step : Loader.StepDef} (hkind : step.kind = .parallel)
    (h : Reachable steps step) : (executeParallel step).All (Code S frame steps) := by
  unfold executeParallel
  split
  · exact .failed _
  · next v hget =>
    split
    · exact .failed _
    · next branches hparse =>
      refine All.seq (emitInternal_code (by decide)) (.bind (.par ?_) ?_ ?_)
      · intro c hc
        obtain ⟨bi, hbi, rfl⟩ := List.mem_mapIdx.mp hc
        refine All.seq (emitInternal_code (by decide)) (branchSteps_code ?_)
        intro inner hinner
        have hmem := List.getElem_mem hbi
        exact (h.below (Loader.StepDef.Runs.branch hkind hget hparse hmem hinner)).within
      · exact emitInternal_code (by decide)
      · exact fun e => All.seq (.act ⟨trivial, trivial⟩)
          (All.seq (emitInternal_code (by decide)) (.failed e))

theorem withConnection_code {l : Leaf} {kind : LeafKind} (h : IsStep steps kind l) :
    (withConnection l kind).All (Code S frame steps) := by
  have htake : ∀ channel missing,
      Scope.All (ε := RunError) (Code S frame steps) (.act (.takeChannel channel missing)) :=
    fun _ _ => .act ⟨trivial, trivial⟩
  have hsession : Scope.All (ε := RunError) (Code S frame steps) (.act .session) :=
    .act ⟨trivial, trivial⟩
  have hio : Scope.All (ε := RunError) (Code S frame steps) (.act .io) := .act ⟨trivial, trivial⟩
  cases kind with
  | handshake => exact All.seq (htake _ _) (All.seq hsession (.act ⟨trivial, h⟩))
  | chainSync =>
    refine All.seq (htake _ _) ?_
    split
    · exact .failed _
    · exact All.seq hsession (.act ⟨trivial, h⟩)
  | blockFetch =>
    refine All.seq (htake _ _) ?_
    split
    · exact All.seq (.act ⟨trivial, h⟩) (All.seq hsession hio)
    · split
      · exact .failed _
      · exact All.seq hsession hio
  | leiosNotify => exact All.seq (htake _ _) hsession
  | leiosFetch =>
    refine All.seq (htake _ _) ?_
    split
    · exact .failed _
    · exact .failed _
    · split
      · exact .failed _
      · exact hsession
  | serveChainSync => exact All.seq (htake _ _) (.act ⟨trivial, h⟩)
  | serveBlockFetch => exact All.seq (htake _ _) (.act ⟨trivial, h⟩)
  | serveLeiosNotify => exact All.seq (htake _ _) hsession
  | serveLeiosFetch => exact All.seq (htake _ _) hsession
  | _ => exact .done

theorem executeLeaf_code {l : Leaf} {kind : LeafKind} (h : IsStep steps kind l) :
    (executeLeaf S l kind).All (Code S frame steps) := by
  cases kind with
  | connect =>
    refine All.seq (.act ⟨trivial, Or.inl h⟩) (All.seq ?_ (.act ⟨trivial, h⟩))
    exact emitConnection_code (by decide)
  | queryTip =>
    refine All.seq (emitConnection_code (by decide)) ?_
    exact All.seq (.act ⟨trivial, Or.inr h⟩)
      (All.seq (.act ⟨trivial, trivial⟩) (.act ⟨trivial, h⟩))
  | listen =>
    exact All.seq (.act ⟨trivial, trivial⟩)
      (All.seq (emit_code ⟨rfl, nofun, nofun⟩) (.act ⟨trivial, h⟩))
  | emitPeerEvent =>
    show (emitPeerEvent l).All _
    unfold emitPeerEvent
    split
    · exact .failed _
    · split
      · exact .failed _
      · next kind _ =>
        obtain ⟨hclock, hclosing⟩ := peerEventKind_unpinned kind
        exact emit_code ⟨rfl, hclock, hclosing⟩
  | sleep => exact .act ⟨trivial, trivial⟩
  | handshake => exact .act ⟨trivial, h⟩
  | chainSync => exact .act ⟨trivial, h⟩
  | blockFetch => exact .act ⟨trivial, h⟩
  | leiosNotify => exact .act ⟨trivial, h⟩
  | leiosFetch => exact .act ⟨trivial, h⟩
  | serveChainSync => exact .act ⟨trivial, h⟩
  | serveBlockFetch => exact .act ⟨trivial, h⟩
  | serveLeiosNotify => exact .act ⟨trivial, h⟩
  | serveLeiosFetch => exact .act ⟨trivial, h⟩
  | disconnect => exact .act ⟨trivial, h⟩
  | acceptHandshake => exact .act ⟨trivial, h⟩
  | closeListener => exact .act ⟨trivial, h⟩
  | peerExtendsChain => exact .act ⟨trivial, h⟩
  | advanceToSlot => exact .act ⟨trivial, h⟩
  | tickSlots => exact .act ⟨trivial, h⟩

/-- What a step with substituted parameters does. -/
theorem substitutedStep_code {idx : Nat} {step : Loader.StepDef} {resolved : Value}
    {refs : List (String × String)} {vars : VarStore} (h : Reachable steps step)
    (hresolved : substituteInValue (substituted step) vars = .ok (resolved, refs)) :
    (substitutedStep S idx step resolved refs).All (Code S frame steps) := by
  refine emitIgnored_code ?_ (.bind ?_ (.act ⟨trivial, h⟩) fun e => .act ⟨trivial, h⟩)
  · intro event hevent
    obtain ⟨r, -, rfl⟩ := List.mem_map.mp hevent
    exact unpinned_internal (by decide)
  · unfold executeStep
    split
    · exact .failed _
    · next params hparams =>
      split
      · next kind hkind =>
        refine executeLeaf_code ⟨h, hkind, ⟨vars, refs, ?_⟩, hparams⟩
        rwa [substituted, hkind] at hresolved
      · next hkind => exact executeRepeat_code hkind h
      · next hkind => exact executeParallel_code hkind h

theorem ite_code {p : Prop} [Decidable p] {c k : Prog} (hc : c.All (Code S frame steps))
    (hk : k.All (Code S frame steps)) : (if p then c else k).All (Code S frame steps) := by
  split
  · exact hc
  · exact hk

theorem completeStep_code {idx : Nat} {step : Loader.StepDef} {result : Except RunError Unit}
    {events : List TraceEvent} : (completeStep idx step result events).All
      (Code S frame steps) := by
  unfold completeStep
  dsimp only
  refine emitIgnored_code ?_ ?_
  · intro event hevent
    obtain ⟨r, -, rfl⟩ := List.mem_map.mp hevent
    unfold Runner.assertionEvent
    split <;> exact unpinned_internal (by decide)
  · cases result with
    | ok _ =>
      exact ite_code (emitInternal_code (by decide))
        (All.seq (emitInternal_code (by decide)) (.failed _))
    | error e =>
      refine emitIgnored_code ?_ (.failed _)
      intro event hevent
      rw [List.mem_singleton.mp hevent]
      exact unpinned_internal (by decide)

/-! ## `run` -/

theorem cleanup_code : cleanup.All (Code S true steps) :=
  All.seq (.act ⟨trivial, rfl⟩) (All.seq (.act ⟨trivial, rfl⟩) (.act ⟨trivial, rfl⟩))

theorem runSteps_code {rest : List Loader.StepDef} {idx : Nat}
    (h : ∀ step ∈ rest, Reachable steps step) :
    (runSteps idx rest).All (Code S true steps) := by
  induction rest generalizing idx with
  | nil => exact .act ⟨trivial, rfl⟩
  | cons step rest ih =>
    refine .bind (runStep_code (h step List.mem_cons_self)) ?_ ?_
    · exact ih fun inner hinner => h inner (List.mem_cons_of_mem _ hinner)
    · exact fun e => All.seq cleanup_code (All.seq (.act ⟨trivial, rfl⟩) (.failed e))

theorem initPeers_code {network : Loader.Network} (hnetwork : S.scenario.network = some network)
    {peers : List Peer} (h : ∀ peer ∈ peers, peer ∈ network.peers) :
    (initPeers peers).All (Code S true steps) := by
  induction peers with
  | nil => exact .done
  | cons peer rest ih =>
    have hrest := ih fun other hother => h other (List.mem_cons_of_mem _ hother)
    exact All.seq (.act ⟨trivial, rfl, network, hnetwork, h peer List.mem_cons_self⟩) hrest

theorem prelude_code : (prelude S).All (Code S true steps) := by
  refine All.seq (emitInternal_code (by decide)) (All.seq (.act ⟨trivial, rfl⟩) ?_)
  split
  · exact .done
  · next network hnetwork =>
    exact All.seq (emitInternal_code (by decide))
      (initPeers_code hnetwork fun _ hpeer => hpeer)

/-- A run of a scenario executes steps of the scenario. -/
theorem run_code : (run S).All (Code S true S.scenario.steps) :=
  All.seq prelude_code (runSteps_code fun _ hstep => ConformanceHarness.Lib.Within.of_root hstep)

end

end ConformanceHarness.Concurrent
