import ConformanceHarness.Loader.StepDef
import ConformanceHarness.Runner.Connections
import Mathlib.Logic.Relation

/-!
# Runs of scenarios without control steps

The loop over the steps of a scenario in `ScenarioRunner::run`, for steps that are not `repeat`
or `parallel`: one step after the other, until one fails. Next to the step under way only the
workers of the connections are active.

How a step ends is up to the network, and to the trace and the assertions, which may fail it at
any point. A step that fails because a name is missing is told apart from the others.
-/

namespace ConformanceHarness.Connections

open ConformanceHarness.Loader (StepKind)
open ConformanceHarness.Runner (LeafKind)

namespace NetStep

/-- What a step of the scenario is, once the network has decided. -/
def IsOf (step : Loader.StepDef) : NetStep → Prop
  | connect asName _ _ => step.kind = .leaf .connect ∧ asName = step.asName
  | handshake onName _ _ _ _ => step.kind = .leaf .handshake ∧ onName = step.onName
  | chainSync onName output _ =>
    step.kind = .leaf .chainSync ∧ onName = step.onName ∧ output = step.output
  | blockFetch onName _ => step.kind = .leaf .blockFetch ∧ onName = step.onName
  | leiosNotify onName _ _ => step.kind = .leaf .leiosNotify ∧ onName = step.onName
  | leiosFetch onName _ => step.kind = .leaf .leiosFetch ∧ onName = step.onName
  | queryTip onName output _ _ _ _ =>
    step.kind = .leaf .queryTip ∧ onName = step.onName ∧ output = step.output
  | disconnect onName => step.kind = .leaf .disconnect ∧ onName = step.onName
  | listen asName _ => step.kind = .leaf .listen ∧ asName = step.asName
  | closeListener onName => step.kind = .leaf .closeListener ∧ onName = step.onName
  | acceptHandshake onName asName _ _ _ _ _ =>
    step.kind = .leaf .acceptHandshake ∧ onName = step.onName ∧ asName = step.asName
  | serveChainSync onName _ _ => step.kind = .leaf .serveChainSync ∧ onName = step.onName
  | serveBlockFetch onName _ _ => step.kind = .leaf .serveBlockFetch ∧ onName = step.onName
  | serveLeiosNotify onName _ => step.kind = .leaf .serveLeiosNotify ∧ onName = step.onName
  | serveLeiosFetch onName _ => step.kind = .leaf .serveLeiosFetch ∧ onName = step.onName

/-- Whether the connection, server connection or listener that a step takes by its name is
missing. `close_listener` does not care, and `query_tip` has a connection of its own. -/
def missing (s : State) : NetStep → Bool
  | handshake onName _ _ _ _ => (s.connections (nameOr onName)).isNone
  | chainSync onName _ _ => (s.connections (nameOr onName)).isNone
  | blockFetch onName _ => (s.connections (nameOr onName)).isNone
  | leiosNotify onName _ _ => (s.connections (nameOr onName)).isNone
  | leiosFetch onName _ => (s.connections (nameOr onName)).isNone
  | disconnect onName => (s.connections (nameOr onName)).isNone
  | acceptHandshake onName _ _ _ _ _ _ => (s.listeners (nameOr onName)).isNone
  | serveChainSync onName _ _ => (s.serverConnections (nameOr onName)).isNone
  | serveBlockFetch onName _ _ => (s.serverConnections (nameOr onName)).isNone
  | serveLeiosNotify onName _ => (s.serverConnections (nameOr onName)).isNone
  | serveLeiosFetch onName _ => (s.serverConnections (nameOr onName)).isNone
  | connect _ _ _ => false
  | queryTip _ _ _ _ _ _ => false
  | listen _ _ => false
  | closeListener _ => false

/-- Whether a step that has started gets to its end, as far as the network is concerned. -/
def succeeds : NetStep → Bool
  | handshake _ versions magic result _ =>
    ((Handshake.handshakeOnChannels versions magic result).run Handshake.session).1.isOk
  | chainSync _ _ session => session.any fun (points, count, replies) =>
    ((ChainSyncClient.runChainSync points count replies).run ChainSyncClient.session).1.isOk
  | blockFetch _ session => session.any fun (points, batchSize, replies) =>
    ((BlockFetchClient.runBlockFetch points batchSize replies).run
      BlockFetchClient.session).1.isOk
  | leiosNotify _ count replies =>
    ((LeiosNotifyClient.runLeiosNotify count replies).run LeiosNotifyClient.session).1.isOk
  | leiosFetch _ session => session.any fun (points, replies) =>
    ((LeiosFetchClient.runLeiosFetch points replies).run LeiosFetchClient.session).1.isOk
  | queryTip _ _ versions magic result tip =>
    ((Handshake.handshakeOnChannels versions magic result).run Handshake.session).1.isOk &&
      tip.isOk
  | acceptHandshake _ _ _ _ _ _ version => version.isSome
  | serveChainSync _ _ session => session.any fun (rules, fixture, incoming) =>
    ((ChainSync.executeResponseScript rules fixture incoming).run
      (ChainSync.session fixture)).1.isOk
  | serveBlockFetch _ _ session => session.any fun (rules, fixture, incoming) =>
    ((BlockFetch.executeBlockFetchScript rules fixture incoming).run BlockFetch.session).1.isOk
  | serveLeiosNotify _ session => session.any fun (runner, actions, incoming) =>
    ((LeiosNotify.executeLeiosNotifyScript runner actions incoming).run
      LeiosNotify.session).1.isOk
  | serveLeiosFetch _ session => session.any fun (runner, rules, incoming) =>
    ((LeiosFetch.executeLeiosFetchScript runner.toLeiosFetchRunner rules incoming).run
      LeiosFetch.session).1.isOk
  | connect _ _ _ => true
  | disconnect _ => true
  | listen _ _ => true
  | closeListener _ => true

/-- A step whose name is missing fails before it does anything. -/
theorem start_of_missing {net : NetStep} {s : State} (h : net.missing s = true) :
    net.start s = none := by
  cases net <;> simp only [missing, Option.isNone_iff_eq_none, Bool.false_eq_true] at h <;>
    simp [start, Connections.handshake, Connections.chainSync, Connections.blockFetch,
      Connections.leiosNotify, Connections.leiosFetch, Connections.disconnect,
      Connections.acceptHandshake, Connections.serveChainSync, Connections.serveBlockFetch,
      Connections.serveLeiosNotify, Connections.serveLeiosFetch, onClient, onServer, h]

end NetStep

/-! ## The loop -/

/-- Where the loop is. -/
inductive Phase where
  /-- Between two steps, or after the last. -/
  | idle
  /-- The next step is this task. -/
  | running (id : Nat) (succeeds : Bool)
  /-- The next step has failed, maybe because a name is missing. -/
  | failed (nameMissing : Bool)
deriving DecidableEq

/-- The task of the step under way. -/
def Phase.task : Phase → Option Nat
  | running id _ => some id
  | _ => none

/-- A scenario under way: the steps that have passed, and those that have not. -/
structure Progress where
  state : State
  phase : Phase
  passed : List Loader.StepDef
  rest : List Loader.StepDef

/-- A scenario starts. -/
def Progress.initial (startSlot : Option UInt64) (steps : List Loader.StepDef) : Progress where
  state := .initial startSlot
  phase := .idle
  passed := []
  rest := steps

/-- A step that is about no connection. -/
def isUnconnected (kind : StepKind) : Prop :=
  kind = .leaf .sleep ∨ kind = .leaf .emitPeerEvent ∨ kind = .leaf .advanceToSlot ∨
    kind = .leaf .tickSlots ∨ kind = .leaf .peerExtendsChain

/-- What happens next in a scenario. -/
inductive FlatStep : Progress → Progress → Prop where
  /-- The next step starts. -/
  | start {s s' : State} {task : Task} {net : NetStep} {passed rest : List Loader.StepDef}
      {step : Loader.StepDef} : net.IsOf step → net.start s = some (s', task) →
      FlatStep ⟨s, .idle, passed, step :: rest⟩
        ⟨s'.spawn task, .running s'.spawned net.succeeds, passed, step :: rest⟩
  /-- The next step fails before it does anything. -/
  | refuse {s : State} {net : NetStep} {passed rest : List Loader.StepDef} {step : Loader.StepDef} :
      net.IsOf step → net.start s = none →
      FlatStep ⟨s, .idle, passed, step :: rest⟩
        ⟨s, .failed (net.missing s), passed, step :: rest⟩
  /-- A step that is about no connection passes. -/
  | unconnected {s : State} {passed rest : List Loader.StepDef} {step : Loader.StepDef} :
      isUnconnected step.kind →
      FlatStep ⟨s, .idle, passed, step :: rest⟩ ⟨s, .idle, passed ++ [step], rest⟩
  /-- A task emits its next event. -/
  | emit {s s' : State} {phase : Phase} {passed rest : List Loader.StepDef} {id : Nat}
      {written : Bool} :
      act s (.emit id written) = some s' →
      FlatStep ⟨s, phase, passed, rest⟩ ⟨s', phase, passed, rest⟩
  /-- A worker ends, or is dropped. -/
  | worker {s s' : State} {phase : Phase} {passed rest : List Loader.StepDef} {id : Nat} :
      phase.task ≠ some id → act s (.finish id) = some s' ∨ act s (.drop id) = some s' →
      FlatStep ⟨s, phase, passed, rest⟩ ⟨s', phase, passed, rest⟩
  /-- The imaginary clock moves. -/
  | advance {s s' : State} {phase : Phase} {passed rest : List Loader.StepDef} {slot : UInt64} :
      act s (.advance slot) = some s' →
      FlatStep ⟨s, phase, passed, rest⟩ ⟨s', phase, passed, rest⟩
  /-- The step under way spawns the workers of its connection, and goes on. -/
  | goOn {s s' : State} {passed rest : List Loader.StepDef} {id : Nat} {succeeds : Bool}
      {task : Task} :
      act s (.finish id) = some s' → s'.tasks id = some task →
      FlatStep ⟨s, .running id succeeds, passed, rest⟩ ⟨s', .running id succeeds, passed, rest⟩
  /-- The step under way passes. -/
  | pass {s s' : State} {passed rest : List Loader.StepDef} {id : Nat} {step : Loader.StepDef} :
      act s (.finish id) = some s' → s'.tasks id = none →
      FlatStep ⟨s, .running id true, passed, step :: rest⟩ ⟨s', .idle, passed ++ [step], rest⟩
  /-- The step under way fails. -/
  | fail {s s' : State} {passed rest : List Loader.StepDef} {id : Nat} {succeeds : Bool} :
      act s (.drop id) = some s' →
      FlatStep ⟨s, .running id succeeds, passed, rest⟩ ⟨s', .failed false, passed, rest⟩
  /-- A step fails before it is started, or by its assertions when it has ended. -/
  | stop {s : State} {passed rest : List Loader.StepDef} :
      FlatStep ⟨s, .idle, passed, rest⟩ ⟨s, .failed false, passed, rest⟩

/-- A run of a scenario without control steps. -/
structure FlatRun (startSlot : Option UInt64) (steps : List Loader.StepDef) (p : Progress) :
    Prop where
  flat : ∀ step ∈ steps, step.kind ≠ .repeat ∧ step.kind ≠ .parallel
  reached : Relation.ReflTransGen FlatStep (.initial startSlot steps) p

end ConformanceHarness.Connections
