import ConformanceHarness.Lib.Future
import ConformanceHarness.Runner.Serve

/-!
# Steps and their events

The frame of `scenario/runner.rs` around what the steps do: `ScenarioRunner::run`,
`run_step` with the buffer its assertions look at, and the control steps `repeat` and
`parallel`. Each is a `Future`, with a request for every lock the code waits for.

A request is made at a *path*, which says which execution of which step makes it. Paths are
ghosts, and so is what the buffer remembers of them: no answer depends on a path, except
that the flags of a branch are at the path of the branch.

What the other steps do is up to the network. Such a step asks for a report: what it will
emit and store, and how it will end.
-/

namespace ConformanceHarness.Runner

open Lib

/-! ## Step definitions -/

/-- `StepKind`, without the control steps. -/
inductive LeafKind where
  | connect
  | handshake
  | chainSync
  | blockFetch
  | queryTip
  | disconnect
  | sleep
  | listen
  | acceptHandshake
  | serveChainSync
  | serveBlockFetch
  | closeListener
  | emitPeerEvent
  | advanceToSlot
  | tickSlots
  | peerExtendsChain
  | leiosNotify
  | leiosFetch
  | serveLeiosNotify
  | serveLeiosFetch
deriving Repr, DecidableEq

/-- `StepKind::as_str`. -/
def LeafKind.asStr : LeafKind → String
  | connect => "connect"
  | handshake => "handshake"
  | chainSync => "chain_sync"
  | blockFetch => "block_fetch"
  | queryTip => "query_tip"
  | disconnect => "disconnect"
  | sleep => "sleep"
  | listen => "listen"
  | acceptHandshake => "accept_handshake"
  | serveChainSync => "serve_chain_sync"
  | serveBlockFetch => "serve_block_fetch"
  | closeListener => "close_listener"
  | emitPeerEvent => "emit_peer_event"
  | advanceToSlot => "advance_to_slot"
  | tickSlots => "tick_slots"
  | peerExtendsChain => "peer_extends_chain"
  | leiosNotify => "leios_notify"
  | leiosFetch => "leios_fetch"
  | serveLeiosNotify => "serve_leios_notify"
  | serveLeiosFetch => "serve_leios_fetch"

/-- `Assertions`. -/
structure Assertions where
  minEvents : Option Nat
  mustContainKind : Option (List String)
  mustNotContainKind : Option (List String)
deriving Repr, DecidableEq

/-- `raw_params` and `expect`. -/
structure Common where
  rawParams : Value
  expect : Option Assertions

/-- `StepDef`. The steps of a control step are what its parameters parse to, or else the
error of parsing them. -/
inductive StepDef where
  | leaf (kind : LeafKind) (common : Common)
  | repeat (common : Common) (body : List StepDef)
  | malformedRepeat (common : Common) (error : List String)
  | parallel (common : Common) (branches : List (List StepDef))
  | malformedParallel (common : Common) (error : List String)

namespace StepDef

/-- The fields every step has. -/
def common : StepDef → Common
  | leaf _ c => c
  | .repeat c _ => c
  | malformedRepeat c _ => c
  | parallel c _ => c
  | malformedParallel c _ => c

/-- `kind.as_str()`. -/
def kindStr : StepDef → String
  | leaf kind _ => kind.asStr
  | .repeat _ _ => "repeat"
  | malformedRepeat _ _ => "repeat"
  | parallel _ _ => "parallel"
  | malformedParallel _ _ => "parallel"

/-- A `repeat` or a `parallel` step. -/
def isContainer : StepDef → Bool
  | leaf _ _ => false
  | _ => true

/-- The parameters `run_step` substitutes variables in: a control step keeps its steps out
of it. -/
def substituted (step : StepDef) : Value :=
  match step with
  | leaf _ c => c.rawParams
  | _ =>
    match step.common.rawParams with
    | .object fields => .object (fields.filter fun f => f.1 ≠ "body" ∧ f.1 ≠ "branches")
    | v => v

end StepDef

/-! ## Assertions -/

/-- `AssertionResult`. -/
structure AssertionResult where
  name : String
  passed : Bool
  message : String
deriving Repr, DecidableEq

/-- `events.iter().any(|e| e["kind"] == kind)`. -/
def containsKind (events : List TraceEvent) (kind : String) : Bool :=
  events.any fun e => e.kind.asStr = kind

/-- `evaluate_assertions`. -/
def evaluateAssertions (assertions : Assertions) (events : List TraceEvent) :
    List AssertionResult :=
  let min := match assertions.minEvents with
    | none => []
    | some min =>
      let n := events.length
      [⟨s!"min_events >= {min}", min ≤ n, s!"got {n} events, required >= {min}"⟩]
  let required := (assertions.mustContainKind.getD []).map fun kind =>
    let found := containsKind events kind
    ⟨s!"must_contain_kind:{kind}", found,
      if found then s!"found event with kind \"{kind}\""
      else s!"no event with kind \"{kind}\" was found"⟩
  let forbidden := (assertions.mustNotContainKind.getD []).map fun kind =>
    let found := containsKind events kind
    ⟨s!"must_not_contain_kind:{kind}", !found,
      if found then s!"unexpected event with kind \"{kind}\" was found"
      else s!"no event with kind \"{kind}\" (correct)"⟩
  min ++ required ++ forbidden

/-! ## Errors -/

/-- The `anyhow::Error` of a step. -/
inductive RunError where
  /-- `StepAssertionFailure`. -/
  | assertionFailure
  /-- Any other error, outermost context first. -/
  | error (chain : List String)
deriving Repr, DecidableEq

/-- `to_string`. -/
def RunError.text : RunError → String
  | assertionFailure => "step assertion failure"
  | error chain => chain.headD ""

/-- The error of a fallible call, with a context around it. -/
def RunError.ofFault (context : List String) : Fault → RunError
  | .err chain => error (context ++ chain)
  | .panic reason => error (context ++ [reason])

/-! ## Requests -/

/-- A step on the way to an execution. -/
inductive Seg where
  /-- The scenario itself. -/
  | scenario
  /-- The background workers. -/
  | workers
  | step (idx : Nat)
  | iteration (i : Nat)
  | branch (bi : Nat)
deriving Repr, DecidableEq

/-- Which execution of which step, innermost first. -/
abbrev Path := List Seg

/-- An event in the buffer, and the execution that emitted it. -/
structure Emitted where
  path : Path
  event : TraceEvent
deriving Repr

/-- Which of the three times `run_step` drains the buffer. -/
inductive Drain where
  | opening
  | started
  /-- What the assertions of the step are evaluated on. -/
  | closing (step : StepDef)

/-- The kinds of events that the frame around the steps emits, and no step. -/
def isFrameKind : EventKind → Bool
  | .scenarioStarted => true
  | .scenarioCompleted => true
  | .networkDeclared => true
  | .peerStateInitialized => true
  | .stepStarted => true
  | .stepCompleted => true
  | .variableReferenced => true
  | .assertionPassed => true
  | .assertionFailed => true
  | .repeatIterationStarted => true
  | .repeatIterationCompleted => true
  | .parallelStarted => true
  | .parallelBranchStarted => true
  | .parallelBranchCompleted => true
  | .parallelBranchAborted => true
  | .parallelBranchFailed => true
  | .parallelCompleted => true
  | _ => false

/-- An event that a step or a background worker emits. -/
structure OwnEvent where
  event : TraceEvent
  own : isFrameKind event.kind = false

/-- What a step does next. -/
inductive Move where
  /-- `required`: the step ends if the trace cannot be written. -/
  | emit (event : OwnEvent) (required : Bool)
  | setVariable (name : String) (v : Value)

/-- What a step does, and how it ends. -/
structure Report where
  moves : List Move
  result : Except RunError Unit

/-- What a future asks for. -/
inductive Call where
  /-- `emit`: the event goes into the buffer and is written to the file. -/
  | emit (event : TraceEvent)
  /-- `drain_buffer`. -/
  | drain (which : Drain)
  /-- The snapshot of the variables, to substitute them in `params`. -/
  | snapshot (params : Value)
  | setVariable (name : String) (v : Value)
  | execute (kind : LeafKind) (rawParams : Value) (params : StepParams) (resolved : Value)
  /-- `completed_flag.store(true)`. -/
  | storeCompleted
  /-- `failed_flag.store(true)`. -/
  | storeFailed
  /-- `last_step_flag.store(si)`. -/
  | storeLastStep (si : Nat)
  /-- The loads of `completed`, `failed` and `last_step` of a branch. -/
  | load (bi : Nat)
  /-- The names of the connections that are still open. -/
  | openConnections
  /-- `started_at.elapsed()`. -/
  | elapsed

/-- The answer to a call. -/
abbrev Call.Answer : Call → Type
  | emit _ => Except RunError Unit
  | drain _ => List Emitted
  | snapshot _ => VarStore
  | setVariable _ _ => Unit
  | execute _ _ _ _ => Report
  | storeCompleted => Unit
  | storeFailed => Unit
  | storeLastStep _ => Unit
  | load _ => Bool × Bool × Nat
  | openConnections => List String
  | elapsed => UInt64

/-- A call, and the execution that makes it. -/
structure Request where
  path : Path
  call : Call

/-- The runner's futures. -/
abbrev runner : Interface where
  Request := Request
  Answer r := r.call.Answer
  Place := Path
  place := Request.path
  Error := RunError

/-- A future of the runner. -/
abbrev Run := Future runner

/-- What a run of the runner records. -/
abbrev Record := List (Label runner)

/-! ## Events -/

/-- An internal event, as every event of the frame is one. -/
def internal (kind : EventKind) (payload : List (String × Value)) : TraceEvent :=
  .new kind .internal (.object payload)

/-- `StepStarted`. -/
def stepStarted (idx : Nat) (kind : String) : TraceEvent :=
  internal .stepStarted [("index", .ofLen idx), ("kind", .string kind)]

/-- `StepCompleted`. -/
def stepCompleted (idx : Nat) (outcome : String) : TraceEvent :=
  internal .stepCompleted [("index", .ofLen idx), ("outcome", .string outcome)]

/-- `StepCompleted` of a step that failed. -/
def stepErred (idx : Nat) (e : RunError) : TraceEvent :=
  internal .stepCompleted
    [("error", .string e.text), ("index", .ofLen idx), ("outcome", .string "error")]

/-- `VariableReferenced`. -/
def variableReferenced (idx : Nat) (refExpr typeName : String) : TraceEvent :=
  internal .variableReferenced
    [("reference", .string refExpr), ("resolved_type", .string typeName),
      ("step_index", .ofLen idx)]

/-- `AssertionPassed` or `AssertionFailed`. -/
def assertionEvent (idx : Nat) (result : AssertionResult) : TraceEvent :=
  internal (if result.passed then .assertionPassed else .assertionFailed)
    [("assertion", .string result.name), ("message", .string result.message),
      ("step_index", .ofLen idx)]

/-- `RepeatIterationStarted`. -/
def iterationStarted (iteration total : Nat) : TraceEvent :=
  internal .repeatIterationStarted [("iteration", .ofLen iteration), ("total", .ofLen total)]

/-- `RepeatIterationCompleted`. -/
def iterationCompleted (iteration : Nat) : TraceEvent :=
  internal .repeatIterationCompleted [("iteration", .ofLen iteration), ("outcome", .string "ok")]

/-- `RepeatIterationCompleted` of an iteration that failed. -/
def iterationErred (iteration : Nat) (e : RunError) : TraceEvent :=
  internal .repeatIterationCompleted
    [("error", .string e.text), ("iteration", .ofLen iteration), ("outcome", .string "error")]

/-- `ParallelStarted`. -/
def parallelStarted (branchCount : Nat) : TraceEvent :=
  internal .parallelStarted [("branch_count", .ofLen branchCount)]

/-- `ParallelBranchStarted`. -/
def branchStarted (bi : Nat) : TraceEvent := internal .parallelBranchStarted [("branch", .ofLen bi)]

/-- `ParallelBranchCompleted`. -/
def branchCompleted (bi : Nat) : TraceEvent :=
  internal .parallelBranchCompleted [("branch", .ofLen bi)]

/-- `ParallelBranchFailed`. -/
def branchFailed (bi si : Nat) (e : RunError) : TraceEvent :=
  internal .parallelBranchFailed
    [("branch", .ofLen bi), ("error", .string e.text), ("step", .ofLen si)]

/-- `ParallelBranchAborted`. -/
def branchAborted (bi lastStep : Nat) : TraceEvent :=
  internal .parallelBranchAborted [("branch", .ofLen bi), ("last_step", .ofLen lastStep)]

/-- `ParallelCompleted`. -/
def parallelCompleted (result : Except RunError Unit) : TraceEvent :=
  internal .parallelCompleted
    [("outcome", .string (match result with | .ok _ => "ok" | .error _ => "error"))]

/-! ## `run_step` and `execute_step` -/

/-- Fails with an error. -/
def fail (e : RunError) : Run := .ret (.error e)

/-- `tracer.emit(..).await?`. -/
def emit (p : Path) (event : TraceEvent) (k : Run) : Run :=
  .ask ⟨p, .emit event⟩ fun
    | .ok () => k
    | .error e => fail e

/-- `let _ = tracer.emit(..).await`, for any number of events. -/
def emitIgnored (p : Path) : List TraceEvent → Run → Run
  | [], k => k
  | event :: rest, k => .ask ⟨p, .emit event⟩ fun _ => emitIgnored p rest k

/-- What a step does. -/
def play (p : Path) (result : Except RunError Unit) : List Move → Run
  | [] => .ret result
  | .emit event required :: rest =>
    .ask ⟨p, .emit event.event⟩ fun
      | .ok () => play p result rest
      | .error e => if required then fail e else play p result rest
  | .setVariable name v :: rest => .ask ⟨p, .setVariable name v⟩ fun _ => play p result rest

/-- The assertion results of a step. -/
def assertionResults (step : StepDef) (events : List Emitted) : List AssertionResult :=
  match step.common.expect with
  | none => []
  | some expect => evaluateAssertions expect (events.map Emitted.event)

/-- The end of `run_step`: the assertions, and `StepCompleted`. -/
def completeStep (p : Path) (idx : Nat) (step : StepDef) (result : Except RunError Unit) : Run :=
  .ask ⟨p, .drain (.closing step)⟩ fun events =>
    let results := assertionResults step events
    emitIgnored p (results.map (assertionEvent idx)) <|
      match result with
      | .ok () =>
        if results.all AssertionResult.passed then
          emit p (stepCompleted idx "ok") (.ret (.ok ()))
        else emit p (stepCompleted idx "assertion_failed") (fail .assertionFailure)
      | .error e => emitIgnored p [stepErred idx e] (fail e)

/-- `run_step` around `execute_step`. -/
def runStepWith (q : Path) (idx : Nat) (step : StepDef) (execute : Path → Value → Run) : Run :=
  let p := .step idx :: q
  .ask ⟨p, .drain .opening⟩ fun _ =>
    emit p (stepStarted idx step.kindStr) <|
      .ask ⟨p, .drain .started⟩ fun _ =>
        .ask ⟨p, .snapshot step.substituted⟩ fun vars =>
          match substituteInValue step.substituted vars with
          | .error f =>
            let kind := step.kindStr
            fail (.ofFault [s!"step[{idx}] ({kind}): variable substitution failed"] f)
          | .ok (resolved, refs) =>
            emitIgnored p (refs.map fun r => variableReferenced idx r.1 r.2) <|
              (execute p resolved).bind (completeStep p idx step)

/-- One iteration of a `repeat` step. -/
def iteration (p : Path) (i total : Nat) (body : Run) : Run :=
  emit p (iterationStarted i total) <|
    body.bind fun
      | .ok () => emit p (iterationCompleted i) (.ret (.ok ()))
      | .error e => emit p (iterationErred i e) (fail e)

/-- `branch_aborted` for the branches from `bi` on whose flags say nothing, `n` of them. -/
def emitAborted (p : Path) (k : Run) : Nat → Nat → Run
  | _, 0 => k
  | bi, n + 1 =>
    .ask ⟨p, .load bi⟩ fun (completed, failed, lastStep) =>
      if !completed && !failed then
        emitIgnored p [branchAborted bi lastStep] (emitAborted p k (bi + 1) n)
      else emitAborted p k (bi + 1) n

/-- What a `parallel` step does when its branches have come to an end. -/
def completeParallel (p : Path) (branchCount : Nat) (result : Except RunError Unit) : Run :=
  match result with
  | .ok () => emit p (parallelCompleted result) (.ret result)
  | .error _ => emitAborted p (emit p (parallelCompleted result) (.ret result)) 0 branchCount

/-- The error of parameters that do not parse. -/
def invalidParams (step : StepDef) : RunError :=
  let kind := step.kindStr
  .error [s!"step ({kind}): invalid params after substitution"]

/-- `times`. A value that is no number does not get past the parsing of the parameters, unless
it is `null`. -/
def times (resolved : Value) : Except RunError Nat :=
  match resolved.getField "times" with
  | none => .error (.error ["repeat step requires times"])
  | some v =>
    match v.asU64 with
    | none => .error (.error ["repeat times must be a non-negative integer, got null"])
    | some n => .ok n.toNat

mutual

/-- `execute_step`. -/
def executeStep (step : StepDef) (p : Path) (resolved : Value) : Run :=
  match StepParams.fromValue resolved with
  | none => fail (invalidParams step)
  | some params =>
    match step with
    | .leaf kind common =>
      .ask ⟨p, .execute kind common.rawParams params resolved⟩ fun report =>
        play p report.result report.moves
    | .repeat _ body =>
      match times resolved with
      | .error e => fail e
      | .ok n => .loop (fun i => iteration p i n (runBody body (.iteration i :: p) 0)) 0 n
    | .malformedRepeat _ error =>
      match times resolved with
      | .error e => fail e
      | .ok _ => fail (.error error)
    | .parallel _ branches =>
      emit p (parallelStarted branches.length) <|
        .join p (branchFutures branches p 0) (completeParallel p branches.length)
    | .malformedParallel _ error => fail (.error error)

/-- The steps of a `repeat` body, from `idx` on. -/
def runBody (body : List StepDef) (q : Path) (idx : Nat) : Run :=
  match body with
  | [] => .ret (.ok ())
  | step :: rest =>
    (runStepWith q idx step (executeStep step)).andThen (runBody rest q (idx + 1))

/-- The steps of a branch, from `si` on. -/
def runBranch (steps : List StepDef) (q : Path) (bi si : Nat) : Run :=
  match steps with
  | [] => .ask ⟨q, .storeCompleted⟩ fun _ => emit q (branchCompleted bi) (.ret (.ok ()))
  | step :: rest =>
    .ask ⟨q, .storeLastStep si⟩ fun _ =>
      (runStepWith q si step (executeStep step)).bind fun
        | .ok () => runBranch rest q bi (si + 1)
        | .error e =>
          .ask ⟨q, .storeFailed⟩ fun _ => emitIgnored q [branchFailed bi si e] (fail e)

/-- The branches from `bi` on. -/
def branchFutures (branches : List (List StepDef)) (p : Path) (bi : Nat) : List Run :=
  match branches with
  | [] => []
  | steps :: rest =>
    emit (.branch bi :: p) (branchStarted bi) (runBranch steps (.branch bi :: p) bi 0) ::
      branchFutures rest p (bi + 1)

end

/-- `run_step`. -/
def runStep (q : Path) (idx : Nat) (step : StepDef) : Run :=
  runStepWith q idx step (executeStep step)

end ConformanceHarness.Runner
